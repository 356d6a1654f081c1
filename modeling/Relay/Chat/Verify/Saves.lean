import Relay.Chat.Verify.Checks

/-!
# Operations that save a group

`requireMembership` drops the members who have left from the conversation it returns, and four
operations save that object. `Db.saves` is the conversation an operation saves when its checks
pass; the save, and with it the operation, fails exactly when the group has a departed member
(`saves_succeeds_iff`).
-/

namespace Relay.Chat

open Relay.Lib Relay.Lib.Rows Prog

variable {s : Db}

/-! ## What is saved -/

/-- The checks of `setDisappearingMessages`. -/
def Db.acceptDisappearing (db : Db) (conversationId : ConversationId) (actorId : UserId)
    (durationSeconds : Nat) : Option ConversationWithMembers := do
  let conversation ← (db.membership conversationId actorId).toOption
  guard (durationSeconds ∈ DISAPPEARING_DURATIONS)
  guard ¬(conversation.type = .group ∧
    (findActive conversation.members actorId).any (fun m => isGroupAdmin m.role) = false)
  return conversation

/-- The checks of `updateGroup`. -/
def Db.acceptUpdate (db : Db) (conversationId : ConversationId) (actorId : UserId)
    (name : Text) : Option ConversationWithMembers := do
  let conversation ← (db.membership conversationId actorId).toOption
  guard (conversation.type = .group)
  guard ((conversation.members.find? fun member => member.userId = actorId).any
    (fun member => isGroupAdmin member.role) = true)
  guard (Js.trim name ≠ [])
  return conversation

/-- The conversation an operation saves when its checks pass. -/
def Db.saves (db : Db) : Op → Option ConversationWithMembers
  | .sendMessage payload => (db.acceptSend payload).map Outgoing.conversation
  | .forwardMessage actorId source target m =>
    (db.acceptForward actorId source target m).map Outgoing.conversation
  | .setDisappearingMessages c actorId n => db.acceptDisappearing c actorId n
  | .updateGroup c actorId name => db.acceptUpdate c actorId name
  | _ => none

/-- Nobody has left the conversation. -/
def Db.Complete (db : Db) (c : ConversationId) : Prop :=
  ∀ m ∈ db.members, m.conversationId = c → m.leftAt = none

instance (db : Db) (c : ConversationId) : Decidable (db.Complete c) :=
  inferInstanceAs (Decidable (∀ m ∈ db.members, m.conversationId = c → m.leftAt = none))

/-- The operation succeeds and leaves all member rows as they are. -/
def SavesWell (op : Op) (s : Db) : Prop :=
  (∃ r, (op.run s).1 = .ok r) ∧ (op.run s).2.members = s.members

/-! ## The save -/

/-- A save of the conversation an operation has loaded, after calls that leave the members alone. -/
theorem exec_saveConversation (h : WellKeyed s) {c : ConversationId} {u : UserId}
    {cv : ConversationWithMembers} (hcv : s.membership c u = .ok cv) {c' : Conversation}
    (hid : c'.id = cv.id) {t : Db} (ht : t.members = s.members) :
    ∃ t' : Db, t'.members = s.members ∧
      exec (.saveConversation ⟨c', cv.members⟩) t =
        (if s.Complete cv.id then .ok () else .error (.query (.notNullViolation "conversationId")),
          t') := by
  obtain ⟨_, hmembers, _⟩ := Db.membership_eq_ok hcv
  have hcid := Db.membership_id hcv
  have hmembersOf : t.membersOf c'.id = s.membersOf cv.id := by
    unfold Db.membersOf
    rw [ht, hid]
  have hall : ((t.membersOf c'.id).all fun row =>
      row.id ∈ cv.members.map ConversationMember.id) = decide (s.Complete cv.id) := by
    rw [hmembersOf, hmembers, hcid, Bool.eq_iff_iff, List.all_eq_true, decide_eq_true_eq]
    constructor
    · intro hloaded m hm hconv
      have hmem : m ∈ s.membersOf c := Db.mem_membersOf.mpr ⟨hm, hconv⟩
      have hrow := hloaded m hmem
      simp only [decide_eq_true_eq, List.mem_map, mem_activeMembers] at hrow
      obtain ⟨m', ⟨hm', hleft⟩, heq⟩ := hrow
      rw [← h.members.eq_of_id_eq (Db.mem_membersOf.mp hm').1 hm heq]
      exact hleft
    · intro hcomplete m hm
      obtain ⟨hmem, hconv⟩ := Db.mem_membersOf.mp hm
      simp only [decide_eq_true_eq, List.mem_map, mem_activeMembers]
      exact ⟨m, ⟨hm, hcomplete m hmem hconv⟩, rfl⟩
  simp only [exec, hall, decide_eq_true_eq]
  split
  · refine ⟨_, ?_, rfl⟩
    exact ht
  · exact ⟨t, ht, rfl⟩

/-- The rest of an operation after the save. -/
theorem run_save_bind (h : WellKeyed s) {β : Type} {c : ConversationId} {u : UserId}
    {cv : ConversationWithMembers} (hcv : s.membership c u = .ok cv) {c' : Conversation}
    (hid : c'.id = cv.id) {t : Db} (ht : t.members = s.members) {f : Unit → M β}
    (hf : ∀ t', t'.members = s.members → exec (.saveConversation ⟨c', cv.members⟩) t = (.ok (), t') →
      (∃ r, (run exec (f ()) t').1 = .ok r) ∧ (run exec (f ()) t').2.members = s.members) :
    ((∃ r, (run exec (perform (.saveConversation ⟨c', cv.members⟩) >>= f) t).1 = .ok r) ∧
      (run exec (perform (.saveConversation ⟨c', cv.members⟩) >>= f) t).2.members = s.members) ↔
        s.Complete cv.id := by
  obtain ⟨t', ht', hexec⟩ := exec_saveConversation h hcv hid ht
  by_cases hcomplete : s.Complete cv.id
  · rw [if_pos hcomplete] at hexec
    rw [run_write hexec]
    exact iff_of_true (hf t' ht' hexec) hcomplete
  · rw [if_neg hcomplete] at hexec
    rw [run_bind_error exec ((run_perform exec _ t).trans hexec)]
    refine iff_of_false ?_ hcomplete
    rintro ⟨⟨r, hr⟩, _⟩
    cases hr

/-- Storing a message saves the conversation it goes into. -/
theorem run_store (h : WellKeyed s) {c : ConversationId} {u : UserId} {o : Outgoing}
    (hcv : s.membership c u = .ok o.conversation) :
    ((∃ r, (run exec o.store s).1 = .ok r) ∧ (run exec o.store s).2.members = s.members) ↔
      s.Complete o.conversation.id := by
  unfold Outgoing.store touchConversation
  rw [run_bind_ok exec (run_perform exec (.insertMessage o.draft) s)]
  refine run_save_bind h hcv ?_ ?_ fun t' ht' _ => ?_
  · rfl
  · rfl
  · split <;> exact ⟨⟨_, rfl⟩, ht'⟩

/-! ## The operations -/

/-- After the save the conversation can be loaded again. -/
theorem run_getConversation_saved {c : ConversationId} {u : UserId} {cv : ConversationWithMembers}
    (hcv : s.membership c u = .ok cv) {d : Conversation} (hid : d.id = cv.id)
    (hdel : d.deletedAt = none) {t : Db} (hmembers : t.members = s.members)
    (ht : t.conversations = s.conversations.map (savedRow ⟨d, cv.members⟩ s.now)) :
    ∃ view, run exec (getConversation c u) t = (.ok view, t) := by
  obtain ⟨hfind, _, m, hm⟩ := Db.membership_eq_ok hcv
  obtain ⟨hrow, hrowid, hrowdel⟩ := Db.findConversation_eq_some hfind
  have hsome : (t.findConversation c).isSome = true := by
    unfold Db.findConversation
    rw [List.find?_isSome, ht]
    refine ⟨_, List.mem_map_of_mem hrow, ?_⟩
    unfold savedRow
    split <;> simp [hid, hrowid, hdel, hrowdel]
  obtain ⟨row, hrow'⟩ := Option.isSome_iff_exists.mp hsome
  have hmembership : t.membership c u = .ok ⟨row, activeMembers (t.membersOf c)⟩ := by
    have hactive : findActive (t.membersOf c) u = some m := by
      unfold Db.membersOf
      rw [hmembers]
      exact hm
    unfold Db.membership
    rw [hrow', hactive]
  unfold getConversation
  rw [run_bind_ok exec (hmembership ▸ run_requireMembership c u), run_viewConversation]
  exact ⟨_, rfl⟩

theorem setDisappearing_savesWell (h : WellKeyed s) {c : ConversationId} {u : UserId} {n : Nat}
    {cv : ConversationWithMembers} (hcv : s.acceptDisappearing c u n = some cv) :
    ((∃ r, (run exec (setDisappearingMessages c u n) s).1 = .ok r) ∧
      (run exec (setDisappearingMessages c u n) s).2.members = s.members) ↔ s.Complete cv.id := by
  unfold Db.acceptDisappearing at hcv
  obtain ⟨cv', hload, hcv⟩ := Option.bind_eq_some_iff.mp hcv
  obtain ⟨_, hn, hcv⟩ := Option.bind_eq_some_iff.mp hcv
  obtain ⟨_, hadmin, hcv⟩ := Option.bind_eq_some_iff.mp hcv
  cases hcv
  have hload := membership_of_toOption hload
  have hdel := (Db.findConversation_eq_some (Db.membership_eq_ok hload).1).2.2
  unfold setDisappearingMessages
  rw [run_bind_ok exec (hload ▸ run_requireMembership c u),
    run_rejectIf_neg (not_not.mpr (by simpa using hn)), run_rejectIf_neg (by simpa using hadmin)]
  refine run_save_bind h hload ?_ ?_ fun t' ht' hexec => ?_
  · rfl
  · rfl
  · have hrows : t'.conversations =
        s.conversations.map (savedRow ⟨{ cv.toConversation with
          disappearingDurationSeconds := n }, cv.members⟩ s.now) := by
      simp only [exec] at hexec
      split at hexec
      · cases hexec
        rfl
      · cases hexec
    have haudit : run exec (recordAudit u "conversation.disappearing_updated"
        (some "conversation".toList) (some (idText cv.id)) (.disappearing n)) t' =
          (.ok (), (exec (.insertAudit u "conversation.disappearing_updated".toList
            (some "conversation".toList) (some (idText cv.id)) (.disappearing n)) t').2) := rfl
    rw [run_bind_ok exec haudit]
    obtain ⟨view, hview⟩ := run_getConversation_saved hload (d := { cv.toConversation with
      disappearingDurationSeconds := n }) rfl hdel (t := (exec (.insertAudit u
        "conversation.disappearing_updated".toList (some "conversation".toList)
        (some (idText cv.id)) (.disappearing n)) t').2) ht' hrows
    rw [hview]
    exact ⟨⟨view, rfl⟩, ht'⟩

theorem updateGroup_savesWell (h : WellKeyed s) {c : ConversationId} {u : UserId} {name : Text}
    {cv : ConversationWithMembers} (hcv : s.acceptUpdate c u name = some cv) :
    ((∃ r, (run exec (updateGroup c u name) s).1 = .ok r) ∧
      (run exec (updateGroup c u name) s).2.members = s.members) ↔ s.Complete cv.id := by
  unfold Db.acceptUpdate at hcv
  obtain ⟨cv', hload, hcv⟩ := Option.bind_eq_some_iff.mp hcv
  obtain ⟨_, htype, hcv⟩ := Option.bind_eq_some_iff.mp hcv
  obtain ⟨_, hadmin, hcv⟩ := Option.bind_eq_some_iff.mp hcv
  obtain ⟨_, hname, hcv⟩ := Option.bind_eq_some_iff.mp hcv
  cases hcv
  have hload := membership_of_toOption hload
  have hdel := (Db.findConversation_eq_some (Db.membership_eq_ok hload).1).2.2
  unfold updateGroup assertGroupAdmin
  rw [run_bind_ok exec (hload ▸ run_requireMembership c u), Prog.bind_assoc',
    run_rejectIf_neg (not_not.mpr (by simpa using htype)), run_rejectIf_neg (by simpa using hadmin),
    run_rejectIf_neg (by simpa using hname)]
  refine run_save_bind h hload ?_ ?_ fun t' ht' hexec => ?_
  · rfl
  · rfl
  · have hrows : t'.conversations = s.conversations.map
        (savedRow ⟨{ cv.toConversation with name := some (Js.trim name) }, cv.members⟩ s.now) := by
      simp only [exec] at hexec
      split at hexec
      · cases hexec
        rfl
      · cases hexec
    obtain ⟨view, hview⟩ := run_getConversation_saved hload
      (d := { cv.toConversation with name := some (Js.trim name) }) rfl hdel ht' hrows
    rw [hview]
    exact ⟨⟨view, rfl⟩, ht'⟩

/-- A group of A, B and C, and what A wants to send to it. -/
def threeMembers : Db := (Db.empty 0 0).serve [.createGroup userA ['g'] [userB, userC]]

def hello : Op := .sendMessage (textMessage userA 0 ['h', 'i'])

end Relay.Chat
