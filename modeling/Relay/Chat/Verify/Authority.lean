import Relay.Chat.Verify.Licences
import Relay.Chat.Verify.Reactions

/-!
# Nobody acts for another

What the requests of some users cannot change, over a whole run. A `Selection` picks rows of each table
and says what is shown of them; a call spares it when it writes none of the rows picked, or none of what
is shown (`Selection.Kept.exec`). Two selections follow from the licence of a request: a conversation none
of the actors is in stays exactly as it is (`outsiders_change_nothing`), and what a user has sent, marked
or scheduled stays when only others make requests (`nobody_speaks_for`). In a group that none of the
actors may manage, nobody joins, is removed or takes another role (`group_stays`).
-/

namespace Relay.Chat

open Relay.Lib Relay.Lib.Rows Prog

variable {s t : Db} {u v : UserId}

/-! ## Selected rows -/

/-- Rows of each table, and what is shown of the members and the messages among them. -/
structure Selection where
  conversation : Conversation → Bool := fun _ => false
  member : ConversationMember → Bool := fun _ => false
  message : Message → Bool := fun _ => false
  hide : MessageHide → Bool := fun _ => false
  reaction : MessageReaction → Bool := fun _ => false
  scheduled : ScheduledMessage → Bool := fun _ => false
  block : UserBlock → Bool := fun _ => false
  audit : AuditEvent → Bool := fun _ => false
  showMember : ConversationMember → ConversationMember := id
  showMessage : Message → Message := id

/-- What is shown of a row shows its id. -/
structure Selection.ShowsIds (w : Selection) : Prop where
  member : ∀ m, (w.showMember m).id = m.id
  message : ∀ m, (w.showMessage m).id = m.id

/-- The rows selected in `t` look as they do in `s`. -/
structure Selection.Kept (w : Selection) (s t : Db) : Prop where
  conversations : shown w.conversation id t.conversations = shown w.conversation id s.conversations
  members : shown w.member w.showMember t.members = shown w.member w.showMember s.members
  messages : shown w.message w.showMessage t.messages = shown w.message w.showMessage s.messages
  hides : shown w.hide id t.messageHides = shown w.hide id s.messageHides
  reactions : shown w.reaction id t.messageReactions = shown w.reaction id s.messageReactions
  scheduled : shown w.scheduled id t.scheduledMessages = shown w.scheduled id s.scheduledMessages
  blocks : shown w.block id t.userBlocks = shown w.block id s.userBlocks
  audits : shown w.audit id t.auditEvents = shown w.audit id s.auditEvents

theorem Selection.Kept.refl (w : Selection) (s : Db) : w.Kept s s := ⟨rfl, rfl, rfl, rfl, rfl, rfl, rfl, rfl⟩

/-- A new version of a row of `s` that looks the same. -/
def Selection.SparesMember (w : Selection) (s : Db) (m : ConversationMember) : Prop :=
  ∃ old ∈ s.members, m.id = old.id ∧ w.member m = w.member old ∧
    (w.member old = true → w.showMember m = w.showMember old)

/-- The call writes no row of the selection, or nothing of what is shown of it. -/
def Selection.Spares (w : Selection) (s : Db) : Call → Prop
  | .createPrivateTx _ _ _ | .createGroupTx _ _ _ =>
    (∀ row, s.nextId ≤ row.id → w.conversation row = false) ∧
      ∀ m, s.nextId ≤ m.conversationId → s.nextId ≤ m.id → w.member m = false
  | .saveConversation cv => ∀ row, row.id = cv.id → w.conversation row = false
  | .softDeleteConversation c => ∀ row, row.id = c → w.conversation row = false
  | .saveMember m => w.SparesMember s m
  | .saveMembers ms => ∀ m ∈ ms, w.SparesMember s m
  | .insertMember c _ _ => ∀ m, m.conversationId = c → s.nextId ≤ m.id → w.member m = false
  | .insertMessage d => ∀ m, m.conversationId = d.conversationId → m.senderId = d.senderId.canon →
      w.message m = false
  | .saveMessage m => ∃ old ∈ s.messages, m.id = old.id ∧ w.message m = w.message old ∧
      (w.message old = true → w.showMessage m = w.showMessage old)
  | .insertHide m v => ∀ h, h.messageId = m → h.userId = v.canon → w.hide h = false
  | .insertReaction m v _ => ∀ r, r.messageId = m → r.userId = v.canon → w.reaction r = false
  | .removeReaction r => r ∈ s.messageReactions ∧ w.reaction r = false
  | .insertScheduled d => ∀ row, row.conversationId = d.conversationId →
      row.senderId = d.senderId.canon → w.scheduled row = false
  | .saveScheduled row => ∃ old ∈ s.scheduledMessages, row.id = old.id ∧
      w.scheduled old = false ∧ ∀ at', w.scheduled { row with updatedAt := at' } = false
  | .claimScheduled _ => False
  | .insertBlock a _ | .deleteBlock a _ => ∀ b, b.blockerId = a.canon → w.block b = false
  | .insertAudit a _ _ _ _ => ∀ e, e.actorId = a.canon → w.audit e = false
  | _ => True

/-- The ids of the tables of `s` are different. -/
structure Unmixed (s : Db) : Prop where
  keyed : WellKeyed s
  reactions : Keyed MessageReaction.id s.messageReactions s.nextId

theorem Reachable.unmixed (hs : Reachable s) : Unmixed s := ⟨hs.inv.keyed, hs.reactionsKeyed⟩

theorem Unmixed.exec (h : Unmixed s) (c : Call) : Unmixed (exec c s).2 :=
  ⟨h.keyed.exec c, keyed_reactions_exec c h.reactions⟩

section Exec

variable {w : Selection}

/-- Conversations and their members are added with ids of their own. -/
theorem Selection.Kept.create (hkept : w.Kept s t) (hle : s.nextId ≤ t.nextId)
    (hconversation : ∀ row, s.nextId ≤ row.id → w.conversation row = false)
    (hmember : ∀ m : ConversationMember, s.nextId ≤ m.conversationId → s.nextId ≤ m.id → w.member m = false)
    {type : ConversationType} {name key : Option Text} {a : UserId}
    {us : List (UserId × ConversationMemberRole)} {t' : Db}
    (ht' : (t.insertConversation type name a key).insertMembers t.nextId us = some t') : w.Kept s t' := by
  obtain ⟨rows, rfl, hrows, hids⟩ := Db.insertMembers_eq_some ht'
  refine { hkept with conversations := ?_, members := ?_ }
  · refine (shown_append fun row hrow => ?_).trans hkept.conversations
    obtain rfl := List.mem_singleton.mp hrow
    exact hconversation _ hle
  · refine (shown_append fun m hm => ?_).trans hkept.members
    have hrow : (m.conversationId, m.userId, m.leftAt) ∈ us.map fun u => (t.nextId, u.1.canon, none) :=
      hrows ▸ List.mem_map_of_mem hm
    obtain ⟨_, _, heq⟩ := List.mem_map.mp hrow
    have hid : m.id ∈ List.range' (t.nextId + 1) rows.length := hids ▸ List.mem_map_of_mem hm
    rw [List.mem_range'_1] at hid
    have hconv : t.nextId = m.conversationId := congrArg Prod.fst heq
    exact hmember m (by omega) (by omega)

variable (hw : w.ShowsIds) (hs : Unmixed s)
include hw hs

theorem Selection.Kept.saveMember (hkept : w.Kept s t) (ht : WellKeyed t) {m : ConversationMember}
    (hm : w.SparesMember s m) {t' : Db} (ht' : t.saveMember m = some t') : w.Kept s t' := by
  obtain ⟨old, hold, hid, hp, hf⟩ := hm
  rw [Db.saveMember_eq_some ht']
  refine { hkept with members := ?_ }
  exact shown_replaceRow hw.member hs.keyed.members.nodup ht.members.nodup hkept.members hold hid hp hf

theorem Selection.Kept.saveMembers (hkept : w.Kept s t) (ht : WellKeyed t) {ms : List ConversationMember}
    (hms : ∀ m ∈ ms, w.SparesMember s m) {t' : Db} (ht' : t.saveMembers ms = some t') : w.Kept s t' := by
  induction ms generalizing t with
  | nil =>
    cases ht'
    exact hkept
  | cons m ms ih =>
    simp only [Db.saveMembers] at ht'
    split at ht'
    · cases ht'
    · next t'' hfirst =>
      have hkeyed : WellKeyed t'' := by
        rw [Db.saveMember_eq_some hfirst]
        exact { ht with members := ht.members.replaceRow }
      exact ih (hkept.saveMember hw hs ht (hms m List.mem_cons_self) hfirst) hkeyed
        (fun m' hm' => hms m' (List.mem_cons_of_mem m hm')) ht'

/-- A call that spares the selection keeps it. -/
theorem Selection.Kept.exec (hkept : w.Kept s t) (ht : Unmixed t) (hle : s.nextId ≤ t.nextId) {c : Call}
    (hc : w.Spares s c) : w.Kept s (exec c t).2 := by
  cases c with
  | createPrivateTx a b key =>
    exact after_createPrivateTx hkept fun _ ht' => hkept.create hle hc.1 hc.2 ht'
  | createGroupTx a ids name => exact after_createGroupTx hkept fun _ ht' => hkept.create hle hc.1 hc.2 ht'
  | saveConversation cv =>
    simp only [Chat.exec]
    split
    · refine { hkept with conversations := (shown_map fun row _ => ?_).trans hkept.conversations }
      split
      · next hid => exact .inr ⟨hc row hid.1, hc _ rfl⟩
      · exact .inl rfl
    · exact hkept
  | softDeleteConversation c =>
    refine { hkept with conversations := (shown_map fun row _ => ?_).trans hkept.conversations }
    split
    · next hid => exact .inr ⟨hc row hid, hc _ hid⟩
    · exact .inl rfl
  | saveMember m => exact after_saveMember hkept fun _ ht' => hkept.saveMember hw hs ht.keyed hc ht'
  | saveMembers ms => exact after_saveMembers hkept fun _ ht' => hkept.saveMembers hw hs ht.keyed hc ht'
  | insertMember c v role =>
    refine after_insertMember hkept fun t' ht' => ?_
    rw [Db.insertMember_eq_some ht']
    refine { hkept with members := (shown_append fun m hm => ?_).trans hkept.members }
    obtain rfl := List.mem_singleton.mp hm
    exact hc _ rfl hle
  | insertMessage d =>
    refine { hkept with messages := (shown_append fun m hm => ?_).trans hkept.messages }
    obtain rfl := List.mem_singleton.mp hm
    exact hc _ rfl rfl
  | saveMessage m =>
    obtain ⟨old, hold, hid, hp, hf⟩ := hc
    exact { hkept with
      messages := shown_replaceRow hw.message hs.keyed.messages.nodup ht.keyed.messages.nodup hkept.messages
        hold hid hp hf }
  | insertHide m v =>
    simp only [Chat.exec]
    split
    · exact hkept
    · refine { hkept with hides := (shown_append fun h hh => ?_).trans hkept.hides }
      obtain rfl := List.mem_singleton.mp hh
      exact hc _ rfl rfl
  | insertReaction m v emoji =>
    simp only [Chat.exec]
    split
    · exact hkept
    · refine { hkept with reactions := (shown_append fun r hr => ?_).trans hkept.reactions }
      obtain rfl := List.mem_singleton.mp hr
      exact hc _ rfl rfl
  | removeReaction r =>
    refine { hkept with reactions := (shown_filter fun row hrow hp => ?_).trans hkept.reactions }
    -- a selected row is a row of `s`, and there only `r` has the id of `r`
    obtain ⟨row', hrow', _, rfl⟩ := mem_shown.mp (hkept.reactions ▸ mem_shown.mpr ⟨row, hrow, hp, rfl⟩)
    refine decide_eq_true fun hid => ?_
    rw [show row' = r from hs.reactions.eq_of_id_eq hrow' hc.1 hid] at hp
    exact Bool.false_ne_true (hc.2.symm.trans hp)
  | insertScheduled d =>
    refine { hkept with scheduled := (shown_append fun row hrow => ?_).trans hkept.scheduled }
    obtain rfl := List.mem_singleton.mp hrow
    exact hc _ rfl rfl
  | saveScheduled row =>
    obtain ⟨old, hold, hid, hp, hrow⟩ := hc
    have hshows : ∀ row : ScheduledMessage, ScheduledMessage.id (id row) = ScheduledMessage.id row := fun _ => rfl
    refine { hkept with
      scheduled := shown_replaceRow hshows hs.keyed.scheduled.nodup ht.keyed.scheduled.nodup hkept.scheduled hold
        hid ((hrow _).trans hp.symm) fun h => ?_ }
    exact absurd (hp.symm.trans h) Bool.false_ne_true
  | claimScheduled n => exact hc.elim
  | insertBlock a b =>
    simp only [Chat.exec]
    split
    · exact hkept
    · refine { hkept with blocks := (shown_append fun row hrow => ?_).trans hkept.blocks }
      obtain rfl := List.mem_singleton.mp hrow
      exact hc _ rfl
  | deleteBlock a b =>
    refine { hkept with blocks := (shown_filter fun row _ hp => ?_).trans hkept.blocks }
    refine decide_eq_true fun hrow => ?_
    exact Bool.false_ne_true ((hc row hrow.1).symm.trans hp)
  | insertAudit a action type id info =>
    refine { hkept with audits := (shown_append fun e he => ?_).trans hkept.audits }
    obtain rfl := List.mem_singleton.mp he
    exact hc _ rfl
  | saveWorkspace settings => exact { hkept with }
  | _ => exact hkept

end Exec

/-- A request whose licence spares the selection keeps it. -/
theorem Selection.Kept.run {w : Selection} (hw : w.ShowsIds) (hs : Reachable s) {op : Op}
    (hu : op.actor = some u) (hspares : ∀ c, Licensed s u c → w.Spares s c) : w.Kept s (op.run s).2 := by
  let I (t : Db) : Prop := w.Kept s t ∧ Unmixed t ∧ s.nextId ≤ t.nextId
  have hstep : ∀ (t : Db) (c : Call), Licensed s u c → I t → I (Chat.exec c t).2 := fun t c hc ⟨hkept, ht, hle⟩ =>
    ⟨hkept.exec hw hs.unmixed ht hle (hspares c hc), ht.exec c, Nat.le_trans hle (nextId_le_exec c t)⟩
  exact ((op.acts hu s).preserves hstep ⟨.refl w s, hs.unmixed, Nat.le_refl _⟩).1

theorem Selection.Kept.trans {w : Selection} {r : Db} (h : w.Kept r s) (h' : w.Kept s t) : w.Kept r t :=
  ⟨h'.conversations.trans h.conversations, h'.members.trans h.members, h'.messages.trans h.messages,
    h'.hides.trans h.hides, h'.reactions.trans h.reactions, h'.scheduled.trans h.scheduled,
    h'.blocks.trans h.blocks, h'.audits.trans h.audits⟩

/-- A request gives no id back. -/
theorem Db.nextId_le_run (s : Db) (op : Op) : s.nextId ≤ (op.run s).2.nextId :=
  (calls_true op.program s).preserves (I := fun t => s.nextId ≤ t.nextId)
    (fun t k _ h => Nat.le_trans h (nextId_le_exec k t)) (Nat.le_refl _)

/-- What each request of a run keeps, the run keeps. -/
theorem Selection.Kept.serve {w : Selection} (hs : Reachable s) {P : Op → Prop}
    (hstep : ∀ t, Reachable t → s.nextId ≤ t.nextId → w.Kept s t → ∀ op, P op → w.Kept t (op.run t).2)
    (ops : List Op) (hops : ∀ op ∈ ops, P op) : w.Kept s (s.serve ops) := by
  have hrun : ∀ (ops : List Op) (t : Db), Reachable t → s.nextId ≤ t.nextId → w.Kept s t →
      (∀ op ∈ ops, P op) → w.Kept s (t.serve ops) := by
    intro ops
    induction ops with
    | nil => exact fun t _ _ hkept _ => hkept
    | cons op ops ih =>
      intro t ht hle hkept hops
      exact ih _ (ht.run op) (Nat.le_trans hle (t.nextId_le_run op))
        (hkept.trans (hstep t ht hle hkept op (hops op List.mem_cons_self)))
        fun op' hop' => hops op' (List.mem_cons_of_mem op hop')
  exact hrun ops s hs (Nat.le_refl _) (.refl _ _) hops

/-! ## Conversations of others -/

/-- The ids of the messages of a conversation. -/
def Db.messageIds (db : Db) (c : ConversationId) : List MessageId :=
  (db.messages.filter fun m => m.conversationId = c).map Message.id

/-- All rows of a conversation. -/
def Db.inConversation (db : Db) (c : ConversationId) : Selection where
  conversation row := row.id = c
  member m := m.conversationId = c
  message m := m.conversationId = c
  hide h := h.messageId ∈ db.messageIds c
  reaction r := r.messageId ∈ db.messageIds c
  scheduled row := row.conversationId = c

theorem showsIds_inConversation (c : ConversationId) : (s.inConversation c).ShowsIds := ⟨fun _ => rfl, fun _ => rfl⟩

/-- A message of another conversation is not one of this conversation. -/
theorem notMem_messageIds (hs : WellKeyed s) {c : ConversationId} {x : Message} (hx : x ∈ s.messages)
    (hne : x.conversationId ≠ c) : x.id ∉ s.messageIds c := by
  intro hmem
  obtain ⟨y, hy, hid⟩ := List.mem_map.mp hmem
  obtain ⟨hy, hconv⟩ := List.mem_filter.mp hy
  rw [hs.messages.eq_of_id_eq hy hx hid] at hconv
  exact hne (of_decide_eq_true hconv)

/-- A request of a user who is not in the conversation writes none of its rows. -/
theorem Licensed.spares_conversation (hs : Unmixed s) {c : ConversationId} (hc : c < s.nextId)
    (hout : ¬ s.Sits c u) {k : Call} (hk : Licensed s u k) : (s.inConversation c).Spares s k := by
  have hother : ∀ {c'}, s.Sits c' u → c' ≠ c := fun h heq => hout (heq ▸ h)
  have hmember : ∀ m, s.Reseats u m → (s.inConversation c).SparesMember s m := by
    rintro m ⟨old, hold, horigin, hsits, _⟩
    have hconv : m.conversationId = old.conversationId := congrArg (·.conversationId) horigin.symm
    have hout : (s.inConversation c).member old = false := decide_eq_false (hother hsits)
    refine ⟨old, hold, congrArg (·.id) horigin.symm, ?_, fun h => absurd (hout.symm.trans h) Bool.false_ne_true⟩
    exact congrArg (fun n => decide (n = c)) hconv
  have hmessage : ∀ {m m'}, (∃ x, s.Reads u x ∧ x.id = m) → m' = m → decide (m' ∈ s.messageIds c) = false := by
    rintro m _ ⟨x, ⟨hx, hsits⟩, rfl⟩ rfl
    exact decide_eq_false (notMem_messageIds hs.keyed hx (hother hsits))
  cases k with
  | createPrivateTx a b key | createGroupTx a ids name =>
    have hnew : ∀ n, s.nextId ≤ n → decide (n = c) = false := fun n hn =>
      decide_eq_false (Nat.ne_of_gt (Nat.lt_of_lt_of_le hc hn))
    exact ⟨fun row hrow => hnew _ hrow, fun m hm _ => hnew _ hm⟩
  | saveConversation cv => exact fun row hrow => decide_eq_false (hrow ▸ hother hk.1)
  | softDeleteConversation c' => exact fun row hrow => decide_eq_false (hrow ▸ hother hk.1)
  | saveMember m => exact hmember m hk
  | saveMembers ms => exact fun m hm => hmember m (hk m hm)
  | insertMember c' v role => exact fun m hm _ => decide_eq_false (hm ▸ hother hk.1)
  | insertMessage d => exact fun m hm _ => decide_eq_false (hm ▸ hother hk.1)
  | saveMessage m =>
    obtain ⟨x, ⟨hx, hsits⟩, horigin, _⟩ := hk
    have hout : (s.inConversation c).message x = false := decide_eq_false (hother hsits)
    refine ⟨x, hx, Message.id_of_origin horigin, ?_, fun h => absurd (hout.symm.trans h) Bool.false_ne_true⟩
    exact congrArg (fun n => decide (n = c)) (Message.conversationId_of_origin horigin)
  | insertHide m v => exact fun h hh _ => hmessage hk.2 hh
  | insertReaction m v emoji => exact fun r hr _ => hmessage hk.2 hr
  | removeReaction r => exact ⟨hk.1, hmessage hk.2.2 rfl⟩
  | insertScheduled d => exact fun row hrow _ => decide_eq_false (hrow ▸ hother hk.1)
  | saveScheduled row =>
    obtain ⟨old, hold, _, hsits, hid, hconv, _⟩ := hk
    exact ⟨old, hold, hid, decide_eq_false (hother hsits), fun _ => decide_eq_false (hconv ▸ hother hsits)⟩
  | claimScheduled n => exact hk.elim
  | insertBlock a b | deleteBlock a b | insertAudit => exact fun _ _ => rfl
  | _ => trivial

section Conversation

variable {c : ConversationId}

theorem Selection.Kept.messageIds (h : (s.inConversation c).Kept s t) : t.messageIds c = s.messageIds c := by
  have hmessages := congrArg (List.map Message.id) h.messages
  simpa [shown, Db.messageIds, Db.inConversation] using hmessages

theorem Selection.Kept.inConversation (h : (s.inConversation c).Kept s t) :
    t.inConversation c = s.inConversation c := by
  unfold Db.inConversation
  rw [h.messageIds]

/-- Who is in a conversation is seen from its rows. -/
theorem Selection.Kept.sits (h : (s.inConversation c).Kept s t) (hsits : t.Sits c u) : s.Sits c u := by
  obtain ⟨hrow, m, hm, hconv, huser, hleft⟩ := hsits
  refine ⟨?_, ?_⟩
  · obtain ⟨row, hrow⟩ := Option.isSome_iff_exists.mp hrow
    obtain ⟨hmem, hid, hdel⟩ := Db.findConversation_eq_some hrow
    obtain ⟨_, hmem', _, rfl⟩ := mem_shown.mp (h.conversations ▸ mem_shown.mpr ⟨row, hmem, decide_eq_true hid, rfl⟩)
    unfold Db.findConversation
    rw [List.find?_isSome]
    exact ⟨_, hmem', decide_eq_true ⟨hid, hdel⟩⟩
  · obtain ⟨_, hmem', _, rfl⟩ := mem_shown.mp (h.members ▸ mem_shown.mpr ⟨m, hm, decide_eq_true hconv, rfl⟩)
    exact ⟨_, hmem', hconv, huser, hleft⟩

/-- A conversation stays as it is, row by row, in every run of requests of users who are not in it; and so
none of them gets into it. -/
theorem outsiders_change_nothing (hs : Reachable s) (hc : ∃ row ∈ s.conversations, row.id = c) (ops : List Op)
    (hops : ∀ op ∈ ops, ∃ u, op.actor = some u ∧ ¬ s.Sits c u) :
    (s.inConversation c).Kept s (s.serve ops) := by
  obtain ⟨row, hrow, rfl⟩ := hc
  have hlt : row.id < s.nextId := hs.inv.keyed.conversations.lt row hrow
  refine .serve hs (fun t ht hle hkept op ⟨u, hu, hout⟩ => ?_) ops hops
  have hstep : (t.inConversation row.id).Kept t (op.run t).2 :=
    .run (showsIds_inConversation _) ht hu fun k hk =>
      hk.spares_conversation ht.unmixed (Nat.lt_of_lt_of_le hlt hle) fun hsits => hout (hkept.sits hsits)
  rwa [hkept.inConversation] at hstep

end Conversation

/-- The chat of two users, a third one who tries to write there and then starts a chat with one of them. -/
theorem outsiders_change_nothing_third :
    let chat := (Db.empty 0 0).serve [.createPrivate userA userB]
    let ops : List Op := [.sendMessage (textMessage userC 0 ['h', 'i']), .createPrivate userC userA]
    (chat.inConversation 0).Kept chat (chat.serve ops) := by
  refine outsiders_change_nothing (.serve (reachable_empty 0 0) _) (by decide) _ fun op hop => ?_
  have hout : ¬ ((Db.empty 0 0).serve [.createPrivate userA userB]).Sits 0 userC := by
    unfold Db.Sits
    decide
  rcases List.mem_pair.mp hop with rfl | rfl
  · exact ⟨userC, rfl, hout⟩
  · exact ⟨userC, rfl, hout⟩

/-! ## What a user says and marks -/

/-- The row without what the managers of a group decide. -/
def ConversationMember.marks (m : ConversationMember) : ConversationMember := { m with role := .member, leftAt := none }

/-- The message without its pin. -/
def Message.unpinned (m : Message) : Message := { m with pinnedAt := none, pinnedByUserId := none }

/-- What a user has written: the messages, pins aside, the reactions, hides, blocks and scheduled messages,
the events in the audit log, and the marks on the memberships that are stored in `db`. -/
def Db.writtenBy (db : Db) (v : UserId) : Selection where
  member m := m.userId = v.canon ∧ m.id < db.nextId
  message m := m.senderId = v.canon
  hide h := h.userId = v.canon
  reaction r := r.userId = v.canon
  scheduled row := row.senderId = v.canon
  block b := b.blockerId = v.canon
  audit e := e.actorId = v.canon
  showMember := ConversationMember.marks
  showMessage := Message.unpinned

theorem showsIds_writtenBy (v : UserId) : (s.writtenBy v).ShowsIds := ⟨fun _ => rfl, fun _ => rfl⟩

/-- A request of another user writes nothing of that. -/
theorem Licensed.spares_written {r : Db} (hle : r.nextId ≤ s.nextId) (hother : u.canon ≠ v.canon) {k : Call}
    (hk : Licensed s u k) : (r.writtenBy v).Spares s k := by
  have hcanon : u ≠ v.canon := fun heq => hother (by rw [heq, UserId.canon_canon])
  have hnew : ∀ m : ConversationMember, s.nextId ≤ m.id → (r.writtenBy v).member m = false := fun m hm =>
    decide_eq_false fun h => Nat.not_lt.mpr (Nat.le_trans hle hm) h.2
  have hmember : ∀ m, s.Reseats u m → (r.writtenBy v).SparesMember s m := by
    rintro m ⟨old, hold, horigin, -, hkind⟩
    have hid : m.id = old.id := congrArg (·.id) horigin.symm
    have huser : m.userId = old.userId := congrArg (·.userId) horigin.symm
    refine ⟨old, hold, hid, ?_, fun hmine => ?_⟩
    · exact congrArg₂ (fun n w => decide (w = v.canon ∧ n < r.nextId)) hid huser
    · obtain ⟨hown, -⟩ | ⟨-, -, heq⟩ := hkind
      · exact absurd (hown.symm.trans (of_decide_eq_true hmine).1) hcanon
      · rw [heq]
        rfl
  cases k with
  | createPrivateTx a b key | createGroupTx a ids name => exact ⟨fun _ _ => rfl, fun m _ hm => hnew m hm⟩
  | saveConversation cv | softDeleteConversation c => exact fun _ _ => rfl
  | saveMember m => exact hmember m hk
  | saveMembers ms => exact fun m hm => hmember m (hk m hm)
  | insertMember c w role => exact fun m _ hm => hnew m hm
  | insertMessage d =>
    obtain ⟨-, rfl⟩ := hk
    exact fun m _ hm => decide_eq_false (hm ▸ hother)
  | saveMessage m =>
    obtain ⟨x, ⟨hx, -⟩, horigin, -, hkind⟩ := hk
    refine ⟨x, hx, Message.id_of_origin horigin, ?_, fun hmine => ?_⟩
    · exact congrArg (fun w => decide (w = v.canon)) (Message.senderId_of_origin horigin)
    · obtain hown | ⟨at', by', rfl⟩ := hkind
      · exact absurd (hown.symm.trans (of_decide_eq_true hmine)) hcanon
      · rfl
  | insertHide m w =>
    obtain ⟨rfl, -⟩ := hk
    exact fun h _ hw => decide_eq_false (hw ▸ hother)
  | insertReaction m w emoji =>
    obtain ⟨rfl, -⟩ := hk
    exact fun h _ hw => decide_eq_false (hw ▸ hother)
  | removeReaction row => exact ⟨hk.1, decide_eq_false (hk.2.1 ▸ hother)⟩
  | insertScheduled d =>
    obtain ⟨-, rfl⟩ := hk
    exact fun row _ hrow => decide_eq_false (hrow ▸ hother)
  | saveScheduled row =>
    obtain ⟨old, hold, hsender, -, hid, -, hsender'⟩ := hk
    refine ⟨old, hold, hid, decide_eq_false (hsender ▸ hother), fun _ => decide_eq_false ?_⟩
    rw [hsender', hsender]
    exact hother
  | claimScheduled n => exact hk.elim
  | insertBlock a b | deleteBlock a b =>
    obtain rfl := hk
    exact fun row hrow => decide_eq_false (hrow ▸ hother)
  | insertAudit a action type id info =>
    obtain rfl := hk
    exact fun e he => decide_eq_false (he ▸ hother)
  | _ => trivial

/-- The group is as it was, but for the members among `actors` who have left it, the time of its last
message and the marks of its members. -/
structure GroupStays (actors : UserId → Prop) (c : ConversationId) (s t : Db) : Prop where
  row : ∀ row ∈ t.conversations, row.id = c → ∃ old ∈ s.conversations,
    row = { old with lastMessageAt := row.lastMessageAt, updatedAt := row.updatedAt }
  members : ∀ m ∈ t.members, m.conversationId = c → ∃ old ∈ s.members,
    old.origin = m.origin ∧ m.role = old.role ∧ (m.leftAt = old.leftAt ∨ old.leftAt = none ∧ actors m.userId)

section Group

variable {actors : UserId → Prop} {c : ConversationId}

theorem GroupStays.refl (actors : UserId → Prop) (c : ConversationId) (s : Db) : GroupStays actors c s s :=
  ⟨fun row hrow _ => ⟨row, hrow, rfl⟩, fun m hm _ => ⟨m, hm, rfl, rfl, .inl rfl⟩⟩

theorem GroupStays.trans {r : Db} (h : GroupStays actors c r s) (h' : GroupStays actors c s t) :
    GroupStays actors c r t := by
  refine ⟨fun row hrow hid => ?_, fun m hm hconv => ?_⟩
  · obtain ⟨mid, hmid, heq⟩ := h'.row row hrow hid
    obtain ⟨old, hold, heq'⟩ := h.row mid hmid (by rw [heq] at hid; exact hid)
    refine ⟨old, hold, ?_⟩
    rw [heq'] at heq
    exact heq
  · obtain ⟨mid, hmid, horigin, hrole, hleft⟩ := h'.members m hm hconv
    have hconv' : mid.conversationId = c := (congrArg (·.conversationId) horigin).trans hconv
    obtain ⟨old, hold, horigin', hrole', hleft'⟩ := h.members mid hmid hconv'
    refine ⟨old, hold, horigin'.trans horigin, hrole.trans hrole', ?_⟩
    have huser : mid.userId = m.userId := congrArg (·.userId) horigin
    rcases hleft with hleft | ⟨hnone, hactor⟩
    · rw [hleft, ← huser]
      exact hleft'
    · rcases hleft' with hsame | ⟨hnone', _⟩
      · exact .inr ⟨hsame ▸ hnone, hactor⟩
      · exact .inr ⟨hnone', hactor⟩

/-- Who may manage a group is seen from its rows. -/
theorem GroupStays.unseats (h : GroupStays actors c s t) (hgroup : s.IsGroup c) (ht : t.Unseats c u) :
    s.Unseats c u := by
  rcases ht with ⟨_, m, hm, huser, hrole⟩ | ⟨row, hrow, hid, htype, hcreated⟩
  · obtain ⟨hm, hleft⟩ := mem_activeMembers.mp hm
    obtain ⟨hm, hconv⟩ := Db.mem_membersOf.mp hm
    obtain ⟨old, hold, horigin, hsame, hleft'⟩ := h.members m hm hconv
    have hconv' : old.conversationId = c := (congrArg (·.conversationId) horigin).trans hconv
    have huser' : old.userId = u := (congrArg (·.userId) horigin).trans huser
    refine .inl ⟨hgroup, old, mem_activeMembers.mpr ⟨Db.mem_membersOf.mpr ⟨hold, hconv'⟩, ?_⟩, huser', hsame ▸ hrole⟩
    rcases hleft' with heq | ⟨hnone, _⟩
    · exact heq ▸ hleft
    · exact hnone
  · obtain ⟨old, hold, heq⟩ := h.row row hrow hid
    rw [heq] at hid htype hcreated
    exact .inr ⟨old, hold, hid, htype, hcreated⟩

/-- A call of a request whose actor may not manage the group. -/
theorem GroupStays.exec (hs : WellKeyed s) (h : GroupStays actors c s t) (hc : c < t.nextId) (hgroup : s.IsGroup c)
    (hactor : actors u) (hout : ¬ s.Unseats c u) {k : Call} (hk : Licensed s u k) :
    GroupStays actors c s (Chat.exec k t).2 := by
  have hrole : ∀ {c'}, s.Manages c' u → c' ≠ c := fun hm heq => hout (.inl (heq ▸ hm))
  -- a new conversation has an id of its own
  have hnew : ∀ {type : ConversationType} {name key : Option Text} {a : UserId}
      {us : List (UserId × ConversationMemberRole)} {t' : Db},
      (t.insertConversation type name a key).insertMembers t.nextId us = some t' → GroupStays actors c s t' := by
    intro type name key a us t' ht'
    obtain ⟨rows, rfl, hrows, _⟩ := Db.insertMembers_eq_some ht'
    refine ⟨fun row hrow hid => ?_, fun m hm hconv => ?_⟩
    · rcases List.mem_append.mp hrow with hrow | hrow
      · exact h.row row hrow hid
      · obtain rfl := List.mem_singleton.mp hrow
        exact absurd hid (Nat.ne_of_gt hc)
    · rcases List.mem_append.mp hm with hm | hm
      · exact h.members m hm hconv
      · have hrow : (m.conversationId, m.userId, m.leftAt) ∈ us.map fun u => (t.nextId, u.1.canon, none) :=
          hrows ▸ List.mem_map_of_mem hm
        obtain ⟨_, _, heq⟩ := List.mem_map.mp hrow
        exact absurd ((congrArg Prod.fst heq).trans hconv) (Nat.ne_of_gt hc)
  -- a row that is saved is one of the actor, when it is a row of the group
  have hsaved : ∀ m, s.Reseats u m → m.conversationId = c → ∃ old ∈ s.members,
      old.origin = m.origin ∧ m.role = old.role ∧
        (m.leftAt = old.leftAt ∨ old.leftAt = none ∧ actors m.userId) := by
    rintro m ⟨old, hold, horigin, _, hkind⟩ hconv
    have hconv' : old.conversationId = c := (congrArg (·.conversationId) horigin).trans hconv
    have huser : old.userId = m.userId := congrArg (·.userId) horigin
    obtain ⟨hown, hleft, hsame⟩ | ⟨_, hunseats, _⟩ := hkind
    · exact ⟨old, hold, horigin, hsame, .inr ⟨hleft, huser ▸ hown ▸ hactor⟩⟩
    · exact absurd (hconv' ▸ hunseats) hout
  cases k with
  | createPrivateTx a b key => exact after_createPrivateTx h fun _ ht' => hnew ht'
  | createGroupTx a ids name => exact after_createGroupTx h fun _ ht' => hnew ht'
  | saveConversation cv =>
    simp only [Chat.exec]
    split
    · refine { h with row := fun row hrow hid => ?_ }
      obtain ⟨row', hrow', rfl⟩ := List.mem_map.mp hrow
      split at hid
      · next hcv =>
        rw [if_pos hcv]
        obtain ⟨_, old, hfind, hkind⟩ := hk
        obtain ⟨hold, hoid, _⟩ := Db.findConversation_eq_some hfind
        obtain ⟨at', heq⟩ | ⟨hmanages, n, heq⟩ | ⟨hmanages, name, heq⟩ := hkind
        · exact ⟨old, hold, by rw [heq]⟩
        · obtain ⟨g, hg, hgid, hgroup⟩ := hgroup
          have hgold : g = old := hs.conversations.eq_of_id_eq hg hold (hgid.trans (hid.symm.trans hoid.symm))
          exact absurd hid (hrole (hmanages (hgold ▸ hgroup)))
        · exact absurd hid (hrole hmanages)
      · next hcv =>
        rw [if_neg hcv]
        exact h.row row' hrow' hid
    · exact h
  | softDeleteConversation c' =>
    have hne : c' ≠ c := fun heq => hout (.inr (heq ▸ hk.2))
    refine { h with row := fun row hrow hid => ?_ }
    obtain ⟨row', hrow', rfl⟩ := List.mem_map.mp hrow
    split at hid
    · next hid' => exact absurd (hid'.symm.trans hid) hne
    · next hid' =>
      rw [if_neg hid']
      exact h.row row' hrow' hid
  | saveMember m =>
    refine after_saveMember h fun t' ht' => ?_
    rw [Db.saveMember_eq_some ht']
    refine { h with members := fun m' hm' hconv => ?_ }
    rcases mem_replaceRow hm' with rfl | hm'
    · exact hsaved m' hk hconv
    · exact h.members m' hm' hconv
  | saveMembers ms =>
    refine after_saveMembers h fun t' ht' => ?_
    obtain ⟨rows, rfl, hrows⟩ := Db.saveMembers_eq_some ht'
    refine { h with members := fun m' hm' hconv => ?_ }
    rcases hrows m' hm' with hm' | hm'
    · exact hsaved m' (hk m' hm') hconv
    · exact h.members m' hm' hconv
  | insertMember c' v role =>
    refine after_insertMember h fun t' ht' => ?_
    rw [Db.insertMember_eq_some ht']
    refine { h with members := fun m' hm' hconv => ?_ }
    rcases List.mem_append.mp hm' with hm' | hm'
    · exact h.members m' hm' hconv
    · obtain rfl := List.mem_singleton.mp hm'
      exact absurd hconv (hrole hk.2.1)
  | insertHide m v =>
    simp only [Chat.exec]
    split <;> exact { h with }
  | insertReaction m v emoji =>
    simp only [Chat.exec]
    split <;> exact { h with }
  | insertBlock a b =>
    simp only [Chat.exec]
    split <;> exact { h with }
  | claimScheduled n => exact hk.elim
  | _ => exact { h with }

end Group

end Relay.Chat
