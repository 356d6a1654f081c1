import Relay.Chat.Verify.Undelivered
import Relay.Chat.Verify.Viewers
import Relay.Chat.Verify.Returning
import Relay.Gateway.ChatController
import Relay.Gateway.Verify.Eviction

/-!
# What the requests do to the active members

Few requests of the chat service change who is an active member of a conversation: those that create one,
and `addMembers`, `removeMember`, `leave` and `deleteGroup`. The others load a row of a conversation or of
a member and save it as an active one, or write other tables.
-/

namespace Relay.Gateway.ChatGateway

open Relay.Lib

variable {db db' db₁ : Chat.Db} {v : ConversationId} {u : UserId} {α : Type}

/-- The active members of all conversations are the same. -/
def SameMembers (db db' : Chat.Db) : Prop :=
  ∀ v u, IsMember db' v u ↔ IsMember db v u

/-- The active members of all other conversations are the same. -/
def SameMembersBut (v : ConversationId) (db db' : Chat.Db) : Prop :=
  ∀ v', v' ≠ v → ∀ u, IsMember db' v' u ↔ IsMember db v' u

theorem SameMembers.refl (db : Chat.Db) : SameMembers db db := fun _ _ => Iff.rfl

theorem SameMembers.trans (h : SameMembers db db₁) (h' : SameMembers db₁ db') : SameMembers db db' :=
  fun v u => (h' v u).trans (h v u)

theorem SameMembers.but (h : SameMembers db db') (v : ConversationId) : SameMembersBut v db db' :=
  fun v' _ u => h v' u

theorem sameMembers_of_tables (hrow : ∀ v, db'.findConversation v ≠ none ↔ db.findConversation v ≠ none)
    (hseats : ∀ v u, (∃ m ∈ db'.seats v, m.userId = u) ↔ ∃ m ∈ db.seats v, m.userId = u) :
    SameMembers db db' := by
  intro v u
  rw [isMember_iff, isMember_iff, hrow, hseats]

theorem sameMembers_of_eq (hrows : db'.conversations = db.conversations) (hmembers : db'.members = db.members) :
    SameMembers db db' := by
  refine sameMembers_of_tables (fun v => ?_) fun v u => ?_
  · unfold Chat.Db.findConversation
    rw [hrows]
  · unfold Chat.Db.seats Chat.Db.membersOf
    rw [hmembers]

/-! ## Calls -/

/-- Calls that write neither conversations nor member rows. -/
def Plain : Chat.Call → Prop
  | .createPrivateTx _ _ _ | .createGroupTx _ _ _ | .saveConversation _ | .softDeleteConversation _
  | .saveMember _ | .saveMembers _ | .insertMember _ _ _ => False
  | _ => True

theorem Plain.of_minor {c : Chat.Call} (h : Chat.Minor c) : Plain c := by
  cases c <;> first | exact trivial | exact h.elim

theorem Plain.exec {c : Chat.Call} (h : Plain c) (db : Chat.Db) :
    (Chat.exec c db).2.conversations = db.conversations ∧ (Chat.exec c db).2.members = db.members := by
  by_cases hquiet : Chat.QuietCall c
  · exact ⟨(hquiet.exec db).1, (hquiet.exec db).2.1⟩
  · cases c <;> first | exact ⟨rfl, rfl⟩ | exact absurd trivial hquiet | exact h.elim

theorem sameMembers_plain {p : Chat.M α} (h : Chat.Uses Plain p) (db : Chat.Db) :
    SameMembers db (Prog.run Chat.exec p db).2 := by
  refine Prog.Sat.preserves (I := fun db' => SameMembers db db') (fun db' c hc hdb => ?_) h (SameMembers.refl db)
  exact hdb.trans (sameMembers_of_eq (hc.exec db').1 (hc.exec db').2)

theorem findConversation_ne_none :
    db.findConversation v ≠ none ↔ ∃ row ∈ db.conversations, row.id = v ∧ row.deletedAt = none := by
  simp [Chat.Db.findConversation]

/-- A conversation that is found is saved, as one that is not deleted. -/
theorem sameMembers_saveConversation {cv : Chat.ConversationWithMembers}
    (hfound : db.findConversation cv.id ≠ none) (halive : cv.deletedAt = none) :
    SameMembers db (Chat.exec (.saveConversation cv) db).2 := by
  simp only [Chat.exec]
  split
  swap
  · exact SameMembers.refl db
  refine sameMembers_of_tables (fun v => ?_) fun v u => Iff.rfl
  rw [findConversation_ne_none]
  simp only [List.mem_map]
  constructor
  · rintro ⟨_, ⟨row, hrow, rfl⟩, hid, hdeleted⟩
    by_cases hsaved : row.id = cv.id ∧ row ≠ cv.toConversation
    · rw [if_pos hsaved] at hid
      exact hid ▸ hfound
    · rw [if_neg hsaved] at hid hdeleted
      exact findConversation_ne_none.mpr ⟨row, hrow, hid, hdeleted⟩
  · intro hv
    obtain ⟨row, hrow, hid, hdeleted⟩ := findConversation_ne_none.mp hv
    refine ⟨_, ⟨row, hrow, rfl⟩, ?_⟩
    by_cases hsaved : row.id = cv.id ∧ row ≠ cv.toConversation
    · rw [if_pos hsaved]
      exact ⟨hsaved.1.symm.trans hid, halive⟩
    · rw [if_neg hsaved]
      exact ⟨hid, hdeleted⟩

/-- The row of an active member is saved as one. -/
theorem sameMembers_saveMember (hdb : Kept db) {m m' : Chat.ConversationMember} (hm : m ∈ db.seats v)
    (horigin : m'.origin = m.origin) (hleft : m'.leftAt = none) :
    SameMembers db (Chat.exec (.saveMember m') db).2 := by
  obtain ⟨hmem, hconv, hseated⟩ := Chat.Db.mem_seats.mp hm
  rw [Chat.exec_saveMember (Chat.memberTaken_of_seated hdb.once hmem hseated horigin)]
  have hid : m'.id = m.id := congrArg Chat.ConversationMember.Origin.id horigin
  have hconv' : m'.conversationId = m.conversationId :=
    congrArg Chat.ConversationMember.Origin.conversationId horigin
  have huser : m'.userId = m.userId := congrArg Chat.ConversationMember.Origin.userId horigin
  refine sameMembers_of_tables (fun _ => Iff.rfl) fun w u => ?_
  constructor
  · rintro ⟨r, hr, rfl⟩
    obtain ⟨hr, hw, hrleft⟩ := Chat.Db.mem_seats.mp hr
    rcases Chat.Db.mem_putMember.mp hr with ⟨rfl, _⟩ | ⟨hr, _⟩
    · exact ⟨m, Chat.Db.mem_seats.mpr ⟨hmem, hconv'.symm.trans hw, hseated⟩, huser.symm⟩
    · exact ⟨r, Chat.Db.mem_seats.mpr ⟨hr, hw, hrleft⟩, rfl⟩
  · rintro ⟨r, hr, rfl⟩
    obtain ⟨hr, hw, hrleft⟩ := Chat.Db.mem_seats.mp hr
    by_cases hsame : r.id = m'.id
    · obtain rfl := hdb.inv.keyed.members.eq_of_id_eq hr hmem (hsame.trans hid)
      exact ⟨m', Chat.Db.mem_seats.mpr
        ⟨Chat.Db.mem_putMember.mpr (.inl ⟨rfl, r, hr, hsame⟩), hconv'.trans hw, hleft⟩, huser⟩
    · exact ⟨r, Chat.Db.mem_seats.mpr ⟨Chat.Db.mem_putMember.mpr (.inr ⟨hr, hsame⟩), hw, hrleft⟩, rfl⟩

/-! ## Requests that save a row -/

/-- What a member has loaded. -/
theorem alive_of_membership {cv : Chat.ConversationWithMembers} (h : db.membership v u = .ok cv) :
    db.findConversation cv.id ≠ none ∧ cv.deletedAt = none := by
  have hrow := (Chat.Db.membership_eq_ok h).1
  rw [Chat.Db.membership_id h, hrow]
  exact ⟨by simp, (Chat.Db.findConversation_eq_some hrow).2.2⟩

/-- A part that reads, and a rest that keeps the members. -/
theorem sameMembers_read {β : Type} {p : Chat.M α} {f : α → Chat.M β} {r : Except Chat.Failure α}
    (hp : Prog.run Chat.exec p db = (r, db))
    (hf : ∀ a, r = .ok a → SameMembers db (Prog.run Chat.exec (f a) db).2) :
    SameMembers db (Prog.run Chat.exec (p >>= f) db).2 :=
  Chat.store_read hp (SameMembers.refl db) hf

/-- A part that keeps the members, and a rest that does. -/
theorem sameMembers_bind {β : Type} {p : Chat.M α} {f : α → Chat.M β}
    (hp : SameMembers db (Prog.run Chat.exec p db).2)
    (hf : ∀ a t, Prog.run Chat.exec p db = (.ok a, t) → SameMembers t (Prog.run Chat.exec (f a) t).2) :
    SameMembers db (Prog.run Chat.exec (p >>= f) db).2 := by
  rw [Prog.run_bind]
  rcases hrun : Prog.run Chat.exec p db with ⟨e | a, t⟩
  · rw [hrun] at hp
    exact hp
  · rw [hrun] at hp
    exact hp.trans (hf a t hrun)

theorem sameMembers_getConversation (v : ConversationId) (u : UserId) (db : Chat.Db) :
    SameMembers db (Prog.run Chat.exec (Chat.getConversation v u) db).2 := by
  rw [Chat.run_getConversation_snd]
  exact SameMembers.refl db

theorem sameMembers_perform {c : Chat.Call} (h : SameMembers db (Chat.exec c db).2) :
    SameMembers db (Prog.run Chat.exec (Chat.perform c) db).2 := by
  rwa [Prog.run_perform]

theorem sameMembers_updateMembership (hdb : Kept db) (v : ConversationId) (u : UserId)
    {update : Time → Chat.ConversationMember → Chat.ConversationMember}
    (hupdate : ∀ now m, (update now m).origin = m.origin ∧ (update now m).leftAt = m.leftAt) :
    SameMembers db (Prog.run Chat.exec (Chat.updateMembership v u update) db).2 := by
  unfold Chat.updateMembership
  refine sameMembers_read (Chat.run_requireMembership v u) fun cv hcv => ?_
  cases hm : Chat.findActive cv.members u with
  | none => exact SameMembers.refl db
  | some m =>
    rw [Chat.run_require_some, Chat.run_read (a := jsDate db.now) rfl]
    obtain ⟨horigin, hleft⟩ := hupdate (jsDate db.now) m
    obtain ⟨hmem, _, hactive⟩ := Chat.findActive_eq_some hm
    have hseat : m ∈ db.seats v := by
      rw [(Chat.Db.membership_eq_ok hcv).2.1] at hmem
      exact hmem
    refine sameMembers_bind (sameMembers_perform ?_) fun _ t _ => sameMembers_getConversation v u t
    exact sameMembers_saveMember hdb hseat horigin (hleft.trans hactive)

theorem sameMembers_markSeen (hdb : Kept db) (v : ConversationId) (u : UserId)
    (m : Option MessageId) : SameMembers db (Prog.run Chat.exec (Chat.markSeen v u m) db).2 := by
  unfold Chat.markSeen
  refine sameMembers_read (Chat.run_requireMembership v u) fun cv hcv => ?_
  cases hrow : Chat.findActive cv.members u with
  | none => exact SameMembers.refl db
  | some row =>
    rw [Chat.run_require_some, Chat.run_read (a := jsDate db.now) rfl]
    obtain ⟨hmem, _, hactive⟩ := Chat.findActive_eq_some hrow
    have hseat : row ∈ db.seats v := by
      rw [(Chat.Db.membership_eq_ok hcv).2.1] at hmem
      exact hmem
    have hsave : SameMembers db (Prog.run Chat.exec
        (Chat.perform (.saveMember { row with lastReadAt := some (jsDate db.now) })) db).2 :=
      sameMembers_perform (sameMembers_saveMember hdb hseat rfl hactive)
    have hseen : ∃ r, Prog.run Chat.exec (Chat.seenMessage cv.id m) db = (r, db) := by
      unfold Chat.seenMessage
      cases m with
      | none => exact ⟨_, rfl⟩
      | some id =>
        rw [Chat.run_read (c := .findMessage id cv.id) rfl]
        cases (db.messages.find? fun row => row.id = id ∧ row.conversationId = cv.id) with
        | none => exact ⟨_, rfl⟩
        | some x => exact ⟨_, rfl⟩
    obtain ⟨r, hseen⟩ := hseen
    refine sameMembers_read hseen fun _ _ => sameMembers_bind ?_ fun _ t _ => SameMembers.refl t
    unfold Chat.advanceReadAt
    split
    · split
      · exact sameMembers_bind hsave fun _ t _ => SameMembers.refl t
      · exact SameMembers.refl db
    · exact sameMembers_bind hsave fun _ t _ => SameMembers.refl t

theorem sameMembers_recordAudit (a : UserId) (action : String) (type id : Option Text)
    (info : Chat.AuditMeta) (db : Chat.Db) :
    SameMembers db (Prog.run Chat.exec (Chat.recordAudit a action type id info) db).2 :=
  sameMembers_plain (Chat.uses_recordAudit (fun _ _ _ _ _ => trivial) a action type id info) db

theorem sameMembers_setDisappearingMessages (v : ConversationId) (u : UserId) (n : Nat) :
    SameMembers db (Prog.run Chat.exec (Chat.setDisappearingMessages v u n) db).2 := by
  unfold Chat.setDisappearingMessages
  refine sameMembers_read (Chat.run_requireMembership v u) fun cv hcv => ?_
  refine sameMembers_read (Chat.run_rejectIf _ _) fun _ _ => ?_
  refine sameMembers_read (Chat.run_rejectIf _ _) fun _ _ => ?_
  obtain ⟨hfound, halive⟩ := alive_of_membership hcv
  refine sameMembers_bind (sameMembers_perform (sameMembers_saveConversation hfound halive)) fun _ t _ => ?_
  exact sameMembers_bind (sameMembers_recordAudit _ _ _ _ _ t) fun _ t' _ => sameMembers_getConversation v u t'

theorem sameMembers_updateGroup (v : ConversationId) (u : UserId) (name : Text) :
    SameMembers db (Prog.run Chat.exec (Chat.updateGroup v u name) db).2 := by
  unfold Chat.updateGroup Chat.assertGroupAdmin
  refine sameMembers_read (Chat.run_requireMembership v u) fun cv hcv => ?_
  simp only [Prog.bind_assoc']
  refine sameMembers_read (Chat.run_rejectIf _ _) fun _ _ => ?_
  refine sameMembers_read (Chat.run_rejectIf _ _) fun _ _ => ?_
  refine sameMembers_read (Chat.run_rejectIf _ _) fun _ _ => ?_
  obtain ⟨hfound, halive⟩ := alive_of_membership hcv
  exact sameMembers_bind (sameMembers_perform (sameMembers_saveConversation hfound halive)) fun _ t _ =>
    sameMembers_getConversation v u t

theorem sameMembers_setMemberRole (hdb : Kept db) (v : ConversationId) (a u : UserId)
    (role : Option Chat.ConversationMemberRole) :
    SameMembers db (Prog.run Chat.exec (Chat.setMemberRole v a u role) db).2 := by
  unfold Chat.setMemberRole
  refine sameMembers_read (Chat.run_requireMembership v a) fun cv hcv => ?_
  refine sameMembers_read (Chat.run_rejectIf _ _) fun _ _ => ?_
  refine sameMembers_read (Chat.run_rejectIf _ _) fun _ _ => ?_
  cases role.filter fun role => role = .admin ∨ role = .member with
  | none => exact SameMembers.refl db
  | some role =>
    rw [Chat.run_require_some]
    cases hm : Chat.findActive cv.members u with
    | none => exact SameMembers.refl db
    | some m =>
      rw [Chat.run_require_some]
      refine sameMembers_read (Chat.run_rejectIf _ _) fun _ _ => ?_
      refine sameMembers_read (Chat.run_rejectIf _ _) fun _ _ => ?_
      obtain ⟨hmem, _, hactive⟩ := Chat.findActive_eq_some hm
      have hseat : m ∈ db.seats v := by
        rw [(Chat.Db.membership_eq_ok hcv).2.1] at hmem
        exact hmem
      refine sameMembers_bind (sameMembers_perform ?_) fun _ t _ => sameMembers_getConversation v a t
      exact sameMembers_saveMember hdb hseat rfl hactive

/-! ## Requests that name the members -/

/-- The users are the active members of the conversation. -/
def Told (db : Chat.Db) (v : ConversationId) (ids : List UserId) : Prop :=
  ∀ u, u ∈ ids ↔ IsMember db v u

theorem Told.same {ids : List UserId} (h : Told db v ids) (hs : SameMembers db db') : Told db' v ids :=
  fun u => (h u).trans (hs v u).symm

theorem isMember_iff_seat {cv : Chat.ConversationWithMembers} {a : UserId} (h : db.membership v a = .ok cv) :
    IsMember db v u ↔ db.seat v u ≠ none := by
  constructor
  · rintro ⟨cv', hcv'⟩
    exact (Chat.Db.membership_iff hcv').mp hcv'
  · intro hseat
    exact ⟨cv, (Chat.Db.membership_iff h).mpr hseat⟩

theorem told_recipientIds {cv : Chat.ConversationWithMembers} (h : db.membership v u = .ok cv) :
    Told db v (Chat.recipientIds cv) := by
  intro w
  rw [Chat.mem_recipientIds h, isMember_iff_seat h]

/-- A message is stored. -/
theorem sameMembers_store {o : Chat.Outgoing} (h : db.membership v u = .ok o.conversation) :
    SameMembers db (Prog.run Chat.exec o.store db).2 := by
  obtain ⟨hfound, halive⟩ := alive_of_membership h
  unfold Chat.Outgoing.store Chat.touchConversation
  have hinsert : Plain (.insertMessage o.draft) := trivial
  refine sameMembers_bind (sameMembers_plain (Chat.uses_perform hinsert) db) fun saved t hrun => ?_
  have ht : t.conversations = db.conversations := by
    rw [Prog.run_perform] at hrun
    have hexec := (hinsert.exec db).1
    rw [hrun] at hexec
    exact hexec
  have hfound : t.findConversation o.conversation.id ≠ none := by
    unfold Chat.Db.findConversation at hfound ⊢
    rwa [ht]
  refine sameMembers_bind (sameMembers_perform (sameMembers_saveConversation hfound halive)) fun _ t' _ => ?_
  split
  · exact sameMembers_bind (sameMembers_recordAudit _ _ _ _ _ t') fun _ t' _ => SameMembers.refl t'
  · exact SameMembers.refl t'

/-- A message that is delivered goes to all members. -/
theorem delivery_open {cv : Chat.ConversationWithMembers} (hallowed : (db.delivery cv u).forbidden = false)
    (h : (db.delivery cv u).undelivered = false) : (db.delivery cv u).recipientIds = Chat.recipientIds cv := by
  unfold Chat.Db.delivery at hallowed h ⊢
  by_cases htype : cv.type ≠ .priv
  · simp [htype, Chat.openDelivery]
  rw [if_neg htype] at hallowed h ⊢
  cases hother : Chat.findOther cv.members u with
  | none => rfl
  | some other =>
    simp only [hother] at hallowed h
    by_cases hblocked : db.hasBlock other.userId u
    · rw [if_pos hblocked] at hallowed
      cases hallowed
    · rw [if_neg hblocked] at h
      by_cases hblocks : db.hasBlock u other.userId
      · rw [if_pos hblocks] at h
        cases h
      · simp [hblocked, hblocks, Chat.openDelivery]

/-- An accepted send goes to the members of its conversation, unless it is undelivered. -/
structure GoesTo (db : Chat.Db) (v : ConversationId) (u : UserId) (o : Chat.Outgoing) : Prop where
  membership : db.membership v u = .ok o.conversation
  conversationId : o.draft.conversationId = v
  recipientIds : o.draft.undelivered = false → o.recipientIds = Chat.recipientIds o.conversation

theorem acceptSend_goesTo {payload : Chat.SendMessage} {o : Chat.Outgoing}
    (h : db.acceptSend payload = some o) : GoesTo db payload.conversationId payload.actorId o := by
  obtain ⟨hcv, hconv, _⟩ := Chat.acceptSend_eq_some h
  refine ⟨hcv, hconv.trans (Chat.Db.membership_id hcv), fun hdelivered => ?_⟩
  unfold Chat.Db.acceptSend at h
  obtain ⟨_, _, h⟩ := Option.bind_eq_some_iff.mp h
  obtain ⟨type, _, h⟩ := Option.bind_eq_some_iff.mp h
  split at h
  · obtain ⟨_, _, h⟩ := Option.bind_eq_some_iff.mp h
    obtain ⟨_, _, h⟩ := Option.bind_eq_some_iff.mp h
    obtain ⟨cv, _, h⟩ := Option.bind_eq_some_iff.mp h
    cases h
    rfl
  · obtain ⟨cv, _, h⟩ := Option.bind_eq_some_iff.mp h
    obtain ⟨_, hallowed, h⟩ := Option.bind_eq_some_iff.mp h
    obtain ⟨_, _, h⟩ := Option.bind_eq_some_iff.mp h
    cases h
    exact delivery_open (by simpa using hallowed) hdelivered

theorem acceptForward_goesTo {a : UserId} {source target : ConversationId} {m : MessageId}
    {o : Chat.Outgoing} (h : db.acceptForward a source target m = some o) : GoesTo db target a o := by
  obtain ⟨hcv, hconv, _⟩ := Chat.acceptForward_eq_some h
  refine ⟨hcv, hconv.trans (Chat.Db.membership_id hcv), fun hdelivered => ?_⟩
  unfold Chat.Db.acceptForward at h
  obtain ⟨_, _, h⟩ := Option.bind_eq_some_iff.mp h
  obtain ⟨cv, _, h⟩ := Option.bind_eq_some_iff.mp h
  obtain ⟨_, _, h⟩ := Option.bind_eq_some_iff.mp h
  obtain ⟨_, _, h⟩ := Option.bind_eq_some_iff.mp h
  obtain ⟨_, hallowed, h⟩ := Option.bind_eq_some_iff.mp h
  cases h
  exact delivery_open (by simpa using hallowed) hdelivered

/-- A request that stores a message keeps the members, and names them unless the message is undelivered. -/
structure Sends (p : Chat.M Chat.SendMessageResult) (v : ConversationId) (db : Chat.Db) : Prop where
  same : SameMembers db (Prog.run Chat.exec p db).2
  told : ∀ result db', Prog.run Chat.exec p db = (.ok result, db') → result.view.conversationId = v ∧
    (result.view.undelivered = false → Told db' v result.recipientIds)

theorem Sends.of_accepts {p : Chat.M Chat.SendMessageResult} {o : Option Chat.Outgoing}
    (h : Chat.Accepts p db (o.map Chat.Outgoing.store)) (ho : ∀ x, o = some x → GoesTo db v u x) :
    Sends p v db := by
  cases o with
  | none =>
    obtain ⟨e, he⟩ := h
    refine ⟨by rw [he]; exact SameMembers.refl db, fun result db' hrun => ?_⟩
    rw [he] at hrun
    cases hrun
  | some x =>
    have hgoes := ho x rfl
    have heq : Prog.run Chat.exec p db = Prog.run Chat.exec x.store db := h
    have hsame := sameMembers_store hgoes.membership
    refine ⟨by rwa [heq], fun result db' hrun => ?_⟩
    rw [heq] at hrun
    rw [hrun] at hsame
    obtain ⟨_, rfl⟩ := Chat.run_store_ok hrun
    refine ⟨hgoes.conversationId, fun hdelivered => ?_⟩
    have hids : x.recipientIds = Chat.recipientIds x.conversation := hgoes.recipientIds hdelivered
    simp only [hids]
    exact (told_recipientIds hgoes.membership).same hsame

theorem sends_sendMessage (payload : Chat.SendMessage) (db : Chat.Db) :
    Sends (Chat.sendMessage payload) payload.conversationId db :=
  .of_accepts (Chat.accepts_sendMessage payload) fun _ ho => acceptSend_goesTo ho

theorem sends_forwardMessage (a : UserId) (source target : ConversationId) (m : MessageId) (db : Chat.Db) :
    Sends (Chat.forwardMessage a source target m) target db :=
  .of_accepts (Chat.accepts_forwardMessage a source target m) fun _ ho => acceptForward_goesTo ho

/-! ### Scheduled messages -/

theorem sameMembers_settle (row : Chat.ScheduledMessage)
    (outcome : Except Chat.Failure Chat.SendMessageResult) (db : Chat.Db) :
    SameMembers db (Prog.run Chat.exec (Chat.settle row outcome) db).2 :=
  sameMembers_plain (Chat.uses_settle (fun _ _ _ => trivial) outcome) db

/-- A round returns what the send has returned, if anything. -/
theorem settle_some {row : Chat.ScheduledMessage} {outcome : Except Chat.Failure Chat.SendMessageResult}
    {result : Chat.SendMessageResult}
    (h : Prog.run Chat.exec (Chat.settle row outcome) db = (.ok (some result), db')) : outcome = .ok result := by
  have hfail : ∀ (row : Chat.ScheduledMessage) e t,
      Prog.run Chat.exec (Chat.failScheduled row e) t ≠ (.ok (some result), db') := by
    intro row e t hrun
    obtain ⟨_, _, _, hrun⟩ := Prog.run_bind_inv _ hrun
    cases hrun
  cases outcome with
  | error e => exact absurd h (hfail row e db)
  | ok sent =>
    obtain ⟨saved, t, _, h⟩ := Prog.run_bind_inv _ h
    cases saved with
    | error e => exact absurd h (hfail _ e t)
    | ok _ =>
      cases h
      rfl

theorem dispatchScheduled_told (row : Chat.ScheduledMessage) (db : Chat.Db) :
    SameMembers db (Prog.run Chat.exec (Chat.dispatchScheduled row) db).2 ∧
      ∀ result db', Prog.run Chat.exec (Chat.dispatchScheduled row) db = (.ok (some result), db') →
        result.view.undelivered = false → Told db' result.view.conversationId result.recipientIds := by
  have hclaim : Plain (.claimScheduled row.id) := trivial
  constructor
  · unfold Chat.dispatchScheduled
    refine sameMembers_bind (sameMembers_plain (Chat.uses_perform hclaim) db) fun n t _ => ?_
    split
    · exact SameMembers.refl t
    · refine sameMembers_bind ?_ fun outcome t' _ => sameMembers_settle row outcome t'
      rw [Prog.run_attempt]
      exact (sends_sendMessage row.toPayload t).same
  · intro result db' hrun hdelivered
    unfold Chat.dispatchScheduled at hrun
    obtain ⟨n, t, _, hrun⟩ := Prog.run_bind_inv _ hrun
    split at hrun
    · cases hrun
    obtain ⟨outcome, t', hsend, hrun⟩ := Prog.run_bind_inv _ hrun
    have hsettle := sameMembers_settle row outcome t'
    rw [hrun] at hsettle
    obtain rfl := settle_some hrun
    rw [Prog.run_attempt] at hsend
    obtain ⟨hok, hstate⟩ := Prod.mk.inj hsend
    obtain ⟨hconv, htold⟩ := (sends_sendMessage row.toPayload t).told result t'
      (Prod.ext (Except.ok.inj hok) hstate)
    rw [hconv]
    exact (htold hdelivered).same hsettle

theorem collect_told (rows : List Chat.ScheduledMessage) (db : Chat.Db) :
    SameMembers db (Prog.run Chat.exec (Chat.collect Chat.dispatchScheduled rows) db).2 ∧
      ∀ results db', Prog.run Chat.exec (Chat.collect Chat.dispatchScheduled rows) db = (.ok results, db') →
        ∀ result ∈ results, result.view.undelivered = false →
          Told db' result.view.conversationId result.recipientIds := by
  induction rows generalizing db with
  | nil =>
    refine ⟨SameMembers.refl db, fun results db' hrun result hresult => ?_⟩
    cases hrun
    cases hresult
  | cons row rows ih =>
    obtain ⟨hsame, htold⟩ := dispatchScheduled_told row db
    refine ⟨?_, fun results db' hrun result hresult hdelivered => ?_⟩
    · refine sameMembers_bind hsame fun b t _ => ?_
      exact sameMembers_bind (ih t).1 fun _ t' _ => SameMembers.refl t'
    · obtain ⟨b, t, hfirst, hrun⟩ := Prog.run_bind_inv _ hrun
      obtain ⟨bs, t', hrest, hrun⟩ := Prog.run_bind_inv _ hrun
      cases hrun
      obtain ⟨hsame', htold'⟩ := ih t
      rw [hrest] at hsame'
      rcases List.mem_append.mp hresult with hb | hbs
      · obtain rfl := Option.mem_toList.mp hb
        exact (htold result t hfirst hdelivered).same hsame'
      · exact htold' bs db' hrest result hbs hdelivered

theorem dispatchDueScheduled_told (db : Chat.Db) :
    SameMembers db (Prog.run Chat.exec Chat.dispatchDueScheduled db).2 ∧
      ∀ results db', Prog.run Chat.exec Chat.dispatchDueScheduled db = (.ok results, db') →
        ∀ result ∈ results, result.view.undelivered = false →
          Told db' result.view.conversationId result.recipientIds := by
  unfold Chat.dispatchDueScheduled
  rw [Chat.run_read (a := jsDate db.now) rfl, Chat.run_read (c := .findDueScheduled (jsDate db.now)) rfl]
  exact collect_told _ db

/-! ## Requests that leave the rows of members alone -/

section Plain

variable {p : Chat.M α}

theorem plain_of_quiet (h : Chat.Quiet p) : Chat.Uses Plain p :=
  h.mono (fun _ _ h => h) fun c hc => by
    cases c <;> first | exact trivial | exact hc.elim

theorem sameMembers_message (r : ChatController.MessageRequest) (db : Chat.Db) :
    SameMembers db (Prog.run Chat.exec r.program db).2 := by
  refine sameMembers_plain ?_ db
  cases r with
  | editMessage v m a body => exact Chat.uses_editMessage (fun _ h => .of_minor h) (fun _ => trivial) v m a body
  | reactMessage v m a emoji => exact plain_of_quiet (Chat.quiet_reactMessage v m a emoji)
  | pinMessage v m a pinned => exact Chat.uses_pinMessage (fun _ h => .of_minor h) (fun _ => trivial) v m a pinned

theorem sameMembers_deleteMessage (v : ConversationId) (m : MessageId) (a : UserId) (forEveryone : Bool)
    (db : Chat.Db) : SameMembers db (Prog.run Chat.exec (Chat.deleteMessage v m a forEveryone) db).2 :=
  sameMembers_plain (Chat.uses_deleteMessage (fun _ h => .of_minor h) (fun _ => trivial) v m a forEveryone) db

end Plain

/-! ## Requests that add members -/

theorem sameMembersBut_of_rows {rows : List Chat.ConversationMember}
    (hrow : ∀ v', v' ≠ v → (db'.findConversation v' ≠ none ↔ db.findConversation v' ≠ none))
    (hmembers : db'.members = db.members ++ rows) (hrows : ∀ r ∈ rows, r.conversationId = v) :
    SameMembersBut v db db' := by
  intro v' hv u
  rw [isMember_iff, isMember_iff, hrow v' hv]
  refine and_congr_right fun _ => exists_congr fun m => and_congr_left fun _ => ?_
  rw [Chat.Db.mem_seats, Chat.Db.mem_seats, hmembers, List.mem_append]
  constructor
  · rintro ⟨hm | hm, hconv, hleft⟩
    · exact ⟨hm, hconv, hleft⟩
    · exact absurd (hconv.symm.trans (hrows m hm)) hv
  · rintro ⟨hm, hrest⟩
    exact ⟨.inl hm, hrest⟩

theorem sameMembersBut_seatEach (v : ConversationId) (us : List UserId) (db : Chat.Db) :
    SameMembersBut v db (db.seatEach v us) := by
  induction us generalizing db with
  | nil => exact (SameMembers.refl db).but v
  | cons u us ih =>
    have hnew : SameMembersBut v db (db.seatNew v u) :=
      sameMembersBut_of_rows (fun _ _ => Iff.rfl) rfl
        fun r hr => by rw [List.mem_singleton.mp hr]; rfl
    intro v' hv w
    exact (ih (db.seatNew v u) v' hv w).trans (hnew v' hv w)

theorem sameMembersBut_addMembers (hdb : Kept db) (v : ConversationId) (a : UserId) (ids : List UserId) :
    SameMembersBut v db (Prog.run Chat.exec (Chat.addMembers v a ids) db).2 := by
  rw [Chat.run_addMembers_store hdb.inv.keyed]
  exact sameMembersBut_seatEach v _ db

/-- All users with a seat in a conversation that is found. -/
theorem told_seats (h : db.findConversation v ≠ none) :
    Told db v ((db.seats v).map Chat.ConversationMember.userId) := by
  intro u
  rw [isMember_iff, and_iff_right h, List.mem_map]

/-- Only conversations that exist have members. -/
theorem Told.lt (hdb : Kept db) {ids : List UserId} (h : Told db v ids) (hids : ids ≠ []) : v < db.nextId := by
  obtain ⟨u, hu⟩ := List.exists_mem_of_ne_nil ids hids
  obtain ⟨row, hrow, rfl, _⟩ := findConversation_ne_none.mp (isMember_iff.mp ((h u).mp hu)).1
  exact hdb.inv.keyed.conversations.lt row hrow

/-- What the two transactions that create a conversation do. -/
theorem created_conversation {type : Chat.ConversationType} {name key : Option Text} {a : UserId}
    {us : List (UserId × Chat.ConversationMemberRole)} {e : Chat.QueryError}
    {r : Except Chat.Failure Chat.ConversationWithMembers}
    (h : Chat.orViolation e db (((db.insertConversation type name a key).insertMembers db.nextId us).bind
      fun t => (t.findConversation db.nextId).map fun c => (t.withMembers c, t)) = (r, db')) :
    SameMembersBut db.nextId db db' ∧ ∀ cv, r = .ok cv → cv.id = db.nextId ∧
      Told db' db.nextId ((Chat.activeMembers cv.members).map Chat.ConversationMember.userId) := by
  cases ht : (db.insertConversation type name a key).insertMembers db.nextId us with
  | none =>
    rw [ht] at h
    cases h
    exact ⟨(SameMembers.refl db).but _, nofun⟩
  | some t =>
    rw [ht, Option.bind_some] at h
    cases hc : t.findConversation db.nextId with
    | none =>
      rw [hc] at h
      cases h
      exact ⟨(SameMembers.refl db).but _, nofun⟩
    | some c =>
      rw [hc] at h
      cases h
      obtain ⟨rows, heq, hrows, _⟩ := Chat.Db.insertMembers_eq_some ht
      have hid := (Chat.Db.findConversation_eq_some hc).2.1
      refine ⟨sameMembersBut_of_rows ?_ (by rw [heq]; rfl) ?_, ?_⟩
      · intro v' hv
        rw [heq]
        simp [Chat.Db.findConversation, Chat.Db.insertConversation, Ne.symm hv]
      · intro r hr
        have hmem := List.mem_map_of_mem (f := fun r : Chat.ConversationMember =>
          (r.conversationId, r.userId, r.leftAt)) hr
        rw [hrows] at hmem
        obtain ⟨_, _, heq⟩ := List.mem_map.mp hmem
        exact (Prod.mk.inj heq).1.symm
      · rintro cv ⟨⟩
        refine ⟨hid, ?_⟩
        have hseats : Chat.activeMembers (db'.withMembers c).members = db'.seats db.nextId := by
          rw [← hid]
          rfl
        rw [hseats]
        exact told_seats (by rw [hc]; exact Option.some_ne_none c)

theorem viewMemberIds_toConversationView (cv : Chat.ConversationWithMembers) (u : UserId) (unread : Nat)
    (last : Option Chat.Message) (flags : Chat.BlockFlags) :
    ChatController.viewMemberIds (Chat.toConversationView cv u unread last flags) =
      (Chat.activeMembers cv.members).map Chat.ConversationMember.userId := by
  simp [ChatController.viewMemberIds, Chat.toConversationView]

theorem sameMembersBut_createPrivate (a b : UserId) (db : Chat.Db) :
    SameMembersBut db.nextId db (Prog.run Chat.exec (Chat.createPrivate a b) db).2 := by
  have hsame : SameMembersBut db.nextId db db := (SameMembers.refl db).but _
  unfold Chat.createPrivate
  refine Chat.store_read (Chat.run_rejectIf _ _) hsame fun _ _ => ?_
  dsimp only
  refine Chat.store_read (Prog.run_perform _ _ db) hsame fun existing _ => ?_
  cases existing with
  | some existing =>
    rw [Chat.run_viewConversation]
    exact hsame
  | none =>
    refine Chat.store_read (Chat.run_hasBlock b a) hsame fun _ _ => ?_
    refine Chat.store_read (Chat.run_rejectIf _ _) hsame fun _ _ => ?_
    have hread : ∀ (saved : Chat.ConversationWithMembers) (t : Chat.Db), (Prog.run Chat.exec (do
        let flags ← Chat.blockFlagsForConversation saved a
        return Chat.toConversationView saved a 0 none flags) t).2 = t := by
      intro saved t
      rw [Prog.run_bind_ok Chat.exec (Chat.run_blockFlagsForConversation saved a)]
      rfl
    rw [Chat.store_then_read hread, Prog.run_perform]
    simp only [Chat.exec]
    split
    · exact hsame
    · exact (created_conversation rfl).1

theorem createGroup_told (a : UserId) (name : Text) (ids : List UserId) (db : Chat.Db) :
    SameMembersBut db.nextId db (Prog.run Chat.exec (Chat.createGroup a name ids) db).2 ∧
      ∀ view db', Prog.run Chat.exec (Chat.createGroup a name ids) db = (.ok view, db') →
        view.id = db.nextId ∧ Told db' view.id (ChatController.viewMemberIds view) := by
  have hsame : SameMembersBut db.nextId db db := (SameMembers.refl db).but _
  let tx : Chat.Call := .createGroupTx a ((ids.filter fun id => id ≠ a).eraseDups) (Js.trim name)
  have hcreated : ∀ r db', Chat.exec tx db = (r, db') → SameMembersBut db.nextId db db' ∧
      ∀ cv, r = .ok cv → cv.id = db.nextId ∧
        Told db' db.nextId ((Chat.activeMembers cv.members).map Chat.ConversationMember.userId) :=
    fun _ _ h => created_conversation h
  constructor
  · unfold Chat.createGroup
    refine Chat.store_read (Chat.run_rejectIf _ _) hsame fun _ _ => ?_
    refine Chat.store_read (Chat.run_rejectIf _ _) hsame fun _ _ => ?_
    refine Chat.store_read (Chat.run_rejectIf _ _) hsame fun _ _ => ?_
    rw [Chat.store_then_read fun _ _ => rfl, Prog.run_perform]
    exact (hcreated _ _ rfl).1
  · intro view db' hrun
    unfold Chat.createGroup at hrun
    obtain ⟨_, hrun⟩ := Chat.run_rejectIf_ok hrun
    obtain ⟨_, hrun⟩ := Chat.run_rejectIf_ok hrun
    obtain ⟨_, hrun⟩ := Chat.run_rejectIf_ok hrun
    obtain ⟨saved, t, hsaved, hrun⟩ := Prog.run_bind_inv _ hrun
    cases hrun
    rw [Prog.run_perform] at hsaved
    obtain ⟨hid, htold⟩ := (hcreated _ _ hsaved).2 saved rfl
    refine ⟨hid, ?_⟩
    rw [viewMemberIds_toConversationView]
    change Told db' saved.id _
    rw [hid]
    exact htold

/-! ## Requests that return the members -/

/-- A request that begins by loading the conversation for one of its members. -/
theorem membership_of_ok {f : Chat.ConversationWithMembers → Chat.M α} {a : α}
    (h : Prog.run Chat.exec (Chat.requireMembership v u >>= f) db = (.ok a, db')) :
    ∃ cv, db.membership v u = .ok cv ∧ Prog.run Chat.exec (f cv) db = (.ok a, db') := by
  obtain ⟨cv, t, hcv, hrest⟩ := Prog.run_bind_inv _ h
  rw [Chat.run_requireMembership] at hcv
  cases (Prod.mk.inj hcv).2
  exact ⟨cv, (Prod.mk.inj hcv).1, hrest⟩

theorem markSeen_told (hdb : Kept db) {m : Option MessageId} {result : Chat.SeenResultView}
    (h : Prog.run Chat.exec (Chat.markSeen v u m) db = (.ok result, db')) : Told db' v result.recipientIds := by
  have hsame := sameMembers_markSeen hdb v u m
  rw [h] at hsame
  obtain ⟨cv, hcv, h⟩ := membership_of_ok h
  obtain ⟨_, _, _, h⟩ := Prog.run_bind_inv _ h
  obtain ⟨_, _, _, h⟩ := Prog.run_bind_inv _ h
  obtain ⟨_, _, _, h⟩ := Prog.run_bind_inv _ h
  obtain ⟨_, _, _, h⟩ := Prog.run_bind_inv _ h
  cases h
  exact (told_recipientIds hcv).same hsame

theorem deleteMessage_told {m : MessageId} {forEveryone : Bool} {result : Chat.DeleteMessageResult}
    (h : Prog.run Chat.exec (Chat.deleteMessage v m u forEveryone) db = (.ok result, db'))
    (hall : result.forEveryone = true) : Told db' v result.recipientIds := by
  have hsame := sameMembers_deleteMessage v m u forEveryone db
  rw [h] at hsame
  obtain ⟨cv, hcv, h⟩ := membership_of_ok h
  obtain ⟨_, _, _, h⟩ := Prog.run_bind_inv _ h
  obtain ⟨x, _, _, h⟩ := Prog.run_bind_inv _ h
  have hids : result.recipientIds = Chat.recipientIds cv := by
    cases forEveryone with
    | true =>
      simp only [if_true, Chat.deleteForEveryone] at h
      obtain ⟨_, _, _, h⟩ := Prog.run_bind_inv _ h
      split at h
      · obtain ⟨_, _, _, h⟩ := Prog.run_bind_inv _ h
        cases h
        rfl
      · obtain ⟨_, _, _, h⟩ := Prog.run_bind_inv _ h
        obtain ⟨_, _, _, h⟩ := Prog.run_bind_inv _ h
        obtain ⟨_, _, _, h⟩ := Prog.run_bind_inv _ h
        obtain ⟨_, _, _, h⟩ := Prog.run_bind_inv _ h
        obtain ⟨_, _, _, h⟩ := Prog.run_bind_inv _ h
        cases h
        rfl
    | false =>
      simp only [Bool.false_eq_true, if_false] at h
      obtain ⟨_, _, _, h⟩ := Prog.run_bind_inv _ h
      obtain ⟨_, _, _, h⟩ := Prog.run_bind_inv _ h
      cases h
      cases hall
  rw [hids]
  exact (told_recipientIds hcv).same hsame

end Relay.Gateway.ChatGateway
