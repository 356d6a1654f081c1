import Relay.Chat.Verify.Batches

/-!
# The dates of conversations

`lastMessageAt` is the date of a message that had been stored when it was set, so the clock has passed it.
A request that saves a conversation with another change saves the date that it has loaded.
-/

namespace Relay.Chat

open Relay.Lib Relay.Lib.Rows Prog

/-- The clock has passed the date, as JavaScript sees it. -/
def Past (now : Time) (date : Option Time) : Prop := ∀ t, date = some t → t ≤ jsDate now

theorem Past.later {now later : Time} {date : Option Time} (h : Past now date) (hle : now ≤ later) :
    Past later date := fun t ht => Nat.le_trans (h t ht) (jsDate_mono hle)

theorem past_none (now : Time) : Past now none := nofun

def Db.Dated (db : Db) : Prop := ∀ c ∈ db.conversations, Past db.now c.lastMessageAt

/-- A conversation is saved with a date that has passed. -/
def SavesDated (s : Db) : Call → Prop
  | .saveConversation c => Past s.now c.lastMessageAt
  | _ => True

/-- Calls that save no conversation. -/
def SavesNone : Call → Prop
  | .saveConversation _ => False
  | _ => True

theorem SavesNone.dated {c : Call} (h : SavesNone c) (s : Db) : SavesDated s c := by
  cases c <;> first | exact trivial | exact h.elim

theorem QuietCall.savesNone {c : Call} (h : QuietCall c) : SavesNone c := by
  cases c <;> first | exact trivial | exact h.elim

theorem Minor.savesNone {c : Call} (h : Minor c) : SavesNone c := by
  cases c <;> first | exact trivial | exact h.elim

variable {s t : Db}

theorem Db.Dated.of_conversations (h : s.Dated)
    (hrows : ∀ c ∈ t.conversations, c ∈ s.conversations ∨ c.lastMessageAt = none) (hnow : s.now ≤ t.now) :
    t.Dated := by
  intro c hc
  obtain hc | hnone := hrows c hc
  · exact (h c hc).later hnow
  · rw [hnone]
    exact past_none t.now

theorem dated_insertMembers {type : ConversationType} {name key : Option Text} {a : UserId} {c : ConversationId}
    {us : List (UserId × ConversationMemberRole)} (h : s.Dated)
    (ht : (s.insertConversation type name a key).insertMembers c us = some t) : t.Dated := by
  obtain ⟨rows, rfl, _, _⟩ := Db.insertMembers_eq_some ht
  refine h.of_conversations (fun c hc => ?_) (Nat.le_refl _)
  obtain hc | hc := List.mem_append.mp hc
  · exact .inl hc
  · rw [List.mem_singleton.mp hc]
    exact .inr rfl

theorem Db.Dated.exec (h : s.Dated) {c : Call} (hsave : SavesDated s c) : (exec c s).2.Dated := by
  have hquiet : ∀ c, QuietCall c → (Chat.exec c s).2.Dated := fun c hc =>
    h.of_conversations (fun c' hc' => .inl ((hc.exec s).1 ▸ hc')) (Nat.le_of_eq (exec_now c s).symm)
  cases c with
  | createPrivateTx a b key => exact after_createPrivateTx h fun t ht => dated_insertMembers h ht
  | createGroupTx a ids name => exact after_createGroupTx h fun t ht => dated_insertMembers h ht
  | saveConversation cv =>
    simp only [Chat.exec]
    split
    · intro c hc
      obtain ⟨row, hrow, rfl⟩ := List.mem_map.mp hc
      split
      · exact hsave
      · exact h row hrow
    · exact h
  | softDeleteConversation id =>
    intro c hc
    obtain ⟨row, hrow, rfl⟩ := List.mem_map.mp hc
    split <;> exact h row hrow
  | saveMember m =>
    refine after_saveMember h fun t ht => ?_
    rw [Db.saveMember_eq_some ht]
    exact h
  | saveMembers ms =>
    refine after_saveMembers h fun t ht => ?_
    obtain ⟨rows, rfl, _⟩ := Db.saveMembers_eq_some ht
    exact h
  | insertMember c u role =>
    refine after_insertMember h fun t ht => ?_
    rw [Db.insertMember_eq_some ht]
    exact h
  | insertMessage d => exact h
  | saveMessage m => exact h
  | _ => exact hquiet _ trivial

/-! ## The programs -/

/-- The clock goes on. -/
abbrev Ticks (s t : Db) : Prop := s.now ≤ t.now

/-- Conversations are saved with dates that have passed, whatever other requests do in between. -/
abbrev Datedly {α : Type} (Q : α → Db → Prop) (p : M α) (s : Db) : Prop :=
  Guards exec Db.Dated Ticks SavesDated Q p s

theorem ticks_refl (s : Db) : Ticks s s := Nat.le_refl _

theorem ticks_trans (s t u : Db) (h : Ticks s t) (h' : Ticks t u) : Ticks s u := Nat.le_trans h h'

theorem ticks_exec (c : Call) (s : Db) : Ticks s (exec c s).2 := Nat.le_of_eq (exec_now c s).symm

section Programs

variable {α β : Type}

theorem datedly_of_uses {p : M α} (h : Uses SavesNone p) (s : Db) : Datedly (fun _ _ => True) p s :=
  guards_of_sat (fun s _ _ hc => ⟨hc.dated s, trivial⟩) h s

theorem datedly_skip {p : M α} {f : α → M β} {Q : β → Db → Prop} (hp : Uses SavesNone p)
    (hf : ∀ a t, Datedly Q (f a) t) : Datedly Q (p >>= f) s :=
  guards_bind (datedly_of_uses hp s) fun a t _ => hf a t

theorem savesNone_read (c : Call) (h : ReadCall c) : SavesNone c := h.minor.savesNone

theorem savesNone_membership (c : ConversationId) (u : UserId) : Uses SavesNone (requireMembership c u) :=
  uses_requireMembership savesNone_read c u

/-- The new message has just been dated. -/
theorem datedly_store {d : MessageDraft} {cv : ConversationWithMembers} {f : Unit → Message → M β} (s : Db)
    (hf : ∀ u m, Uses SavesNone (f u m)) : Datedly (fun _ _ => True)
      (perform (.insertMessage d) >>= fun saved => touchConversation cv saved >>= fun u => f u saved) s := by
  refine guards_bind (Q := fun (saved : Message) t => saved.createdAt ≤ t.now)
    (guards_perform fun s' _ _ => ⟨trivial, ?_⟩) fun saved t hsaved => ?_
  · rintro saved ⟨⟩
    exact Nat.le_refl _
  · refine guards_bind (Q := fun _ _ => True) (guards_perform fun s' _ hle => ⟨?_, fun _ _ => trivial⟩)
      fun u t' _ => datedly_of_uses (hf u saved) t'
    rintro x ⟨⟩
    exact jsDate_mono (Nat.le_trans hsaved hle)

/-- The conversation that is loaded is saved with its date. -/
theorem datedly_membership {c : ConversationId} {u : UserId} {f : ConversationWithMembers → M β}
    {Q : β → Db → Prop} (hf : ∀ cv t, Past t.now cv.lastMessageAt → Datedly Q (f cv) t) :
    Datedly Q (requireMembership c u >>= f) s := by
  have hload : Datedly (fun (found : Option ConversationWithMembers) t =>
      ∀ cv, found = some cv → Past t.now cv.lastMessageAt) (perform (.findConversation c)) s := by
    refine guards_perform fun s' hI _ => ⟨trivial, ?_⟩
    rintro found ⟨⟩ cv hcv
    obtain ⟨row, hrow, rfl⟩ := Option.map_eq_some_iff.mp hcv
    exact hI row (Db.findConversation_eq_some hrow).1
  refine guards_bind (Q := fun cv t => Past t.now cv.lastMessageAt)
    (guards_bind hload fun found t hfound => ?_) hf
  cases found with
  | none => trivial
  | some cv =>
    show Datedly _ (require (findActive cv.members u) _ >>= _) t
    cases findActive cv.members u with
    | none => trivial
    | some m => exact hfound cv rfl

theorem datedly_rejectIf {P : Prop} [Decidable P] {e : RpcError} {f : Unit → M β} {Q : β → Db → Prop}
    (h : Datedly Q (f ()) s) : Datedly Q (rejectIf P e >>= f) s := by
  unfold rejectIf
  split
  · trivial
  · exact h

theorem datedly_saveConversation {cv : ConversationWithMembers} {f : Unit → M β}
    (h : Past s.now cv.lastMessageAt) (hf : ∀ u, Uses SavesNone (f u)) :
    Datedly (fun _ _ => True) (perform (.saveConversation cv) >>= f) s :=
  guards_bind (Q := fun _ _ => True) (guards_perform fun _ _ hle => ⟨h.later hle, fun _ _ => trivial⟩)
    fun u t _ => datedly_of_uses (hf u) t

theorem datedly_sendMessage (payload : SendMessage) (s : Db) :
    Datedly (fun _ _ => True) (sendMessage payload) s := by
  refine datedly_skip (uses_rejectIf _ _) fun _ s₁ => datedly_skip (uses_require _ _) fun type s₂ => ?_
  split
  · refine datedly_skip (uses_rejectIf _ _) fun _ s₃ => datedly_skip (uses_rejectIf _ _) fun _ s₄ =>
      datedly_skip (savesNone_membership _ _) fun cv s₅ => ?_
    exact datedly_store s₅ fun _ _ => trivial
  · refine datedly_skip (savesNone_membership _ _) fun cv s₃ =>
      datedly_skip (uses_resolvePrivateDelivery savesNone_read _ _) fun delivery s₄ =>
        datedly_skip (uses_rejectIf _ _) fun _ s₅ => ?_
    refine datedly_skip (uses_replyTarget (fun _ _ => trivial) _ _) fun replyTo s₆ =>
      datedly_skip (uses_perform trivial) fun now s₇ => datedly_store s₇ fun _ _ => ?_
    exact uses_bind (uses_recordAudit (fun _ _ _ _ _ => trivial) _ _ _ _ _) fun _ => trivial

theorem datedly_forwardMessage (actorId : UserId) (source target : ConversationId) (m : MessageId) (s : Db) :
    Datedly (fun _ _ => True) (forwardMessage actorId source target m) s := by
  refine datedly_skip (savesNone_membership _ _) fun src s₁ => datedly_skip (savesNone_membership _ _) fun cv s₂ =>
    datedly_skip (uses_perform trivial) fun found s₃ => datedly_skip (uses_require _ _) fun x s₄ => ?_
  refine datedly_skip (uses_rejectIf _ _) fun _ s₅ =>
    datedly_skip (uses_resolvePrivateDelivery savesNone_read _ _) fun delivery s₆ => ?_
  exact datedly_skip (uses_rejectIf _ _) fun _ s₇ => datedly_skip (uses_perform trivial) fun now s₈ =>
    datedly_store s₈ fun _ _ => trivial

theorem datedly_setDisappearingMessages (c : ConversationId) (actorId : UserId) (n : Nat) (s : Db) :
    Datedly (fun _ _ => True) (setDisappearingMessages c actorId n) s := by
  refine datedly_membership fun cv t ht => datedly_rejectIf (datedly_rejectIf ?_)
  exact datedly_saveConversation ht fun _ => uses_bind (uses_recordAudit (fun _ _ _ _ _ => trivial) _ _ _ _ _)
    fun _ => uses_getConversation savesNone_read _ _

theorem datedly_updateGroup (c : ConversationId) (actorId : UserId) (name : Text) (s : Db) :
    Datedly (fun _ _ => True) (updateGroup c actorId name) s := by
  refine datedly_membership fun cv t ht => ?_
  rw [assertGroupAdmin, bind_assoc']
  refine datedly_rejectIf (datedly_rejectIf (datedly_rejectIf ?_))
  exact datedly_saveConversation ht fun _ => uses_getConversation savesNone_read _ _

theorem datedly_dispatchScheduled (row : ScheduledMessage) (s : Db) :
    Datedly (fun _ _ => True) (dispatchScheduled row) s := by
  refine datedly_skip (uses_perform trivial) fun claimed t => ?_
  split
  · trivial
  · have hsend := (datedly_sendMessage row.toPayload t).attempt ticks_trans
      (fun v c _ _ => ticks_exec c v) (ticks_refl t)
    exact guards_bind hsend fun outcome t' _ => datedly_of_uses (uses_settle (fun _ _ _ => trivial) outcome) t'

theorem datedly_collect {f : α → M (Option β)} (hf : ∀ a t, Datedly (fun _ _ => True) (f a) t) (as : List α)
    (s : Db) : Datedly (fun _ _ => True) (collect f as) s := by
  induction as generalizing s with
  | nil => trivial
  | cons a as ih => exact guards_bind (hf a s) fun b t _ => guards_bind (ih t) fun bs t' _ => trivial

/-- Four requests and the background job save conversations. -/
theorem Op.datedly (op : Op) (s : Db) : Datedly (fun _ _ => True) op.program s := by
  have map {α : Type} {p : M α} (f : α → Response) (h : Datedly (fun _ _ => True) p s) :
      Datedly (fun _ _ => True) (f <$> p) s := guards_bind h fun _ _ _ => trivial
  have none {α : Type} {p : M α} (f : α → Response) (h : Uses SavesNone p) :
      Datedly (fun _ _ => True) (f <$> p) s := map f (datedly_of_uses h s)
  have quiet {α : Type} {p : M α} (f : α → Response) (h : Quiet p) :
      Datedly (fun _ _ => True) (f <$> p) s := none f (h.mono (fun _ _ h => h) fun _ h => h.savesNone)
  have hread := savesNone_read
  have hminor : ∀ c, Minor c → SavesNone c := fun _ h => h.savesNone
  have hmember : ∀ m, SavesNone (.saveMember m) := fun _ => trivial
  have hmessage : ∀ m, SavesNone (.saveMessage m) := fun _ => trivial
  cases op with
  | createPrivate a b => exact none _ (uses_createPrivate hread (fun _ _ _ => trivial) a b)
  | createGroup a name ids => exact none _ (uses_createGroup (fun _ _ _ => trivial) a name ids)
  | listConversations a page => exact none _ (uses_listConversations hread a page)
  | getConversation c a => exact none _ (uses_getConversation hread c a)
  | listMessages c a page => exact none _ (uses_listMessages hread c a page)
  | searchMessages c a query page => exact none _ (uses_searchMessages hread c a query page)
  | searchGlobal a query page => exact none _ (uses_searchGlobal hread a query page)
  | listMedia c a kind page => exact none _ (uses_listMedia hread c a kind page)
  | getMessage c m a => exact none _ (uses_getMessage hread (fun _ _ => trivial) c m a)
  | listPinnedMessages c a => exact none _ (uses_listPinnedMessages hread c a)
  | sendMessage payload => exact map _ (datedly_sendMessage payload s)
  | forwardMessage a source target m => exact map _ (datedly_forwardMessage a source target m s)
  | editMessage c m a body => exact none _ (uses_editMessage hminor hmessage c m a body)
  | reactMessage c m a emoji => exact quiet _ (quiet_reactMessage c m a emoji)
  | pinMessage c m a pinned => exact none _ (uses_pinMessage hminor hmessage c m a pinned)
  | deleteMessage c m a forEveryone => exact none _ (uses_deleteMessage hminor hmessage c m a forEveryone)
  | expireDueMessages => exact none _ (uses_expireDueMessages hminor hmessage)
  | scheduleMessage payload => exact quiet _ (quiet_scheduleMessage payload)
  | listScheduledMessages c a => exact none _ (uses_listScheduledMessages hread c a)
  | cancelScheduledMessage c id a => exact quiet _ (quiet_cancelScheduledMessage c id a)
  | dispatchDueScheduled =>
    exact map _ <| datedly_skip (uses_perform trivial) fun now t₁ => datedly_skip (uses_perform trivial)
      fun due t₂ => datedly_collect datedly_dispatchScheduled due t₂
  | pinConversation c a pinned => exact none _ (uses_updateMembership hread hmember c a _)
  | muteConversation c a muted => exact none _ (uses_updateMembership hread hmember c a _)
  | markSeen c a m => exact none _ (uses_markSeen hread hmember (fun _ _ => trivial) c a m)
  | setDisappearingMessages c a n => exact map _ (datedly_setDisappearingMessages c a n s)
  | addMembers c a ids => exact none _ (uses_addMembers hmember (fun _ _ _ => trivial) hread c a ids)
  | removeMember c a u => exact none _ (uses_removeMember hread hmember c a u)
  | setMemberRole c a u role => exact none _ (uses_setMemberRole hread hmember c a u role)
  | leave c a => exact none _ (uses_leave hread hmember c a)
  | updateGroup c a name => exact map _ (datedly_updateGroup c a name s)
  | deleteGroup c a => exact none _ (uses_deleteGroup hread (fun _ => trivial) (fun _ => trivial) c a)
  | blockUser a u => exact quiet _ (quiet_blockUser a u)
  | unblockUser a u => exact quiet _ (quiet_bind (quiet_perform trivial) fun _ => trivial)
  | listBlocks a => exact quiet _ (quiet_bind (quiet_perform trivial) fun _ => trivial)
  | prepareVoiceCall c a => exact none _ (uses_prepareVoiceCall hread c a)
  | getAnalytics => exact none _ (uses_getAnalytics hread)
  | listAuditEvents page => exact quiet _ (quiet_bind (quiet_perform trivial) fun _ => trivial)
  | logAudit a action type id info => exact quiet _ (quiet_bind (quiet_perform trivial) fun _ => trivial)
  | getWorkspaceSettings => exact quiet _ quiet_getWorkspaceSettings
  | updateWorkspaceSettings a n t p l => exact quiet _ (quiet_updateWorkspaceSettings a n t p l)

end Programs

theorem Db.Dated.wait (h : s.Dated) (d : Nat) : (s.wait d).Dated :=
  h.of_conversations (fun _ hc => .inl hc) (Nat.le_add_right _ _)

/-- No conversation has a date that is still to come. -/
theorem Reachable.dated (hs : Reachable s) : s.Dated := by
  obtain ⟨now, timeZone, es, rfl⟩ := hs
  exact Pool.invariant ticks_refl ticks_trans
    (fun v c h hc => ⟨h.exec hc, ticks_exec c v⟩) (fun d v h => ⟨h.wait d, Nat.le_add_right _ _⟩)
    (fun op v _ => op.datedly v) (fun c hc => absurd hc List.not_mem_nil) es

end Relay.Chat
