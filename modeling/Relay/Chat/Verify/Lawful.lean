import Relay.Chat.Verify.Footprint
import Relay.Chat.Verify.Invariant

/-!
# The service makes lawful calls

Every operation calls the repositories lawfully, however the calls of other operations fall between
its own, so the invariant holds in every database the interleaved service reaches (`Reachable.inv`).
Programs that leave the tables of conversations, members and messages alone (`Quiet`) need no
argument; in the others the facts a row was loaded with are carried to the call that saves it.
-/

namespace Relay.Chat

open Relay.Lib Prog

/-! ## Quiet programs -/

/-- Calls that write no conversation, member or message. -/
def QuietCall : Call → Prop
  | .createPrivateTx _ _ _ | .createGroupTx _ _ _ | .saveConversation _
  | .softDeleteConversation _ | .saveMember _ | .saveMembers _ | .insertMember _ _ _
  | .insertMessage _ | .saveMessage _ => False
  | _ => True

theorem ReadCall.quiet {c : Call} (h : ReadCall c) : QuietCall c := by
  cases c <;> first | exact trivial | exact h.elim

theorem QuietCall.lawful {c : Call} (h : QuietCall c) (s : Db) : Lawful s c := by
  cases c <;> first | exact trivial | exact h.elim

theorem QuietCall.exec {c : Call} (h : QuietCall c) (s : Db) :
    (exec c s).2.conversations = s.conversations ∧ (exec c s).2.members = s.members ∧
      (exec c s).2.messages = s.messages := by
  cases c with
  | insertHide m u =>
    simp only [Chat.exec]
    split <;> exact ⟨rfl, rfl, rfl⟩
  | insertReaction m u emoji =>
    simp only [Chat.exec]
    split <;> exact ⟨rfl, rfl, rfl⟩
  | insertBlock a b =>
    simp only [Chat.exec]
    split <;> exact ⟨rfl, rfl, rfl⟩
  | _ => first | exact ⟨rfl, rfl, rfl⟩ | exact h.elim

/-- Two calls write messages. -/
theorem exec_messages {c : Call} (hinsert : ∀ d, c ≠ .insertMessage d) (hsave : ∀ m, c ≠ .saveMessage m)
    (s : Db) : (exec c s).2.messages = s.messages := by
  by_cases hseating : SeatingCall c
  · obtain ⟨_, _, _, heq⟩ := hseating.exec s
    rw [heq]
  · refine (QuietCall.exec ?_ s).2.2
    cases c <;> first
      | exact trivial | exact (hseating trivial).elim | exact hinsert _ rfl | exact hsave _ rfl

/-- The messages found to be due are stored, and not deleted for everyone. -/
theorem mem_due (s : Db) (before : Time) {due : List Message}
    (hdue : (exec (.findDueMessages before) s).1 = .ok due) {m : Message} (hm : m ∈ due) :
    m ∈ s.messages ∧ m.deletedForEveryoneAt = none := by
  obtain rfl := Except.ok.inj hdue
  have hm := (List.mem_insertionSort _).mp (List.mem_of_mem_take hm)
  obtain ⟨hstored, hdue⟩ := List.mem_filter.mp hm
  simp only [Bool.and_eq_true, beq_iff_eq] at hdue
  exact ⟨hstored, hdue.2⟩

/-- Calls that write no messages. -/
def MessageFree : Call → Prop
  | .insertMessage _ | .saveMessage _ => False
  | _ => True

theorem run_messages {α : Type} {p : M α} (hp : Uses MessageFree p) :
    (run exec p s).2.messages = s.messages := by
  refine Sat.preserves (I := fun v : Db => v.messages = s.messages) (fun v c hc hv => ?_) hp rfl
  have hexec : (exec c v).2.messages = v.messages := by
    refine exec_messages ?_ ?_ v
    · rintro d rfl
      exact hc
    · rintro m rfl
      exact hc
  exact hexec.trans hv

/-- All calls of the program are quiet. -/
abbrev Quiet {α : Type} (p : M α) : Prop := Sat (fun _ _ => True) QuietCall p

section Quiet

variable {α β : Type}

theorem quiet_bind {p : M α} {f : α → M β} (hp : Quiet p) (hf : ∀ a, Quiet (f a)) :
    Quiet (p >>= f) := sat_bind hp hf

/-- Run alone, a quiet program leaves conversations, members and messages as they are. -/
theorem Quiet.run {p : M α} (hp : Quiet p) (s : Db) :
    (run exec p s).2.conversations = s.conversations ∧ (run exec p s).2.members = s.members ∧
      (run exec p s).2.messages = s.messages := by
  refine Sat.preserves (I := fun t : Db => t.conversations = s.conversations ∧ t.members = s.members ∧
    t.messages = s.messages) (fun t c hc ht => ?_) hp ⟨rfl, rfl, rfl⟩
  obtain ⟨hconversations, hmembers, hmessages⟩ := hc.exec t
  exact ⟨hconversations.trans ht.1, hmembers.trans ht.2.1, hmessages.trans ht.2.2⟩

theorem Quiet.map {p : M α} (f : α → β) (hp : Quiet p) : Quiet (f <$> p) :=
  quiet_bind hp fun _ => trivial

theorem quiet_perform {c : Call} (h : QuietCall c) : Quiet (perform c) := sat_perform h

theorem quiet_rejectIf (P : Prop) [Decidable P] (e : RpcError) : Quiet (rejectIf P e) := by
  unfold rejectIf
  split <;> trivial

theorem quiet_require (a : Option α) (e : RpcError) : Quiet (require a e) := by
  cases a <;> trivial

theorem quiet_ite {P : Prop} [Decidable P] {p q : M α} (hp : Quiet p) (hq : Quiet q) :
    Quiet (if P then p else q) := by
  split
  · exact hp
  · exact hq

theorem quiet_recordAudit (actorId : UserId) (action : String) (type id : Option Text)
    (info : AuditMeta) : Quiet (recordAudit actorId action type id info) :=
  quiet_bind (quiet_perform trivial) fun _ => trivial

theorem quiet_requireMembership (c : ConversationId) (actorId : UserId) :
    Quiet (requireMembership c actorId) := uses_requireMembership (fun _ h => h.quiet) c actorId

theorem quiet_resolvePrivateDelivery (cv : ConversationWithMembers) (actorId : UserId) :
    Quiet (resolvePrivateDelivery cv actorId) :=
  uses_resolvePrivateDelivery (fun _ h => h.quiet) cv actorId

theorem quiet_blockFlagsForConversation (cv : ConversationWithMembers) (actorId : UserId) :
    Quiet (blockFlagsForConversation cv actorId) :=
  uses_blockFlagsForConversation (fun _ h => h.quiet) cv actorId

theorem quiet_loadReplyTo (m : Message) : Quiet (loadReplyTo m) :=
  uses_loadReplyTo (fun _ h => h.quiet) m

theorem quiet_viewOne (m : Message) (cv : ConversationWithMembers) (actorId : UserId) :
    Quiet (viewOne m cv actorId) := uses_viewOne (fun _ h => h.quiet) m cv actorId

theorem quiet_viewConversation (cv : ConversationWithMembers) (actorId : UserId) :
    Quiet (viewConversation cv actorId) := uses_viewConversation (fun _ h => h.quiet) cv actorId

theorem quiet_getConversation (c : ConversationId) (actorId : UserId) :
    Quiet (getConversation c actorId) := uses_getConversation (fun _ h => h.quiet) c actorId

theorem quiet_toggleReaction (m : MessageId) (actorId : UserId) (emoji : Text) :
    Quiet (toggleReaction m actorId emoji) := by
  refine quiet_bind (quiet_perform trivial) fun existing => ?_
  cases existing <;> exact quiet_perform trivial

theorem quiet_reactMessage (c : ConversationId) (m : MessageId) (actorId : UserId)
    (emoji : Text) : Quiet (reactMessage c m actorId emoji) :=
  quiet_bind (quiet_requireMembership _ _) fun _ => quiet_bind (quiet_rejectIf _ _) fun _ =>
    quiet_bind (quiet_perform trivial) fun _ => quiet_bind (quiet_require _ _) fun _ =>
      quiet_bind (quiet_rejectIf _ _) fun _ => quiet_bind (quiet_toggleReaction _ _ _) fun _ =>
        quiet_bind (quiet_viewOne _ _ _) fun _ => trivial

theorem quiet_hideMessage (m : MessageId) (actorId : UserId) : Quiet (hideMessage m actorId) :=
  quiet_bind (quiet_perform trivial) fun _ => quiet_ite (quiet_perform trivial) trivial

theorem quiet_scheduleMessage (payload : ScheduleMessage) : Quiet (scheduleMessage payload) := by
  refine quiet_bind (quiet_rejectIf _ _) fun _ => quiet_bind (quiet_require _ _) fun _ =>
    quiet_bind (quiet_rejectIf _ _) fun _ => quiet_bind (quiet_require _ _) fun _ =>
      quiet_bind (quiet_perform trivial) fun _ => quiet_bind (quiet_rejectIf _ _) fun _ =>
        quiet_bind (quiet_rejectIf _ _) fun _ => quiet_bind (quiet_requireMembership _ _) fun cv =>
          quiet_bind (quiet_resolvePrivateDelivery _ _) fun _ => quiet_bind (quiet_rejectIf _ _) fun _ =>
            quiet_bind (quiet_perform trivial) fun _ => quiet_bind (quiet_rejectIf _ _) fun _ =>
              quiet_bind ?_ fun _ => quiet_bind (quiet_perform trivial) fun _ =>
                quiet_bind (quiet_recordAudit _ _ _ _ _) fun _ => trivial
  unfold checkScheduledReply
  split
  · trivial
  · exact quiet_bind (quiet_perform trivial) fun _ => quiet_rejectIf _ _

theorem quiet_cancelScheduledMessage (c : ConversationId) (id : Nat) (actorId : UserId) :
    Quiet (cancelScheduledMessage c id actorId) :=
  quiet_bind (quiet_requireMembership _ _) fun _ => quiet_bind (quiet_perform trivial) fun _ =>
    quiet_bind (quiet_require _ _) fun _ => quiet_bind (quiet_rejectIf _ _) fun _ =>
      quiet_bind (quiet_perform trivial) fun _ => quiet_bind (quiet_perform trivial) fun _ => trivial

theorem quiet_blockUser (actorId userId : UserId) : Quiet (blockUser actorId userId) := by
  refine quiet_bind (quiet_rejectIf _ _) fun _ => quiet_bind (quiet_perform trivial) fun existing => ?_
  cases existing with
  | none => exact quiet_bind (quiet_perform trivial) fun _ => trivial
  | some block => trivial

theorem quiet_getWorkspaceSettings : Quiet getWorkspaceSettings := by
  refine quiet_bind (quiet_perform trivial) fun found => ?_
  cases found with
  | none => exact quiet_bind (quiet_perform trivial) fun _ => trivial
  | some settings => trivial

theorem quiet_updateWorkspaceSettings (actorId : UserId) (n t p : Option Text)
    (l : Option (Option Text)) : Quiet (updateWorkspaceSettings actorId n t p l) :=
  quiet_bind (quiet_perform trivial) fun _ => quiet_bind (quiet_perform trivial) fun _ =>
    quiet_bind (quiet_recordAudit _ _ _ _ _) fun _ => trivial

end Quiet

/-! ## Programs that write -/

/-- All calls are lawful, whatever other operations do between them, and `Q` holds at the end. -/
abbrev Lawfully {α : Type} (Q : α → Db → Prop) (p : M α) (s : Db) : Prop :=
  Guards exec Inv Db.Grows Lawful Q p s

/-- A conversation as `requireMembership` returns it. -/
structure Db.Loaded (db : Db) (cv : ConversationWithMembers) : Prop where
  known : db.KnowsConversation cv.toConversation
  deletedAt : cv.deletedAt = none
  members : ∀ m ∈ cv.members, db.KnowsMember m ∧ m.conversationId = cv.id

theorem Db.Loaded.grows {s t : Db} {cv : ConversationWithMembers} (h : s.Loaded cv)
    (hst : s.Grows t) : t.Loaded cv :=
  ⟨h.known.grows hst, h.deletedAt, fun m hm => ⟨(h.members m hm).1.grows hst, (h.members m hm).2⟩⟩

section Lawfully

variable {α β : Type} {s : Db}

theorem lawfully_quiet {p : M α} (h : Quiet p) {s₀ : Db} (hs : s₀.Grows s) :
    Lawfully (fun _ t => s₀.Grows t) p s := by
  induction p generalizing s with
  | ret a => exact hs
  | fail e => trivial
  | call c k ih =>
    intro s' hI hle
    have hlaw := h.1.lawful s'
    exact ⟨hlaw, ih _ (h.2 _ trivial) (hs.trans (hle.trans (hlaw.grows hI.keyed)))⟩

/-- A call that writes. -/
theorem lawfully_write {c : Call} (h : ∀ s', s.Grows s' → Lawful s' c) :
    Lawfully (fun _ t => s.Grows t) (perform c) s :=
  guards_perform fun _ hI hle =>
    ⟨h _ hle, fun _ _ => hle.trans ((h _ hle).grows hI.keyed)⟩

/-- A call that reads, with a fact about the answer that stays true. -/
theorem lawfully_read {c : Call} (hc : QuietCall c) {F : c.Answer → Db → Prop}
    (hF : ∀ a s', (exec c s').1 = .ok a → F a s')
    (hstable : ∀ a t t', F a t → t.Grows t' → F a t') :
    Lawfully (fun a t => s.Grows t ∧ F a t) (perform c) s :=
  guards_perform fun s' hI hle =>
    have hgrows := (hc.lawful s').grows hI.keyed
    ⟨hc.lawful s', fun a ha => ⟨hle.trans hgrows, hstable a _ _ (hF a s' ha) hgrows⟩⟩

theorem lawfully_attempt {Q : α → Db → Prop} {p : M α} {s₀ : Db} (h : Lawfully Q p s)
    (hs : s₀.Grows s) : Lawfully (fun _ t => s₀.Grows t) p.attempt s :=
  h.attempt (fun _ _ _ => .trans) (fun _ _ hI hL => hL.grows hI.keyed) hs

theorem lawfully_rejectIf {P : Prop} [Decidable P] {e : RpcError} {f : Unit → M β}
    {Q : β → Db → Prop} (h : ¬ P → Lawfully Q (f ()) s) :
    Lawfully Q (rejectIf P e >>= f) s := by
  unfold rejectIf
  split
  · trivial
  · next hP => exact h hP

theorem lawfully_require {a : Option α} {e : RpcError} {f : α → M β} {Q : β → Db → Prop}
    (h : ∀ x, a = some x → Lawfully Q (f x) s) : Lawfully Q (require a e >>= f) s := by
  cases a with
  | none => trivial
  | some x => exact h x rfl

/-- A quiet part, of which only the end matters. -/
theorem lawfully_skip {p : M α} {f : α → M β} {Q : β → Db → Prop} (hp : Quiet p)
    (hf : ∀ a t, s.Grows t → Lawfully Q (f a) t) : Lawfully Q (p >>= f) s :=
  guards_bind (lawfully_quiet hp (.refl s)) hf

/-- A quiet part whose value is shaped into the result. -/
theorem lawfully_return {p : M α} {g : α → β} {s₀ : Db} (hp : Quiet p) (hs : s₀.Grows s) :
    Lawfully (fun _ t => s₀.Grows t) (p >>= fun a => .ret (g a)) s := by
  have hquiet : Quiet (p >>= fun a => .ret (g a)) := quiet_bind hp fun _ => trivial
  exact lawfully_quiet hquiet hs

theorem lawfully_requireMembership (c : ConversationId) (u : UserId) :
    Lawfully (fun cv t => s.Grows t ∧ t.Loaded cv ∧ cv.id = c) (requireMembership c u) s := by
  refine guards_bind (lawfully_read (c := .findConversation c) trivial
    (F := fun a t => ∀ cv, a = some cv → t.Loaded cv ∧ cv.id = c) ?_ ?_) fun a t ⟨hst, hF⟩ => ?_
  · rintro a s' ha cv rfl
    simp only [exec, Except.ok.injEq, Option.map_eq_some_iff] at ha
    obtain ⟨row, hrow, rfl⟩ := ha
    obtain ⟨hmem, hid, hdel⟩ := Db.findConversation_eq_some hrow
    refine ⟨⟨Db.knowsConversation_of_mem hmem, hdel, fun m hm => ?_⟩, hid⟩
    obtain ⟨hm, hconv⟩ := Db.mem_membersOf.mp hm
    exact ⟨Db.knowsMember_of_mem hm, hconv⟩
  · exact fun a t t' h htt' cv hcv => ⟨(h cv hcv).1.grows htt', (h cv hcv).2⟩
  · refine lawfully_require fun cv hcv => lawfully_require fun m _ => ?_
    obtain ⟨hloaded, hid⟩ := hF cv hcv
    exact ⟨hst, ⟨hloaded.known, hloaded.deletedAt, fun m hm =>
      hloaded.members m (mem_activeMembers.mp hm).1⟩, hid⟩

theorem lawfully_findMessage (m : MessageId) (c : ConversationId) :
    Lawfully (fun a t => s.Grows t ∧
      ∀ x, a = some x → t.KnowsMessage x ∧ x.id = m ∧ x.conversationId = c)
      (perform (.findMessage m c)) s := by
  refine lawfully_read (c := .findMessage m c) trivial ?_ ?_
  · rintro a s' ha x rfl
    obtain ⟨hmem, hid, hconv⟩ := findMessage_eq_some ha
    exact ⟨Db.knowsMessage_of_mem hmem, hid, hconv⟩
  · exact fun a t t' h htt' x hx => ⟨(h x hx).1.grows htt', (h x hx).2⟩

theorem lawfully_saveConversation {cv : ConversationWithMembers} {c' : Conversation}
    (h : s.Loaded cv) (ho : c'.origin = cv.toConversation.origin)
    (hdel : c'.deletedAt = none) :
    Lawfully (fun _ t => s.Grows t) (perform (.saveConversation ⟨c', cv.members⟩)) s :=
  lawfully_write fun s' hs' => ⟨by
    unfold Db.KnowsConversation
    rw [ho]
    exact (h.grows hs').known, hdel⟩

theorem lawfully_touch {cv : ConversationWithMembers} (h : s.Loaded cv) (saved : Message) :
    Lawfully (fun _ t => s.Grows t) (touchConversation cv saved) s :=
  lawfully_saveConversation h rfl h.deletedAt

theorem lawfully_replyTarget (cv : ConversationWithMembers) (r : Option MessageId) :
    Lawfully (fun a t => s.Grows t ∧ ∀ x, a = some x → t.HasMessage x.id cv.id)
      (replyTarget cv r) s := by
  unfold replyTarget
  split
  · exact ⟨.refl s, fun _ hx => nomatch hx⟩
  · refine guards_bind (lawfully_findMessage _ _) fun a t ⟨hst, hF⟩ =>
      lawfully_require fun x hx => lawfully_rejectIf fun _ => ⟨hst, ?_⟩
    rintro y ⟨⟩
    obtain ⟨hknown, _, hconv⟩ := hF x hx
    rw [← hconv]
    exact hknown.hasMessage

theorem lawfully_insertMessage {d : MessageDraft}
    (h : ∀ r, d.replyToMessageId = some r → s.HasMessage r d.conversationId) :
    Lawfully (fun _ t => s.Grows t) (perform (.insertMessage d)) s :=
  lawfully_write fun _ hs' r hr => (h r hr).grows hs'

theorem lawfully_saveMessage {m m' : Message} (h : s.KnowsMessage m) (ho : m'.origin = m.origin) :
    Lawfully (fun _ t => s.Grows t) (perform (.saveMessage m')) s :=
  lawfully_write fun s' hs' => by
    show m'.origin ∈ s'.messages.map Message.origin
    rw [ho]
    exact h.grows hs'

theorem lawfully_sendMessage (payload : SendMessage) :
    Lawfully (fun _ t => s.Grows t) (sendMessage payload) s := by
  refine lawfully_rejectIf fun _ => lawfully_require fun type _ => ?_
  split
  · refine lawfully_rejectIf fun _ => lawfully_rejectIf fun _ =>
      guards_bind (lawfully_requireMembership _ _) fun cv s₁ ⟨h₁, hcv, _⟩ => ?_
    refine guards_bind (lawfully_insertMessage fun _ hr => nomatch hr) fun saved s₂ h₂ => ?_
    refine guards_bind (lawfully_touch (hcv.grows h₂) saved) fun _ s₃ h₃ => ?_
    exact (h₁.trans h₂).trans h₃
  · refine guards_bind (lawfully_requireMembership _ _) fun cv s₁ ⟨h₁, hcv, _⟩ => ?_
    refine lawfully_skip (quiet_resolvePrivateDelivery _ _) fun delivery s₂ h₂ =>
      lawfully_rejectIf fun _ => ?_
    refine guards_bind (lawfully_replyTarget _ _) fun replyTo s₃ ⟨h₃, hreply⟩ => ?_
    refine lawfully_skip (quiet_perform trivial) fun now s₄ h₄ => ?_
    refine guards_bind (lawfully_insertMessage fun r hr => ?_) fun saved s₅ h₅ => ?_
    · obtain ⟨x, hx, rfl⟩ := Option.map_eq_some_iff.mp hr
      exact (hreply x hx).grows h₄
    · have h := ((h₁.trans h₂).trans h₃).trans (h₄.trans h₅)
      refine guards_bind (lawfully_touch (hcv.grows ((h₂.trans h₃).trans (h₄.trans h₅))) saved)
        fun _ s₆ h₆ => ?_
      exact lawfully_return (quiet_recordAudit _ _ _ _ _) (h.trans h₆)

theorem lawfully_forwardMessage (actorId : UserId) (source target : ConversationId)
    (m : MessageId) : Lawfully (fun _ t => s.Grows t) (forwardMessage actorId source target m) s := by
  refine lawfully_skip (quiet_requireMembership _ _) fun src s₁ h₁ => ?_
  refine guards_bind (lawfully_requireMembership _ _) fun cv s₂ ⟨h₂, hcv, _⟩ => ?_
  refine lawfully_skip (quiet_perform trivial) fun found s₃ h₃ =>
    lawfully_require fun x _ => lawfully_rejectIf fun _ => ?_
  refine lawfully_skip (quiet_resolvePrivateDelivery _ _) fun delivery s₄ h₄ =>
    lawfully_rejectIf fun _ => ?_
  refine lawfully_skip (quiet_perform trivial) fun now s₅ h₅ => ?_
  refine guards_bind (lawfully_insertMessage fun _ hr => nomatch hr) fun saved s₆ h₆ => ?_
  have h := (h₃.trans h₄).trans (h₅.trans h₆)
  refine guards_bind (lawfully_touch (hcv.grows h) saved) fun _ s₇ h₇ => ?_
  exact ((h₁.trans h₂).trans h).trans h₇

theorem lawfully_editMessage (c : ConversationId) (m : MessageId) (actorId : UserId)
    (body : Text) : Lawfully (fun _ t => s.Grows t) (editMessage c m actorId body) s := by
  refine lawfully_skip (quiet_requireMembership _ _) fun cv s₁ h₁ => ?_
  refine guards_bind (lawfully_findMessage _ _) fun found s₂ ⟨h₂, hfound⟩ =>
    lawfully_require fun x hx => lawfully_rejectIf fun _ => lawfully_rejectIf fun _ => ?_
  refine lawfully_skip (quiet_perform trivial) fun now s₃ h₃ => lawfully_rejectIf fun _ =>
    lawfully_rejectIf fun _ => ?_
  refine lawfully_skip (quiet_perform trivial) fun editedAt s₄ h₄ => ?_
  refine guards_bind (lawfully_saveMessage ((hfound x hx).1.grows (h₃.trans h₄)) rfl)
    fun _ s₅ h₅ => ?_
  exact lawfully_return (quiet_viewOne _ _ _)
    ((h₁.trans h₂).trans ((h₃.trans h₄).trans h₅))

theorem lawfully_setPinned {x : Message} (hx : s.KnowsMessage x) (c : ConversationId)
    (actorId : UserId) (pinned : Bool) :
    Lawfully (fun _ t => s.Grows t) (setPinned x c actorId pinned) s := by
  unfold setPinned
  split
  · split
    · refine lawfully_skip (quiet_perform trivial) fun count s₁ h₁ => lawfully_rejectIf fun _ => ?_
      refine lawfully_skip (quiet_perform trivial) fun now s₂ h₂ => ?_
      exact guards_bind (lawfully_saveMessage (hx.grows (h₁.trans h₂)) rfl) fun _ s₃ h₃ =>
        (h₁.trans h₂).trans h₃
    · exact Db.Grows.refl s
  · split
    · exact guards_bind (lawfully_saveMessage hx rfl) fun _ s₁ h₁ => h₁
    · exact Db.Grows.refl s

theorem lawfully_pinMessage (c : ConversationId) (m : MessageId) (actorId : UserId)
    (pinned : Bool) : Lawfully (fun _ t => s.Grows t) (pinMessage c m actorId pinned) s := by
  refine lawfully_skip (quiet_requireMembership _ _) fun cv s₁ h₁ => ?_
  refine guards_bind (lawfully_findMessage _ _) fun found s₂ ⟨h₂, hfound⟩ =>
    lawfully_require fun x hx => lawfully_rejectIf fun _ => lawfully_rejectIf fun _ => ?_
  refine guards_bind (lawfully_setPinned (hfound x hx).1 _ _ _) fun _ s₃ h₃ => ?_
  exact lawfully_return (quiet_viewOne _ _ _)
    ((h₁.trans h₂).trans h₃)

theorem lawfully_deleteMessage (c : ConversationId) (m : MessageId) (actorId : UserId)
    (forEveryone : Bool) :
    Lawfully (fun _ t => s.Grows t) (deleteMessage c m actorId forEveryone) s := by
  refine lawfully_skip (quiet_requireMembership _ _) fun cv s₁ h₁ => ?_
  refine guards_bind (lawfully_findMessage _ _) fun found s₂ ⟨h₂, hfound⟩ =>
    lawfully_require fun x hx => ?_
  have h := h₁.trans h₂
  split
  · refine lawfully_rejectIf fun _ => ?_
    split
    · exact lawfully_return (quiet_viewOne _ _ _) h
    · refine lawfully_skip (quiet_perform trivial) fun now s₃ h₃ => lawfully_rejectIf fun _ => ?_
      refine lawfully_skip (quiet_perform trivial) fun deletedAt s₄ h₄ => ?_
      refine guards_bind (lawfully_saveMessage ((hfound x hx).1.grows (h₃.trans h₄)) rfl)
        fun _ s₅ h₅ => ?_
      exact lawfully_return (quiet_viewOne _ _ _)
        (h.trans ((h₃.trans h₄).trans h₅))
  · refine lawfully_skip (quiet_hideMessage _ _) fun _ s₃ h₃ => ?_
    exact lawfully_return (quiet_viewOne _ _ _) (h.trans h₃)

/-- The rounds of a loop, each starting from rows known before the loop. -/
theorem lawfully_collect {f : α → M (Option β)} {as : List α}
    (hf : ∀ a ∈ as, ∀ t, s.Grows t → Lawfully (fun _ t' => t.Grows t') (f a) t) :
    Lawfully (fun _ t => s.Grows t) (collect f as) s := by
  suffices h : ∀ t, s.Grows t → Lawfully (fun _ t' => s.Grows t') (collect f as) t from
    h s (.refl s)
  induction as with
  | nil => exact fun t ht => ht
  | cons a as ih =>
    intro t ht
    refine guards_bind (hf a List.mem_cons_self t ht) fun b t₁ h₁ => ?_
    exact guards_bind (ih (fun a' ha' => hf a' (List.mem_cons_of_mem _ ha')) t₁ (ht.trans h₁))
      fun bs t₂ h₂ => h₂

theorem lawfully_expireMessage {x : Message} (hx : s.KnowsMessage x) :
    Lawfully (fun _ t => s.Grows t) (expireMessage x) s := by
  refine lawfully_skip (quiet_perform trivial) fun found s₁ h₁ => ?_
  cases found with
  | none =>
    exact guards_bind (lawfully_saveMessage (hx.grows h₁) rfl) fun _ s₂ h₂ => h₁.trans h₂
  | some cv =>
    refine lawfully_skip (quiet_perform trivial) fun now s₂ h₂ => ?_
    refine guards_bind (lawfully_saveMessage (hx.grows (h₁.trans h₂)) rfl) fun _ s₃ h₃ => ?_
    exact lawfully_return (quiet_loadReplyTo _)
      ((h₁.trans h₂).trans h₃)

theorem lawfully_expireDueMessages :
    Lawfully (fun _ t => s.Grows t) expireDueMessages s := by
  refine lawfully_skip (quiet_perform trivial) fun now s₁ h₁ => ?_
  refine guards_bind (lawfully_read (c := .findDueMessages now) trivial
    (F := fun due t => ∀ x ∈ due, t.KnowsMessage x) ?_ ?_) fun due s₂ ⟨h₂, hdue⟩ => ?_
  · intro a s' ha x hx
    simp only [exec, Except.ok.injEq] at ha
    subst ha
    have hx := List.mem_of_mem_take hx
    rw [orderAsc, List.mem_insertionSort] at hx
    exact Db.knowsMessage_of_mem (List.mem_of_mem_filter hx)
  · exact fun a t t' h htt' x hx => (h x hx).grows htt'
  · exact (lawfully_collect fun x hx t ht => lawfully_expireMessage ((hdue x hx).grows ht)).mono
      fun _ _ ht => (h₁.trans h₂).trans ht

theorem quiet_settle (row : ScheduledMessage) (outcome : Except Failure SendMessageResult) :
    Quiet (settle row outcome) := by
  have hfail : ∀ (row : ScheduledMessage) (e : Failure), Quiet (failScheduled row e) :=
    fun _ _ => quiet_bind (quiet_perform trivial) fun _ => trivial
  cases outcome with
  | ok result =>
    refine quiet_bind (sat_attempt (quiet_perform trivial)) fun saved => ?_
    cases saved with
    | ok _ => trivial
    | error e => exact hfail _ e
  | error e => exact hfail _ e

theorem lawfully_dispatchScheduled (row : ScheduledMessage) :
    Lawfully (fun _ t => s.Grows t) (dispatchScheduled row) s := by
  refine lawfully_skip (quiet_perform trivial) fun claimed s₁ h₁ => ?_
  split
  · exact h₁
  · refine guards_bind (lawfully_attempt (lawfully_sendMessage row.toPayload) h₁) fun outcome s₂ h₂ => ?_
    exact lawfully_quiet (quiet_settle row outcome) h₂

theorem lawfully_dispatchDueScheduled :
    Lawfully (fun _ t => s.Grows t) dispatchDueScheduled s := by
  refine lawfully_skip (quiet_perform trivial) fun now s₁ h₁ => ?_
  refine lawfully_skip (quiet_perform trivial) fun due s₂ h₂ => ?_
  exact (lawfully_collect fun row _ t _ => lawfully_dispatchScheduled row).mono
    fun _ _ ht => (h₁.trans h₂).trans ht

/-! ### Conversations and memberships -/

theorem lawfully_createPrivate (actorId otherUserId : UserId) :
    Lawfully (fun _ t => s.Grows t) (createPrivate actorId otherUserId) s := by
  refine lawfully_rejectIf fun _ => lawfully_skip (quiet_perform trivial) fun existing s₁ h₁ => ?_
  cases existing with
  | some existing => exact lawfully_quiet (quiet_viewConversation _ _) h₁
  | none =>
    refine lawfully_skip (uses_hasBlock (fun _ h => h.quiet) _ _) fun blocked s₂ h₂ => lawfully_rejectIf fun _ => ?_
    refine guards_bind (lawfully_write (c := .createPrivateTx actorId otherUserId _)
      fun _ _ => rfl) fun saved s₃ h₃ => ?_
    exact lawfully_return (quiet_blockFlagsForConversation _ _) ((h₁.trans h₂).trans h₃)

theorem lawfully_createGroup (actorId : UserId) (name : Text) (memberIds : List UserId) :
    Lawfully (fun _ t => s.Grows t) (createGroup actorId name memberIds) s := by
  refine lawfully_rejectIf fun _ => lawfully_rejectIf fun _ => lawfully_rejectIf fun _ => ?_
  exact guards_bind (lawfully_write (c := .createGroupTx _ _ _) fun _ _ => trivial)
    fun saved t ht => ht

/-- A member row of the loaded conversation, saved with the same origin and not as having left. -/
theorem lawfully_saveMember {cv : ConversationWithMembers} (h : s.Loaded cv)
    {m m' : ConversationMember} (hm : m ∈ cv.members) (ho : m'.origin = m.origin)
    (hleft : m'.leftAt = none) :
    Lawfully (fun _ t => s.Grows t) (perform (.saveMember m')) s :=
  lawfully_write fun s' hs' => ⟨by
    unfold Db.KnowsMember
    rw [ho]
    exact (h.members m hm).1.grows hs', fun hne => absurd hleft hne⟩

/-- A member row of the loaded group, saved with the same origin. -/
theorem lawful_saveGroupMember {cv : ConversationWithMembers} (h : s.Loaded cv)
    (htype : cv.type = .group) {m m' : ConversationMember} (hm : m ∈ cv.members)
    (ho : m'.origin = m.origin) :
    s.KnowsMember m' ∧ (m'.leftAt ≠ none → s.IsGroup m'.conversationId) := by
  obtain ⟨hknown, hconv⟩ := h.members m hm
  refine ⟨?_, fun _ => ?_⟩
  · unfold Db.KnowsMember
    rw [ho]
    exact hknown
  · rw [show m'.conversationId = cv.id from
      (congrArg ConversationMember.Origin.conversationId ho).trans hconv]
    exact h.known.isGroup htype

theorem lawfully_saveGroupMember {cv : ConversationWithMembers} (h : s.Loaded cv)
    (htype : cv.type = .group) {m m' : ConversationMember} (hm : m ∈ cv.members)
    (ho : m'.origin = m.origin) :
    Lawfully (fun _ t => s.Grows t) (perform (.saveMember m')) s :=
  lawfully_write fun _ hs' => lawful_saveGroupMember (h.grows hs') htype hm ho

/-- What the guard of the group operations lets through. -/
theorem lawfully_assertGroupAdmin {cv : ConversationWithMembers} {actorId : UserId}
    {f : Unit → M β} {Q : β → Db → Prop} (h : cv.type = .group → Lawfully Q (f ()) s) :
    Lawfully Q (assertGroupAdmin cv actorId >>= f) s := by
  unfold assertGroupAdmin
  rw [Prog.bind_assoc']
  refine lawfully_rejectIf fun htype => ?_
  exact lawfully_rejectIf fun _ => h (not_not.mp htype)

theorem lawfully_updateMembership (c : ConversationId) (actorId : UserId)
    (update : Time → ConversationMember → ConversationMember)
    (ho : ∀ now m, (update now m).origin = m.origin ∧ (update now m).leftAt = m.leftAt) :
    Lawfully (fun _ t => s.Grows t) (updateMembership c actorId update) s := by
  refine guards_bind (lawfully_requireMembership _ _) fun cv s₁ ⟨h₁, hcv, _⟩ =>
    lawfully_require fun m hm => ?_
  obtain ⟨hmem, _, hleft⟩ := findActive_eq_some hm
  refine lawfully_skip (quiet_perform trivial) fun now s₂ h₂ => ?_
  refine guards_bind (lawfully_saveMember (hcv.grows h₂) hmem (ho now m).1
    ((ho now m).2.trans hleft)) fun _ s₃ h₃ => ?_
  exact lawfully_quiet (quiet_getConversation _ _) ((h₁.trans h₂).trans h₃)

theorem lawfully_markSeen (c : ConversationId) (actorId : UserId) (m : Option MessageId) :
    Lawfully (fun _ t => s.Grows t) (markSeen c actorId m) s := by
  refine guards_bind (lawfully_requireMembership _ _) fun cv s₁ ⟨h₁, hcv, _⟩ =>
    lawfully_require fun member hm => ?_
  obtain ⟨hmem, _, hleft⟩ := findActive_eq_some hm
  refine lawfully_skip (quiet_perform trivial) fun now s₂ h₂ => ?_
  refine lawfully_skip ?_ fun messageId s₃ h₃ => ?_
  · unfold seenMessage
    split
    · trivial
    · exact quiet_bind (quiet_perform trivial) fun _ => quiet_bind (quiet_require _ _) fun _ =>
        trivial
  · have hcv' := hcv.grows (h₂.trans h₃)
    have h := h₁.trans (h₂.trans h₃)
    refine guards_bind (Q := fun _ t => s.Grows t) ?_ fun _ t ht => ht
    unfold advanceReadAt
    split
    · split
      · exact guards_bind (lawfully_saveMember hcv' hmem rfl hleft) fun _ t ht => h.trans ht
      · exact h
    · exact guards_bind (lawfully_saveMember hcv' hmem rfl hleft) fun _ t ht => h.trans ht

theorem lawfully_setDisappearingMessages (c : ConversationId) (actorId : UserId) (n : Nat) :
    Lawfully (fun _ t => s.Grows t) (setDisappearingMessages c actorId n) s := by
  refine guards_bind (lawfully_requireMembership _ _) fun cv s₁ ⟨h₁, hcv, _⟩ =>
    lawfully_rejectIf fun _ => lawfully_rejectIf fun _ => ?_
  refine guards_bind (lawfully_saveConversation hcv rfl hcv.deletedAt) fun _ s₂ h₂ => ?_
  refine lawfully_skip (quiet_recordAudit _ _ _ _ _) fun _ s₃ h₃ => ?_
  exact lawfully_quiet (quiet_getConversation _ _) ((h₁.trans h₂).trans h₃)

theorem lawfully_addEach {cv : ConversationWithMembers} (h : s.Loaded cv)
    (htype : cv.type = .group) (ids : List UserId) :
    Lawfully (fun _ t => s.Grows t) (addEach cv ids) s := by
  suffices hall : ∀ t, s.Grows t → Lawfully (fun _ t' => s.Grows t') (addEach cv ids) t from
    hall s (.refl s)
  induction ids with
  | nil => exact fun t ht => ht
  | cons u ids ih =>
    intro t ht
    refine guards_bind (Q := fun _ t' => s.Grows t') ?_ fun _ t' ht' => ih t' ht'
    unfold addMember
    split
    · next existing hexisting =>
      have hmem := List.mem_of_find?_eq_some hexisting
      split
      · exact ht
      · have hsave : Lawfully (fun _ t' => t.Grows t')
            (perform (.saveMember { existing with leftAt := none, role := .member })) t :=
          lawfully_saveMember (h.grows ht) hmem rfl rfl
        exact hsave.mono fun _ _ h' => ht.trans h'
    · exact (lawfully_write (c := .insertMember cv.id u .member) fun _ hs' =>
        (h.known.isGroup htype).grows (ht.trans hs')).mono fun _ _ h' => ht.trans h'

theorem lawfully_addMembers (c : ConversationId) (actorId : UserId) (ids : List UserId) :
    Lawfully (fun _ t => s.Grows t) (addMembers c actorId ids) s := by
  refine guards_bind (lawfully_requireMembership _ _) fun cv s₁ ⟨h₁, hcv, _⟩ =>
    lawfully_assertGroupAdmin fun htype => lawfully_rejectIf fun _ => lawfully_rejectIf fun _ => ?_
  refine guards_bind (lawfully_addEach hcv htype _) fun _ s₂ h₂ => ?_
  exact lawfully_quiet (quiet_getConversation _ _) (h₁.trans h₂)

theorem lawfully_removeMember (c : ConversationId) (actorId memberId : UserId) :
    Lawfully (fun _ t => s.Grows t) (removeMember c actorId memberId) s := by
  refine guards_bind (lawfully_requireMembership _ _) fun cv s₁ ⟨h₁, hcv, _⟩ =>
    lawfully_assertGroupAdmin fun htype => lawfully_rejectIf fun _ => lawfully_require fun m hm =>
      lawfully_rejectIf fun _ => ?_
  refine lawfully_skip (quiet_perform trivial) fun now s₂ h₂ => ?_
  refine guards_bind (lawfully_saveGroupMember (hcv.grows h₂) htype (findActive_eq_some hm).1 rfl)
    fun _ s₃ h₃ => ?_
  exact lawfully_quiet (quiet_getConversation _ _) ((h₁.trans h₂).trans h₃)

theorem lawfully_setMemberRole (c : ConversationId) (actorId memberId : UserId)
    (role : Option ConversationMemberRole) :
    Lawfully (fun _ t => s.Grows t) (setMemberRole c actorId memberId role) s := by
  refine guards_bind (lawfully_requireMembership _ _) fun cv s₁ ⟨h₁, hcv, _⟩ =>
    lawfully_rejectIf fun htype => lawfully_rejectIf fun _ => lawfully_require fun role _ =>
      lawfully_require fun m hm => lawfully_rejectIf fun _ => lawfully_rejectIf fun _ => ?_
  refine guards_bind (lawfully_saveGroupMember hcv (not_not.mp htype) (findActive_eq_some hm).1 rfl)
    fun _ s₂ h₂ => ?_
  exact lawfully_quiet (quiet_getConversation _ _) (h₁.trans h₂)

theorem nextOwner_mem {members : List ConversationMember} {actorId : UserId}
    {m : ConversationMember} (h : nextOwner members actorId = some m) :
    m ∈ members ∧ m.leftAt = none ∧ m.userId ≠ actorId := by
  unfold nextOwner orderAsc at h
  have hm := List.mem_of_head? h
  rw [List.mem_insertionSort, List.mem_filter] at hm
  simpa using hm

theorem eq_group_of_ne_priv {t : ConversationType} (h : t ≠ .priv) : t = .group := by
  cases t
  · exact absurd rfl h
  · rfl

theorem lawfully_leave (c : ConversationId) (actorId : UserId) :
    Lawfully (fun _ t => s.Grows t) (leave c actorId) s := by
  refine guards_bind (lawfully_requireMembership _ _) fun cv s₁ ⟨h₁, hcv, _⟩ =>
    lawfully_rejectIf fun hpriv => lawfully_require fun m hm => ?_
  have htype := eq_group_of_ne_priv hpriv
  refine guards_bind (Q := fun _ t => s₁.Grows t) ?_ fun _ s₂ h₂ => ?_
  · unfold handOver
    split
    · split
      · exact Db.Grows.refl s₁
      · next next hnext =>
        exact lawfully_saveGroupMember hcv htype (nextOwner_mem hnext).1 rfl
    · exact Db.Grows.refl s₁
  · refine lawfully_skip (quiet_perform trivial) fun now s₃ h₃ => ?_
    exact guards_bind (lawfully_saveGroupMember (hcv.grows (h₂.trans h₃)) htype
      (findActive_eq_some hm).1 rfl) fun _ s₄ h₄ => (h₁.trans (h₂.trans h₃)).trans h₄

theorem lawfully_updateGroup (c : ConversationId) (actorId : UserId) (name : Text) :
    Lawfully (fun _ t => s.Grows t) (updateGroup c actorId name) s := by
  refine guards_bind (lawfully_requireMembership _ _) fun cv s₁ ⟨h₁, hcv, _⟩ =>
    lawfully_assertGroupAdmin fun _ => lawfully_rejectIf fun _ => ?_
  refine guards_bind (lawfully_saveConversation hcv rfl hcv.deletedAt) fun _ s₂ h₂ => ?_
  exact lawfully_quiet (quiet_getConversation _ _) (h₁.trans h₂)

theorem lawfully_deleteGroup (c : ConversationId) (actorId : UserId) :
    Lawfully (fun _ t => s.Grows t) (deleteGroup c actorId) s := by
  refine guards_bind (lawfully_requireMembership _ _) fun cv s₁ ⟨h₁, hcv, _⟩ =>
    lawfully_rejectIf fun htype => lawfully_rejectIf fun _ => ?_
  refine lawfully_skip (quiet_perform trivial) fun now s₂ h₂ => ?_
  refine guards_bind (lawfully_write fun s' hs' m' hm' => ?_) fun _ s₃ h₃ => ?_
  · obtain ⟨m, hm, rfl⟩ := List.mem_map.mp hm'
    refine lawful_saveGroupMember (hcv.grows (h₂.trans hs')) (not_not.mp htype) hm ?_
    split <;> rfl
  · exact guards_bind (lawfully_write fun s' hs' =>
      (hcv.known.isGroup (not_not.mp htype)).grows ((h₂.trans h₃).trans hs'))
      fun _ s₄ h₄ => (h₁.trans (h₂.trans h₃)).trans h₄

end Lawfully

/-! ## Reachable databases -/

/-- Every request makes lawful calls, whatever the others do. -/
theorem Op.lawfully (op : Op) (s : Db) :
    Lawfully (fun _ _ => True) op.program s := by
  have map {α : Type} {p : M α} (f : α → Response) (h : Lawfully (fun _ t => s.Grows t) p s) :
      Lawfully (fun _ _ => True) (f <$> p) s := guards_bind h fun _ _ _ => trivial
  have quiet {α : Type} {p : M α} (f : α → Response) (h : Quiet p) :
      Lawfully (fun _ _ => True) (f <$> p) s := map f (lawfully_quiet h (.refl s))
  have hread : ∀ c, ReadCall c → QuietCall c := fun _ h => h.quiet
  cases op with
  | createPrivate a b => exact map _ (lawfully_createPrivate a b)
  | createGroup a name ids => exact map _ (lawfully_createGroup a name ids)
  | listConversations a page => exact quiet _ (uses_listConversations hread a page)
  | getConversation c a => exact quiet _ (quiet_getConversation c a)
  | listMessages c a page => exact quiet _ (uses_listMessages hread c a page)
  | searchMessages c a query page => exact quiet _ (uses_searchMessages hread c a query page)
  | searchGlobal a query page => exact quiet _ (uses_searchGlobal hread a query page)
  | listMedia c a kind page => exact quiet _ (uses_listMedia hread c a kind page)
  | getMessage c m a => exact quiet _ (uses_getMessage hread (fun _ _ => trivial) c m a)
  | listPinnedMessages c a => exact quiet _ (uses_listPinnedMessages hread c a)
  | sendMessage payload => exact map _ (lawfully_sendMessage payload)
  | forwardMessage a source target m => exact map _ (lawfully_forwardMessage a source target m)
  | editMessage c m a body => exact map _ (lawfully_editMessage c m a body)
  | reactMessage c m a emoji => exact quiet _ (quiet_reactMessage c m a emoji)
  | pinMessage c m a pinned => exact map _ (lawfully_pinMessage c m a pinned)
  | deleteMessage c m a forEveryone => exact map _ (lawfully_deleteMessage c m a forEveryone)
  | expireDueMessages => exact map _ lawfully_expireDueMessages
  | scheduleMessage payload => exact quiet _ (quiet_scheduleMessage payload)
  | listScheduledMessages c a => exact quiet _ (uses_listScheduledMessages hread c a)
  | cancelScheduledMessage c id a => exact quiet _ (quiet_cancelScheduledMessage c id a)
  | dispatchDueScheduled => exact map _ lawfully_dispatchDueScheduled
  | pinConversation c a pinned =>
    exact map _ (lawfully_updateMembership c a _ fun _ _ => ⟨rfl, rfl⟩)
  | muteConversation c a muted =>
    exact map _ (lawfully_updateMembership c a _ fun _ _ => ⟨rfl, rfl⟩)
  | markSeen c a m => exact map _ (lawfully_markSeen c a m)
  | setDisappearingMessages c a n => exact map _ (lawfully_setDisappearingMessages c a n)
  | addMembers c a ids => exact map _ (lawfully_addMembers c a ids)
  | removeMember c a u => exact map _ (lawfully_removeMember c a u)
  | setMemberRole c a u role => exact map _ (lawfully_setMemberRole c a u role)
  | leave c a => exact map _ (lawfully_leave c a)
  | updateGroup c a name => exact map _ (lawfully_updateGroup c a name)
  | deleteGroup c a => exact map _ (lawfully_deleteGroup c a)
  | blockUser a u => exact quiet _ (quiet_blockUser a u)
  | unblockUser a u => exact quiet _ (quiet_bind (quiet_perform trivial) fun _ => trivial)
  | listBlocks a => exact quiet _ (quiet_bind (quiet_perform trivial) fun _ => trivial)
  | prepareVoiceCall c a => exact quiet _ (uses_prepareVoiceCall hread c a)
  | getAnalytics => exact quiet _ (uses_getAnalytics hread)
  | listAuditEvents page => exact quiet _ (quiet_bind (quiet_perform trivial) fun _ => trivial)
  | logAudit a action type id info =>
    exact quiet _ (quiet_bind (quiet_perform trivial) fun _ => trivial)
  | getWorkspaceSettings => exact quiet _ quiet_getWorkspaceSettings
  | updateWorkspaceSettings a n t p l => exact quiet _ (quiet_updateWorkspaceSettings a n t p l)

theorem Db.grows_wait (s : Db) (d : Nat) : s.Grows (s.wait d) :=
  ⟨fun _ h => h, fun _ h => h, fun _ h => h⟩

/-- Interleaved requests keep the invariant. -/
theorem Inv.pool {s : Db} (h : Inv s) (es : List ChatEvent) :
    Inv (Runs.final poolStep es ⟨s, []⟩).store :=
  Pool.invariant Db.Grows.refl (fun _ _ _ => .trans)
    (fun _ _ hI hL => ⟨hI.exec hL, hL.grows hI.keyed⟩)
    (fun d s hI => ⟨hI.wait d, s.grows_wait d⟩) (fun op s _ => op.lawfully s) h es

/-- The invariant holds in every database that interleaved requests reach. -/
theorem Reachable.inv {db : Db} (h : Reachable db) : Inv db := by
  obtain ⟨now, timeZone, es, rfl⟩ := h
  exact (inv_empty now timeZone).pool es

/-- Serving an operation alone is one of the interleavings. -/
theorem Reachable.run {db : Db} (h : Reachable db) (op : Op) : Reachable (op.run db).2 := by
  obtain ⟨now, timeZone, es, rfl⟩ := h
  let p : ChatPool := Runs.final poolStep es ⟨Db.empty now timeZone, []⟩
  have hlast : (poolStep (.start op) p).threads[p.threads.length]? = some op.program := by
    simp [poolStep, Pool.step]
  obtain ⟨es', hes'⟩ := Pool.run_thread exec Op.program (fun (d : Nat) db => db.wait d) op.program
    hlast
  refine ⟨now, timeZone, es ++ .start op :: es', ?_⟩
  rw [Runs.final_append]
  exact hes'

theorem Reachable.wait {db : Db} (h : Reachable db) (d : Nat) : Reachable (db.wait d) := by
  obtain ⟨now, timeZone, es, rfl⟩ := h
  refine ⟨now, timeZone, es ++ [.pass d], ?_⟩
  rw [Runs.final_append]
  rfl

theorem reachable_empty (now : Time) (timeZone : Int) : Reachable (Db.empty now timeZone) :=
  ⟨now, timeZone, [], rfl⟩

/-- The database after requests served one after the other. -/
def Db.serve (db : Db) (ops : List Op) : Db := Runs.final (fun op db => (op.run db).2) ops db

theorem Reachable.serve {db : Db} (h : Reachable db) (ops : List Op) :
    Reachable (db.serve ops) := by
  induction ops generalizing db with
  | nil => exact h
  | cons op ops ih => exact ih (h.run op)

/-- Three users and a plain text message, for small runs. -/
def userA : UserId := ⟨['a'], Eq.refl true⟩
def userB : UserId := ⟨['b'], Eq.refl true⟩
def userC : UserId := ⟨['c'], Eq.refl true⟩

def textMessage (actorId : UserId) (c : ConversationId) (body : Text) : SendMessage where
  actorId := actorId
  conversationId := c
  body := some body
  type := none
  replyToMessageId := none
  attachmentUrl := none
  attachmentMime := none
  attachmentName := none
  attachmentSize := none
  mentionUserIds := none
  linkPreview := none
  systemCall := false

/-- Served alone, an operation makes lawful calls. -/
theorem Op.calls (op : Op) {s : Db} (h : Inv s) : Calls exec Lawful op.program s :=
  (op.lawfully s).calls Db.Grows.refl (fun _ _ hI hL => hI.exec hL) h

theorem Inv.run {s : Db} (h : Inv s) (op : Op) : Inv (op.run s).2 :=
  (op.calls h).preserves (fun _ _ hL hI => hI.exec hL) h

theorem Op.grows (op : Op) {s : Db} (hs : Inv s) : s.Grows (op.run s).2 := by
  let I (t : Db) : Prop := Inv t ∧ s.Grows t
  have hstep : ∀ (t : Db) (k : Call), Lawful t k → I t → I (exec k t).2 := fun t k hk ⟨ht, hle⟩ =>
    ⟨ht.exec hk, hle.trans (hk.grows ht.keyed)⟩
  exact ((op.calls hs).preserves hstep ⟨hs, .refl s⟩).2

end Relay.Chat
