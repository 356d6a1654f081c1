import Relay.Lib.Requests
import Relay.Chat.Verify.Footprint
import Relay.Chat.Verify.Lawful

/-!
# Tombstones

A message deleted for everyone stays as a row without its attachment. Edits, pins, deletions and
expiries load the row of a message, check it and save the whole entity later, so a copy that was loaded
before a deletion can be written over its tombstone. `SavesInTime` is the condition that rules this
out, and `tombstones_stay_iff` says that it is exact.
-/

namespace Relay.Chat

open Relay.Lib Relay.Lib.Rows Prog

/-- The requests that save messages. -/
inductive RewriteOp where
  | edit (c : ConversationId) (m : MessageId) (actorId : UserId) (body : Text)
  | pin (c : ConversationId) (m : MessageId) (actorId : UserId) (pinned : Bool)
  | delete (c : ConversationId) (m : MessageId) (actorId : UserId) (forEveryone : Bool)
  | expire

def RewriteOp.op : RewriteOp → Op
  | edit c m a body => .editMessage c m a body
  | pin c m a pinned => .pinMessage c m a pinned
  | delete c m a forEveryone => .deleteMessage c m a forEveryone
  | expire => .expireDueMessages

/-- What a request saves next: a message as it was before any deletion, or its tombstone. -/
inductive Copy where
  | alive
  | tombstone
deriving DecidableEq

/-- The row has no attachment. -/
def Message.Bare (m : Message) : Prop :=
  m.attachmentUrl = none ∧ m.attachmentMime = none ∧ m.attachmentName = none ∧ m.attachmentSize = none

def Copy.Saves : Copy → Message → Prop
  | alive, m => m.deletedForEveryoneAt = none
  | tombstone, m => m.deletedForEveryoneAt ≠ none ∧ m.Bare

def RewriteOp.copy : RewriteOp → Copy
  | edit _ _ _ _ | pin _ _ _ _ => .alive
  | delete _ _ _ _ | expire => .tombstone

/-- A message that has expired is written back alive when its conversation is gone. -/
def RewriteOp.next (o : RewriteOp) (g : Copy) (c : Call) (r : Except Failure c.Answer) : Copy :=
  match o, c, r with
  | .expire, .findConversation _, .ok none => .alive
  | .expire, .findConversation _, .ok (some _) => .tombstone
  | _, _, _ => g

/-- A call that leaves the messages alone, or a save. -/
def Copy.Allows (g : Copy) : Call → Prop
  | .saveMessage m => g.Saves m
  | c => QuietCall c

def rewrites (o : RewriteOp) : Protocol Call Call.Answer Failure Copy where
  allowed := Copy.Allows
  next := o.next
  answers c r :=
    match c, r with
    | .findDueMessages _, .ok due => ∀ m ∈ due, m.deletedForEveryoneAt = none
    | _, _ => True

theorem rewrites_answers (o : RewriteOp) (s : Db) (c : Call) : (rewrites o).answers c (exec c s).1 := by
  cases c with
  | findDueMessages before =>
    intro m hm
    exact (mem_due s before rfl hm).2
  | _ => trivial

/-! ## The programs -/

section Programs

variable {α β : Type} {g : Copy}

theorem QuietCall.allows {c : Call} (h : QuietCall c) (g : Copy) : g.Allows c := by
  cases c <;> first | exact trivial | exact h.elim

theorem Copy.Allows.quiet_or_save {c : Call} (h : g.Allows c) :
    QuietCall c ∨ ∃ m, c = .saveMessage m ∧ g.Saves m := by
  cases c <;> first | exact .inr ⟨_, rfl, h⟩ | exact .inl h

theorem Quiet.allowed {p : M α} (h : Quiet p) (g : Copy) : Uses g.Allows p :=
  h.mono (fun _ _ _ => trivial) fun _ hc => hc.allows g

theorem edit_allowed (c : ConversationId) (m : MessageId) (actorId : UserId) (body : Text) :
    Uses Copy.alive.Allows (editMessage c m actorId body) := by
  refine uses_bind ((quiet_requireMembership _ _).allowed _) fun conversation => ?_
  refine uses_bind (uses_perform trivial) fun found => ?_
  refine uses_bind (uses_require _ _) fun message => ?_
  refine uses_bind (uses_rejectIf _ _) fun _ => ?_
  refine uses_unless fun halive => ?_
  refine uses_bind (uses_perform trivial) fun now => ?_
  refine uses_bind (uses_rejectIf _ _) fun _ => ?_
  refine uses_bind (uses_rejectIf _ _) fun _ => ?_
  refine uses_bind (uses_perform trivial) fun editedAt => ?_
  refine uses_bind (uses_perform (not_not.mp halive)) fun _ => ?_
  exact uses_bind ((quiet_viewOne _ _ _).allowed _) fun _ => trivial

theorem setPinned_allowed {message : Message} (h : message.deletedForEveryoneAt = none)
    (c : ConversationId) (actorId : UserId) (pinned : Bool) :
    Uses Copy.alive.Allows (setPinned message c actorId pinned) := by
  refine uses_ite (fun _ => uses_ite (fun _ => ?_) fun _ => trivial) fun _ =>
    uses_ite (fun _ => ?_) fun _ => trivial
  · refine uses_bind (uses_perform trivial) fun currentlyPinned => ?_
    refine uses_bind (uses_rejectIf _ _) fun _ => ?_
    refine uses_bind (uses_perform trivial) fun now => ?_
    exact uses_bind (uses_perform h) fun _ => trivial
  · exact uses_bind (uses_perform h) fun _ => trivial

theorem pin_allowed (c : ConversationId) (m : MessageId) (actorId : UserId) (pinned : Bool) :
    Uses Copy.alive.Allows (pinMessage c m actorId pinned) := by
  refine uses_bind ((quiet_requireMembership _ _).allowed _) fun conversation => ?_
  refine uses_bind (uses_perform trivial) fun found => ?_
  refine uses_bind (uses_require _ _) fun message => ?_
  refine uses_unless fun halive => ?_
  refine uses_bind (uses_rejectIf _ _) fun _ => ?_
  refine uses_bind (setPinned_allowed (not_not.mp halive) _ _ _) fun pinned => ?_
  exact uses_bind ((quiet_viewOne _ _ _).allowed _) fun _ => trivial

theorem delete_allowed (c : ConversationId) (m : MessageId) (actorId : UserId) (forEveryone : Bool) :
    Uses Copy.tombstone.Allows (deleteMessage c m actorId forEveryone) := by
  refine uses_bind ((quiet_requireMembership _ _).allowed _) fun conversation => ?_
  refine uses_bind (uses_perform trivial) fun found => ?_
  refine uses_bind (uses_require _ _) fun message => ?_
  refine uses_ite (fun _ => ?_) fun _ => ?_
  · refine uses_bind (uses_rejectIf _ _) fun _ => ?_
    refine uses_ite (fun _ => ?_) fun _ => ?_
    · exact uses_bind ((quiet_viewOne _ _ _).allowed _) fun _ => trivial
    · refine uses_bind (uses_perform trivial) fun now => ?_
      refine uses_bind (uses_rejectIf _ _) fun _ => ?_
      refine uses_bind (uses_perform trivial) fun deletedAt => ?_
      refine uses_bind (uses_perform ⟨Option.some_ne_none _, rfl, rfl, rfl, rfl⟩) fun _ => ?_
      exact uses_bind ((quiet_viewOne _ _ _).allowed _) fun _ => trivial
  · refine uses_bind ((quiet_hideMessage _ _).allowed _) fun _ => ?_
    exact uses_bind ((quiet_viewOne _ _ _).allowed _) fun _ => trivial

/-- A request other than `expireDueMessages` never changes what it saves. -/
theorem follows_of_allowed {o : RewriteOp} (ho : o ≠ .expire) {p : M α} (h : Uses g.Allows p) :
    Follows (rewrites o) (fun _ _ => True) p g := by
  refine Follows.mono (fun _ _ _ => trivial) (follows_of_sat (P := rewrites o) (fun c hc => ⟨hc, ?_⟩)
    (h.mono (fun _ _ _ => trivial) fun _ hc => hc))
  intro r
  cases o with
  | expire => exact absurd rfl ho
  | _ => rfl

/-- One round, whatever the round before has saved. -/
theorem expireMessage_follows {message : Message} (h : message.deletedForEveryoneAt = none) :
    Follows (rewrites .expire) (fun _ _ => True) (expireMessage message) g := by
  refine follows_bind (Q := fun r g' => ∀ found, r = .ok found →
    g' = if found.isSome then .tombstone else .alive) (follows_perform trivial ?_) ?_ fun _ _ _ => trivial
  · rintro (e | _ | conversation) - found hfound <;> cases hfound <;> rfl
  · intro found g' hg
    cases found with
    | none =>
      obtain rfl := hg none rfl
      exact follows_bind (Q := fun _ _ => True) (follows_perform h fun _ _ => trivial)
        (fun _ _ _ => trivial) fun _ _ _ => trivial
    | some conversation =>
      obtain rfl := hg (some conversation) rfl
      refine follows_bind (Q := fun _ g' => g' = .tombstone) (follows_perform trivial fun _ _ => rfl)
        (fun now g' hg' => ?_) fun _ _ _ => trivial
      subst hg'
      have hsave : Copy.tombstone.Saves { message.bury now with expiresAt := none } :=
        ⟨Option.some_ne_none _, rfl, rfl, rfl, rfl⟩
      refine follows_bind (Q := fun _ _ => True) (follows_perform hsave fun _ _ => trivial)
        (fun _ g' _ => ?_) fun _ _ _ => trivial
      refine follows_bind (Q := fun _ _ => True) ?_ (fun _ _ _ => trivial) fun _ _ _ => trivial
      unfold loadReplyTo
      split
      · trivial
      · exact follows_perform trivial fun _ _ => trivial

theorem collect_follows {due : List Message} (h : ∀ m ∈ due, m.deletedForEveryoneAt = none) :
    Follows (rewrites .expire) (fun _ _ => True) (collect expireMessage due) g := by
  induction due generalizing g with
  | nil => trivial
  | cons message due ih =>
    refine follows_bind (expireMessage_follows (h _ List.mem_cons_self)) (fun b g' _ => ?_)
      fun _ _ _ => trivial
    exact follows_bind (ih fun m hm => h m (List.mem_cons_of_mem _ hm)) (fun _ _ _ => trivial)
      fun _ _ _ => trivial

theorem RewriteOp.follows (o : RewriteOp) :
    Follows (rewrites o) (fun _ _ => True) o.op.program o.copy := by
  cases o with
  | edit c m a body =>
    have hedit : Uses Copy.alive.Allows (Op.editMessage c m a body).program :=
      uses_bind (edit_allowed _ _ _ _) fun _ => trivial
    exact follows_of_allowed (o := .edit c m a body) nofun hedit
  | pin c m a pinned =>
    have hpin : Uses Copy.alive.Allows (Op.pinMessage c m a pinned).program :=
      uses_bind (pin_allowed _ _ _ _) fun _ => trivial
    exact follows_of_allowed (o := .pin c m a pinned) nofun hpin
  | delete c m a forEveryone =>
    have hdelete : Uses Copy.tombstone.Allows (Op.deleteMessage c m a forEveryone).program :=
      uses_bind (delete_allowed _ _ _ _) fun _ => trivial
    exact follows_of_allowed (o := .delete c m a forEveryone) nofun hdelete
  | expire =>
    refine follows_bind (Q := fun _ _ => True) ?_ (fun _ _ _ => trivial) fun _ _ _ => trivial
    refine ⟨trivial, fun r _ => ?_⟩
    cases r with
    | error e => trivial
    | ok now =>
      refine ⟨trivial, fun r hr => ?_⟩
      cases r with
      | error e => trivial
      | ok due => exact collect_follows hr

end Programs

/-! ## Runs -/

/-- What a row may become: a message that is deleted for everyone stays so and gets no attachment again,
and one that is deleted now has none. -/
structure Message.Stays (m m' : Message) : Prop where
  deleted : m.deletedForEveryoneAt ≠ none → m'.deletedForEveryoneAt ≠ none ∧ (m.Bare → m'.Bare)
  bare : m.deletedForEveryoneAt = none → m'.deletedForEveryoneAt ≠ none → m'.Bare

theorem Message.Stays.refl (m : Message) : m.Stays m :=
  ⟨fun h => ⟨h, fun hbare => hbare⟩, fun h h' => absurd h h'⟩

theorem Message.Stays.trans {m m' m'' : Message} (h : m.Stays m') (h' : m'.Stays m'') : m.Stays m'' where
  deleted hm :=
    have ⟨hm', hbare⟩ := h.deleted hm
    have ⟨hm'', hbare'⟩ := h'.deleted hm'
    ⟨hm'', hbare' ∘ hbare⟩
  bare hm hm'' := by
    by_cases hm' : m'.deletedForEveryoneAt = none
    · exact h'.bare hm' hm''
    · exact (h'.deleted hm').2 (h.bare hm hm')

/-- From one database to a later one. -/
def TombstonesStay (s t : Db) : Prop := ∀ m ∈ s.messages, ∃ m' ∈ t.messages, m'.id = m.id ∧ m.Stays m'

theorem TombstonesStay.of_messages {s t : Db} (h : t.messages = s.messages) : TombstonesStay s t :=
  fun m hm => ⟨m, h ▸ hm, rfl, .refl m⟩

theorem TombstonesStay.trans {s t u : Db} (h : TombstonesStay s t) (h' : TombstonesStay t u) :
    TombstonesStay s u := by
  intro m hm
  obtain ⟨m', hm', hid, hstays⟩ := h m hm
  obtain ⟨m'', hm'', hid', hstays'⟩ := h' m' hm'
  exact ⟨m'', hm'', hid'.trans hid, hstays.trans hstays'⟩

/-- The save of a message that was alive when it was loaded finds it alive. -/
def SavesInTime (s : Db) (gs : List (RewriteOp × Copy)) (i : Nat) : Call → Prop
  | .saveMessage m =>
    (gs[i]?).map Prod.snd = some .alive →
      ∀ row ∈ s.messages, row.id = m.id → row.deletedForEveryoneAt = none
  | _ => True

instance (s : Db) (gs : List (RewriteOp × Copy)) (i : Nat) (c : Call) : Decidable (SavesInTime s gs i c) := by
  apply @Call.casesOn (fun c => Decidable (SavesInTime s gs i c)) c <;> intros <;> dsimp only [SavesInTime] <;>
    infer_instance

theorem savesInTime_of_quiet {s : Db} {gs : List (RewriteOp × Copy)} {i : Nat} {c : Call} (h : QuietCall c) :
    SavesInTime s gs i c := by
  cases c <;> first | exact trivial | exact h.elim

abbrev Rewriting := Staged Call Call.Answer Failure Response Db (RewriteOp × Copy)

/-- No call has to wait. -/
def rewriteStep : Pool.Event Empty Nat → Rewriting → Rewriting :=
  serve exec (fun d db => db.wait d) rewrites fun _ _ => false

def rewriting (ops : List RewriteOp) (s : Db) : Rewriting :=
  requests (fun o => o.op.program) RewriteOp.copy ops s

/-- Where each request is in its protocol. -/
abbrev InTurn (ops : List RewriteOp) : Rewriting → Prop :=
  Serving rewrites (fun _ _ _ => True) (fun _ _ => True) ops

theorem inTurn_step {ops : List RewriteOp} {w : Rewriting} (h : InTurn ops w) (e : Pool.Event Empty Nat) :
    InTurn ops (rewriteStep e w) :=
  h.step rewrites_answers (fun _ _ _ _ _ _ _ _ _ _ _ => trivial) (fun _ _ _ _ => trivial)
    (Staged.meets_true _ w e)

theorem inTurn_start (ops : List RewriteOp) (s : Db) : InTurn ops (rewriting ops s) :=
  Serving.start RewriteOp.follows trivial

/-- A save keeps the tombstones unless it writes a message back alive that is deleted. -/
theorem tombstonesStay_save {s : Db} {g : Copy} {m : Message} (hsaves : g.Saves m) :
    TombstonesStay s (exec (.saveMessage m) s).2 ↔
      (g = .alive → ∀ row ∈ s.messages, row.id = m.id → row.deletedForEveryoneAt = none) := by
  have hmem : ∀ row, row ∈ (exec (.saveMessage m) s).2.messages ↔
      row = m ∧ (∃ r ∈ s.messages, r.id = m.id) ∨ row ∈ s.messages ∧ row.id ≠ m.id :=
    fun row => mem_replaceRow_iff
  constructor
  · rintro h rfl row hrow hid
    by_contra hdeleted
    obtain ⟨m', hm', hid', hstays⟩ := h row hrow
    obtain ⟨rfl, _⟩ | ⟨_, hne⟩ := (hmem m').mp hm'
    · exact (hstays.deleted hdeleted).1 hsaves
    · exact hne (hid'.trans hid)
  · intro h row hrow
    by_cases hid : row.id = m.id
    · refine ⟨m, (hmem m).mpr (.inl ⟨rfl, row, hrow, hid⟩), hid.symm, ?_⟩
      cases g with
      | alive =>
        have halive := h rfl row hrow hid
        exact ⟨fun hdeleted => absurd halive hdeleted, fun _ hdeleted => absurd hsaves hdeleted⟩
      | tombstone => exact ⟨fun _ => ⟨hsaves.1, fun _ => hsaves.2⟩, fun _ _ => hsaves.2⟩
    · exact ⟨row, (hmem row).mpr (.inr ⟨hrow, hid⟩), rfl, .refl row⟩

theorem tombstonesStay_step {ops : List RewriteOp} {w : Rewriting} (h : InTurn ops w)
    (e : Pool.Event Empty Nat) :
    TombstonesStay w.pool.store (rewriteStep e w).pool.store ↔
      Staged.Meets (fun _ _ => false) SavesInTime w e := by
  cases e with
  | start o => exact o.elim
  | pass d => exact iff_of_true (.of_messages rfl) trivial
  | advance i =>
    obtain ⟨hc, heq⟩ | ⟨c, o, g, hc, hg, hallowed, ⟨hwait, _⟩ | ⟨_, heq⟩⟩ :=
      h.turn exec (fun d db => db.wait d) (fun _ _ => false) i
    · rw [rewriteStep, heq]
      simp only [Staged.Meets, hc]
      exact iff_of_true (.of_messages rfl) trivial
    · cases hwait
    · rw [rewriteStep, heq]
      simp only [Staged.Meets, hc, forall_const]
      obtain hquiet | ⟨m, rfl, hsaves⟩ := Copy.Allows.quiet_or_save hallowed
      · exact iff_of_true (.of_messages (hquiet.exec _).2.2) (savesInTime_of_quiet hquiet)
      · rw [tombstonesStay_save hsaves]
        simp [SavesInTime, hg]

/-- Tombstones stay throughout a run exactly when every save of a message that was alive when it was
loaded finds it alive. -/
theorem tombstones_stay_iff (s : Db) (ops : List RewriteOp) (es : List (Pool.Event Empty Nat)) :
    (∀ es₁ es₂ es₃, es = es₁ ++ es₂ ++ es₃ →
      TombstonesStay (Runs.final rewriteStep es₁ (rewriting ops s)).pool.store
        (Runs.final rewriteStep (es₁ ++ es₂) (rewriting ops s)).pool.store) ↔
      Runs.Along rewriteStep (Staged.Meets (fun _ _ => false) SavesInTime) es (rewriting ops s) := by
  have hturns : Runs.Always rewriteStep (InTurn ops) es (rewriting ops s) :=
    Runs.Always.of_step (fun _ e h => inTurn_step h e) (inTurn_start ops s)
  rw [Runs.along_iff_later (r := fun v w : Rewriting => TombstonesStay v.pool.store w.pool.store)
    (fun w => .of_messages rfl) fun _ _ _ => TombstonesStay.trans]
  exact ⟨Runs.Along.of_always_along (fun _ e h => (tombstonesStay_step h e).mp) hturns,
    Runs.Along.of_always_along (fun _ e h => (tombstonesStay_step h e).mpr) hturns⟩

/-- A has sent a message to B. -/
def oneMessage : Db :=
  (Db.empty 0 0).serve [.createPrivate userA userB, .sendMessage (textMessage userA 0 ['h', 'i'])]

/-- The sender deletes the message for everyone while an edit of it is under way. -/
def lateEdit : List (Pool.Event Empty Nat) :=
  List.replicate 4 (.advance 0) ++ List.replicate 5 (.advance 1) ++ [.advance 0]

theorem tombstones_stay_fails :
    ¬ ∀ (s : Db) (ops : List RewriteOp) (es₁ es₂ : List (Pool.Event Empty Nat)), Reachable s →
      TombstonesStay (Runs.final rewriteStep es₁ (rewriting ops s)).pool.store
        (Runs.final rewriteStep (es₁ ++ es₂) (rewriting ops s)).pool.store := by
  intro h
  have hdeleted : ∃ m ∈ (Runs.final rewriteStep (lateEdit.take 9) (rewriting
      [.edit 0 3 userA ['h', 'o'], .delete 0 3 userA true] oneMessage)).pool.store.messages,
      m.deletedForEveryoneAt ≠ none := by decide
  have halive : ∀ m ∈ (Runs.final rewriteStep lateEdit (rewriting
      [.edit 0 3 userA ['h', 'o'], .delete 0 3 userA true] oneMessage)).pool.store.messages,
      m.deletedForEveryoneAt = none := by decide
  obtain ⟨m, hm, hm'⟩ := hdeleted
  obtain ⟨m', hmem, _, hstays⟩ := h oneMessage [.edit 0 3 userA ['h', 'o'], .delete 0 3 userA true]
    (lateEdit.take 9) (lateEdit.drop 9) ((reachable_empty 0 0).serve _) m hm
  exact (hstays.deleted hm').1 (halive m' hmem)

end Relay.Chat
