import Relay.Lib.Requests
import Relay.Chat.Verify.Footprint
import Relay.Chat.Verify.Lawful

/-!
# The call history

Only a `sendMessage` of the gateway itself stores a line of the call history, but two other operations
get at the lines: `forwardMessage` copies one, and `editMessage` writes another body into one. In a run
where neither happens, every stored line is one that such a send has written, with the body it has
written (`lines_written`).
-/

namespace Relay.Chat

open Relay.Lib Relay.Lib.Rows Prog

/-- What a request has of the messages: it holds copies of some, or has stored a line of the call
history. -/
inductive Pen where
  | holds (messages : List Message)
  | wrote (id : MessageId) (body : Text)
deriving DecidableEq

def Pen.held : Pen → List Message
  | holds ms => ms
  | wrote _ _ => []

/-- The line a request has stored. -/
def Pen.line : Pen → Option MessageId
  | holds _ => none
  | wrote id _ => some id

def Op.isForward : Op → Bool
  | .forwardMessage _ _ _ _ => true
  | _ => false

def Op.isEdit : Op → Bool
  | .editMessage _ _ _ _ => true
  | _ => false

/-- The operation can store the line: a send of the system with that body, or a forward. -/
def Op.Writes (op : Op) (body : Text) : Prop :=
  match op with
  | .sendMessage payload => payload.systemCall = true ∧ Js.trim (payload.body.getD []) = body
  | _ => op.isForward = true

/-- A message that is saved was loaded before; only an edit changes its body. -/
def Op.Rewrites (op : Op) (ms : List Message) (m : Message) : Prop :=
  ∃ m₀ ∈ ms, m.id = m₀.id ∧ m.type = m₀.type ∧ (op.isEdit = true ∨ m.body = m₀.body)

def penning (op : Op) : Protocol Call Call.Answer Failure Pen where
  allowed g c :=
    match g, c with
    | .holds _, .insertMessage d => d.type = .call → op.Writes d.body
    | .holds ms, .saveMessage m => op.Rewrites ms m
    | .holds _, _ => True
    | .wrote _ _, .saveConversation _ => True
    | .wrote _ _, _ => False
  next g c r :=
    match c, r with
    | .findMessage _ _, .ok (some m) => .holds [m]
    | .findDueMessages _, .ok ms => .holds ms
    | .insertMessage d, .ok row => if d.type = .call then .wrote row.id d.body else g
    | _, _ => g
  answers _ _ := True

/-! ## The programs -/

/-- Calls that store no line of the call history and save no message. -/
def Plain : Call → Prop
  | .insertMessage d => d.type ≠ .call
  | .saveMessage _ => False
  | _ => True

theorem Besides.plain {c : Call} (h : Besides c) : Plain c := by
  cases c <;> first | exact trivial | exact h.elim

section Programs

variable {α β : Type} {op : Op} {g : Pen}

def Pen.Holds (g : Pen) : Prop := ∃ ms, g = .holds ms

theorem Plain.penning {c : Call} (h : Plain c) {g : Pen} (hg : g.Holds) :
    (penning op).allowed g c ∧ ∀ r, (penning op).answers c r → ((penning op).next g c r).Holds := by
  obtain ⟨ms, rfl⟩ := hg
  cases c with
  | insertMessage d =>
    refine ⟨fun hcall => absurd hcall h, fun r _ => ?_⟩
    cases r with
    | error e => exact ⟨ms, rfl⟩
    | ok row => exact ⟨ms, if_neg h⟩
  | saveMessage m => exact h.elim
  | findMessage id c =>
    refine ⟨trivial, fun r _ => ?_⟩
    rcases r with e | _ | m <;> exact ⟨_, rfl⟩
  | findDueMessages before =>
    refine ⟨trivial, fun r _ => ?_⟩
    cases r <;> exact ⟨_, rfl⟩
  | _ => exact ⟨trivial, fun _ _ => ⟨ms, rfl⟩⟩

/-- A part that stays away from the lines. -/
theorem pens_plain {p : M α} (hp : Uses Plain p) (hg : g.Holds) :
    Follows (penning op) (fun _ g' => g'.Holds) p g :=
  follows_within (fun _ _ hc hg => hc.penning hg) (hp.mono (fun _ _ _ => trivial) fun _ h => h) hg

theorem pens_plain_bind {p : M α} {f : α → M β} (hp : Uses Plain p) (hg : g.Holds)
    (hf : ∀ a g', g'.Holds → Follows (penning op) (fun _ _ => True) (f a) g') :
    Follows (penning op) (fun _ _ => True) (p >>= f) g :=
  follows_bind (pens_plain hp hg) (fun a g' => hf a g') fun _ _ _ => trivial

theorem uses_plain_of_read {c : Call} (h : ReadCall c) : Plain c := h.aside.besides.plain

/-- A message is stored and its conversation touched. -/
theorem pens_insert {d : MessageDraft} (hd : d.type = .call → op.Writes d.body) (hg : g.Holds)
    {f : Message → M α}
    (hf : ∀ row, ∃ (cv : ConversationWithMembers) (a : α), f row = touchConversation cv row >>= fun _ => ret a) :
    Follows (penning op) (fun _ _ => True) (perform (.insertMessage d) >>= f) g := by
  obtain ⟨ms, rfl⟩ := hg
  refine ⟨hd, fun r _ => ?_⟩
  cases r with
  | error e => trivial
  | ok row =>
    obtain ⟨cv, a, heq⟩ := hf row
    change Follows (penning op) _ (f row) (if d.type = .call then Pen.wrote row.id d.body else .holds ms)
    rw [heq]
    refine ⟨?_, fun r _ => by cases r <;> trivial⟩
    split <;> trivial

/-- The mark of the system only matters for lines of the call history. -/
theorem sendMessage_unmarked {payload : SendMessage}
    (h : MessageType.ofText (payload.type.getD "text".toList) ≠ some .call) :
    sendMessage payload = sendMessage { payload with systemCall := false } := by
  unfold sendMessage
  dsimp only
  congr 1
  funext _
  cases htype : MessageType.ofText (payload.type.getD "text".toList) with
  | none => rfl
  | some type =>
    have hne : type ≠ .call := fun heq => h (htype.trans (congrArg some heq))
    simp only [require, pure_def, ret_bind, if_neg hne]

theorem plain_sendMessage {payload : SendMessage} (h : payload.systemCall = false) :
    Uses Plain (sendMessage payload) :=
  uses_sendMessage (fun _ h => uses_plain_of_read h) payload (fun _ _ => trivial)
    (fun _ hd hcall => Bool.false_ne_true (h.symm.trans (hd.marked hcall))) (fun _ => trivial)
    fun _ _ _ _ _ => trivial

theorem pens_sendMessage (payload : SendMessage) :
    Follows (penning (.sendMessage payload)) (fun _ _ => True) (sendMessage payload) (.holds []) := by
  by_cases hcall : MessageType.ofText (payload.type.getD "text".toList) = some .call
  · by_cases hsystem : payload.systemCall = true
    · unfold sendMessage
      refine pens_plain_bind (uses_rejectIf _ _) ⟨_, rfl⟩ fun _ g hg => ?_
      rw [hcall]
      simp only [require, pure_def, ret_bind, if_true]
      refine pens_plain_bind (uses_rejectIf _ _) hg fun _ g hg => ?_
      refine pens_plain_bind (uses_rejectIf _ _) hg fun _ g hg => ?_
      refine pens_plain_bind (uses_requireMembership (fun _ h => uses_plain_of_read h) _ _) hg
        fun cv g hg => ?_
      refine pens_insert (fun _ => ?_) hg fun row => ⟨cv, _, rfl⟩
      exact ⟨hsystem, rfl⟩
    · exact Follows.mono (fun _ _ _ => trivial)
        (pens_plain (plain_sendMessage (eq_false_of_ne_true hsystem)) ⟨_, rfl⟩)
  · rw [sendMessage_unmarked hcall]
    exact Follows.mono (fun _ _ _ => trivial) (pens_plain (plain_sendMessage rfl) ⟨_, rfl⟩)

theorem pens_forwardMessage (a : UserId) (source target : ConversationId) (m : MessageId) :
    Follows (penning (.forwardMessage a source target m)) (fun _ _ => True)
      (forwardMessage a source target m) (.holds []) := by
  have hread : ∀ c, ReadCall c → Plain c := fun _ h => uses_plain_of_read h
  refine pens_plain_bind (uses_requireMembership hread _ _) ⟨_, rfl⟩ fun src g hg => ?_
  refine pens_plain_bind (uses_requireMembership hread _ _) hg fun cv g hg => ?_
  refine pens_plain_bind (uses_perform trivial) hg fun found g hg => ?_
  refine pens_plain_bind (uses_require _ _) hg fun message g hg => ?_
  refine pens_plain_bind (uses_rejectIf _ _) hg fun _ g hg => ?_
  refine pens_plain_bind (uses_resolvePrivateDelivery hread _ _) hg fun delivery g hg => ?_
  refine pens_plain_bind (uses_rejectIf _ _) hg fun _ g hg => ?_
  refine pens_plain_bind (uses_perform trivial) hg fun now g hg => ?_
  refine pens_insert (fun _ => ?_) hg fun row => ⟨cv, _, rfl⟩
  exact rfl

/-- The load of a message that is required. -/
theorem pens_load {id : MessageId} {c : ConversationId} {e : RpcError} {f : Message → M α}
    (hg : g.Holds) (hf : ∀ m, Follows (penning op) (fun _ _ => True) (f m) (.holds [m])) :
    Follows (penning op) (fun _ _ => True)
      (perform (.findMessage id c) >>= fun found => require found e >>= f) g := by
  obtain ⟨ms, rfl⟩ := hg
  refine ⟨trivial, fun r _ => ?_⟩
  rcases r with e | _ | m
  · trivial
  · trivial
  · exact hf m

/-- Calls that neither write nor load messages. -/
def Still : Call → Prop
  | .findDueMessages _ => False
  | c => ReadCall c

/-- A part that leaves the copies of the request alone. -/
theorem pens_still {Q : Except Failure β → Pen → Prop} {p : M α} {f : α → M β} {ms : List Message}
    (hp : Uses Still p) (hf : ∀ a, Follows (penning op) Q (f a) (.holds ms))
    (he : ∀ e, Q (.error e) (.holds ms) := by intros; trivial) :
    Follows (penning op) Q (p >>= f) (.holds ms) := by
  have hskip : Follows (penning op) (fun _ g' => g' = .holds ms) p (.holds ms) := by
    refine follows_of_sat (L := Still) (fun c hc => ?_) (hp.mono (fun _ _ _ => trivial) fun _ h => h)
    cases c <;> first | exact ⟨trivial, fun _ => rfl⟩ | exact hc.elim
  refine follows_bind hskip (fun a g' hg => ?_) fun e g' hg => ?_
  · cases hg
    exact hf a
  · cases hg
    exact he e

/-- The save of a copy. -/
theorem pens_save {Q : Except Failure α → Pen → Prop} {ms : List Message} {m : Message}
    (h : op.Rewrites ms m) {f : Unit → M α} (hf : Follows (penning op) Q (f ()) (.holds ms))
    (he : ∀ e, Q (.error e) (.holds ms) := by intros; trivial) :
    Follows (penning op) Q (perform (.saveMessage m) >>= f) (.holds ms) := by
  refine ⟨h, fun r _ => ?_⟩
  cases r with
  | error e => exact he e
  | ok _ => exact hf

theorem pens_end {p : M α} {ms : List Message} (hp : Uses Plain p) :
    Follows (penning op) (fun _ _ => True) p (.holds ms) :=
  Follows.mono (fun _ _ _ => trivial) (pens_plain hp ⟨ms, rfl⟩)

theorem pens_editMessage (c : ConversationId) (m : MessageId) (a : UserId) (body : Text) :
    Follows (penning (.editMessage c m a body)) (fun _ _ => True) (editMessage c m a body)
      (.holds []) := by
  refine pens_plain_bind (uses_requireMembership (fun _ h => uses_plain_of_read h) _ _) ⟨_, rfl⟩
    fun cv g hg => pens_load hg fun message => ?_
  refine pens_still (uses_rejectIf _ _) fun _ => ?_
  refine pens_still (uses_rejectIf _ _) fun _ => ?_
  refine pens_still (uses_perform trivial) fun now => ?_
  refine pens_still (uses_rejectIf _ _) fun _ => ?_
  refine pens_still (uses_rejectIf _ _) fun _ => ?_
  refine pens_still (uses_perform trivial) fun editedAt => ?_
  refine pens_save ?_ ?_
  · exact ⟨message, List.mem_cons_self, rfl, rfl, .inl rfl⟩
  · exact pens_end (uses_bind (uses_viewOne (fun _ h => uses_plain_of_read h) _ _ _) fun _ => trivial)

theorem pens_pinMessage (c : ConversationId) (m : MessageId) (a : UserId) (pinned : Bool) :
    Follows (penning (.pinMessage c m a pinned)) (fun _ _ => True) (pinMessage c m a pinned)
      (.holds []) := by
  have hview : ∀ (x : Message) (cv : ConversationWithMembers), Uses Plain (viewOne x cv a >>= fun view =>
      (ret ⟨view, recipientIds cv⟩ : M SendMessageResult)) := fun x cv =>
    uses_bind (uses_viewOne (fun _ h => uses_plain_of_read h) _ _ _) fun _ => trivial
  refine pens_plain_bind (uses_requireMembership (fun _ h => uses_plain_of_read h) _ _) ⟨_, rfl⟩
    fun cv g hg => pens_load hg fun message => ?_
  refine pens_still (uses_rejectIf _ _) fun _ => ?_
  refine pens_still (uses_rejectIf _ _) fun _ => ?_
  have hrewrites : ∀ (pinnedAt : Option Time) (by' : Option UserId),
      (Op.pinMessage c m a pinned).Rewrites [message]
        { message with pinnedAt := pinnedAt, pinnedByUserId := by' } :=
    fun _ _ => ⟨message, List.mem_cons_self, rfl, rfl, .inr rfl⟩
  unfold setPinned
  split
  · split
    · rw [Prog.bind_assoc']
      refine pens_still (uses_perform trivial) fun currentlyPinned => ?_
      rw [Prog.bind_assoc']
      refine pens_still (uses_rejectIf _ _) fun _ => ?_
      rw [Prog.bind_assoc']
      refine pens_still (uses_perform trivial) fun now => ?_
      rw [Prog.bind_assoc']
      exact pens_save (hrewrites _ _) (pens_end (hview _ cv))
    · exact pens_end (hview _ cv)
  · split
    · rw [Prog.bind_assoc']
      exact pens_save (hrewrites _ _) (pens_end (hview _ cv))
    · exact pens_end (hview _ cv)

theorem pens_deleteMessage (c : ConversationId) (m : MessageId) (a : UserId) (forEveryone : Bool) :
    Follows (penning (.deleteMessage c m a forEveryone)) (fun _ _ => True)
      (deleteMessage c m a forEveryone) (.holds []) := by
  have hview : ∀ (x : Message) (cv : ConversationWithMembers), Uses Plain (viewOne x cv a) :=
    fun x cv => uses_viewOne (fun _ h => uses_plain_of_read h) _ _ _
  refine pens_plain_bind (uses_requireMembership (fun _ h => uses_plain_of_read h) _ _) ⟨_, rfl⟩
    fun cv g hg => pens_load hg fun message => ?_
  split
  · refine pens_still (uses_rejectIf _ _) fun _ => ?_
    split
    · exact pens_end (uses_bind (hview _ _) fun _ => trivial)
    · refine pens_still (uses_perform trivial) fun now => ?_
      refine pens_still (uses_rejectIf _ _) fun _ => ?_
      refine pens_still (uses_perform trivial) fun deletedAt => ?_
      refine pens_save ?_ (pens_end (uses_bind (hview _ _) fun _ => trivial))
      exact ⟨message, List.mem_cons_self, rfl, rfl, .inr rfl⟩
  · refine pens_end (uses_bind (uses_bind (uses_perform trivial) fun existingHide => ?_) fun _ =>
      uses_bind (hview _ _) fun _ => trivial)
    exact uses_ite (fun _ => uses_perform trivial) fun _ => trivial

/-- A round of `expireDueMessages` saves a message that was found. -/
theorem pens_expireMessage {ms : List Message} {message : Message} (h : message ∈ ms) :
    Follows (penning .expireDueMessages) (fun _ g => g = .holds ms) (expireMessage message)
      (.holds ms) := by
  refine pens_still (uses_perform trivial) fun found => ?_
  cases found with
  | none =>
    refine pens_save ?_ rfl
    exact ⟨message, h, rfl, rfl, .inr rfl⟩
  | some cv =>
    refine pens_still (uses_perform trivial) fun now => ?_
    refine pens_save ?_ ?_
    · exact ⟨message, h, rfl, rfl, .inr rfl⟩
    · refine pens_still ?_ fun _ => rfl
      unfold loadReplyTo
      split
      · trivial
      · exact uses_perform trivial

theorem pens_expire {ms : List Message} {due : List Message} (h : ∀ m ∈ due, m ∈ ms) :
    Follows (penning .expireDueMessages) (fun _ g => g = .holds ms) (collect expireMessage due)
      (.holds ms) := by
  induction due with
  | nil => rfl
  | cons message due ih =>
    refine follows_bind (pens_expireMessage (h _ List.mem_cons_self)) (fun b g hg => ?_)
      fun _ _ hg => hg
    subst hg
    refine follows_bind (ih fun m hm => h m (List.mem_cons_of_mem _ hm)) (fun _ _ hg => hg)
      fun _ _ hg => hg

theorem pens_expireDueMessages : Follows (penning .expireDueMessages) (fun _ _ => True)
    expireDueMessages (.holds []) := by
  refine pens_still (uses_perform trivial) fun now => ?_
  refine ⟨trivial, fun r _ => ?_⟩
  cases r with
  | error e => trivial
  | ok due => exact Follows.mono (fun _ _ _ => trivial) (pens_expire fun _ h => h)

/-- Every request follows its protocol. -/
theorem Op.pens (op : Op) : Follows (penning op) (fun _ _ => True) op.program (.holds []) := by
  have map {α : Type} {op : Op} {p : M α} (f : α → Response)
      (h : Follows (penning op) (fun _ _ => True) p (.holds [])) :
      Follows (penning op) (fun _ _ => True) (f <$> p) (.holds []) :=
    follows_bind h (fun _ _ _ => trivial) fun _ _ _ => trivial
  have hread : ∀ c, ReadCall c → Plain c := fun _ h => uses_plain_of_read h
  by_cases hop : op.writesMessages = false
  · exact pens_end ((op.besides hop).mono (fun _ _ h => h) fun _ h => h.plain)
  · cases op with
    | sendMessage payload => exact map _ (pens_sendMessage payload)
    | forwardMessage a source target m => exact map _ (pens_forwardMessage a source target m)
    | editMessage c m a body => exact map _ (pens_editMessage c m a body)
    | pinMessage c m a pinned => exact map _ (pens_pinMessage c m a pinned)
    | deleteMessage c m a forEveryone => exact map _ (pens_deleteMessage c m a forEveryone)
    | expireDueMessages => exact map _ pens_expireDueMessages
    | scheduleMessage payload =>
      exact map _ (pens_end (uses_scheduleMessage (fun _ h => h.aside.besides.plain) (fun _ => trivial) payload))
    | cancelScheduledMessage c id a =>
      exact map _ (pens_end (uses_cancelScheduledMessage (fun _ h => h.aside.besides.plain) (fun _ _ => trivial) c id a))
    | dispatchDueScheduled =>
      exact map _ (pens_end (uses_dispatchDueScheduled hread (fun _ _ => trivial) (fun _ h _ => h)
        (fun _ => trivial) (fun _ _ _ _ _ => trivial) (fun _ => trivial) fun _ _ => trivial))
    | _ => exact absurd rfl hop

end Programs

/-! ## Runs -/

abbrev Penned := Staged Call Call.Answer Failure Response Db (Op × Pen)

/-- No call has to wait. -/
def penStep : Pool.Event Empty Nat → Penned → Penned :=
  serve exec (fun d db => db.wait d) penning fun _ _ => false

def penned (ops : List Op) (s : Db) : Penned :=
  requests Op.program (fun _ => .holds []) ops s

/-- One of the requests is a `sendMessage` of the system, and has stored this line with the body of the
request. -/
def Written (gs : List (Op × Pen)) (id : MessageId) (body : Text) : Prop :=
  ∃ (i : Nat) (payload : SendMessage), gs[i]? = some (.sendMessage payload, .wrote id body) ∧
    payload.systemCall = true ∧ Js.trim (payload.body.getD []) = body

/-- Every line of the call history is written so. -/
def LinesWritten (w : Penned) : Prop :=
  ∀ m ∈ w.pool.store.messages, m.type = .call → Written w.stages m.id m.body

/-- No forward stores a line, and no edit saves one with another body than it has loaded. -/
def LeavesLines (_ : Db) (gs : List (Op × Pen)) (i : Nat) : Call → Prop
  | .insertMessage d => d.type = .call → ∀ og ∈ gs[i]?, og.1.isForward = false
  | .saveMessage m => m.type = .call → ∀ og ∈ gs[i]?, og.1.isEdit = true →
      ∀ m₀ ∈ og.2.held, m.body = m₀.body
  | _ => True

instance (s : Db) (gs : List (Op × Pen)) (i : Nat) (c : Call) : Decidable (LeavesLines s gs i c) := by
  apply @Call.casesOn (fun c => Decidable (LeavesLines s gs i c)) c <;> intros <;> dsimp only [LeavesLines] <;>
    infer_instance

/-- What is stored and what the requests hold of the call history is written. -/
structure Lined (s : Db) (gs : List (Op × Pen)) : Prop where
  stored : ∀ m ∈ s.messages, m.type = .call → Written gs m.id m.body
  held : ∀ (i : Nat) op g, gs[i]? = some (op, g) → ∀ m ∈ g.held, m.type = .call →
    Written gs m.id m.body

variable {s : Db} {gs : List (Op × Pen)} {i : Nat} {op : Op} {g : Pen} {c : Call}

/-- A request that has stored a line stays there. -/
theorem Written.set {id : MessageId} {body : Text} (h : Written gs id body)
    (hg : gs[i]? = some (op, g)) (hallowed : (penning op).allowed g c)
    (r : Except Failure c.Answer) : Written (gs.set i (op, (penning op).next g c r)) id body := by
  obtain ⟨j, payload, hj, hsystem, hbody⟩ := h
  refine ⟨j, payload, ?_, hsystem, hbody⟩
  by_cases hij : j = i
  · subst hij
    rw [hg] at hj
    cases hj
    refine (getElem?_set_iff hg).mpr (.inl ⟨rfl, ?_⟩)
    cases c <;> first | rfl | exact hallowed.elim
  · exact (getElem?_set_iff hg).mpr (.inr ⟨hij, hj⟩)

/-- After a call the lines are written if the call has stored no others, and the request holds no
others. -/
theorem Lined.keep (h : Lined s gs) (hg : gs[i]? = some (op, g)) (hallowed : (penning op).allowed g c)
    {r : Except Failure c.Answer} {t : Db}
    (hstored : ∀ m ∈ t.messages, m.type = .call → m ∈ s.messages ∨
      Written (gs.set i (op, (penning op).next g c r)) m.id m.body)
    (hheld : ∀ m ∈ ((penning op).next g c r).held, m ∈ s.messages ∨ m ∈ g.held) :
    Lined t (gs.set i (op, (penning op).next g c r)) := by
  refine ⟨fun m hm hcall => ?_, fun j op' g' hj m hm hcall => ?_⟩
  · obtain hm | hm := hstored m hm hcall
    · exact (h.stored m hm hcall).set hg hallowed r
    · exact hm
  · obtain ⟨rfl, hog⟩ | ⟨_, hj⟩ := (getElem?_set_iff hg).mp hj
    · cases hog
      obtain hm | hm := hheld m hm
      · exact (h.stored m hm hcall).set hg hallowed r
      · exact (h.held _ _ _ hg m hm hcall).set hg hallowed r
    · exact (h.held _ _ _ hj m hm hcall).set hg hallowed r

/-- Stored by a request that may, a line is written. -/
theorem written_insert {ms : List Message} {d : MessageDraft} (hg : gs[i]? = some (op, .holds ms))
    (hwrites : op.Writes d.body) (hforward : op.isForward = false) (id : MessageId) :
    Written (gs.set i (op, .wrote id d.body)) id d.body := by
  cases op with
  | sendMessage payload =>
    exact ⟨i, payload, (getElem?_set_iff hg).mpr (.inl ⟨rfl, rfl⟩), hwrites.1, hwrites.2⟩
  | _ => exact absurd (hforward.symm.trans hwrites) Bool.false_ne_true

theorem Lined.call (h : Lined s gs) (hg : gs[i]? = some (op, g))
    (hallowed : (penning op).allowed g c) (hleaves : LeavesLines s gs i c) :
    Lined (exec c s).2 (gs.set i (op, (penning op).next g c (exec c s).1)) := by
  cases c with
  | insertMessage d =>
    obtain ⟨ms, rfl⟩ | ⟨id, body, rfl⟩ : (∃ ms, g = .holds ms) ∨ ∃ id body, g = .wrote id body := by
      cases g
      · exact .inl ⟨_, rfl⟩
      · exact .inr ⟨_, _, rfl⟩
    · refine h.keep hg hallowed (fun m hm hcall => ?_) fun m hm => .inr ?_
      · obtain hm | hm := List.mem_append.mp hm
        · exact .inl hm
        · cases List.mem_singleton.mp hm
          have hd : d.type = .call := hcall
          have hforward : op.isForward = false := hleaves hd _ hg
          have hnext : (penning op).next (.holds ms) (.insertMessage d) (exec (.insertMessage d) s).1 =
              .wrote s.nextId d.body := if_pos hd
          rw [hnext]
          exact .inr (written_insert hg (hallowed hd) hforward s.nextId)
      · change m ∈ (if d.type = .call then Pen.wrote s.nextId d.body else .holds ms).held at hm
        split at hm
        · exact absurd hm List.not_mem_nil
        · exact hm
    · exact hallowed.elim
  | saveMessage m =>
    refine h.keep hg hallowed (fun x hx hcall => ?_) fun x hx => .inr hx
    obtain ⟨rfl, _⟩ | ⟨hx, _⟩ := mem_replaceRow_iff.mp hx
    · cases g with
      | wrote id body => exact hallowed.elim
      | holds ms =>
        have ⟨m₀, hm₀, hid, htype, hbody⟩ := hallowed
        have hsame : x.body = m₀.body := by
          obtain hedit | hbody := hbody
          · exact hleaves hcall _ hg hedit m₀ hm₀
          · exact hbody
        have hwritten := h.held _ _ _ hg m₀ hm₀ (htype.symm.trans hcall)
        rw [← hid, ← hsame] at hwritten
        exact .inr (hwritten.set hg hallowed _)
    · exact .inl hx
  | findMessage id c =>
    refine h.keep hg hallowed (fun m hm _ => .inl hm) fun m hm => ?_
    cases hfind : s.messages.find? fun row => row.id = id ∧ row.conversationId = c with
    | none =>
      simp only [exec, hfind] at hm
      exact .inr hm
    | some row =>
      simp only [exec, hfind] at hm
      cases List.mem_singleton.mp hm
      exact .inl (List.mem_of_find?_eq_some hfind)
  | findDueMessages before =>
    refine h.keep hg hallowed (fun m hm _ => .inl hm) fun m hm => ?_
    exact .inl (mem_due s before rfl hm).1
  | _ =>
    refine h.keep hg hallowed (fun m hm _ => .inl ?_) fun m hm => .inr hm
    rwa [exec_messages (by rintro _ ⟨⟩) (by rintro _ ⟨⟩)] at hm

/-- In a run from the empty database in which no forward stores a line of the call history and no edit
changes one, every stored line is one that a send of the system has written, with the body it has
written. -/
theorem lines_written (now : Time) (timeZone : Int) (ops : List Op) (es : List (Pool.Event Empty Nat))
    (h : Runs.Along penStep (Staged.Meets (fun _ _ => false) LeavesLines) es
      (penned ops (Db.empty now timeZone))) :
    Runs.Always penStep LinesWritten es (penned ops (Db.empty now timeZone)) := by
  have hstart : Serving penning (fun _ _ _ => True) Lined ops (penned ops (Db.empty now timeZone)) := by
    refine Serving.start Op.pens ⟨fun _ hm => absurd hm List.not_mem_nil, fun i op g hg m hm => ?_⟩
    obtain ⟨_, _, heq⟩ := List.mem_map.mp (List.mem_of_getElem? hg)
    cases heq
    exact absurd hm List.not_mem_nil
  have hcall : ∀ (s : Db) (gs : List (Op × Pen)) (i : Nat) (op : Op) (g : Pen) (c : Call), Lined s gs →
      gs[i]? = some (op, g) → (penning op).allowed g c → false = false → LeavesLines s gs i c →
      Lined (exec c s).2 (gs.set i (op, (penning op).next g c (exec c s).1)) :=
    fun _ _ _ _ _ _ h hg hallowed _ hleaves => h.call hg hallowed hleaves
  have hwait : ∀ (d : Nat) (s : Db) (gs : List (Op × Pen)), Lined s gs → Lined (s.wait d) gs :=
    fun _ _ _ h => ⟨h.stored, h.held⟩
  exact (Serving.always (fun _ _ _ => trivial) hcall hwait hstart h).mono fun _ h => h.inv.stored

/-- The gateway records a call in the private chat of A and B. -/
def callLine : SendMessage := { textMessage userA 0 ['h', 'i'] with type := some "call".toList, systemCall := true }

def recordCall : List Op := [.createPrivate userA userB, .sendMessage callLine]

/-- Each of two requests is served alone. -/
def inOrder : List (Pool.Event Empty Nat) :=
  List.replicate 3 (.advance 0) ++ List.replicate 3 (.advance 1)

theorem lines_written_recordCall :
    Runs.Always penStep LinesWritten inOrder (penned recordCall (Db.empty 0 0)) :=
  lines_written 0 0 recordCall inOrder (by decide)

/-- Then A forwards the line. -/
def forwarded : Penned := Runs.final penStep (inOrder ++ List.replicate 7 (.advance 2))
  (penned (recordCall ++ [.forwardMessage userA 0 0 3]) (Db.empty 0 0))

theorem lines_written_fails :
    ¬ ∀ (ops : List Op) (es : List (Pool.Event Empty Nat)),
      Runs.Always penStep LinesWritten es (penned ops (Db.empty 0 0)) := by
  intro h
  have hline : ∃ m ∈ forwarded.pool.store.messages, m.type = .call ∧
      ∀ og ∈ forwarded.stages, og.1.isForward = true ∨ og.2.line ≠ some m.id := by decide
  obtain ⟨m, hm, hcall, hnone⟩ := hline
  obtain ⟨i, payload, hi, -, -⟩ := (h _ _).final m hm hcall
  obtain hforward | hother := hnone _ (List.mem_of_getElem? hi)
  · cases hforward
  · exact hother rfl

end Relay.Chat
