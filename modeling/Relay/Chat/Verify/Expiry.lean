import Relay.Lib.Faults
import Relay.Chat.Verify.Tombstones

/-!
# Overlapping expiries

`expireDueMessages` loads the due messages and tombstones them one by one; what it returns is broadcast and
the stored files are deleted. Nothing is claimed, and the messages tombstoned before a failing save are
returned by nobody. `expired_once` says what is enough for every tombstoned message to be returned by
exactly one of any number of runs.
-/

namespace Relay.Chat

open Relay.Lib Relay.Lib.Rows Prog

/-! ## One run -/

/-- A message that was tombstoned, and the attachment it had. -/
abbrev Removed := MessageId × Option Text

def DeleteMessageResult.removed (r : DeleteMessageResult) : Removed := (r.message.id, r.removedAttachmentUrl)

/-- How far a run has come: what it has tombstoned, and the messages that are left. -/
inductive Expiry where
  | idle
  | round (done : List Removed) (left : List Message)
  /-- The conversation of the message is gone. -/
  | dropping (done : List Removed) (m : Message) (left : List Message)
  | dating (done : List Removed) (m : Message) (left : List Message)
  | burying (done : List Removed) (m : Message) (left : List Message)
  | failed

namespace Expiry

/-- What the run will return if no save of it fails. -/
def carried : Expiry → List Removed
  | idle | failed => []
  | round done _ | dropping done _ _ | dating done _ _ | burying done _ _ => done

/-- The loaded messages that are still to be saved. -/
def loaded : Expiry → List Message
  | idle | failed => []
  | round _ left => left
  | dropping _ m left | dating _ m left | burying _ m left => m :: left

def Allowed : Expiry → Call → Prop
  | idle, .newDate | idle, .findDueMessages _ => True
  | round _ left, .findConversation c => ∃ m rest, left = m :: rest ∧ c = m.conversationId
  | round _ _, .findMessageById _ => True
  | dropping _ m _, .saveMessage m' => m' = { m with expiresAt := none }
  | dating _ _ _, .newDate => True
  | burying _ m _, .saveMessage m' => ∃ now, m' = { m.bury now with expiresAt := none }
  | _, _ => False

def next : Expiry → (c : Call) → Except Failure c.Answer → Expiry
  | idle, .findDueMessages _, .ok due => round [] due
  | round done (m :: left), .findConversation _, .ok (some _) => dating done m left
  | round done (m :: left), .findConversation _, .ok none => dropping done m left
  | dropping done _ left, .saveMessage _, .ok _ => round done left
  | dating done m left, .newDate, .ok _ => burying done m left
  | burying done m left, .saveMessage _, .ok _ => round (done ++ [(m.id, m.attachmentUrl)]) left
  | dropping _ _ _, .saveMessage _, .error _ | burying _ _ _, .saveMessage _, .error _ => failed
  | g, _, _ => g

end Expiry

def isSave : Call → Bool
  | .saveMessage _ => true
  | _ => false

/-- A read never fails. -/
def expiry : Protocol Call Call.Answer Failure Expiry where
  allowed := Expiry.Allowed
  next := Expiry.next
  answers c r := ReadCall c → ∃ a, r = .ok a

/-- A run returns what it has tombstoned, unless it fails. -/
def Returns (r : Except Failure (List DeleteMessageResult)) (g : Expiry) : Prop :=
  match r with
  | .ok results => g = .round (results.map DeleteMessageResult.removed) []
  | .error _ => g = .failed

section Programs

variable {α : Type} {done : List Removed} {m : Message} {left : List Message}

/-- A call that reads, and the stage after it. -/
theorem follows_load {c : Call} {f : c.Answer → M α} {Q : Except Failure α → Expiry → Prop} {g : Expiry}
    (hc : g.Allowed c) (hread : ReadCall c) (hf : ∀ a, Follows expiry Q (f a) (g.next c (.ok a))) :
    Follows expiry Q (perform c >>= f) g := by
  refine ⟨hc, fun r hr => ?_⟩
  obtain ⟨a, rfl⟩ := hr hread
  exact hf a

/-- What a round has added when it ends. -/
def Rounded (done : List Removed) (left : List Message) (r : Except Failure (Option DeleteMessageResult))
    (g : Expiry) : Prop :=
  match r with
  | .ok result => g = .round (done ++ result.toList.map DeleteMessageResult.removed) left
  | .error _ => g = .failed

theorem loadReplyTo_rounds (result : Option Message → DeleteMessageResult) (row : Message) {e : Removed}
    (hremoved : ∀ replyTo, (result replyTo).removed = e) :
    Follows expiry (Rounded done left) (loadReplyTo row >>= fun replyTo => return some (result replyTo))
      (.round (done ++ [e]) left) := by
  have hend : ∀ replyTo, Rounded done left (.ok (some (result replyTo))) (.round (done ++ [e]) left) := by
    intro replyTo
    simp only [Rounded, Option.toList_some, List.map_cons, List.map_nil, hremoved]
  unfold loadReplyTo
  split
  · exact hend none
  · refine follows_load trivial trivial fun replyTo => ?_
    have hstay : ∀ id, (Expiry.round (done ++ [e]) left).next (.findMessageById id) (.ok replyTo) =
        .round (done ++ [e]) left := fun id => by cases left <;> rfl
    rw [hstay]
    exact hend replyTo

theorem expireMessage_rounds :
    Follows expiry (Rounded done left) (expireMessage m) (.round done (m :: left)) := by
  refine follows_load ⟨m, left, rfl, rfl⟩ trivial fun found => ?_
  cases found with
  | none =>
    refine ⟨rfl, fun r _ => ?_⟩
    cases r with
    | error e => rfl
    | ok _ => exact congrArg (Expiry.round · left) (List.append_nil done).symm
  | some conversation =>
    refine follows_load (c := .newDate) trivial trivial fun now => ⟨⟨now, rfl⟩, fun r _ => ?_⟩
    cases r with
    | error e => rfl
    | ok _ => exact loadReplyTo_rounds _ _ fun _ => rfl

variable (done) in
theorem collect_returns (due : List Message) :
    Follows expiry (fun r g => match r with
        | .ok results => g = .round (done ++ results.map DeleteMessageResult.removed) []
        | .error _ => g = .failed)
      (collect expireMessage due) (.round done due) := by
  induction due generalizing done with
  | nil => exact congrArg (Expiry.round · []) (List.append_nil done).symm
  | cons m due ih =>
    refine follows_bind expireMessage_rounds (fun result g hg => ?_) fun e g hg => hg
    obtain rfl : g = .round (done ++ result.toList.map DeleteMessageResult.removed) due := hg
    refine follows_bind (ih _) (fun results g' hg' => ?_) fun e g' hg' => hg'
    obtain rfl : g' = .round (done ++ result.toList.map DeleteMessageResult.removed ++
      results.map DeleteMessageResult.removed) [] := hg'
    change Expiry.round _ [] = .round _ []
    rw [List.map_append, List.append_assoc]

theorem expireDueMessages_returns : Follows expiry Returns expireDueMessages .idle := by
  refine follows_load (c := .newDate) trivial trivial fun now =>
    follows_load (c := .findDueMessages now) trivial trivial fun due => ?_
  refine (collect_returns [] due).mono fun r g hg => ?_
  cases r with
  | ok results => exact hg
  | error e => exact hg

end Programs

/-! ## Several runs -/

/-- The message is deleted for everyone. -/
def Db.IsTombstone (db : Db) (id : MessageId) : Prop :=
  ∃ row ∈ db.messages, row.id = id ∧ row.deletedForEveryoneAt ≠ none

/-- What the runs will return of a message if no save fails. -/
def carriedOf (id : MessageId) (gs : List (Unit × Expiry)) : List Removed :=
  (gs.flatMap fun g => g.2.carried).filter fun e => e.1 = id

/-- A save that fails comes before the run has tombstoned anything, and one that does not finds the message
alive. -/
def Timely (faults : Nat → Option Failure) (s : Faulty Db) (gs : List (Unit × Expiry)) (i : Nat) : Call → Prop
  | .saveMessage m =>
    match faults s.2 with
    | some _ => ∀ g ∈ gs[i]?, g.2.carried = []
    | none => ∀ row ∈ s.1.messages, row.id = m.id → row.deletedForEveryoneAt = none
  | _ => True

instance (faults : Nat → Option Failure) (s : Faulty Db) (gs : List (Unit × Expiry)) (i : Nat) (c : Call) :
    Decidable (Timely faults s gs i c) := by
  apply @Call.casesOn (fun c => Decidable (Timely faults s gs i c)) c <;> intros <;> dsimp only [Timely] <;>
    rcases faults s.2 with _ | e <;> infer_instance

/-- A copy, still alive, of a message that was alive at first. -/
structure Message.CopyOf (m m₀ : Message) : Prop where
  id : m₀.id = m.id
  alive : m₀.deletedForEveryoneAt = none ∧ m.deletedForEveryoneAt = none
  attachment : m₀.attachmentUrl = m.attachmentUrl

/-- What holds of the messages and the runs, where `s₀` is the database at first. -/
structure Expires (s₀ : Db) (s : Faulty Db) (gs : List (Unit × Expiry)) : Prop where
  ids : s.1.messages.map Message.id = s₀.messages.map Message.id
  alive : ∀ row ∈ s.1.messages, row.deletedForEveryoneAt = none → ∃ m₀ ∈ s₀.messages, row.CopyOf m₀
  loaded : ∀ (i : Nat) (o : Unit) (g : Expiry), gs[i]? = some (o, g) → ∀ m ∈ g.loaded, ∃ m₀ ∈ s₀.messages, m.CopyOf m₀
  carried : ∀ m₀ ∈ s₀.messages, m₀.deletedForEveryoneAt = none →
    (s.1.IsTombstone m₀.id → carriedOf m₀.id gs = [(m₀.id, m₀.attachmentUrl)]) ∧
      (¬ s.1.IsTombstone m₀.id → carriedOf m₀.id gs = [])

section Runs

variable {s₀ : Db} {s : Faulty Db} {gs : List (Unit × Expiry)} {i : Nat} {o : Unit} {g g' : Expiry}

/-- What one run carries, among the others. -/
theorem carriedOf_set (hg : gs[i]? = some (o, g)) (id : MessageId) : ∃ before after : List Removed, ∀ g' : Expiry,
    carriedOf id (gs.set i (o, g')) = before ++ g'.carried.filter (fun e => e.1 = id) ++ after := by
  obtain ⟨hlt, -⟩ := List.getElem?_eq_some_iff.mp hg
  refine ⟨carriedOf id (gs.take i), carriedOf id (gs.drop (i + 1)), fun g' => ?_⟩
  rw [List.set_eq_take_append_cons_drop, if_pos hlt]
  simp only [carriedOf, List.flatMap_append, List.flatMap_cons, List.filter_append, List.append_assoc]

theorem carriedOf_same (hg : gs[i]? = some (o, g)) (hsame : g'.carried = g.carried) (id : MessageId) :
    carriedOf id (gs.set i (o, g')) = carriedOf id gs := by
  obtain ⟨before, after, hset⟩ := carriedOf_set hg id
  have hself := hset g
  rw [set_self hg] at hself
  rw [hset g', hself, hsame]

/-- The run goes on without a save. -/
theorem Expires.turn {f : Expiry} (h : Expires s₀ s gs) {n : Nat} (hg : gs[i]? = some (o, g))
    (hsame : f.carried = g.carried) (hloaded : ∀ m ∈ f.loaded, m ∈ g.loaded ∨ ∃ m₀ ∈ s₀.messages, m.CopyOf m₀) :
    Expires s₀ (s.1, n) (gs.set i (o, f)) where
  ids := h.ids
  alive := h.alive
  loaded j o' g₁ hg₁ m hm := by
    obtain ⟨-, heq⟩ | ⟨-, hold⟩ := (getElem?_set_iff hg).mp hg₁
    · cases heq
      exact (hloaded m hm).elim (h.loaded i o g hg m) id
    · exact h.loaded j o' g₁ hold m hm
  carried m₀ hm₀ halive := by
    rw [carriedOf_same hg hsame]
    exact h.carried m₀ hm₀ halive

/-- A message is saved alive. -/
theorem Expires.drop (h : Expires s₀ s gs) {m : Message} (hm : ∃ m₀ ∈ s₀.messages, m.CopyOf m₀)
    (hfound : ∀ row ∈ s.1.messages, row.id = m.id → row.deletedForEveryoneAt = none) :
    Expires s₀ ((exec (.saveMessage m) s.1).2, s.2) gs := by
  have hmem : ∀ row, row ∈ (exec (.saveMessage m) s.1).2.messages ↔
      row = m ∧ (∃ r ∈ s.1.messages, r.id = m.id) ∨ row ∈ s.1.messages ∧ row.id ≠ m.id :=
    fun row => mem_replaceRow_iff
  have htombstone : ∀ id, (exec (.saveMessage m) s.1).2.IsTombstone id ↔ s.1.IsTombstone id := by
    intro id
    constructor
    · rintro ⟨row, hrow, hid, hdeleted⟩
      obtain ⟨rfl, -⟩ | ⟨hold, -⟩ := (hmem row).mp hrow
      · obtain ⟨m₀, -, hcopy⟩ := hm
        exact absurd hcopy.alive.2 hdeleted
      · exact ⟨row, hold, hid, hdeleted⟩
    · rintro ⟨row, hrow, hid, hdeleted⟩
      exact ⟨row, (hmem row).mpr (.inr ⟨hrow, fun heq => hdeleted (hfound row hrow heq)⟩), hid, hdeleted⟩
  refine ⟨(map_replaceRow fun _ _ hid => hid).trans h.ids, fun row hrow hrowalive => ?_, h.loaded,
    fun m₀ hm₀ hm₀alive => ?_⟩
  · obtain ⟨rfl, -⟩ | ⟨hold, -⟩ := (hmem row).mp hrow
    · exact hm
    · exact h.alive row hold hrowalive
  · rw [htombstone]
    exact h.carried m₀ hm₀ hm₀alive

/-- A message is tombstoned that was alive. -/
theorem Expires.bury (hkeyed : WellKeyed s₀) (h : Expires s₀ s gs) {done : List Removed} {m : Message}
    {left : List Message} {now : Time} {n : Nat} (hg : gs[i]? = some (o, .burying done m left))
    (hfound : ∀ row ∈ s.1.messages, row.id = m.id → row.deletedForEveryoneAt = none) :
    Expires s₀ ((exec (.saveMessage { m.bury now with expiresAt := none }) s.1).2, n)
      (gs.set i (o, .round (done ++ [(m.id, m.attachmentUrl)]) left)) := by
  have hmem : ∀ row, row ∈ (exec (.saveMessage { m.bury now with expiresAt := none }) s.1).2.messages ↔
      row = { m.bury now with expiresAt := none } ∧ (∃ r ∈ s.1.messages, r.id = m.id) ∨
        row ∈ s.1.messages ∧ row.id ≠ m.id := fun row => mem_replaceRow_iff
  obtain ⟨m₁, hm₁, hid, hm₁alive, hurl⟩ := h.loaded i o _ hg m List.mem_cons_self
  refine ⟨(map_replaceRow fun _ _ hid => hid).trans h.ids, fun row hrow halive => ?_,
    fun j o' g' hg' x hx => ?_, fun m₀ hm₀ halive => ?_⟩
  · obtain ⟨rfl, -⟩ | ⟨hold, -⟩ := (hmem row).mp hrow
    · cases halive
    · exact h.alive row hold halive
  · obtain ⟨-, heq⟩ | ⟨-, hold⟩ := (getElem?_set_iff hg).mp hg'
    · cases heq
      exact h.loaded i o _ hg x (List.mem_cons_of_mem m hx)
    · exact h.loaded j o' g' hold x hx
  · obtain ⟨before, after, hset⟩ := carriedOf_set hg m₀.id
    have hself := hset (.burying done m left)
    rw [set_self hg] at hself
    rw [hset]
    by_cases hsame : m₀.id = m.id
    · obtain rfl : m₀ = m₁ := hkeyed.messages.eq_of_id_eq hm₀ hm₁ (hsame.trans hid.symm)
      -- nobody carries the message yet
      have hnone : ¬ s.1.IsTombstone m₀.id := fun ⟨row, hrow, hrowid, hdeleted⟩ =>
        hdeleted (hfound row hrow (hrowid.trans hsame))
      have hnil := (h.carried m₀ hm₀ halive).2 hnone
      rw [hself, List.append_eq_nil_iff, List.append_eq_nil_iff] at hnil
      obtain ⟨⟨hbefore, hdone⟩, hafter⟩ := hnil
      have hdone : done.filter (fun e => e.1 = m₀.id) = [] := hdone
      have hrow : ∃ r ∈ s.1.messages, r.id = m.id := by
        have hin : m₀.id ∈ s.1.messages.map Message.id := h.ids ▸ List.mem_map_of_mem hm₀
        obtain ⟨r, hr, hrid⟩ := List.mem_map.mp hin
        exact ⟨r, hr, hrid.trans hsame⟩
      refine ⟨fun _ => ?_, fun hnot => absurd ⟨_, (hmem _).mpr (.inl ⟨rfl, hrow⟩), hsame.symm, nofun⟩ hnot⟩
      rw [hbefore, hafter, Expiry.carried, List.filter_append, hdone, hurl, ← hsame]
      simp
    · have htombstone : (exec (.saveMessage { m.bury now with expiresAt := none }) s.1).2.IsTombstone m₀.id ↔
          s.1.IsTombstone m₀.id := by
        constructor
        · rintro ⟨row, hrow, hrowid, hdeleted⟩
          obtain ⟨rfl, -⟩ | ⟨hold, -⟩ := (hmem row).mp hrow
          · exact absurd hrowid.symm hsame
          · exact ⟨row, hold, hrowid, hdeleted⟩
        · rintro ⟨row, hrow, hrowid, hdeleted⟩
          exact ⟨row, (hmem row).mpr (.inr ⟨hrow, fun heq => hsame (hrowid.symm.trans heq)⟩), hrowid, hdeleted⟩
      have hcarried : (Expiry.round (done ++ [(m.id, m.attachmentUrl)]) left).carried.filter
          (fun e => e.1 = m₀.id) = (Expiry.burying done m left).carried.filter fun e => e.1 = m₀.id := by
        simp [Expiry.carried, Ne.symm hsame]
      rw [htombstone, hcarried, ← hself]
      exact h.carried m₀ hm₀ halive

/-- What a call of a run does. -/
theorem Expires.call {faults : Nat → Option Failure} (hkeyed : WellKeyed s₀) (h : Expires s₀ s gs) {c : Call}
    (hg : gs[i]? = some (o, g)) (hc : g.Allowed c) (htimely : Timely faults s gs i c) :
    Expires s₀ (Lib.faulty exec isSave faults c s).2
      (gs.set i (o, g.next c (Lib.faulty exec isSave faults c s).1)) := by
  obtain ⟨db, n⟩ := s
  cases g with
  | idle =>
    cases c with
    | newDate => exact h.turn hg rfl fun m hm => .inl hm
    | findDueMessages before =>
      refine h.turn hg rfl fun m hm => .inr ?_
      obtain ⟨hstored, halive⟩ := mem_due _ before rfl hm
      exact h.alive m hstored halive
    | _ => exact hc.elim
  | round done left =>
    cases c with
    | findConversation c =>
      obtain ⟨m, rest, rfl, -⟩ := hc
      change Expires s₀ (db, n) (gs.set i (o, (Expiry.round done (m :: rest)).next (.findConversation c)
        (.ok ((db.findConversation c).map db.withMembers))))
      cases (db.findConversation c).map db.withMembers with
      | none => exact h.turn hg rfl fun m hm => .inl hm
      | some cv => exact h.turn hg rfl fun m hm => .inl hm
    | findMessageById id =>
      cases left with
      | nil => exact h.turn hg rfl fun m hm => .inl hm
      | cons m rest => exact h.turn hg rfl fun m hm => .inl hm
    | _ => cases hc
  | dropping done m left =>
    cases c with
    | saveMessage m' =>
      obtain rfl : m' = { m with expiresAt := none } := hc
      obtain ⟨m₁, hm₁, hcopy⟩ := h.loaded i o _ hg m List.mem_cons_self
      cases hfault : faults n with
      | some e =>
        simp only [Timely, hfault, hg, Option.mem_def, Option.some.injEq, forall_eq'] at htimely
        simp only [Lib.faulty, isSave, hfault, if_true]
        exact h.turn (f := .failed) hg htimely.symm (by simp [Expiry.loaded])
      | none =>
        simp only [Timely, hfault] at htimely
        simp only [Lib.faulty, isSave, hfault, if_true]
        have hcopy' : ({ m with expiresAt := none } : Message).CopyOf m₁ :=
          ⟨hcopy.id, hcopy.alive, hcopy.attachment⟩
        exact (h.drop ⟨m₁, hm₁, hcopy'⟩ htimely).turn hg rfl fun x hx => .inl (List.mem_cons_of_mem m hx)
    | _ => cases hc
  | dating done m left =>
    cases c with
    | newDate => exact h.turn hg rfl fun m hm => .inl hm
    | _ => cases hc
  | burying done m left =>
    cases c with
    | saveMessage m' =>
      obtain ⟨now, rfl⟩ := hc
      cases hfault : faults n with
      | some e =>
        simp only [Timely, hfault, hg, Option.mem_def, Option.some.injEq, forall_eq'] at htimely
        simp only [Lib.faulty, isSave, hfault, if_true]
        exact h.turn (f := .failed) hg htimely.symm (by simp [Expiry.loaded])
      | none =>
        simp only [Timely, hfault] at htimely
        simp only [Lib.faulty, isSave, hfault, if_true]
        exact h.bury hkeyed hg htimely
    | _ => cases hc
  | failed => exact hc.elim

end Runs

/-! ## What is returned -/

abbrev Expiring := Staged Call Call.Answer Failure (List DeleteMessageResult) (Faulty Db) (Unit × Expiry)

/-- The world around the database: time passes. -/
def waitFaulty (d : Nat) (s : Faulty Db) : Faulty Db := (s.1.wait d, s.2)

def expiryStep (faults : Nat → Option Failure) : Pool.Event Empty Nat → Expiring → Expiring :=
  serve (Lib.faulty exec isSave faults) waitFaulty (fun _ => expiry) fun _ _ => false

/-- So many runs, none of which has made a call. -/
def expiring (n : Nat) (s : Db) : Expiring :=
  requests (fun _ => expireDueMessages) (fun _ => .idle) (List.replicate n ()) (s, 0)

/-- The same runs without their stages. -/
def expired (faults : Nat → Option Failure) (n : Nat) (es : List (Pool.Event Empty Nat)) (s : Db) :
    Pool Call Call.Answer Failure (List DeleteMessageResult) (Faulty Db) :=
  Runs.final (Pool.step (Lib.faulty exec isSave faults) Empty.elim waitFaulty) es
    ⟨(s, 0), (List.replicate n ()).map fun _ => expireDueMessages⟩

/-- What the runs have returned, all together. -/
def returned (threads : List (M (List DeleteMessageResult))) : List Removed :=
  threads.flatMap fun t =>
    match t with
    | .ret results => results.map DeleteMessageResult.removed
    | _ => []

/-- Every message that was alive in `s` and has been tombstoned is returned once by one run, with the attachment
it had. -/
def ReturnedOnce (s : Db) (p : Pool Call Call.Answer Failure (List DeleteMessageResult) (Faulty Db)) : Prop :=
  ∀ m ∈ s.messages, m.deletedForEveryoneAt = none → p.store.1.IsTombstone m.id →
    (returned p.threads).filter (fun e => e.1 = m.id) = [(m.id, m.attachmentUrl)]

abbrev Expired (s₀ : Db) (n : Nat) : Expiring → Prop :=
  Serving (fun _ => expiry) (fun _ => Returns) (Expires s₀) (List.replicate n ())

theorem expiring_start {s : Db} (hkeyed : WellKeyed s) (n : Nat) : Expired s n (expiring n s) := by
  have hidle : ∀ og ∈ (List.replicate n ()).map (fun o => (o, Expiry.idle)), og.2 = .idle := by
    intro og hog
    obtain ⟨_, -, rfl⟩ := List.mem_map.mp hog
    rfl
  refine Serving.start (fun _ => expireDueMessages_returns) ⟨rfl, fun row hrow halive => ?_, fun i o g hg m hm => ?_,
    fun m₀ hm₀ halive => ⟨fun ⟨row, hrow, hid, hdeleted⟩ => ?_, fun _ => ?_⟩⟩
  · exact ⟨row, hrow, rfl, ⟨halive, halive⟩, rfl⟩
  · obtain rfl : g = .idle := hidle _ (List.mem_of_getElem? hg)
    cases hm
  · obtain rfl := hkeyed.messages.eq_of_id_eq hrow hm₀ hid
    exact absurd halive hdeleted
  · refine List.filter_eq_nil_iff.mpr fun e he => ?_
    obtain ⟨og, hog, he⟩ := List.mem_flatMap.mp he
    rw [hidle og hog] at he
    cases he

theorem Expired.step {faults : Nat → Option Failure} {s : Db} (hkeyed : WellKeyed s) {n : Nat} {w : Expiring}
    (h : Expired s n w) {e : Pool.Event Empty Nat} (hL : Staged.Meets (fun _ _ => false) (Timely faults) w e) :
    Expired s n (expiryStep faults e w) := by
  have hanswers : ∀ (o : Unit) (s : Faulty Db) (c : Call),
      expiry.answers c (Lib.faulty exec isSave faults c s).1 := by
    intro o s c hread
    obtain ⟨a, ha⟩ := hread.answered s.1
    have hsave : isSave c = false := by cases c <;> first | rfl | exact hread.elim
    exact ⟨a, by simp [Lib.faulty, hsave, ha]⟩
  have hcall : ∀ s₁ gs i o g c, Expires s s₁ gs → gs[i]? = some (o, g) → expiry.allowed g c →
      (fun (_ : Faulty Db) (_ : Call) => false) s₁ c = false → Timely faults s₁ gs i c →
      Expires s (Lib.faulty exec isSave faults c s₁).2
        (gs.set i (o, expiry.next g c (Lib.faulty exec isSave faults c s₁).1)) :=
    fun s₁ gs i o g c hJ hg hc _ htimely => hJ.call hkeyed hg hc htimely
  have hwait : ∀ (d : Nat) (s₁ : Faulty Db) gs, Expires s s₁ gs → Expires s (waitFaulty d s₁) gs :=
    fun d s₁ gs h => ⟨h.ids, h.alive, h.loaded, h.carried⟩
  exact Serving.step hanswers hcall hwait h hL

/-- When all runs have ended, what they have returned is what they carry. -/
theorem returned_eq {threads : List (M (List DeleteMessageResult))} {gs : List (Unit × Expiry)}
    (h : List.Forall₂ (fun p g => Follows (Protocol.each fun _ : Unit => expiry) (fun r g' => Returns r g'.2) p g)
      threads gs) (hended : ∀ t ∈ threads, t.outcome.isSome) :
    returned threads = gs.flatMap fun g => g.2.carried := by
  induction h with
  | nil => rfl
  | @cons t g threads gs hfollows _ ih =>
    have hrest := ih fun t ht => hended t (List.mem_cons_of_mem _ ht)
    have ht := hended t List.mem_cons_self
    unfold returned at hrest ⊢
    rw [List.flatMap_cons, List.flatMap_cons, hrest]
    cases t with
    | ret results =>
      have hg : g.2 = .round (results.map DeleteMessageResult.removed) [] := hfollows
      rw [hg]
      rfl
    | fail e =>
      have hg : g.2 = .failed := hfollows
      rw [hg]
      rfl
    | call c k => cases ht

/-- Which interleavings of any number of runs, with any pattern of failing saves, return every tombstoned
message once. -/
theorem expired_once {s : Db} (hs : Reachable s) (faults : Nat → Option Failure) (n : Nat)
    (es : List (Pool.Event Empty Nat))
    (hL : Runs.Along (expiryStep faults) (Staged.Meets (fun _ _ => false) (Timely faults)) es (expiring n s))
    (hended : ∀ t ∈ (expired faults n es s).threads, t.outcome.isSome) :
    ReturnedOnce s (expired faults n es s) := by
  have hkeyed := hs.inv.keyed
  have hpool : (Runs.final (expiryStep faults) es (expiring n s)).pool = expired faults n es s := serve_pool es
  have hfinal : Expired s n (Runs.final (expiryStep faults) es (expiring n s)) :=
    (Runs.Always.of_along (I := Expired s n) (fun _ _ h hL => h.step hkeyed hL) (expiring_start hkeyed n) hL).final
  rw [← hpool] at hended ⊢
  intro m hm halive htombstone
  rw [returned_eq hfinal.follow hended]
  exact (hfinal.inv.carried m hm halive).1 htombstone

/-- A message with an attachment whose time is over. -/
def dueMessage : Db := ((Db.empty 0 0).serve
  [.createPrivate userA userB, .setDisappearingMessages 0 userA 86400,
    .sendMessage { textMessage userA 0 ['h', 'i'] with attachmentUrl := some ['f'] }]).wait 86400000000

theorem reachable_dueMessage : Reachable dueMessage := ((reachable_empty 0 0).serve _).wait _

/-- The second run starts when the first has ended. -/
def runsInTurn : List (Pool.Event Empty Nat) := List.replicate 5 (.advance 0) ++ List.replicate 2 (.advance 1)

/-- Both runs load the due message before either saves it. -/
def runsOverlap : List (Pool.Event Empty Nat) :=
  [.advance 0, .advance 0, .advance 1, .advance 1] ++ List.replicate 3 (.advance 0) ++ List.replicate 3 (.advance 1)

theorem expired_once_runsInTurn : ReturnedOnce dueMessage (expired (fun _ => none) 2 runsInTurn dueMessage) := by
  have hended : ((expired (fun _ => none) 2 runsInTurn dueMessage).threads.all fun t => t.outcome.isSome) = true := by
    decide +kernel
  exact expired_once reachable_dueMessage (fun _ => none) 2 runsInTurn (by decide +kernel)
    (List.all_eq_true.mp hended)

/-- Both runs return the message. -/
theorem expired_once_fails :
    ¬ ∀ (s : Db) (faults : Nat → Option Failure) (n : Nat) (es : List (Pool.Event Empty Nat)), Reachable s →
      (∀ t ∈ (expired faults n es s).threads, t.outcome.isSome) → ReturnedOnce s (expired faults n es s) := by
  intro h
  have hended : ((expired (fun _ => none) 2 runsOverlap dueMessage).threads.all fun t => t.outcome.isSome) = true := by
    decide +kernel
  have hreturned := h dueMessage (fun _ => none) 2 runsOverlap reachable_dueMessage (List.all_eq_true.mp hended)
  have hrow : ∃ m ∈ dueMessage.messages, m.deletedForEveryoneAt = none ∧
      (∃ row ∈ (expired (fun _ => none) 2 runsOverlap dueMessage).store.1.messages, row.id = m.id ∧
        row.deletedForEveryoneAt ≠ none) ∧
      ((returned (expired (fun _ => none) 2 runsOverlap dueMessage).threads).filter
        fun e => e.1 = m.id).length = 2 := by decide +kernel
  obtain ⟨m, hm, halive, htombstone, htwice⟩ := hrow
  rw [hreturned m hm halive htombstone] at htwice
  cases htwice

end Relay.Chat
