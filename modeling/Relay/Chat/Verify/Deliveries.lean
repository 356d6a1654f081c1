import Relay.Chat.Verify.Scheduled

/-!
# Dispatching when repository calls fail

`faulty` runs the calls of one dispatch while any of them may fail without effect. A `Trial` keeps
beside the database what the dispatch has done in it: the rows it claimed and the messages it stored,
each with the row that was being delivered. A delivery is four writes in one `try` block: when the
conversation, the audit event or the row cannot be saved after the message was stored, the `catch`
block marks the row as failed although its message is there, and when that save fails the row stays
`sending`. Every claimed row ends as it should exactly when none of these saves fails
(`delivered_iff`).
-/

namespace Relay.Chat

open Relay.Lib Relay.Lib.Rows Prog

/-! ## Runs with failures -/

/-- The failures of a run: how the `n`-th repository call fails, if it does. -/
abbrev Faults := Nat → Option QueryError

/-- The clock and the time zone are no repositories. -/
def Call.isRepository : Call → Bool
  | .newDate | .getTimeZone => false
  | _ => true

structure Trial where
  db : Db
  /-- The number of repository calls made. -/
  made : Nat
  /-- The scheduled rows that were claimed, the last one first. -/
  claimed : List Nat
  /-- The messages that were stored, each with the row that was claimed last. -/
  stored : List (Nat × MessageId)
deriving DecidableEq

/-- Notes what a call has done. -/
def Trial.note (w : Trial) : (c : Call) → Except Failure c.Answer → Trial
  | .claimScheduled id, .ok n => if n = 0 then w else { w with claimed := id :: w.claimed }
  | .insertMessage _, .ok m =>
    { w with stored := (w.claimed.head?.map fun id => (id, m.id)).toList ++ w.stored }
  | _, _ => w

/-- A call in a run with failures; a call that fails has no effect. -/
def faulty (faults : Faults) (c : Call) (w : Trial) : Except Failure c.Answer × Trial :=
  if c.isRepository then
    match faults w.made with
    | some e => (.error (.query e), { w with made := w.made + 1 })
    | none =>
      ((exec c w.db).1,
        { w.note c (exec c w.db).1 with db := (exec c w.db).2, made := w.made + 1 })
  else ((exec c w.db).1, w)

/-- The row is `sent` and names a message that was stored for it, or `failed` and no message was stored
for it. -/
def Trial.Delivered (w : Trial) (id : Nat) : Prop :=
  ∃ row, w.db.scheduledRow id = some row ∧
    (row.status = .sent ∧ (∃ m ∈ w.db.messages, row.sentMessageId = some m.id ∧ (id, m.id) ∈ w.stored) ∨
      row.status = .failed ∧ ∀ m, (id, m) ∉ w.stored)

/-- A dispatch, from a database on. -/
def Trial.dispatch (faults : Faults) (s : Db) : Trial :=
  (run (faulty faults) dispatchDueScheduled ⟨s, 0, [], []⟩).2

/-- The call is no save of a conversation, an audit event or a scheduled row that fails. -/
def Spared (faults : Faults) (w : Trial) : Call → Prop
  | .saveConversation c => ∀ e, (faulty faults (.saveConversation c) w).1 ≠ .error e
  | .insertAudit a action type id info =>
    ∀ e, (faulty faults (.insertAudit a action type id info) w).1 ≠ .error e
  | .saveScheduled row => ∀ e, (faulty faults (.saveScheduled row) w).1 ≠ .error e
  | _ => True

/-! ## The rounds -/

/-- Where the dispatch stands: between two rows, with a row claimed, with its message stored; or a row
has a message without being sent, or could not be saved at all. -/
inductive Round where
  | idle
  | claimed (id : Nat)
  | stored (id : Nat) (m : MessageId)
  | botched (id : Nat)
  | stuck (id : Nat)
deriving DecidableEq

namespace Round

def Bad : Round → Prop
  | .botched _ | .stuck _ => True
  | _ => False

/-- The state after the save of the row. -/
def save (ok : Bool) : Round → Round
  | .claimed id => if ok then .idle else .stuck id
  | .stored id _ => if ok then .idle else .botched id
  | g => g

/-- The state after a save that only comes once the message is stored. -/
def touch (ok : Bool) : Round → Round
  | .stored id m => if ok then .stored id m else .botched id
  | g => g

/-- The state after a message was stored. -/
def insert (m : MessageId) : Round → Round
  | .claimed id => .stored id m
  | g => g

/-- The state after a claim. -/
def claim (id affected : Nat) : Round → Round
  | .idle => if affected = 0 then .idle else .claimed id
  | g => g

end Round

/-- The calls of a dispatch. A row is saved as failed, or as sent with the message that was stored for
it; once a delivery went wrong, its row is not saved as sent any more. -/
def deliveries : Protocol Call Call.Answer Failure Round where
  allowed g c :=
    match c with
    | .claimScheduled _ => g = .idle ∨ ∃ id, g = .botched id
    | .insertMessage _ => (∃ id, g = .claimed id) ∨ ∃ id, g = .botched id
    | .saveConversation _ | .insertAudit _ _ _ _ _ => (∃ id m, g = .stored id m) ∨ ∃ id, g = .botched id
    | .saveScheduled row =>
      g = .claimed row.id ∧ row.status = .failed ∨
        (∃ m, g = .stored row.id m ∧ row.status = .sent ∧ row.sentMessageId = some m) ∨
        ∃ id, g = .botched id ∧ (row.id ≠ id ∨ row.status = .failed)
    | c => ReadCall c ∨ ∃ m cv, c = .findMessage m cv
  next g c r :=
    match c, r with
    | .claimScheduled id, .ok n => g.claim id n
    | .insertMessage _, .ok m => g.insert m.id
    | .saveConversation _, r => g.touch r.isOk
    | .insertAudit _ _ _ _ _, r => g.touch r.isOk
    | .saveScheduled _, r => g.save r.isOk
    | _, _ => g
  answers c r :=
    match c, r with
    | .findDueScheduled _, .ok rows => (rows.map ScheduledMessage.id).Nodup
    | _, _ => True

/-! ## The programs -/

section Follows

variable {α β : Type} {Q : Except Failure β → Round → Prop} {g : Round}

/-- A part that only reads, between the writes of a delivery. -/
theorem follows_reads {p : M α} {f : α → M β}
    (hp : Uses (fun c => ReadCall c ∨ ∃ m cv, c = .findMessage m cv) p)
    (hf : ∀ a, Follows deliveries Q (f a) g) (he : ∀ e, Q (.error e) g) :
    Follows deliveries Q (p >>= f) g := by
  have hskip : Follows deliveries (fun _ g' => g' = g) p g := by
    refine follows_of_sat (fun c hc => ?_) (hp.mono (fun _ _ _ => trivial) fun _ h => h)
    obtain hread | ⟨m, cv, rfl⟩ := hc
    · cases c <;> first | exact ⟨.inl hread, fun _ => rfl⟩ | exact hread.elim
    · exact ⟨.inr ⟨m, cv, rfl⟩, fun _ => rfl⟩
  refine follows_bind hskip (fun a g' hg => ?_) fun e g' hg => ?_
  · cases hg
    exact hf a
  · cases hg
    exact he e

/-- A save that only comes once the message is stored. -/
theorem follows_touch {c : Call} {f : c.Answer → M β} {id : Nat} {m : MessageId}
    (hallowed : deliveries.allowed (.stored id m) c)
    (hnext : ∀ r, deliveries.next (.stored id m) c r = Round.touch r.isOk (.stored id m))
    (hf : ∀ a, Follows deliveries Q (f a) (.stored id m))
    (he : ∀ e, Q (.error e) (.botched id)) :
    Follows deliveries Q (perform c >>= f) (.stored id m) := by
  refine ⟨hallowed, fun r _ => ?_⟩
  rw [hnext r]
  cases r with
  | error e => exact he e
  | ok a => exact hf a

end Follows

/-- How a send ends in a delivery: with the message it returns stored, or with nothing stored, or with
a message that nothing will name. -/
def SendEnds (id : Nat) (r : Except Failure SendMessageResult) (g : Round) : Prop :=
  match r with
  | .ok result => g = .stored id result.view.id
  | .error _ => g = .claimed id ∨ g = .botched id

theorem follows_sendMessage (payload : SendMessage) (id : Nat) :
    Follows deliveries (SendEnds id) (sendMessage payload) (.claimed id) := by
  have hread : ∀ c, ReadCall c → ReadCall c ∨ ∃ m cv, c = .findMessage m cv := fun _ h => .inl h
  have hfail : ∀ e, SendEnds id (.error e) (.claimed id) := fun _ => .inl rfl
  have hbotch : ∀ e, SendEnds id (.error e) (.botched id) := fun _ => .inr rfl
  have hinsert : ∀ (d : MessageDraft) (f : Message → M SendMessageResult),
      (∀ m, Follows deliveries (SendEnds id) (f m) (.stored id m.id)) →
        Follows deliveries (SendEnds id) (perform (.insertMessage d) >>= f) (.claimed id) := by
    refine fun d f hf => ⟨.inl ⟨id, rfl⟩, fun r _ => ?_⟩
    cases r with
    | error e => exact hfail e
    | ok m => exact hf m
  refine follows_reads (uses_rejectIf _ _) (fun _ => ?_) hfail
  refine follows_reads (uses_require _ _) (fun type => ?_) hfail
  split
  · refine follows_reads (uses_rejectIf _ _) (fun _ => ?_) hfail
    refine follows_reads (uses_rejectIf _ _) (fun _ => ?_) hfail
    refine follows_reads (uses_requireMembership hread _ _) (fun cv => ?_) hfail
    refine hinsert _ _ fun saved => ?_
    exact follows_touch (.inl ⟨id, _, rfl⟩) (fun _ => rfl) (fun _ => rfl) hbotch
  · refine follows_reads (uses_requireMembership hread _ _) (fun cv => ?_) hfail
    refine follows_reads (uses_resolvePrivateDelivery hread _ _) (fun delivery => ?_) hfail
    refine follows_reads (uses_rejectIf _ _) (fun _ => ?_) hfail
    refine follows_reads (uses_replyTarget (fun m c => .inr ⟨m, c, rfl⟩) _ _) (fun replyTo => ?_) hfail
    refine follows_reads (uses_perform (.inl trivial)) (fun now => ?_) hfail
    refine hinsert _ _ fun saved => ?_
    refine follows_touch (.inl ⟨id, _, rfl⟩) (fun _ => rfl) (fun _ => ?_) hbotch
    unfold recordAudit
    rw [Prog.bind_assoc']
    exact follows_touch (.inl ⟨id, _, rfl⟩) (fun _ => rfl) (fun _ => rfl) hbotch

/-- How a round ends: with nothing left to do for the row, or with the row botched, unless it throws. -/
def RoundEnds (id : Nat) {α : Type} (r : Except Failure α) (g : Round) : Prop :=
  match r with
  | .ok _ => g = .idle ∨ g = .botched id
  | .error _ => g = .idle ∨ g.Bad

theorem follows_failScheduled {row : ScheduledMessage} {e : Failure} {id : Nat} (hid : row.id = id)
    {g : Round} (hg : g = .claimed id ∨ g = .botched id) :
    Follows deliveries (RoundEnds id) (failScheduled row e) g := by
  obtain rfl | rfl := hg
  · refine ⟨.inl ⟨by rw [← hid], rfl⟩, fun r _ => ?_⟩
    cases r with
    | error e => exact .inr trivial
    | ok a => exact .inl rfl
  · refine ⟨.inr (.inr ⟨id, rfl, .inr rfl⟩), fun r _ => ?_⟩
    cases r with
    | error e => exact .inr trivial
    | ok a => exact .inr rfl

theorem follows_settled (row : ScheduledMessage) {outcome : Except Failure SendMessageResult}
    {g : Round} (hg : SendEnds row.id outcome g) :
    Follows deliveries (RoundEnds row.id) (settle row outcome) g := by
  cases outcome with
  | error e => exact follows_failScheduled rfl hg
  | ok result =>
    cases hg
    refine follows_bind (Q := fun saved g' => ∃ r : Except Failure Unit, saved = .ok r ∧
        g' = if r.isOk then .idle else .botched row.id) ?_ ?_ ?_
    · refine Follows.attempt (follows_perform (.inr (.inl ⟨_, rfl, rfl, rfl⟩)) fun r _ => ?_)
      exact ⟨r, rfl, rfl⟩
    · rintro saved _ ⟨_, ⟨⟩, rfl⟩
      cases saved with
      | ok a => exact .inl rfl
      | error e => exact follows_failScheduled rfl (.inr rfl)
    · rintro e g ⟨r, heq, _⟩
      cases heq

theorem follows_round (row : ScheduledMessage) :
    Follows deliveries (RoundEnds row.id) (dispatchScheduled row) .idle := by
  refine ⟨.inl rfl, fun r _ => ?_⟩
  cases r with
  | error e => exact .inl rfl
  | ok n =>
    change Follows deliveries _ (if n = 0 then return none else
      (sendMessage row.toPayload).attempt >>= settle row) (if n = 0 then .idle else .claimed row.id)
    by_cases hn : n = 0
    · rw [if_pos hn, if_pos hn]
      exact .inl rfl
    · rw [if_neg hn, if_neg hn]
      refine follows_bind (Q := fun outcome g => ∃ r, outcome = .ok r ∧ SendEnds row.id r g) ?_ ?_ ?_
      · exact Follows.attempt ((follows_sendMessage _ _).mono fun r g hg => ⟨r, rfl, hg⟩)
      · rintro outcome g ⟨r, heq, hg⟩
        cases heq
        exact follows_settled row hg
      · rintro e g ⟨r, heq, _⟩
        cases heq

/-- The rows after a botched one do not touch it. -/
theorem follows_botched {rows : List ScheduledMessage} {id : Nat}
    (hid : id ∉ rows.map ScheduledMessage.id) :
    Follows deliveries (fun _ g => g = .botched id) (collect dispatchScheduled rows) (.botched id) := by
  refine follows_of_sat (L := fun c => deliveries.allowed (.botched id) c ∧
    ∀ r, deliveries.next (.botched id) c r = .botched id) (fun _ h => h) ?_
  refine Sat.mono (fun _ _ _ => trivial) (fun _ h => h) (uses_collect fun row hrow => ?_)
  have hne : row.id ≠ id := fun h => hid (h ▸ List.mem_map_of_mem hrow)
  refine uses_dispatchScheduled (fun c hc => ?_) (fun m c => ⟨.inr ⟨m, c, rfl⟩, fun _ => rfl⟩)
    (fun d _ _ => ⟨.inr ⟨id, rfl⟩, fun r => by cases r <;> rfl⟩)
    (fun c => ⟨.inr ⟨id, rfl⟩, fun _ => rfl⟩) (fun _ _ _ _ _ => ⟨.inr ⟨id, rfl⟩, fun _ => rfl⟩)
    ⟨.inr ⟨id, rfl⟩, fun r => by cases r <;> rfl⟩
    fun row' hrow' _ => ⟨.inr (.inr ⟨id, rfl, .inl (hrow' ▸ hne)⟩), fun _ => rfl⟩
  cases c <;> first | exact ⟨.inl hc, fun _ => rfl⟩ | exact hc.elim

theorem follows_rounds {rows : List ScheduledMessage} (hids : (rows.map ScheduledMessage.id).Nodup) :
    Follows deliveries (fun _ g => g = .idle ∨ g.Bad) (collect dispatchScheduled rows) .idle := by
  induction rows with
  | nil => exact .inl rfl
  | cons row rows ih =>
    obtain ⟨hnot, hids⟩ := List.nodup_cons.mp hids
    refine follows_bind (follows_round row) (fun b g hg => ?_) fun e g hg => hg
    have hrest : Follows deliveries (fun _ g => g = .idle ∨ g.Bad) (collect dispatchScheduled rows) g := by
      obtain rfl | rfl := hg
      · exact ih hids
      · exact (follows_botched hnot).mono fun _ _ h => .inr (h ▸ trivial)
    exact follows_bind hrest (fun _ _ h => h) fun _ _ h => h

theorem follows_dispatchDue :
    Follows deliveries (fun _ g => g = .idle ∨ g.Bad) dispatchDueScheduled .idle := by
  refine follows_reads (uses_perform (.inl trivial)) (fun now => ?_) fun _ => .inl rfl
  refine ⟨.inl trivial, fun r hr => ?_⟩
  cases r with
  | error e => exact .inl rfl
  | ok rows => exact follows_rounds hr

/-! ## What the trial knows -/

theorem faulty_cases (faults : Faults) (c : Call) (w : Trial) :
    (∃ e n, faulty faults c w = (.error (.query e), { w with made := n })) ∨
      ∃ n, faulty faults c w = ((exec c w.db).1,
        { w.note c (exec c w.db).1 with db := (exec c w.db).2, made := n }) := by
  unfold faulty
  split
  · split
    · next e _ => exact .inl ⟨e, _, rfl⟩
    · exact .inr ⟨_, rfl⟩
  · next hc =>
    refine .inr ⟨w.made, ?_⟩
    cases c <;> first | rfl | exact absurd rfl hc

/-- The row is claimed and not yet saved. -/
def Trial.Sending (w : Trial) (id : Nat) : Prop :=
  ∃ row, w.db.scheduledRow id = some row ∧ row.status = .sending

/-- The other rows that were claimed are delivered. -/
def Trial.Rest (w : Trial) (id : Nat) : Prop := ∀ i ∈ w.claimed, i ≠ id → w.Delivered i

def Round.Fits (w : Trial) : Round → Prop
  | .idle => ∀ id ∈ w.claimed, w.Delivered id
  | .claimed id => w.claimed.head? = some id ∧ w.Rest id ∧ w.Sending id ∧ ∀ m, (id, m) ∉ w.stored
  | .stored id m => w.claimed.head? = some id ∧ w.Rest id ∧ w.Sending id ∧
      ∃ x ∈ w.db.messages, x.id = m ∧ (id, m) ∈ w.stored
  | .botched id => id ∈ w.claimed ∧ (∃ m, (id, m) ∈ w.stored) ∧
      ∃ row, w.db.scheduledRow id = some row ∧ (row.status = .sending ∨ row.status = .failed)
  | .stuck id => id ∈ w.claimed ∧ w.Sending id

/-- The rows and the notes fit the round the dispatch is in. -/
structure Trial.Sound (w : Trial) (g : Round) : Prop where
  keyed : WellKeyed w.db
  owned : ∀ p ∈ w.stored, p.1 ∈ w.claimed
  fits : g.Fits w

theorem Trial.Delivered.not_pending {w : Trial} {id : Nat} (h : w.Delivered id) :
    ∃ row, w.db.scheduledRow id = some row ∧ row.status ≠ .pending := by
  obtain ⟨row, hrow, ⟨hstatus, _⟩ | ⟨hstatus, _⟩⟩ := h <;>
    exact ⟨row, hrow, by rw [hstatus]; exact nofun⟩

/-- A delivered row stays delivered as long as it and its notes stay. -/
theorem Trial.Delivered.keep {w w' : Trial} {id : Nat} (h : w.Delivered id)
    (hrow : ∀ row, w.db.scheduledRow id = some row → row.status ≠ .pending →
      w'.db.scheduledRow id = some row)
    (hmessages : ∀ m ∈ w.db.messages, m ∈ w'.db.messages)
    (hstored : ∀ m, (id, m) ∈ w'.stored ↔ (id, m) ∈ w.stored) : w'.Delivered id := by
  obtain ⟨row, hid, hnot⟩ := h.not_pending
  refine ⟨row, hrow row hid hnot, ?_⟩
  obtain ⟨row', hid', hends⟩ := h
  rw [hid] at hid'
  cases hid'
  refine hends.imp ?_ ?_
  · rintro ⟨hstatus, m, hm, hnamed, hmine⟩
    exact ⟨hstatus, m, hmessages m hm, hnamed, (hstored _).mpr hmine⟩
  · exact fun ⟨hstatus, hnone⟩ => ⟨hstatus, fun m hm => hnone m ((hstored m).mp hm)⟩

/-- The botched and the stuck rows are not delivered. -/
theorem Round.Bad.not_delivered {w : Trial} {g : Round} (hg : g.Bad) (h : g.Fits w) :
    ¬ ∀ id ∈ w.claimed, w.Delivered id := by
  intro hall
  cases g with
  | botched id =>
    obtain ⟨hclaimed, ⟨m, hm⟩, row, hrow, hstatus⟩ := h
    obtain ⟨row', hrow', ⟨hsent, _⟩ | ⟨_, hnone⟩⟩ := hall id hclaimed
    · rw [hrow] at hrow'
      cases hrow'
      rcases hstatus with hs | hs <;> rw [hs] at hsent <;> cases hsent
    · exact hnone m hm
  | stuck id =>
    obtain ⟨hclaimed, row, hrow, hstatus⟩ := h
    obtain ⟨row', hrow', hends⟩ := hall id hclaimed
    rw [hrow] at hrow'
    cases hrow'
    rcases hends with ⟨hs, _⟩ | ⟨hs, _⟩ <;> rw [hs] at hstatus <;> cases hstatus
  | _ => exact hg.elim

/-! ## The calls -/

section Calls

variable {w : Trial} {g : Round}

/-- A call that failed without effect. -/
theorem Trial.Sound.fails (h : w.Sound g) {c : Call} (hallowed : deliveries.allowed g c)
    (e : Failure) (n : Nat) :
    ({ w with made := n } : Trial).Sound (deliveries.next g c (.error e)) := by
  have hsame : ({ w with made := n } : Trial).Sound g := ⟨h.keyed, h.owned, h.fits⟩
  -- once a message is stored its row is botched
  have hbotched : ∀ {id : Nat} {m : MessageId}, g = .stored id m →
      ({ w with made := n } : Trial).Sound (.botched id) := by
    rintro id m rfl
    obtain ⟨hhead, _, ⟨row, hrow, hstatus⟩, x, _, _, hm⟩ := h.fits
    exact ⟨h.keyed, h.owned, List.mem_of_mem_head? hhead, ⟨m, hm⟩, row, hrow, .inl hstatus⟩
  cases c with
  | saveConversation c =>
    obtain ⟨id, m, rfl⟩ | ⟨id, rfl⟩ := hallowed
    · exact hbotched rfl
    · exact hsame
  | insertAudit a action type id info =>
    obtain ⟨id, m, rfl⟩ | ⟨id, rfl⟩ := hallowed
    · exact hbotched rfl
    · exact hsame
  | saveScheduled row =>
    obtain ⟨rfl, _⟩ | ⟨m, rfl, _⟩ | ⟨id, rfl, _⟩ := hallowed
    · obtain ⟨hhead, _, hsending, _⟩ := h.fits
      exact ⟨h.keyed, h.owned, List.mem_of_mem_head? hhead, hsending⟩
    · exact hbotched rfl
    · exact hsame
  | _ => exact hsame

/-- A call that is no save of a message keeps the messages. -/
theorem mem_messages_exec {c : Call} (hc : ∀ m, c ≠ .saveMessage m) {s : Db} {m : Message}
    (hm : m ∈ s.messages) : m ∈ (exec c s).2.messages := by
  by_cases hinsert : ∃ d, c = .insertMessage d
  · obtain ⟨d, rfl⟩ := hinsert
    exact List.mem_append_left _ hm
  · rw [exec_messages (fun d hd => hinsert ⟨d, hd⟩) hc]
    exact hm

/-- The rows that a call leaves alone stay delivered. -/
theorem Trial.Delivered.call {id : Nat} (h : w.Delivered id) {c : Call} {w' : Trial}
    (hdb : w'.db = (exec c w.db).2) (hmessage : ∀ m, c ≠ .saveMessage m)
    (hsave : ∀ row, c = .saveScheduled row → row.id ≠ id)
    (hstored : ∀ m, (id, m) ∈ w'.stored ↔ (id, m) ∈ w.stored) : w'.Delivered id := by
  refine h.keep (fun row hrow hnot => ?_) (fun m hm => ?_) hstored
  · rw [hdb]
    exact scheduledRow_idle hrow hnot hsave
  · rw [hdb]
    exact mem_messages_exec hmessage hm

/-- A save of a claimed row, as the table has it then. -/
theorem Trial.Sending.saved {id : Nat} (h : w.Sending id) {row : ScheduledMessage} (hid : row.id = id) :
    (exec (.saveScheduled row) w.db).2.scheduledRow id = some { row with updatedAt := w.db.now } := by
  obtain ⟨old, hold, _⟩ := h
  rw [scheduledRow_save, if_pos hid, hold]
  rfl

/-- A call that leaves the two tables alone and is not noted. -/
theorem Trial.Sound.aside (h : w.Sound g) {db : Db} (hkeyed : WellKeyed db)
    (hrows : db.scheduledMessages = w.db.scheduledMessages) (hmessages : db.messages = w.db.messages)
    (n : Nat) : ({ w with db := db, made := n } : Trial).Sound g := by
  refine ⟨hkeyed, h.owned, ?_⟩
  have heq : g.Fits { w with db := db, made := n } = g.Fits w := by
    cases g <;> simp only [Round.Fits, Trial.Rest, Trial.Sending, Trial.Delivered, Db.scheduledRow,
      hrows, hmessages]
  rw [heq]
  exact h.fits

/-- Notes are only added, and a message is noted for a row that was claimed. -/
theorem Trial.note_grows (w : Trial) (c : Call) (r : Except Failure c.Answer)
    (howned : ∀ p ∈ w.stored, p.1 ∈ w.claimed) :
    (∀ i ∈ w.claimed, i ∈ (w.note c r).claimed) ∧ (∀ p ∈ w.stored, p ∈ (w.note c r).stored) ∧
      ∀ p ∈ (w.note c r).stored, p.1 ∈ (w.note c r).claimed := by
  unfold Trial.note
  split
  · split
    · exact ⟨fun _ hi => hi, fun _ hp => hp, howned⟩
    · exact ⟨fun _ hi => List.mem_cons_of_mem _ hi, fun _ hp => hp,
        fun p hp => List.mem_cons_of_mem _ (howned p hp)⟩
  · refine ⟨fun _ hi => hi, fun _ hp => List.mem_append_right _ hp, fun p hp => ?_⟩
    rcases List.mem_append.mp hp with hp | hp
    · simp only [Option.mem_toList, Option.map_eq_some_iff] at hp
      obtain ⟨id, hid, rfl⟩ := hp
      exact List.mem_of_mem_head? hid
    · exact howned p hp
  · exact ⟨fun _ hi => hi, fun _ hp => hp, howned⟩

/-- A botched row stays so, whatever the rest of the dispatch does. -/
theorem Trial.Sound.botched {id : Nat} (h : w.Sound (.botched id)) {c : Call}
    (hsave : ∀ row, c = .saveScheduled row → row.id ≠ id ∨ row.status = .failed) (n : Nat) :
    ({ w.note c (exec c w.db).1 with db := (exec c w.db).2, made := n } : Trial).Sound
      (.botched id) := by
  obtain ⟨hid, ⟨m, hm⟩, row, hrow, hstatus⟩ := h.fits
  obtain ⟨hclaimed, hstored, howned⟩ := w.note_grows c (exec c w.db).1 h.owned
  refine ⟨h.keyed.exec c, howned, hclaimed _ hid, ⟨m, hstored _ hm⟩, ?_⟩
  by_cases hmine : ∃ row', c = .saveScheduled row' ∧ row'.id = id
  · obtain ⟨row', rfl, rfl⟩ := hmine
    refine ⟨{ row' with updatedAt := w.db.now }, ?_, .inr ?_⟩
    · change (exec (.saveScheduled row') w.db).2.scheduledRow row'.id = _
      rw [scheduledRow_save, if_pos rfl, hrow]
      rfl
    · exact (hsave row' rfl).resolve_left fun hne => hne rfl
  · refine ⟨row, scheduledRow_idle hrow ?_ fun row' hc hid => hmine ⟨row', hc, hid⟩, hstatus⟩
    rcases hstatus with hs | hs <;> rw [hs] <;> exact nofun

/-- The notes of a claim, and the row it claims. -/
theorem Trial.Sound.claims (h : w.Sound .idle) (id n : Nat) :
    ({ w.note (.claimScheduled id) (exec (.claimScheduled id) w.db).1 with
      db := (exec (.claimScheduled id) w.db).2, made := n } : Trial).Sound
      (deliveries.next .idle (.claimScheduled id) (exec (.claimScheduled id) w.db).1) := by
  have hkeyed := h.keyed.exec (.claimScheduled id)
  obtain ⟨count, hcount⟩ : ∃ count, (exec (.claimScheduled id) w.db).1 = .ok count := ⟨_, rfl⟩
  have hkept : ∀ (claimed : List Nat), ∀ i ∈ w.claimed,
      (⟨(exec (.claimScheduled id) w.db).2, n, claimed, w.stored⟩ : Trial).Delivered i :=
    fun _ i hi => (h.fits i hi).call rfl (fun _ => nofun) (fun _ => nofun) fun _ => Iff.rfl
  rw [hcount]
  by_cases hzero : count = 0
  · subst hzero
    exact ⟨hkeyed, h.owned, hkept _⟩
  · have hpending := (claim_ne_zero h.keyed).mp fun h0 => hzero (Except.ok.inj (hcount.symm.trans h0))
    obtain ⟨row, hrow, hstatus⟩ := hpending
    have hrowid : row.id = id := by simpa using List.find?_some hrow
    -- a row that was claimed before is not pending any more
    have hnew : id ∉ w.claimed := by
      intro hid
      obtain ⟨row', hrow', hnot⟩ := (h.fits id hid).not_pending
      rw [hrow] at hrow'
      cases hrow'
      exact hnot hstatus
    simp only [Trial.note, deliveries, Round.claim, if_neg hzero]
    refine ⟨hkeyed, fun p hp => List.mem_cons_of_mem _ (h.owned p hp), rfl, fun i hi hne => ?_,
      ⟨{ row with status := .sending, updatedAt := w.db.now }, ?_, rfl⟩, fun m hm => ?_⟩
    · exact hkept _ i ((List.mem_cons.mp hi).resolve_left hne)
    · rw [scheduledRow_claim, hrow, Option.map_some, ScheduledMessage.claimed,
        if_pos ⟨hrowid, hstatus⟩]
    · exact hnew (h.owned _ hm)

/-- The message of the claimed row is stored. -/
theorem Trial.Sound.inserts {id : Nat} (h : w.Sound (.claimed id)) (d : MessageDraft) (n : Nat) :
    ({ w.note (.insertMessage d) (exec (.insertMessage d) w.db).1 with
      db := (exec (.insertMessage d) w.db).2, made := n } : Trial).Sound
      (deliveries.next (.claimed id) (.insertMessage d) (exec (.insertMessage d) w.db).1) := by
  obtain ⟨hhead, hrest, hsending, hnone⟩ := h.fits
  have hnote : w.note (.insertMessage d) (exec (.insertMessage d) w.db).1 =
      { w with stored := (id, w.db.nextId) :: w.stored } := by
    change { w with stored := (w.claimed.head?.map fun id => (id, w.db.nextId)).toList ++ w.stored } = _
    rw [hhead]
    rfl
  rw [hnote]
  refine ⟨h.keyed.exec _, fun p hp => ?_, hhead, fun i hi hne => ?_, hsending, ?_⟩
  · rcases List.mem_cons.mp hp with rfl | hp
    · exact List.mem_of_mem_head? hhead
    · exact h.owned p hp
  · refine (hrest i hi hne).call rfl (fun _ => nofun) (fun _ => nofun) fun m => ?_
    rw [List.mem_cons, Prod.mk.injEq, or_iff_right fun h => hne h.1]
  · exact ⟨_, List.mem_append_right _ List.mem_cons_self, rfl, List.mem_cons_self⟩

/-- The claimed row is saved. -/
theorem Trial.Sound.saves {row : ScheduledMessage} (h : w.Sound g)
    (hg : g = .claimed row.id ∧ row.status = .failed ∨
      ∃ m, g = .stored row.id m ∧ row.status = .sent ∧ row.sentMessageId = some m) (n : Nat) :
    ({ w with db := (exec (.saveScheduled row) w.db).2, made := n } : Trial).Sound .idle := by
  have hother : w.Rest row.id → ∀ i ∈ w.claimed, i ≠ row.id →
      ({ w with db := (exec (.saveScheduled row) w.db).2, made := n } : Trial).Delivered i :=
    fun hrest i hi hne => (hrest i hi hne).call rfl (fun _ => nofun)
      (fun _ hrow => by cases hrow; exact hne.symm) fun _ => Iff.rfl
  refine ⟨h.keyed.exec _, h.owned, fun i hi => ?_⟩
  by_cases hid : i = row.id
  · subst hid
    obtain ⟨rfl, hstatus⟩ | ⟨m, rfl, hstatus, hm⟩ := hg
    · obtain ⟨_, _, hsending, hnone⟩ := h.fits
      exact ⟨_, hsending.saved rfl, .inr ⟨hstatus, hnone⟩⟩
    · obtain ⟨_, _, hsending, x, hx, rfl, hstored⟩ := h.fits
      exact ⟨_, hsending.saved rfl, .inl ⟨hstatus, x, hx, hm, hstored⟩⟩
  · obtain ⟨rfl, _⟩ | ⟨m, rfl, _⟩ := hg
    · exact hother h.fits.2.1 i hi hid
    · exact hother h.fits.2.1 i hi hid

/-- A call that was made. -/
theorem Trial.Sound.made (h : w.Sound g) {c : Call} (hallowed : deliveries.allowed g c) (n : Nat) :
    ({ w.note c (exec c w.db).1 with db := (exec c w.db).2, made := n } : Trial).Sound
      (deliveries.next g c (exec c w.db).1) := by
  have hkeyed := h.keyed.exec c
  cases c with
  | claimScheduled id =>
    obtain rfl | ⟨i, rfl⟩ := hallowed
    · exact h.claims id n
    · exact h.botched (by rintro _ ⟨⟩) n
  | insertMessage d =>
    obtain ⟨id, rfl⟩ | ⟨id, rfl⟩ := hallowed
    · exact h.inserts d n
    · exact h.botched (by rintro _ ⟨⟩) n
  | saveConversation c =>
    obtain hok | ⟨e, herror⟩ : (∃ rows, exec (.saveConversation c) w.db =
        (.ok (), { w.db with conversations := rows })) ∨
          ∃ e, exec (.saveConversation c) w.db = (.error e, w.db) := by
      simp only [exec]
      split
      · exact .inl ⟨_, rfl⟩
      · exact .inr ⟨_, rfl⟩
    · obtain ⟨rows, hok⟩ := hok
      rw [hok] at hkeyed ⊢
      have hnext : deliveries.next g (.saveConversation c) (.ok ()) = g := by
        obtain ⟨id, m, rfl⟩ | ⟨id, rfl⟩ := hallowed <;> rfl
      rw [hnext]
      exact h.aside hkeyed rfl rfl n
    · rw [herror]
      exact h.fails hallowed e n
  | insertAudit a action type id info =>
    have hnext : ∀ r, deliveries.next g (.insertAudit a action type id info) (.ok r) = g := by
      obtain ⟨id, m, rfl⟩ | ⟨id, rfl⟩ := hallowed <;> exact fun _ => rfl
    exact (hnext _).symm ▸ h.aside hkeyed rfl rfl n
  | saveScheduled row =>
    obtain ⟨rfl, hstatus⟩ | ⟨m, rfl, hm⟩ | ⟨id, rfl, hid⟩ := hallowed
    · exact h.saves (.inl ⟨rfl, hstatus⟩) n
    · exact h.saves (.inr ⟨m, rfl, hm⟩) n
    · exact h.botched (fun _ hrow => by cases hrow; exact hid) n
  | _ =>
    obtain hread | ⟨m, cv, heq⟩ := hallowed
    · first | exact hread.elim | exact h.aside hkeyed rfl rfl n
    · first | (cases heq; done) | exact h.aside hkeyed rfl rfl n

theorem Trial.Sound.call (h : w.Sound g) {c : Call} (hallowed : deliveries.allowed g c)
    (faults : Faults) : (faulty faults c w).2.Sound (deliveries.next g c (faulty faults c w).1) := by
  obtain ⟨e, n, heq⟩ | ⟨n, heq⟩ := faulty_cases faults c w
  · rw [heq]
    exact h.fails hallowed _ n
  · rw [heq]
    exact h.made hallowed n

/-- The rows found are different rows. -/
theorem Trial.Sound.answers (h : w.Sound g) (c : Call) (faults : Faults) :
    deliveries.answers c (faulty faults c w).1 := by
  obtain ⟨e, n, heq⟩ | ⟨n, heq⟩ := faulty_cases faults c w
  · rw [heq]
    cases c <;> trivial
  · rw [heq]
    cases c with
    | findDueScheduled before => exact nodup_due h.keyed before
    | _ => trivial

/-- A call outside `Spared`, and no other, spoils the round. -/
theorem bad_next_iff {faults : Faults} {c : Call} (hg : ¬ g.Bad) (hallowed : deliveries.allowed g c) :
    (deliveries.next g c (faulty faults c w).1).Bad ↔ ¬ Spared faults w c := by
  have hok : ∀ {α : Type} {r : Except Failure α}, (∀ e, r ≠ .error e) ↔ r.isOk = true := by
    rintro α (e | a)
    · exact ⟨fun h => absurd rfl (h e), fun h => (nomatch h)⟩
    · exact ⟨fun _ => rfl, fun _ _ h => (nomatch h)⟩
  cases c with
  | saveConversation c =>
    obtain ⟨id, m, rfl⟩ | ⟨id, rfl⟩ := hallowed
    · simp only [Spared, hok, deliveries, Round.touch]
      split <;> simp [Round.Bad, *]
    · exact absurd trivial hg
  | insertAudit a action type id info =>
    obtain ⟨id, m, rfl⟩ | ⟨id, rfl⟩ := hallowed
    · simp only [Spared, hok, deliveries, Round.touch]
      split <;> simp [Round.Bad, *]
    · exact absurd trivial hg
  | saveScheduled row =>
    simp only [Spared, hok, deliveries]
    obtain ⟨rfl, _⟩ | ⟨m, rfl, _⟩ | ⟨id, rfl, _⟩ := hallowed
    · simp only [Round.save]
      split <;> simp [Round.Bad, *]
    · simp only [Round.save]
      split <;> simp [Round.Bad, *]
    · exact absurd trivial hg
  | claimScheduled id =>
    refine iff_of_false ?_ fun h => h trivial
    obtain rfl | ⟨id, rfl⟩ := hallowed
    · cases (faulty faults (.claimScheduled id) w).1 with
      | error e => exact hg
      | ok n =>
        simp only [deliveries, Round.claim]
        split <;> exact fun h => h
    · exact absurd trivial hg
  | insertMessage d =>
    refine iff_of_false ?_ fun h => h trivial
    obtain ⟨id, rfl⟩ | ⟨id, rfl⟩ := hallowed
    · cases (faulty faults (.insertMessage d) w).1 with
      | error e => exact hg
      | ok m => exact hg
    · exact absurd trivial hg
  | _ => exact iff_of_false hg fun h => h trivial

end Calls

/-! ## Dispatches -/

/-- However the repository calls of a dispatch fail: every row it claimed is sent with its message
stored, or failed without one, if and only if no save of a conversation, an audit event or a scheduled
row fails in it. -/
theorem delivered_iff {s : Db} (hs : Reachable s) (faults : Faults) :
    (∀ id ∈ (Trial.dispatch faults s).claimed, (Trial.dispatch faults s).Delivered id) ↔
      Calls (faulty faults) (Spared faults) dispatchDueScheduled ⟨s, 0, [], []⟩ := by
  have hstart : (⟨s, 0, [], []⟩ : Trial).Sound .idle :=
    ⟨hs.inv.keyed, fun _ h => absurd h List.not_mem_nil, fun _ h => absurd h List.not_mem_nil⟩
  have hstep : ∀ (w : Trial) (g : Round) (c : Call), w.Sound g → deliveries.allowed g c →
      deliveries.answers c (faulty faults c w).1 ∧
        (faulty faults c w).2.Sound (deliveries.next g c (faulty faults c w).1) :=
    fun w g c h hallowed => ⟨h.answers c faults, h.call hallowed faults⟩
  obtain ⟨hsound, hend⟩ := follows_dispatchDue.run hstart hstep
  have hstay : ∀ (g : Round) (c : Call) (r : Except Failure c.Answer), g.Bad →
      (deliveries.next g c r).Bad := by
    intro g c r hg
    cases g with
    | botched id => cases c <;> first | exact hg | (cases r <;> exact hg)
    | stuck id => cases c <;> first | exact hg | (cases r <;> exact hg)
    | _ => exact hg.elim
  rw [follows_dispatchDue.calls_iff hstart id hstep hstay
    fun w g c _ hg hallowed => bad_next_iff hg hallowed]
  constructor
  · exact fun hall hbad => hbad.not_delivered hsound.fits hall
  · intro hgood
    obtain hidle | hbad := hend
    · rw [hidle] at hsound
      exact hsound.fits
    · exact absurd hbad hgood

/-- No call fails. -/
theorem delivered_iff_dueChat :
    (∀ id ∈ (Trial.dispatch (fun _ => none) dueChat).claimed,
      (Trial.dispatch (fun _ => none) dueChat).Delivered id) ↔
      Calls (faulty fun _ => none) (Spared fun _ => none) dispatchDueScheduled ⟨dueChat, 0, [], []⟩ :=
  delivered_iff (((reachable_empty 0 0).serve _).wait _) _

/-- The connection is lost when the conversation of the due message is saved, and back after that. -/
def lostSave : Faults := fun n => if n = 6 then some (.driver "Connection terminated") else none

/-- The message is stored, and its row says that it was not sent. -/
theorem delivered_fails :
    ¬ ∀ (s : Db) (faults : Faults), Reachable s →
      ∀ id ∈ (Trial.dispatch faults s).claimed, (Trial.dispatch faults s).Delivered id := by
  intro h
  have hstored : (3, 5) ∈ (Trial.dispatch lostSave dueChat).stored := by decide
  have hstatus : ((Trial.dispatch lostSave dueChat).db.scheduledRow 3).map ScheduledMessage.status =
      some .failed := by decide
  obtain ⟨row, hrow, ⟨hsent, _⟩ | ⟨_, hnone⟩⟩ :=
    h dueChat lostSave (((reachable_empty 0 0).serve _).wait _) 3 (by decide)
  · rw [hrow, Option.map_some, hsent] at hstatus
    cases hstatus
  · exact hnone 5 hstored

end Relay.Chat
