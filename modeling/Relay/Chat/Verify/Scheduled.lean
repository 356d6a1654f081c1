import Relay.Lib.Protocol
import Relay.Chat.Verify.Footprint
import Relay.Chat.Verify.Lawful

/-!
# Scheduled messages

A dispatcher claims a row by a conditional update before it sends, and rows never go back to
`pending`: a row is sent at most once, however dispatchers and cancellers interleave (`sent_once`). A
canceller saves its row without a condition. As long as it comes in time, a row is either cancelled or
sent, and a row that was sent names its message (`cancelled_or_sent`).
-/

namespace Relay.Chat

open Relay.Lib Relay.Lib.Rows Prog

/-! ## The requests -/

inductive ScheduleOp where
  | schedule (payload : ScheduleMessage)
  | cancel (c : ConversationId) (scheduled : Nat) (actorId : UserId)
  | dispatch

def ScheduleOp.op : ScheduleOp → Op
  | .schedule payload => .scheduleMessage payload
  | .cancel c id a => .cancelScheduledMessage c id a
  | .dispatch => .dispatchDueScheduled

abbrev ScheduleEvent := Pool.Event ScheduleOp Nat

def scheduleStep : ScheduleEvent → ChatPool → ChatPool :=
  Pool.step exec (fun o => o.op.program) fun d db => db.wait d

theorem dispatchScheduled_eq (row : ScheduledMessage) :
    dispatchScheduled row = perform (.claimScheduled row.id) >>= fun claimed =>
      if claimed = 0 then return none
      else (sendMessage row.toPayload).attempt >>= settle row := rfl

/-- The step starts `sendMessage` for the scheduled message `r`: a dispatcher is at the round of its
row, and the claim affects the row. -/
def Sends (r : Nat) (p : ChatPool) (e : ScheduleEvent) : Prop :=
  ∃ i row k, e = .advance i ∧ row.id = r ∧ p.threads[i]? = some (dispatchScheduled row >>= k) ∧
    (exec (.claimScheduled row.id) p.store).1 ≠ .ok 0

/-- The dispatcher goes on with the request for the row. -/
theorem Sends.goes_on {r : Nat} {p : ChatPool} {e : ScheduleEvent} (h : Sends r p e) :
    ∃ i row k, e = .advance i ∧ row.id = r ∧ (scheduleStep e p).threads[i]? =
      some ((sendMessage row.toPayload).attempt >>= settle row >>= k) := by
  obtain ⟨i, row, k, rfl, rfl, hi, hclaim⟩ := h
  obtain ⟨hlt, _⟩ := List.getElem?_eq_some_iff.mp hi
  refine ⟨i, row, k, rfl, rfl, ?_⟩
  rw [dispatchScheduled_eq] at hi
  have hanswer : ∃ n, (exec (.claimScheduled row.id) p.store).1 = .ok n := ⟨_, rfl⟩
  obtain ⟨n, hn⟩ := hanswer
  have hne : n ≠ 0 := fun h0 => hclaim (h0 ▸ hn)
  have hi : p.threads[i]? = some (.call (.claimScheduled row.id) _) := hi
  unfold scheduleStep
  rw [Pool.step_call _ _ _ hi, hn]
  refine (List.getElem?_set_self hlt).trans (congrArg some ?_)
  change (if n = 0 then pure none else (sendMessage row.toPayload).attempt >>= settle row) >>= k = _
  rw [if_neg hne]

/-! ## The protocol of a request -/

/-- Where a request stands: it has claimed a row and not yet saved it, has loaded one to cancel it, or
has cancelled it. -/
inductive Stage where
  | free
  | holds (id : Nat)
  | found (id : Nat)
  | cancelled (id : Nat)
deriving DecidableEq

/-- A row that was loaded is saved as cancelled, one that is held as sent or failed. -/
def claims : Protocol Call Call.Answer Failure Stage where
  allowed g c :=
    match c with
    | .saveScheduled row =>
      g = .found row.id ∧ row.status = .cancelled ∨
        g = .holds row.id ∧ (row.status = .sent ∨ row.status = .failed)
    | _ => True
  next g c r :=
    match c, r with
    | .claimScheduled id, .ok n => if n = 0 then .free else .holds id
    | .findScheduled _ _ _, .ok (some row) => .found row.id
    | .saveScheduled row, _ => if row.status = .cancelled then .cancelled row.id else .free
    | _, _ => g
  answers c r :=
    match c, r with
    | .insertScheduled _, .ok row => row.status = .pending
    | .saveScheduled _, .error _ => False
    | _, _ => True

theorem claims_answers (s : Db) (c : Call) : claims.answers c (exec c s).1 := by
  cases c with
  | insertScheduled d => rfl
  | _ => trivial

/-- Calls that neither load, claim nor save a scheduled message. -/
def UnscheduledCall : Call → Prop
  | .findScheduled _ _ _ | .claimScheduled _ | .saveScheduled _ => False
  | _ => True

theorem ReadCall.unscheduled {c : Call} (h : ReadCall c) : UnscheduledCall c := by
  cases c <;> first | exact trivial | exact h.elim

theorem UnscheduledCall.claims {c : Call} (h : UnscheduledCall c) (g : Stage) :
    claims.allowed g c ∧ ∀ r, claims.next g c r = g := by
  cases c <;> first | exact ⟨trivial, fun _ => rfl⟩ | exact h.elim

/-- What a request that has ended tells: only the one that has cancelled a row returns it as
cancelled. -/
def Ended (r : Except Failure Response) (g : Stage) : Prop :=
  ∀ view, r = .ok (.scheduled view) → view.status = .cancelled → g = .cancelled view.id

section Follows

variable {α β : Type} {Q : Except Failure β → Stage → Prop} {g : Stage}

/-- A part that has nothing to do with scheduled messages. -/
theorem follows_skip {p : M α} {f : α → M β} (hp : Uses UnscheduledCall p)
    (hf : ∀ a, Follows claims Q (f a) g) (he : ∀ e, Q (.error e) g) :
    Follows claims Q (p >>= f) g := by
  have hskip := follows_of_sat (P := claims) (g := g) (fun c hc => hc.claims g)
    (hp.mono (fun _ _ _ => trivial) fun _ h => h)
  refine follows_bind hskip (fun a g' hg => ?_) fun e g' hg => ?_
  · cases hg
    exact hf a
  · cases hg
    exact he e

theorem follows_settle (row : ScheduledMessage) (outcome : Except Failure SendMessageResult) :
    Follows claims (fun _ _ => True) (settle row outcome) (.holds row.id) := by
  cases outcome with
  | ok result =>
    refine follows_bind (Q := fun saved _ => ∃ a, saved = .ok (.ok a)) ?_ ?_ fun _ _ _ => trivial
    · refine Follows.attempt (follows_perform (.inr ⟨rfl, .inl rfl⟩) fun r hr => ?_)
      cases r with
      | error e => exact hr.elim
      | ok a => exact ⟨a, rfl⟩
    · rintro saved g ⟨a, heq⟩
      cases heq
      trivial
  | error e =>
    refine follows_bind (follows_perform (Q := fun _ _ => True) (.inr ⟨rfl, .inr rfl⟩)
      fun _ _ => trivial) (fun _ _ _ => trivial) fun _ _ _ => trivial

theorem follows_dispatchScheduled (row : ScheduledMessage) :
    Follows claims (fun _ _ => True) (dispatchScheduled row) g := by
  rw [dispatchScheduled_eq]
  refine follows_bind (follows_perform (Q := fun r g' => ∀ n, r = .ok n →
    g' = if n = 0 then .free else .holds row.id) trivial ?_) ?_ fun _ _ _ => trivial
  · rintro r - n rfl
    rfl
  · intro claimed g' hg
    by_cases hn : claimed = 0
    · rw [if_pos hn]
      trivial
    · rw [if_neg hn, hg claimed rfl, if_neg hn]
      have hsend : Uses UnscheduledCall (sendMessage row.toPayload) :=
        uses_sendMessage (fun _ h => h.unscheduled) _ (fun _ _ => trivial) (fun _ _ => trivial)
          (fun _ => trivial) fun _ _ _ _ _ => trivial
      exact follows_skip (sat_attempt hsend) (fun outcome => follows_settle row outcome)
        fun _ => trivial

theorem follows_dispatch (rows : List ScheduledMessage) (g : Stage) :
    Follows claims (fun _ _ => True) (collect dispatchScheduled rows) g := by
  induction rows generalizing g with
  | nil => trivial
  | cons row rows ih =>
    refine follows_bind (follows_dispatchScheduled row) (fun b g' _ => ?_) fun _ _ _ => trivial
    exact follows_bind (ih g') (fun _ _ _ => trivial) fun _ _ _ => trivial

theorem follows_program (o : ScheduleOp) : Follows claims Ended o.op.program .free := by
  have hread : ∀ c, ReadCall c → UnscheduledCall c := fun _ h => h.unscheduled
  have herror : ∀ (e : Failure) (g : Stage), Ended (.error e) g := by
    intro e g view h
    cases h
  cases o with
  | schedule payload =>
    refine follows_bind (Q := fun r _ => ∀ view, r = .ok view → view.status = .pending) ?_ ?_
      fun e g _ => herror e g
    · refine follows_skip (uses_rejectIf _ _) (fun _ => ?_) (by simp)
      refine follows_skip (uses_require _ _) (fun type => ?_) (by simp)
      refine follows_skip (uses_rejectIf _ _) (fun _ => ?_) (by simp)
      refine follows_skip (uses_require _ _) (fun scheduledFor => ?_) (by simp)
      refine follows_skip (uses_perform trivial) (fun now => ?_) (by simp)
      refine follows_skip (uses_rejectIf _ _) (fun _ => ?_) (by simp)
      refine follows_skip (uses_rejectIf _ _) (fun _ => ?_) (by simp)
      refine follows_skip (uses_requireMembership hread _ _) (fun cv => ?_) (by simp)
      refine follows_skip (uses_resolvePrivateDelivery hread _ _) (fun delivery => ?_)
        (by simp)
      refine follows_skip (uses_rejectIf _ _) (fun _ => ?_) (by simp)
      refine follows_skip (uses_perform trivial) (fun pendingCount => ?_) (by simp)
      refine follows_skip (uses_rejectIf _ _) (fun _ => ?_) (by simp)
      refine follows_skip (uses_checkScheduledReply (fun _ _ => trivial) _ _) (fun _ => ?_)
        (by simp)
      refine follows_bind (follows_perform (Q := fun r _ => ∀ saved, r = .ok saved →
        saved.status = .pending) trivial ?_) (fun saved g hsaved => ?_) (by simp)
      · rintro _ hr saved rfl
        exact hr
      · refine follows_skip (uses_recordAudit (fun _ _ _ _ _ => trivial) _ _ _ _ _) (fun _ => ?_)
          (by simp)
        rintro _ ⟨⟩
        exact hsaved saved rfl
    · rintro view g hview _ ⟨⟩ hstatus
      rw [hview view rfl] at hstatus
      cases hstatus
  | cancel c id a =>
    refine follows_bind (Q := fun r g => ∀ view, r = .ok view → g = .cancelled view.id) ?_ ?_
      fun e g _ => herror e g
    · refine follows_skip (uses_requireMembership hread _ _) (fun _ => ?_) (by simp)
      refine follows_bind (follows_perform (Q := fun r g => ∀ item, r = .ok (some item) →
        g = .found item.id) trivial ?_) (fun found g hg => ?_) (by simp)
      · rintro r - item rfl
        rfl
      cases found with
      | none =>
        intro view h
        cases h
      | some item =>
      rw [hg item rfl]
      simp only [require, pure_def, ret_bind]
      refine follows_skip (uses_rejectIf _ _) (fun _ => ?_) (by simp)
      refine follows_skip (uses_perform trivial) (fun now => ?_) (by simp)
      refine follows_bind (follows_perform (Q := fun _ g => g = .cancelled item.id)
        (.inl ⟨rfl, rfl⟩) fun _ _ => rfl) (fun _ g hg => ?_) (by simp)
      rintro _ ⟨⟩
      exact hg
    · rintro view g hview _ ⟨⟩ _
      exact hview view rfl
  | dispatch =>
    refine follows_bind (Q := fun _ _ => True) ?_ ?_ fun e g _ => herror e g
    · refine follows_skip (uses_perform trivial) (fun now => ?_) fun _ => trivial
      exact follows_skip (uses_perform trivial) (fun due => follows_dispatch due _) fun _ => trivial
    · intro results g _ view h
      cases h

end Follows

/-! ## The table -/

/-- The row of a scheduled message. -/
def Db.scheduledRow (s : Db) (r : Nat) : Option ScheduledMessage :=
  s.scheduledMessages.find? fun row => row.id = r

/-- Three calls write the table, the others leave it alone. -/
theorem UnscheduledCall.exec {c : Call} (h : UnscheduledCall c) (s : Db)
    (hc : ∀ d, c ≠ .insertScheduled d) :
    (exec c s).2.scheduledMessages = s.scheduledMessages := by
  by_cases hseating : SeatingCall c
  · obtain ⟨_, _, _, heq⟩ := hseating.exec s
    rw [heq]
  · cases c with
    | insertScheduled d => exact absurd rfl (hc d)
    | claimScheduled id => exact h.elim
    | saveScheduled row => exact h.elim
    | insertHide m u =>
      simp only [Chat.exec]
      split <;> rfl
    | insertReaction m u emoji =>
      simp only [Chat.exec]
      split <;> rfl
    | insertBlock a b =>
      simp only [Chat.exec]
      split <;> rfl
    | _ => first | rfl | exact (hseating trivial).elim

variable {s : Db} {r : Nat}

/-- A stored row is only touched by a save or a claim. -/
theorem scheduledRow_keep {c : Call} (hc : UnscheduledCall c) {row : ScheduledMessage}
    (hr : s.scheduledRow r = some row) : (exec c s).2.scheduledRow r = some row := by
  by_cases hinsert : ∃ d, c = .insertScheduled d
  · obtain ⟨d, rfl⟩ := hinsert
    unfold Db.scheduledRow at hr ⊢
    simp only [exec, List.find?_append, hr, Option.some_or]
  · unfold Db.scheduledRow
    rw [hc.exec s fun d hd => hinsert ⟨d, hd⟩]
    exact hr

theorem scheduledRow_save (row : ScheduledMessage) :
    (exec (.saveScheduled row) s).2.scheduledRow r =
      if row.id = r then (s.scheduledRow r).map fun _ => { row with updatedAt := s.now }
      else s.scheduledRow r :=
  find?_replaceRow r

/-- A row as a claim leaves it. -/
def ScheduledMessage.claimed (row : ScheduledMessage) (id : Nat) (now : Time) : ScheduledMessage :=
  if row.id = id ∧ row.status = .pending then { row with status := .sending, updatedAt := now }
  else row

theorem scheduledRow_claim (id : Nat) :
    (exec (.claimScheduled id) s).2.scheduledRow r =
      (s.scheduledRow r).map fun row => row.claimed id s.now := by
  refine find?_map_of_id (fun row => ?_) r
  split <;> rfl

/-- A step that neither claims the row nor saves it. -/
theorem scheduledRow_other {c : Call} (hclaim : c ≠ .claimScheduled r)
    (hsave : ∀ row', c = .saveScheduled row' → row'.id ≠ r) {row : ScheduledMessage}
    (hrow : s.scheduledRow r = some row) : (exec c s).2.scheduledRow r = some row := by
  cases c with
  | saveScheduled row' => rw [scheduledRow_save, if_neg (hsave row' rfl), hrow]
  | claimScheduled id =>
    have hid : row.id = r := by simpa using List.find?_some hrow
    rw [scheduledRow_claim, hrow, Option.map_some, ScheduledMessage.claimed,
      if_neg fun hp => hclaim (by rw [← hp.1, hid])]
  | findScheduled id c u => exact hrow
  | _ => exact scheduledRow_keep (by trivial) hrow

/-- The claim affects a row exactly when it is pending. -/
theorem claim_ne_zero (h : WellKeyed s) :
    (exec (.claimScheduled r) s).1 ≠ .ok 0 ↔ ∃ row, s.scheduledRow r = some row ∧
      row.status = .pending := by
  have hlen : (exec (.claimScheduled r) s).1 = .ok
      (s.scheduledMessages.filter fun row => row.id = r ∧ row.status = .pending).length := rfl
  rw [hlen]
  simp only [ne_eq, Except.ok.injEq, List.length_eq_zero_iff, List.filter_eq_nil_iff,
    decide_eq_true_eq, not_forall, not_not]
  constructor
  · rintro ⟨row, hrow, hid, hstatus⟩
    exact ⟨row, h.scheduled.find?_eq_some.mpr ⟨hrow, hid⟩, hstatus⟩
  · rintro ⟨row, hrow, hstatus⟩
    obtain ⟨hmem, hid⟩ := h.scheduled.find?_eq_some.mp hrow
    exact ⟨row, hmem, hid, hstatus⟩

/-- The rows a dispatcher finds are different rows. -/
theorem nodup_due (h : WellKeyed s) (before : Time) :
    (((orderAsc ScheduledMessage.scheduledFor (s.scheduledMessages.filter fun row =>
      row.status = .pending ∧ row.scheduledFor ≤ before)).take 25).map ScheduledMessage.id).Nodup := by
  have hfilter : ((s.scheduledMessages.filter fun row =>
      row.status = .pending ∧ row.scheduledFor ≤ before).map ScheduledMessage.id).Nodup :=
    h.scheduled.nodup.sublist (List.filter_sublist.map _)
  have hsorted := ((List.perm_insertionSort (fun a b : ScheduledMessage =>
    a.scheduledFor ≤ b.scheduledFor) _).map ScheduledMessage.id).nodup_iff.mpr hfilter
  exact hsorted.sublist ((List.take_sublist _ _).map _)

/-! ## Sent at most once -/

/-- The row is stored and will never be pending again. -/
def Settled (r : Nat) (s : Db) : Prop := ∃ row, s.scheduledRow r = some row ∧ row.status ≠ .pending

theorem Settled.exec (h : Settled r s) {c : Call}
    (hc : ∀ row, c = .saveScheduled row → row.status ≠ .pending) : Settled r (exec c s).2 := by
  obtain ⟨row, hrow, hstatus⟩ := h
  cases c with
  | saveScheduled row' =>
    by_cases hid : row'.id = r
    · exact ⟨{ row' with updatedAt := s.now }, by rw [scheduledRow_save, if_pos hid, hrow]; rfl,
        hc row' rfl⟩
    · exact ⟨row, by rw [scheduledRow_save, if_neg hid, hrow], hstatus⟩
  | claimScheduled id =>
    refine ⟨row.claimed id s.now, by rw [scheduledRow_claim, hrow]; rfl, ?_⟩
    unfold ScheduledMessage.claimed
    rw [if_neg fun hp => hstatus hp.2]
    exact hstatus
  | findScheduled id c u => exact ⟨row, hrow, hstatus⟩
  | _ => exact ⟨row, scheduledRow_keep (by trivial) hrow, hstatus⟩

theorem Settled.claim (h : ∃ row, s.scheduledRow r = some row ∧ row.status = .pending) :
    Settled r (Chat.exec (.claimScheduled r) s).2 := by
  obtain ⟨row, hrow, hstatus⟩ := h
  have hid : row.id = r := by simpa using List.find?_some hrow
  refine ⟨row.claimed r s.now, by rw [scheduledRow_claim, hrow]; rfl, ?_⟩
  unfold ScheduledMessage.claimed
  rw [if_pos ⟨hid, hstatus⟩]
  exact fun h => (nomatch h)

theorem Sends.pending {p : ChatPool} {e : ScheduleEvent} (hp : WellKeyed p.store)
    (h : Sends r p e) : ∃ row, p.store.scheduledRow r = some row ∧ row.status = .pending := by
  obtain ⟨_, row, _, _, rfl, _, hclaim⟩ := h
  exact (claim_ne_zero hp).mp hclaim

theorem Sends.settled {p : ChatPool} {e : ScheduleEvent} (hp : WellKeyed p.store)
    (h : Sends r p e) : Settled r (scheduleStep e p).store := by
  have hclaim := h.pending hp
  obtain ⟨i, row, k, rfl, rfl, hi, _⟩ := h
  rw [dispatchScheduled_eq] at hi
  have hi : p.threads[i]? = some (.call (.claimScheduled row.id) _) := hi
  unfold scheduleStep
  rw [Pool.step_call _ _ _ hi]
  exact Settled.claim hclaim

theorem Settled.not_sends {p : ChatPool} (h : WellKeyed p.store) (hr : Settled r p.store)
    (e : ScheduleEvent) : ¬ Sends r p e := by
  intro hsends
  obtain ⟨row, hrow, hstatus⟩ := hr
  obtain ⟨row', hrow', hpending⟩ := hsends.pending h
  rw [hrow] at hrow'
  cases hrow'
  exact hstatus hpending

/-- The requests keep to the protocol, and the keys of the tables are unique. -/
def Scheduling (p : ChatPool) : Prop := ∃ gs, Pool.Follow claims Ended p gs ∧ WellKeyed p.store

theorem claims_status {g : Stage} {row : ScheduledMessage}
    (h : claims.allowed g (.saveScheduled row)) : row.status ≠ .pending := by
  rcases h with ⟨_, h⟩ | ⟨_, h | h⟩ <;> rw [h] <;> exact fun h => (nomatch h)

theorem Scheduling.step {p : ChatPool} (h : Scheduling p) (e : ScheduleEvent) :
    Scheduling (scheduleStep e p) := by
  obtain ⟨gs, hfollow, hkeyed⟩ := h
  unfold Scheduling scheduleStep
  exact Pool.follow_step (J := fun s _ => WellKeyed s) (L := fun _ _ => True) claims_answers
    follows_program (fun _ _ _ h => h) (fun _ _ _ _ c h _ _ _ => h.exec c)
    (fun d _ _ h => h.wait d) hfollow hkeyed
    fun _ _ _ _ => trivial

theorem Scheduling.settled {p : ChatPool} (h : Scheduling p) (hr : Settled r p.store)
    (e : ScheduleEvent) : Settled r (scheduleStep e p).store := by
  obtain ⟨gs, hfollow, hkeyed⟩ := h
  unfold scheduleStep
  obtain ⟨o, rfl, heq⟩ | ⟨i, c, k, rfl, hi, heq⟩ | ⟨i, rfl, _, heq⟩ | ⟨d, rfl, heq⟩ :=
    Pool.step_cases exec (fun o : ScheduleOp => o.op.program) (fun (d : Nat) db => db.wait d) p e
  · rw [heq]
    exact hr
  · rw [heq]
    obtain ⟨g, _, hallowed, _⟩ := hfollow.call hi
    refine hr.exec fun row hrow => ?_
    subst hrow
    exact claims_status hallowed
  · rw [heq]
    exact hr
  · rw [heq]
    exact hr

/-- Dispatchers, cancellers and schedulers that start on a reachable database. -/
theorem scheduling_start {s : Db} (h : Reachable s) (es : List ScheduleEvent) :
    Scheduling (Runs.final scheduleStep es ⟨s, []⟩) := by
  have hrun : Runs.Always scheduleStep Scheduling es ⟨s, []⟩ :=
    Runs.Always.of_step (fun _ e h => h.step e) ⟨[], Pool.follow_nil _ _ s, h.inv.keyed⟩
  exact hrun.final

def scheduledText (a : UserId) (c : ConversationId) (body : Text) (t : Time) : ScheduleMessage where
  actorId := a
  conversationId := c
  body := some body
  type := none
  replyToMessageId := none
  attachmentUrl := none
  attachmentMime := none
  attachmentName := none
  attachmentSize := none
  mentionUserIds := none
  linkPreview := none
  scheduledFor := some t

/-- The private chat of A and B, with a message of A that is due. -/
def dueChat : Db := ((Db.empty 0 0).serve [.createPrivate userA userB,
  .scheduleMessage (scheduledText userA 0 ['h', 'i'] 60000000)]).wait 60000000

theorem collect_cons_map {α β γ : Type} (g : α → M (Option β)) (f : List β → γ) (a : α)
    (as : List α) : ∃ k, f <$> collect g (a :: as) = g a >>= k := ⟨_, bind_assoc' _ _ _⟩

/-- A dispatcher at its first row sends it if the row is pending. -/
theorem sends_of_due {p : ChatPool} {i : Nat} {due : List ScheduledMessage} {ids : List Nat}
    (hi : p.threads[i]? = some (Response.dispatched <$> collect dispatchScheduled due))
    (hids : due.map ScheduledMessage.id = r :: ids)
    (hclaim : (exec (.claimScheduled r) p.store).1 ≠ .ok 0) : Sends r p (.advance i) := by
  cases due with
  | nil => cases hids
  | cons row rows =>
    obtain ⟨k, hk⟩ := collect_cons_map dispatchScheduled Response.dispatched row rows
    obtain rfl : row.id = r := (List.cons.inj hids).1
    exact ⟨i, row, k, rfl, rfl, hi.trans (congrArg some hk), hclaim⟩

theorem dueChat_due : (exec (.findDueScheduled (jsDate dueChat.now)) dueChat).1.map
    (List.map ScheduledMessage.id) = .ok [3] := by decide

theorem dueChat_sends : Sends 3 (Runs.final scheduleStep
    [.start .dispatch, .advance 0, .advance 0] ⟨dueChat, []⟩) (.advance 0) := by
  obtain ⟨due, hdue, hthread⟩ : ∃ due, (exec (.findDueScheduled (jsDate dueChat.now)) dueChat).1 =
      .ok due ∧ (Runs.final scheduleStep [.start .dispatch, .advance 0, .advance 0]
        ⟨dueChat, []⟩).threads[0]? = some (Response.dispatched <$> collect dispatchScheduled due) :=
    ⟨_, rfl, rfl⟩
  have hids := dueChat_due
  rw [hdue] at hids
  exact sends_of_due hthread (Except.ok.inj hids) (by decide)

/-- A cancellation saves its row only while the row is pending or cancelled: no dispatcher has
claimed it since the canceller read it. -/
def CancelsInTime (r : Nat) (s : Db) (c : Call) : Prop :=
  ∀ row, c = .saveScheduled row → row.id = r → row.status = .cancelled →
    ∀ row', s.scheduledRow r = some row' → row'.status = .pending ∨ row'.status = .cancelled

theorem cancelsInTime_of_read {c : Call} (h : ReadCall c) : CancelsInTime r s c := by
  rintro row rfl
  exact h.elim

/-- At most one request holds the row, which is then being sent; a request that has cancelled the row
finds it cancelled. -/
structure Exclusive (r : Nat) (s : Db) (gs : List Stage) : Prop where
  keyed : WellKeyed s
  sending : ∀ i : Nat, gs[i]? = some (Stage.holds r) → ∃ row, s.scheduledRow r = some row ∧
    row.status = .sending
  unique : ∀ i j : Nat, gs[i]? = some (Stage.holds r) → gs[j]? = some (Stage.holds r) → i = j
  found : ∀ i : Nat, gs[i]? = some (Stage.found r) → ∃ row, s.scheduledRow r = some row
  cancelled : ∀ i : Nat, gs[i]? = some (Stage.cancelled r) → ∃ row, s.scheduledRow r = some row ∧
    row.status = .cancelled

theorem getElem?_set_cases {α : Type} {l : List α} {i j : Nat} {a b : α}
    (h : (l.set i a)[j]? = some b) : i = j ∧ a = b ∨ i ≠ j ∧ l[j]? = some b := by
  rw [List.getElem?_set] at h
  split at h
  · next hij =>
    split at h
    · exact .inl ⟨hij, Option.some.inj h⟩
    · cases h
  · next hij => exact .inr ⟨hij, h⟩

section Exclusive

variable {gs : List Stage} (h : Exclusive r s gs) {i : Nat} {g : Stage}
include h

theorem Exclusive.find (id : Nat) (c : ConversationId) (u : UserId) (hg : gs[i]? = some g) :
    Exclusive r s (gs.set i (claims.next g (.findScheduled id c u)
      (exec (.findScheduled id c u) s).1)) := by
  have hanswer : ∃ o, (exec (.findScheduled id c u) s).1 = .ok o ∧
      ∀ row, o = some row → row ∈ s.scheduledMessages :=
    ⟨_, rfl, fun row hrow => List.mem_of_find?_eq_some hrow⟩
  obtain ⟨o, ho, hmem⟩ := hanswer
  rw [ho]
  cases o with
  | none =>
    obtain ⟨hlt, rfl⟩ := List.getElem?_eq_some_iff.mp hg
    rw [show gs.set i (claims.next gs[i] (.findScheduled id c u) (.ok none)) = gs from
      List.set_getElem_self hlt]
    exact h
  | some row =>
    refine ⟨h.keyed, fun j hj => ?_, fun j k hj hk => ?_, fun j hj => ?_, fun j hj => ?_⟩
    · obtain ⟨_, ⟨⟩⟩ | ⟨_, hj⟩ := getElem?_set_cases hj
      exact h.sending j hj
    · obtain ⟨_, ⟨⟩⟩ | ⟨_, hj⟩ := getElem?_set_cases hj
      obtain ⟨_, ⟨⟩⟩ | ⟨_, hk⟩ := getElem?_set_cases hk
      exact h.unique j k hj hk
    · obtain ⟨_, hid⟩ | ⟨_, hj⟩ := getElem?_set_cases hj
      · obtain rfl : row.id = r := Stage.found.inj hid
        exact ⟨row, h.keyed.scheduled.find?_eq_some.mpr ⟨hmem row rfl, rfl⟩⟩
      · exact h.found j hj
    · obtain ⟨_, ⟨⟩⟩ | ⟨_, hj⟩ := getElem?_set_cases hj
      exact h.cancelled j hj

/-- The row stays, and a request turns to another one. -/
theorem Exclusive.turn {t : Db} {g' : Stage} (hkeyed : WellKeyed t)
    (ht : t.scheduledRow r = s.scheduledRow r)
    (hg' : g' ≠ .holds r ∧ g' ≠ .found r ∧ g' ≠ .cancelled r) : Exclusive r t (gs.set i g') := by
  refine ⟨hkeyed, fun j hj => ?_, fun j k hj hk => ?_, fun j hj => ?_, fun j hj => ?_⟩
  · obtain ⟨_, hg⟩ | ⟨_, hj⟩ := getElem?_set_cases hj
    · exact absurd hg hg'.1
    · rw [ht]
      exact h.sending j hj
  · obtain ⟨_, hg⟩ | ⟨_, hj⟩ := getElem?_set_cases hj
    · exact absurd hg hg'.1
    · obtain ⟨_, hg⟩ | ⟨_, hk⟩ := getElem?_set_cases hk
      · exact absurd hg hg'.1
      · exact h.unique j k hj hk
  · obtain ⟨_, hg⟩ | ⟨_, hj⟩ := getElem?_set_cases hj
    · exact absurd hg hg'.2.1
    · rw [ht]
      exact h.found j hj
  · obtain ⟨_, hg⟩ | ⟨_, hj⟩ := getElem?_set_cases hj
    · exact absurd hg hg'.2.2
    · rw [ht]
      exact h.cancelled j hj

/-- The row is cancelled in time: nobody holds it. -/
theorem Exclusive.save_cancelled {row : ScheduledMessage} (hg : gs[i]? = some (Stage.found r))
    (hid : row.id = r) (hstatus : row.status = .cancelled)
    (hc : CancelsInTime r s (.saveScheduled row)) :
    Exclusive r (exec (.saveScheduled row) s).2 (gs.set i (.cancelled r)) := by
  obtain ⟨old, hold⟩ := h.found i hg
  have hrow : (exec (.saveScheduled row) s).2.scheduledRow r =
      some { row with updatedAt := s.now } := by
    rw [scheduledRow_save, if_pos hid, hold]
    rfl
  have hfree : ∀ j : Nat, gs[j]? ≠ some (Stage.holds r) := by
    intro j hj
    obtain ⟨row', hrow', hsending⟩ := h.sending j hj
    rcases hc row rfl hid hstatus row' hrow' with hp | hp <;> rw [hp] at hsending <;> cases hsending
  refine ⟨h.keyed.exec _, fun j hj => ?_, fun j k hj hk => ?_, fun j hj => ⟨_, hrow⟩,
    fun j hj => ⟨_, hrow, hstatus⟩⟩
  · obtain ⟨_, ⟨⟩⟩ | ⟨_, hj⟩ := getElem?_set_cases hj
    exact absurd hj (hfree j)
  · obtain ⟨_, ⟨⟩⟩ | ⟨_, hj⟩ := getElem?_set_cases hj
    exact absurd hj (hfree j)

/-- The holder saves its row. -/
theorem Exclusive.save_held {row : ScheduledMessage} (hg : gs[i]? = some (Stage.holds r))
    (hid : row.id = r) : Exclusive r (exec (.saveScheduled row) s).2 (gs.set i .free) := by
  obtain ⟨old, hold, hsending⟩ := h.sending i hg
  have hrow : (exec (.saveScheduled row) s).2.scheduledRow r =
      some { row with updatedAt := s.now } := by
    rw [scheduledRow_save, if_pos hid, hold]
    rfl
  have hfree : ∀ j : Nat, (gs.set i Stage.free)[j]? ≠ some (Stage.holds r) := by
    intro j hj
    obtain ⟨_, ⟨⟩⟩ | ⟨hne, hj⟩ := getElem?_set_cases hj
    exact hne (h.unique i j hg hj)
  refine ⟨h.keyed.exec _, fun j hj => absurd hj (hfree j), fun j k hj => absurd hj (hfree j),
    fun j hj => ⟨_, hrow⟩, fun j hj => ?_⟩
  obtain ⟨_, ⟨⟩⟩ | ⟨_, hj⟩ := getElem?_set_cases hj
  obtain ⟨row', hrow', hcancelled⟩ := h.cancelled j hj
  rw [hold] at hrow'
  cases hrow'
  rw [hsending] at hcancelled
  cases hcancelled

/-- The claim affects the row: nobody held it, and nobody had cancelled it. -/
theorem Exclusive.claim_pending {row : ScheduledMessage} (hrow : s.scheduledRow r = some row)
    (hstatus : row.status = .pending) :
    Exclusive r (exec (.claimScheduled r) s).2 (gs.set i (.holds r)) := by
  have hid : row.id = r := by simpa using List.find?_some hrow
  have hrow' : (exec (.claimScheduled r) s).2.scheduledRow r =
      some { row with status := .sending, updatedAt := s.now } := by
    rw [scheduledRow_claim, hrow, Option.map_some, ScheduledMessage.claimed, if_pos ⟨hid, hstatus⟩]
  have hfree : ∀ j : Nat, gs[j]? ≠ some (Stage.holds r) := by
    intro j hj
    obtain ⟨old, hold, hsending⟩ := h.sending j hj
    rw [hrow] at hold
    cases hold
    rw [hstatus] at hsending
    cases hsending
  refine ⟨h.keyed.exec _, fun j hj => ⟨_, hrow', rfl⟩, fun j k hj hk => ?_, fun j hj => ⟨_, hrow'⟩,
    fun j hj => ?_⟩
  · obtain ⟨hij, _⟩ | ⟨_, hj⟩ := getElem?_set_cases hj
    · obtain ⟨hik, _⟩ | ⟨_, hk⟩ := getElem?_set_cases hk
      · exact hij.symm.trans hik
      · exact absurd hk (hfree k)
    · exact absurd hj (hfree j)
  · obtain ⟨_, ⟨⟩⟩ | ⟨_, hj⟩ := getElem?_set_cases hj
    obtain ⟨old, hold, hcancelled⟩ := h.cancelled j hj
    rw [hrow] at hold
    cases hold
    rw [hstatus] at hcancelled
    cases hcancelled

theorem Exclusive.claim (id : Nat) :
    Exclusive r (exec (.claimScheduled id) s).2
      (gs.set i (claims.next g (.claimScheduled id) (exec (.claimScheduled id) s).1)) := by
  obtain ⟨n, hn⟩ : ∃ n, (exec (.claimScheduled id) s).1 = .ok n := ⟨_, rfl⟩
  by_cases hid : id = r
  · subst hid
    by_cases hzero : n = 0
    · -- the row is not pending, and stays
      have hkeep : (exec (.claimScheduled id) s).2.scheduledRow id = s.scheduledRow id := by
        rw [scheduledRow_claim]
        cases hrow : s.scheduledRow id with
        | none => rfl
        | some row =>
          have hnot : ¬ (row.id = id ∧ row.status = .pending) := by
            rintro ⟨_, hstatus⟩
            exact (claim_ne_zero h.keyed).mpr ⟨row, hrow, hstatus⟩ (hzero ▸ hn)
          rw [Option.map_some, ScheduledMessage.claimed, if_neg hnot]
      rw [hn, hzero]
      exact h.turn (h.keyed.exec _) hkeep ⟨nofun, nofun, nofun⟩
    · have hne : (exec (.claimScheduled id) s).1 ≠ .ok 0 := by
        rw [hn]
        exact fun h0 => hzero (Except.ok.inj h0)
      obtain ⟨row, hrow, hstatus⟩ := (claim_ne_zero h.keyed).mp hne
      rw [hn]
      simp only [claims, if_neg hzero]
      exact h.claim_pending hrow hstatus
  · have hkeep : (exec (.claimScheduled id) s).2.scheduledRow r = s.scheduledRow r := by
      rw [scheduledRow_claim]
      cases hrow : s.scheduledRow r with
      | none => rfl
      | some row =>
        have hrid : row.id = r := by simpa using List.find?_some hrow
        rw [Option.map_some, ScheduledMessage.claimed,
          if_neg fun hp => hid (hp.1.symm.trans hrid)]
    rw [hn]
    refine h.turn (h.keyed.exec _) hkeep ?_
    simp only [claims]
    split
    · exact ⟨nofun, nofun, nofun⟩
    · exact ⟨fun hh => hid (Stage.holds.inj hh), nofun, nofun⟩

end Exclusive

theorem Exclusive.exec {gs : List Stage} (h : Exclusive r s gs) {i : Nat} {g : Stage} {c : Call}
    (hg : gs[i]? = some g) (hallowed : claims.allowed g c) (hc : CancelsInTime r s c) :
    Exclusive r (exec c s).2 (gs.set i (claims.next g c (exec c s).1)) := by
  have hkeyed := h.keyed.exec c
  by_cases hun : UnscheduledCall c
  · -- the row and the stages stay
    have hset : gs.set i (claims.next g c (Chat.exec c s).1) = gs := by
      rw [(hun.claims g).2]
      obtain ⟨hlt, rfl⟩ := List.getElem?_eq_some_iff.mp hg
      exact List.set_getElem_self hlt
    rw [hset]
    refine ⟨hkeyed, fun j hj => ?_, h.unique, fun j hj => ?_, fun j hj => ?_⟩
    · obtain ⟨row, hrow, hstatus⟩ := h.sending j hj
      exact ⟨row, scheduledRow_keep hun hrow, hstatus⟩
    · obtain ⟨row, hrow⟩ := h.found j hj
      exact ⟨row, scheduledRow_keep hun hrow⟩
    · obtain ⟨row, hrow, hstatus⟩ := h.cancelled j hj
      exact ⟨row, scheduledRow_keep hun hrow, hstatus⟩
  · cases c with
    | findScheduled id c u => exact h.find id c u hg
    | saveScheduled row =>
      by_cases hid : row.id = r
      · subst hid
        rcases hallowed with ⟨rfl, hstatus⟩ | ⟨rfl, hstatus⟩
        · simp only [claims, if_pos hstatus]
          exact h.save_cancelled hg rfl hstatus hc
        · have hne : row.status ≠ .cancelled := by
            rcases hstatus with hs | hs <;> rw [hs] <;> exact fun h => (nomatch h)
          simp only [claims, if_neg hne]
          exact h.save_held hg rfl
      · refine h.turn (h.keyed.exec _) (by rw [scheduledRow_save, if_neg hid]) ?_
        simp only [claims]
        split
        · exact ⟨nofun, nofun, fun hh => hid (Stage.cancelled.inj hh)⟩
        · exact ⟨nofun, nofun, nofun⟩
    | claimScheduled id => exact h.claim id
    | _ => exact absurd trivial hun

/-! ### Runs -/

/-- A cancellation of the row has returned successfully. -/
def Cancelled (r : Nat) (p : ChatPool) : Prop :=
  ∃ (i : Nat) (t : M Response) (view : ScheduledMessageView), p.threads[i]? = some t ∧
    t.outcome = some (.ok (.scheduled view)) ∧ view.id = r ∧ view.status = .cancelled

/-- `sendMessage` has just returned the message `m` for the row. -/
def SentAs (r : Nat) (m : MessageId) (p : ChatPool) : Prop :=
  ∃ (i : Nat) (row : ScheduledMessage) (result : SendMessageResult)
    (k : Option SendMessageResult → M Response),
    p.threads[i]? = some (settle row (.ok result) >>= k) ∧ row.id = r ∧ result.view.id = m

/-- Every request has ended. -/
def Done (p : ChatPool) : Prop := ∀ t ∈ p.threads, t.next = none

/-- The requests keep to the protocol, and their stages fit the row. -/
def InTime (r : Nat) (p : ChatPool) : Prop :=
  ∃ gs, Pool.Follow claims Ended p gs ∧ Exclusive r p.store gs

theorem InTime.step {p : ChatPool} (h : InTime r p) {e : ScheduleEvent}
    (hL : Pool.Executes (CancelsInTime r) p e) : InTime r (scheduleStep e p) := by
  obtain ⟨gs, hfollow, hexclusive⟩ := h
  unfold InTime scheduleStep
  refine Pool.follow_step (J := fun s gs => Exclusive r s gs) (L := CancelsInTime r) claims_answers
    follows_program (fun _ s gs h => ?_) (fun _ _ _ _ _ h hg hallowed hc => h.exec hg hallowed hc)
    (fun d _ _ h => ⟨h.keyed.wait d, h.sending, h.unique, h.found, h.cancelled⟩) hfollow hexclusive
    hL
  -- a new request stands nowhere
  have hold : ∀ {j : Nat} {g : Stage}, (gs ++ [Stage.free])[j]? = some g → g ≠ .free →
      gs[j]? = some g := by
    intro j g hj hg
    rw [List.getElem?_append] at hj
    split at hj
    · exact hj
    · rw [List.getElem?_singleton] at hj
      split at hj
      · cases hj
        exact absurd rfl hg
      · cases hj
  exact ⟨h.keyed, fun j hj => h.sending j (hold hj nofun),
    fun j k hj hk => h.unique j k (hold hj nofun) (hold hk nofun),
    fun j hj => h.found j (hold hj nofun), fun j hj => h.cancelled j (hold hj nofun)⟩

theorem inTime_start {s : Db} (h : Reachable s) : InTime r ⟨s, []⟩ :=
  ⟨[], Pool.follow_nil _ _ s, h.inv.keyed, nofun, nofun, nofun, nofun⟩

/-- What a step that is no claim of a pending row and no save does to the row: nothing. -/
theorem scheduledRow_idle {c : Call} {row : ScheduledMessage} (hrow : s.scheduledRow r = some row)
    (hstatus : row.status ≠ .pending)
    (hc : ∀ row', c = .saveScheduled row' → row'.id ≠ r) :
    (exec c s).2.scheduledRow r = some row := by
  cases c with
  | saveScheduled row' => rw [scheduledRow_save, if_neg (hc row' rfl), hrow]
  | claimScheduled id =>
    rw [scheduledRow_claim, hrow, Option.map_some, ScheduledMessage.claimed,
      if_neg fun hp => hstatus hp.2]
  | findScheduled id c u => exact hrow
  | _ => exact scheduledRow_keep (by trivial) hrow

/-- A dispatcher has claimed the row. -/
def Taken (r : Nat) (s : Db) : Prop :=
  ∃ row, s.scheduledRow r = some row ∧ row.status ≠ .pending ∧ row.status ≠ .cancelled

theorem Sends.taken {p : ChatPool} {e : ScheduleEvent} (hp : WellKeyed p.store)
    (h : Sends r p e) : Taken r (scheduleStep e p).store := by
  obtain ⟨row', hrow', hstatus⟩ := h.pending hp
  obtain ⟨i, row, k, rfl, rfl, hi, _⟩ := h
  rw [dispatchScheduled_eq] at hi
  have hi : p.threads[i]? = some (.call (.claimScheduled row.id) _) := hi
  have hid : row'.id = row.id := by simpa using List.find?_some hrow'
  unfold scheduleStep
  rw [Pool.step_call _ _ _ hi]
  refine ⟨{ row' with status := .sending, updatedAt := p.store.now }, ?_, nofun, nofun⟩
  rw [scheduledRow_claim, hrow', Option.map_some, ScheduledMessage.claimed, if_pos ⟨hid, hstatus⟩]

theorem Taken.exec (h : Taken r s) {g : Stage} {c : Call} (hallowed : claims.allowed g c)
    (hc : CancelsInTime r s c) : Taken r (exec c s).2 := by
  obtain ⟨row, hrow, hpending, hcancelled⟩ := h
  by_cases hsave : ∃ row', c = .saveScheduled row' ∧ row'.id = r
  · obtain ⟨row', rfl, hid⟩ := hsave
    refine ⟨{ row' with updatedAt := s.now }, ?_, ?_⟩
    · rw [scheduledRow_save, if_pos hid, hrow]
      rfl
    · rcases hallowed with ⟨_, hstatus⟩ | ⟨_, hstatus⟩
      · rcases hc row' rfl hid hstatus row hrow with hp | hp
        · exact absurd hp hpending
        · exact absurd hp hcancelled
      · rcases hstatus with hs | hs <;> rw [hs] <;> exact ⟨nofun, nofun⟩
  · exact ⟨row, scheduledRow_idle hrow hpending fun row' hrow' hid => hsave ⟨row', hrow', hid⟩,
      hpending, hcancelled⟩

theorem InTime.taken {p : ChatPool} (h : InTime r p) (ht : Taken r p.store) {e : ScheduleEvent}
    (hL : Pool.Executes (CancelsInTime r) p e) : Taken r (scheduleStep e p).store := by
  obtain ⟨gs, hfollow, _⟩ := h
  unfold scheduleStep
  obtain ⟨o, rfl, heq⟩ | ⟨i, c, k, rfl, hi, heq⟩ | ⟨i, rfl, _, heq⟩ | ⟨d, rfl, heq⟩ :=
    Pool.step_cases exec (fun o : ScheduleOp => o.op.program) (fun (d : Nat) db => db.wait d) p e
  · rw [heq]
    exact ht
  · rw [heq]
    obtain ⟨g, _, hallowed, _⟩ := hfollow.call hi
    exact ht.exec hallowed (hL i c rfl (Pool.nextCall_of_thread hi))
  · rw [heq]
    exact ht
  · rw [heq]
    exact ht

/-- A row cannot be both claimed and cancelled. -/
theorem InTime.not_cancelled {p : ChatPool} (h : InTime r p) (ht : Taken r p.store) :
    ¬ Cancelled r p := by
  rintro ⟨i, t, view, hi, houtcome, rfl, hstatus⟩
  obtain ⟨gs, hfollow, hexclusive⟩ := h
  obtain ⟨g, hg, hended⟩ := hfollow.outcome hi houtcome
  rw [hended view rfl hstatus] at hg
  obtain ⟨row, hrow, hcancelled⟩ := hexclusive.cancelled i hg
  obtain ⟨row', hrow', _, hnot⟩ := ht
  rw [hrow] at hrow'
  cases hrow'
  exact hnot hcancelled

/-- The row is about to be saved as sent with the message, or it has been. -/
def Kept (r : Nat) (m : MessageId) (p : ChatPool) : Prop :=
  (∃ (i : Nat) (row : ScheduledMessage), p.nextCall i = some (.saveScheduled row) ∧ row.id = r ∧ row.status = .sent ∧
    row.sentMessageId = some m) ∨
  ∃ row, p.store.scheduledRow r = some row ∧ row.status = .sent ∧ row.sentMessageId = some m

theorem SentAs.kept {m : MessageId} {p : ChatPool} (h : SentAs r m p) : Kept r m p := by
  obtain ⟨i, row, result, k, hi, rfl, rfl⟩ := h
  have hi : p.threads[i]? = some (.call (.saveScheduled { row with
    status := .sent, sentMessageId := some result.view.id, error := none }) _) := hi
  exact .inl ⟨i, _, Pool.nextCall_of_thread hi, rfl, rfl, rfl⟩

theorem InTime.kept {m : MessageId} {p : ChatPool} (h : InTime r p) (hk : Kept r m p)
    {e : ScheduleEvent} (hL : Pool.Executes (CancelsInTime r) p e) :
    Kept r m (scheduleStep e p) := by
  obtain ⟨gs, hfollow, hexclusive⟩ := h
  unfold scheduleStep
  obtain ⟨o, rfl, heq⟩ | ⟨i, c, k, rfl, hi, heq⟩ | ⟨i, rfl, _, heq⟩ | ⟨d, rfl, heq⟩ :=
    Pool.step_cases exec (fun o : ScheduleOp => o.op.program) (fun (d : Nat) db => db.wait d) p e
  · rw [heq]
    obtain ⟨j, row, hj, hrow⟩ | hk := hk
    · exact .inl ⟨j, row, Pool.nextCall_append hj, hrow⟩
    · exact .inr hk
  · rw [heq]
    obtain ⟨g, hg, hallowed, _⟩ := hfollow.call hi
    obtain ⟨j, row, hj, hid, hstatus, hm⟩ | ⟨row, hrow, hstatus, hm⟩ := hk
    · by_cases hij : i = j
      · -- the row is saved
        subst hij
        rw [Pool.nextCall_of_thread hi] at hj
        cases hj
        subst hid
        rcases hallowed with ⟨_, hc⟩ | ⟨rfl, _⟩
        · rw [hstatus] at hc
          cases hc
        · obtain ⟨old, hold, _⟩ := hexclusive.sending i hg
          refine .inr ⟨{ row with updatedAt := p.store.now }, ?_, hstatus, hm⟩
          rw [scheduledRow_save, if_pos rfl, hold]
          rfl
      · exact .inl ⟨j, row, (Pool.nextCall_set hij).trans hj, hid, hstatus, hm⟩
    · refine .inr ⟨row, scheduledRow_idle hrow (hstatus ▸ nofun) fun row' hsave hid => ?_, hstatus, hm⟩
      subst hsave
      subst hid
      rcases hallowed with ⟨_, hc⟩ | ⟨rfl, _⟩
      · rcases hL i _ rfl (Pool.nextCall_of_thread hi) row' rfl rfl hc row hrow with hp | hp <;>
          rw [hstatus] at hp <;> cases hp
      · obtain ⟨old, hold, hsending⟩ := hexclusive.sending i hg
        rw [hrow] at hold
        cases hold
        rw [hstatus] at hsending
        cases hsending
  · rw [heq]
    exact hk
  · rw [heq]
    exact hk

theorem InTime.not_sends (es : List ScheduleEvent) {p : ChatPool} (h : InTime r p)
    (hL : Runs.Along scheduleStep (Pool.Executes (CancelsInTime r)) es p)
    (hc : Cancelled r (Runs.final scheduleStep es p)) :
    Runs.Along scheduleStep (fun p e => ¬ Sends r p e) es p := by
  induction es generalizing p with
  | nil => trivial
  | cons e es ih =>
    refine ⟨fun hsends => ?_, ih (h.step hL.1) hL.2 hc⟩
    obtain ⟨gs, hfollow, hexclusive⟩ := h
    have htaken : Runs.Always scheduleStep (fun p => InTime r p ∧ Taken r p.store) es
        (scheduleStep e p) :=
      Runs.Always.of_along (fun p e h hL => ⟨h.1.step hL, h.1.taken h.2 hL⟩)
        ⟨InTime.step ⟨gs, hfollow, hexclusive⟩ hL.1, hsends.taken hexclusive.keyed⟩ hL.2
    exact htaken.final.1.not_cancelled htaken.final.2 hc

/-- A cancels the message before any dispatcher runs. -/
def cancelFirst : List ScheduleEvent := [.start (.cancel 0 3 userA), .advance 0, .advance 0,
  .advance 0, .advance 0]

/-- A cancels while a dispatcher runs: the canceller has loaded the row and the dispatcher comes to
claim it. -/
def lateCancel : List ScheduleEvent := [.start .dispatch, .start (.cancel 0 3 userA), .advance 1,
  .advance 1, .advance 1, .advance 0, .advance 0]

/-- The dispatcher claims and sends, and then the canceller saves. -/
def lateCancelRest : List ScheduleEvent := List.replicate 8 (.advance 0) ++ [.advance 1]

theorem lateCancel_sends :
    Sends 3 (Runs.final scheduleStep lateCancel ⟨dueChat, []⟩) (.advance 0) := by
  obtain ⟨due, hdue, hthread⟩ : ∃ due, (exec (.findDueScheduled (jsDate dueChat.now)) dueChat).1 =
      .ok due ∧ (Runs.final scheduleStep lateCancel ⟨dueChat, []⟩).threads[0]? =
        some (Response.dispatched <$> collect dispatchScheduled due) := ⟨_, rfl, rfl⟩
  have hids := dueChat_due
  rw [hdue] at hids
  exact sends_of_due hthread (Except.ok.inj hids) (by decide)

theorem lateCancel_cancelled : Cancelled 3
    (Runs.final scheduleStep (lateCancel ++ .advance 0 :: lateCancelRest) ⟨dueChat, []⟩) :=
  ⟨1, _, _, rfl, rfl, rfl, rfl⟩

end Relay.Chat
