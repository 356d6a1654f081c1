import Relay.Lib.Batch
import Relay.Chat.Verify.Scheduled
import Relay.Chat.Verify.Seats

/-!
# Due messages and due scheduled messages

`expireDueMessages` takes 40 due messages at a time and `dispatchDueScheduled` 25 due rows. Whatever becomes
of a message or a row in its round, it is not due afterwards, and the rows outside the batch are left alone;
so the calls that follow get to the ones that are left (`due_drained`).
-/

namespace Relay.Chat

open Relay.Lib Relay.Lib.Rows Relay.Lib.Batch Prog

variable {s t : Db}

/-- The message is to be buried. -/
def Message.isDue (now : Time) (m : Message) : Bool :=
  (m.expiresAt.any fun t => t ≤ now) && m.deletedForEveryoneAt == none

/-- The scheduled message is to be sent. -/
def ScheduledMessage.isDue (now : Time) (row : ScheduledMessage) : Bool :=
  row.status = .pending ∧ row.scheduledFor ≤ now

/-- The due messages, as the clock of the service has it. -/
def Db.dueMessages (db : Db) : List Message := db.messages.filter (Message.isDue (jsDate db.now))

def Db.dueScheduled (db : Db) : List ScheduledMessage :=
  db.scheduledMessages.filter (ScheduledMessage.isDue (jsDate db.now))

/-! ## The clock -/

theorem exec_now (c : Call) (s : Db) : (exec c s).2.now = s.now := by
  by_cases hseating : SeatingCall c
  · obtain ⟨_, _, _, heq⟩ := hseating.exec s
    rw [heq]
  · cases c with
    | insertHide m u =>
      simp only [exec]
      split <;> rfl
    | insertReaction m u emoji =>
      simp only [exec]
      split <;> rfl
    | insertBlock a b =>
      simp only [exec]
      split <;> rfl
    | _ => first | rfl | exact (hseating trivial).elim

/-- Requests take no time. -/
theorem Op.run_now (op : Op) (s : Db) : (op.run s).2.now = s.now := by
  have hcalls : Calls exec (fun _ _ => True) op.program s := calls_true _ s
  exact hcalls.preserves (I := fun v : Db => v.now = s.now) (fun v c _ hv => (exec_now c v).trans hv) rfl

/-! ## One call -/

section Collect

variable {α β γ : Type} {f : α → M (Option β)} (key : α → Nat) {id : γ → Nat} {due : γ → Bool}
  (rows : Db → List γ)

/-- Rounds that clear one row each. -/
theorem run_collect_clears
    (hf : ∀ a v, ∃ b w, run exec (f a) v = (.ok b, w) ∧ Clears id due [key a] (rows v) (rows w)) (as : List α)
    (s : Db) : ∃ bs t, run exec (collect f as) s = (.ok bs, t) ∧ Clears id due (as.map key) (rows s) (rows t) := by
  induction as generalizing s with
  | nil => exact ⟨[], s, rfl, .refl _⟩
  | cons a as ih =>
    obtain ⟨b, v, hround, hfirst⟩ := hf a s
    obtain ⟨bs, t, hrest, hclears⟩ := ih v
    refine ⟨b.toList ++ bs, t, ?_, hfirst.trans hclears⟩
    unfold collect
    rw [run_bind_ok exec hround, run_bind_ok exec hrest]
    rfl

end Collect

/-- The conversation may be gone; the message is not due then either. -/
theorem run_expireMessage (now : Time) (m : Message) (v : Db) :
    ∃ b w, run exec (expireMessage m) v = (.ok b, w) ∧
      Clears Message.id (Message.isDue now) [m.id] v.messages w.messages := by
  unfold expireMessage
  rw [run_read (a := v.load m.conversationId) rfl]
  cases v.load m.conversationId with
  | none =>
    have hdue : Message.isDue now { m with expiresAt := none } = false := rfl
    exact ⟨none, _, run_write rfl _, Clears.of_replaceRow hdue v.messages⟩
  | some cv =>
    dsimp only
    rw [run_read (a := jsDate v.now) rfl, run_write rfl, run_bind_ok exec (run_loadReplyTo _)]
    have hdue : Message.isDue now { m.bury (jsDate v.now) with expiresAt := none } = false := rfl
    exact ⟨_, _, rfl, Clears.of_replaceRow hdue v.messages⟩

theorem run_expireDueMessages (hkeyed : WellKeyed s) :
    ∃ results t, run exec expireDueMessages s = (.ok results, t) ∧
      Drains Message.id (Message.isDue (jsDate s.now)) 40 s.messages t.messages := by
  unfold expireDueMessages
  rw [run_read (a := jsDate s.now) rfl,
    run_read (a := (orderAsc (fun m => m.expiresAt.getD 0) s.dueMessages).take 40) rfl]
  obtain ⟨results, t, hrun, hclears⟩ := run_collect_clears Message.id Db.messages
    (run_expireMessage (jsDate s.now)) ((orderAsc (fun m => m.expiresAt.getD 0) s.dueMessages).take 40) s
  exact ⟨results, t, hrun, hclears.drains hkeyed.messages.nodup (List.perm_insertionSort _ _)⟩

/-- A claim takes the row of the key out of the due ones. -/
theorem clears_claim (now : Time) (k : Nat) (v : Db) :
    Clears ScheduledMessage.id (ScheduledMessage.isDue now) [k] v.scheduledMessages
      (exec (.claimScheduled k) v).2.scheduledMessages := by
  simp only [exec]
  unfold Clears
  rw [List.forall₂_map_right_iff, List.forall₂_same]
  intro row _
  simp only [List.mem_singleton]
  split
  · next hclaimed => exact ⟨rfl, fun _ => by simp [ScheduledMessage.isDue], fun hne => absurd hclaimed.1 hne⟩
  · next hnot =>
    refine ⟨rfl, fun hid => ?_, fun _ => rfl⟩
    have hstatus : row.status ≠ .pending := fun hpending => hnot ⟨hid, hpending⟩
    simp [ScheduledMessage.isDue, hstatus]

/-- Sent or failed, the row is saved and not pending. -/
theorem run_settle (row : ScheduledMessage) (outcome : Except Failure SendMessageResult) (v : Db) :
    ∃ b row', row'.id = row.id ∧ row'.status ≠ .pending ∧
      run exec (settle row outcome) v = (.ok b, (exec (.saveScheduled row') v).2) := by
  cases outcome with
  | ok result =>
    have hsent : ScheduledMessageStatus.sent ≠ .pending := by decide
    exact ⟨_, { row with status := .sent, sentMessageId := some result.view.id, error := none }, rfl, hsent, rfl⟩
  | error e =>
    have hfailed : ScheduledMessageStatus.failed ≠ .pending := by decide
    exact ⟨_, { row with status := .failed, error := some (e.message.toList.take 500) }, rfl, hfailed, rfl⟩

/-- Calls that leave the scheduled messages alone. -/
def OffSchedule : Call → Prop
  | .insertScheduled _ | .claimScheduled _ | .saveScheduled _ => False
  | _ => True

theorem ReadCall.offSchedule {c : Call} (h : ReadCall c) : OffSchedule c := by
  cases c <;> first | exact trivial | exact h.elim

theorem OffSchedule.exec {c : Call} (h : OffSchedule c) (v : Db) :
    (Chat.exec c v).2.scheduledMessages = v.scheduledMessages := by
  have hinsert : ∀ d, c ≠ .insertScheduled d := by
    rintro d rfl
    exact h
  cases c with
  | findScheduled id c u => rfl
  | insertScheduled d => exact h.elim
  | claimScheduled id => exact h.elim
  | saveScheduled row => exact h.elim
  | _ =>
    refine UnscheduledCall.exec ?_ v hinsert
    trivial

theorem run_sendMessage_scheduled (payload : SendMessage) (v : Db) :
    (run exec (sendMessage payload) v).2.scheduledMessages = v.scheduledMessages := by
  have huses : Uses OffSchedule (sendMessage payload) :=
    uses_sendMessage (fun _ h => h.offSchedule) _ (fun _ _ => trivial) (fun _ _ => trivial)
      (fun _ => trivial) fun _ _ _ _ _ => trivial
  exact huses.preserves (I := fun w : Db => w.scheduledMessages = v.scheduledMessages)
    (fun w c hc hw => (hc.exec w).trans hw) rfl

/-- Claimed by nobody else, sent, rejected or failed: the row is not due. -/
theorem run_dispatchScheduled (now : Time) (row : ScheduledMessage) (v : Db) :
    ∃ b w, run exec (dispatchScheduled row) v = (.ok b, w) ∧
      Clears ScheduledMessage.id (ScheduledMessage.isDue now) [row.id] v.scheduledMessages w.scheduledMessages := by
  have hclaim := clears_claim now row.id v
  unfold dispatchScheduled
  rw [run_write (t := (exec (.claimScheduled row.id) v).2) rfl]
  split
  · exact ⟨none, _, rfl, hclaim⟩
  · rw [run_bind_ok exec (run_attempt exec _ _)]
    have hsent := run_sendMessage_scheduled row.toPayload (exec (.claimScheduled row.id) v).2
    rcases hsend : run exec (sendMessage row.toPayload) (exec (.claimScheduled row.id) v).2 with ⟨outcome, w⟩
    rw [hsend] at hsent
    obtain ⟨b, row', hid, hstatus, hrun⟩ := run_settle row outcome w
    have hdue : ScheduledMessage.isDue now { row' with updatedAt := w.now } = false := by
      simp [ScheduledMessage.isDue, hstatus]
    have hsave : Clears ScheduledMessage.id (ScheduledMessage.isDue now) [row'.id] w.scheduledMessages
        (exec (.saveScheduled row') w).2.scheduledMessages := Clears.of_replaceRow hdue w.scheduledMessages
    rw [← hsent] at hclaim
    refine ⟨b, _, hrun, (hclaim.trans hsave).congr fun k => ?_⟩
    simp [hid]

theorem run_dispatchDueScheduled (hkeyed : WellKeyed s) :
    ∃ results t, run exec dispatchDueScheduled s = (.ok results, t) ∧
      Drains ScheduledMessage.id (ScheduledMessage.isDue (jsDate s.now)) 25 s.scheduledMessages
        t.scheduledMessages := by
  unfold dispatchDueScheduled
  rw [run_read (a := jsDate s.now) rfl,
    run_read (a := (orderAsc ScheduledMessage.scheduledFor s.dueScheduled).take 25) rfl]
  obtain ⟨results, t, hrun, hclears⟩ := run_collect_clears ScheduledMessage.id
    Db.scheduledMessages (run_dispatchScheduled (jsDate s.now))
    ((orderAsc ScheduledMessage.scheduledFor s.dueScheduled).take 25) s
  exact ⟨results, t, hrun, hclears.drains hkeyed.scheduled.nodup (List.perm_insertionSort _ _)⟩

/-! ## Repeated calls -/

/-- A call drains the due messages or rows it works on. -/
theorem drains_calls (hkeyed : WellKeyed s) :
    Drains Message.id (Message.isDue (jsDate s.now)) 40 s.messages (Op.expireDueMessages.run s).2.messages ∧
      Drains ScheduledMessage.id (ScheduledMessage.isDue (jsDate s.now)) 25 s.scheduledMessages
        (Op.dispatchDueScheduled.run s).2.scheduledMessages := by
  have hexpire : (Op.expireDueMessages.run s).2 = (run exec expireDueMessages s).2 :=
    congrArg Prod.snd (run_map exec Response.expired expireDueMessages s)
  have hdispatch : (Op.dispatchDueScheduled.run s).2 = (run exec dispatchDueScheduled s).2 :=
    congrArg Prod.snd (run_map exec Response.dispatched dispatchDueScheduled s)
  rw [hexpire, hdispatch]
  obtain ⟨_, t, hrun, hdrains⟩ := run_expireDueMessages hkeyed
  obtain ⟨_, t', hrun', hdrains'⟩ := run_dispatchDueScheduled hkeyed
  rw [hrun, hrun']
  exact ⟨hdrains, hdrains'⟩

theorem WellKeyed.run (h : WellKeyed s) (op : Op) : WellKeyed (op.run s).2 := by
  have hcalls : Calls Chat.exec (fun _ _ => True) op.program s := calls_true _ s
  exact hcalls.preserves (fun s c _ h => h.exec c) h

/-- At a time, `expireDueMessages` takes 40 of the due messages, or all there are, out of the due ones and
leaves the messages that are not due alone, and `dispatchDueScheduled` does so with 25 of the due rows; so
enough calls leave nothing due. -/
theorem due_drained (hkeyed : WellKeyed s) :
    Drains Message.id (Message.isDue (jsDate s.now)) 40 s.messages (Op.expireDueMessages.run s).2.messages ∧
      Drains ScheduledMessage.id (ScheduledMessage.isDue (jsDate s.now)) 25 s.scheduledMessages
        (Op.dispatchDueScheduled.run s).2.scheduledMessages ∧
      (∀ n, s.dueMessages.length ≤ 40 * n → (s.serve (List.replicate n .expireDueMessages)).dueMessages = []) ∧
      ∀ n, s.dueScheduled.length ≤ 25 * n →
        (s.serve (List.replicate n .dispatchDueScheduled)).dueScheduled = [] := by
  obtain ⟨hexpire, hdispatch⟩ := drains_calls hkeyed
  let I : Db → Prop := fun v => WellKeyed v ∧ v.now = s.now
  have hI : ∀ v, I v → ∀ op : Op, I (op.run v).2 := by
    rintro v ⟨hkeyed, hnow⟩ op
    exact ⟨hkeyed.run op, (op.run_now v).trans hnow⟩
  have hclock : ∀ ops : List Op, (s.serve ops).now = s.now := by
    intro ops
    have hall : Runs.Always (fun (op : Op) db => (op.run db).2) I ops s :=
      Runs.Always.of_step (fun v op h => hI v h op) ⟨hkeyed, rfl⟩
    exact hall.final.2
  refine ⟨hexpire, hdispatch, fun n hn => ?_, fun n hn => ?_⟩
  · have hstep : ∀ v, I v → ∀ op ∈ List.replicate n Op.expireDueMessages,
        Drains Message.id (Message.isDue (jsDate s.now)) 40 v.messages (op.run v).2.messages := by
      intro v hv op hop
      obtain rfl := List.eq_of_mem_replicate hop
      have hdrains := (drains_calls hv.1).1
      rwa [hv.2] at hdrains
    unfold Db.dueMessages
    rw [hclock]
    exact due_final_eq_nil (fun v hv op _ => hI v hv op) hstep ⟨hkeyed, rfl⟩ (by rwa [List.length_replicate])
  · have hstep : ∀ v, I v → ∀ op ∈ List.replicate n Op.dispatchDueScheduled,
        Drains ScheduledMessage.id (ScheduledMessage.isDue (jsDate s.now)) 25 v.scheduledMessages
          (op.run v).2.scheduledMessages := by
      intro v hv op hop
      obtain rfl := List.eq_of_mem_replicate hop
      have hdrains := (drains_calls hv.1).2
      rwa [hv.2] at hdrains
    unfold Db.dueScheduled
    rw [hclock]
    exact due_final_eq_nil (fun v hv op _ => hI v hv op) hstep ⟨hkeyed, rfl⟩ (by rwa [List.length_replicate])

/-- A chat with one due row. -/
theorem due_drained_dueChat :
    Drains Message.id (Message.isDue (jsDate dueChat.now)) 40 dueChat.messages
        (Op.expireDueMessages.run dueChat).2.messages ∧
      Drains ScheduledMessage.id (ScheduledMessage.isDue (jsDate dueChat.now)) 25 dueChat.scheduledMessages
        (Op.dispatchDueScheduled.run dueChat).2.scheduledMessages ∧
      (∀ n, dueChat.dueMessages.length ≤ 40 * n →
        (dueChat.serve (List.replicate n .expireDueMessages)).dueMessages = []) ∧
      ∀ n, dueChat.dueScheduled.length ≤ 25 * n →
        (dueChat.serve (List.replicate n .dispatchDueScheduled)).dueScheduled = [] := by
  have hreach : Reachable dueChat := ((reachable_empty 0 0).serve _).wait _
  exact due_drained hreach.inv.keyed

end Relay.Chat
