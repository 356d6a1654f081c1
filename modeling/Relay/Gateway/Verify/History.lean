import Relay.Gateway.Verify.Unanswered

/-!
# What the history of a call says

The gateway decides the outcome of an ended call from its connection time, its kind, the reason and the
users that are left in it, and corrects the decision afterwards for a group call that was never
connected. For the sessions that the call service ends this is a rule on the reason and the connection
time alone (`reports_of_ended`): before a call is connected, its host is alone in it.
-/

namespace Relay.Gateway.CallSession

open Relay.Lib

/-- The operation answers that the call is over, with this session. -/
inductive EndedBy (order : Redis → List CallId) (s : Redis) (x : VoiceCallSession) : Op → Prop
  | decline {c : CallId} {u : UserId} {pendingCount : Option Nat}
      (h : (Prog.run (exec order) (decline c u) s).1 = .ok (.ok ⟨x, true, pendingCount⟩)) :
      EndedBy order s x (.decline c u)
  | leave {c : CallId} {u : UserId} {remainingIds : List UserId}
      (h : (Prog.run (exec order) (leave c u) s).1 = .ok (.ok ⟨x, true, remainingIds⟩)) :
      EndedBy order s x (.leave c u)
  | revoke {v : ConversationId} {u : UserId} {c : CallId} {remainingIds : List UserId}
      (h : (Prog.run (exec order) (revokeUserFromConversation v u) s).1 =
        .ok (some ⟨c, x, true, remainingIds⟩)) :
      EndedBy order s x (.revokeUserFromConversation v u)
  | «end» {c : CallId} (h : (Prog.run (exec order) («end» c) s).1 = .ok (some x)) :
      EndedBy order s x (.end c)

variable {order : Redis → List CallId} {s : Redis} {x : VoiceCallSession} {op : Op}

/-- An ended session is a stored one, less the users that were taken out of it. -/
theorem EndedBy.stored (hs : Coherent s) (h : EndedBy order s x op) :
    ∃ c y, s.session c = some y ∧ x.status = .ended ∧ x.connectedAt = y.connectedAt ∧
      x.joinedIds.length ≤ y.joinedIds.length := by
  cases h with
  | @decline c u _ h =>
    rw [run_decline hs] at h
    simp only [declineResult] at h
    cases hy : s.session c with
    | none => simp [hy] at h
    | some y =>
      refine ⟨c, y, hy, ?_⟩
      rw [hy] at h
      simp only at h
      split at h
      · simp at h
      · split at h
        · simp only [Except.ok.injEq, Declined.mk.injEq] at h
          rw [← h.1]
          exact ⟨rfl, rfl, Nat.le_refl _⟩
        · simp at h
  | @leave c u _ h =>
    rw [run_leave hs] at h
    simp only [leaveResult] at h
    cases hy : s.session c with
    | none => simp [hy] at h
    | some y =>
      refine ⟨c, y, hy, ?_⟩
      rw [hy] at h
      simp only at h
      split at h
      · simp at h
      · split at h
        · simp only [Except.ok.injEq, Left.mk.injEq] at h
          rw [← h.1]
          exact ⟨rfl, rfl, List.length_filter_le _ _⟩
        · simp at h
  | @revoke v u _ _ h =>
    rw [run_revoke hs] at h
    simp only [revokeResult] at h
    cases hy : s.callOf v with
    | none => simp [hy] at h
    | some y =>
      refine ⟨y.callId, y, (hs.callOf_eq_some.mp hy).1, ?_⟩
      rw [hy] at h
      simp only at h
      split at h
      · simp at h
      · split at h
        · simp only [Except.ok.injEq, Option.some.injEq, Revoked.mk.injEq] at h
          rw [← h.2.1]
          exact ⟨rfl, rfl, List.length_filter_le _ _⟩
        · simp at h
  | @«end» c h =>
    rw [run_end hs] at h
    cases hy : s.session c with
    | none => simp [hy] at h
    | some y =>
      refine ⟨c, y, hy, ?_⟩
      simp only [hy, Except.ok.injEq, Option.some.injEq] at h
      rw [← h]
      exact ⟨rfl, rfl, Nat.le_refl _⟩

/-- A call that ends before it was connected leaves nobody but its host behind. -/
theorem EndedBy.alone (order : Redis → List CallId) (ops : List Op)
    (h : EndedBy order (Runs.final (step order) ops Redis.empty) x op) (hat : x.connectedAt = none) :
    x.joinedIds.length ≤ 1 := by
  obtain ⟨c, y, hy, _, heq, hle⟩ := h.stored (coherent_final order ops)
  rw [heq] at hat
  exact Nat.le_trans hle (ChatGateway.joined_le_one (allPhased_final order ops c y hy) hat)

end Relay.Gateway.CallSession

namespace Relay.Gateway.ChatGateway

open Relay.Lib CallSession

variable {x : VoiceCallSession} {reason : CallEndReason} {byUserId : UserId} {now : Time}

/-! ## The outcome -/

/-- A connected call had a conversation; one whose host was alone had one at most in a group. -/
theorem hadConversation_of_connected (hat : x.connectedAt ≠ none) :
    hadConversation x reason = true := by
  unfold hadConversation
  rw [Option.isSome_iff_ne_none.mpr hat]
  rfl

theorem hadConversation_of_alone (hat : x.connectedAt = none) (hlen : x.joinedIds.length ≤ 1)
    (h : hadConversation x reason = true) : x.kind = .group ∧ reason ≠ .timeout := by
  have hfew : ¬ 2 ≤ x.joinedIds.length := by omega
  unfold hadConversation at h
  simp only [hat, Option.isSome_none, hfew, decide_false, Bool.false_or, Bool.and_eq_true,
    beq_iff_eq, bne_iff_ne, ne_eq] at h
  exact ⟨h.1.1, h.2⟩

theorem callOutcome_rejected (x : VoiceCallSession) : callOutcome x .rejected = .declined := by
  simp [callOutcome]

theorem callOutcome_of_connected (hreason : reason ≠ .rejected) (hat : x.connectedAt ≠ none) :
    callOutcome x reason = .completed := by
  have hhad : hadConversation x reason = true := hadConversation_of_connected hat
  cases reason with
  | rejected => exact absurd rfl hreason
  | hangup => simp [callOutcome, hhad, hat]
  | timeout => simp [callOutcome, hhad, hat]
  | offline => simp [callOutcome, hhad, hat]

/-- The correction for groups undoes what `hadConversation` says of a host who is alone. -/
theorem callOutcome_of_alone (hreason : reason ≠ .rejected) (hat : x.connectedAt = none)
    (hlen : x.joinedIds.length ≤ 1) :
    callOutcome x reason = if reason = .timeout then .missed else .cancelled := by
  by_cases hhad : hadConversation x reason = true
  · obtain ⟨hkind, htimeout⟩ := hadConversation_of_alone hat hlen hhad
    cases reason with
    | rejected => exact absurd rfl hreason
    | timeout => exact absurd rfl htimeout
    | hangup => simp [callOutcome, hhad, hkind, hat, hlen]
    | offline => simp [callOutcome, hhad, hkind, hat, hlen]
  · rw [Bool.not_eq_true] at hhad
    cases reason with
    | rejected => exact absurd rfl hreason
    | timeout => simp [callOutcome, hhad]
    | hangup => simp [callOutcome, hhad]
    | offline => simp [callOutcome, hhad]

/-! ## The duration -/

/-- `Math.round` of a number of milliseconds over 1000, which may be negative. -/
def mathRoundSeconds (d : Int) : Int := (d + 500) / 1000

/-- The duration is `Math.max(0, …)` of the rounded difference of the two dates. -/
theorem roundSeconds_eq (now t : Nat) : ((roundSeconds (now / 1000 * 1000 - t / 1000 * 1000) : Nat) : Int) =
    max 0 (mathRoundSeconds ((now / 1000 : Nat) - (t / 1000 : Nat) : Int)) := by
  unfold roundSeconds mathRoundSeconds
  omega

/-! ## The rule -/

/-- The history message follows the rule on the reason and the connection time. -/
structure Reports (x : VoiceCallSession) (reason : CallEndReason) (now : Time) (h : CallHistory) :
    Prop where
  declined : reason = .rejected → h.outcome = .declined
  completed : reason ≠ .rejected → (h.outcome = .completed ↔ x.connectedAt ≠ none)
  missed : reason = .timeout → x.connectedAt = none → h.outcome = .missed
  cancelled : reason = .hangup ∨ reason = .offline → x.connectedAt = none → h.outcome = .cancelled
  zero : h.outcome ≠ .completed → h.durationSeconds = 0
  duration : ∀ t, x.connectedAt = some t → h.outcome = .completed →
    (h.durationSeconds : Int) =
      max 0 (mathRoundSeconds ((now / 1000 : Nat) - (t / 1000 : Nat) : Int))

/-- The history of a call that an operation ends, after any run of operations, follows the rule, for
every reason and at every time. -/
theorem reports_of_ended (order : Redis → List CallId) (ops : List CallSession.Op)
    {op : CallSession.Op} {x : VoiceCallSession}
    (h : EndedBy order (Runs.final (CallSession.step order) ops Redis.empty) x op)
    (byUserId : UserId) (reason : CallEndReason) (now : Time) :
    Reports x reason now (callHistory x byUserId reason now) := by
  have halone : x.connectedAt = none → x.joinedIds.length ≤ 1 := h.alone order ops
  refine ⟨?_, fun hreason => ⟨?_, ?_⟩, ?_, ?_, ?_, ?_⟩
  · rintro rfl
    exact callOutcome_rejected x
  · intro hcompleted hat
    have hout := callOutcome_of_alone hreason hat (halone hat)
    rw [show callOutcome x reason = .completed from hcompleted] at hout
    split at hout <;> cases hout
  · exact callOutcome_of_connected hreason
  · intro hreason hat
    have hne : reason ≠ .rejected := by simp [hreason]
    exact (callOutcome_of_alone hne hat (halone hat)).trans (if_pos hreason)
  · intro hreason hat
    have hne : reason ≠ .rejected ∧ reason ≠ .timeout := by
      rcases hreason with rfl | rfl <;> simp
    exact (callOutcome_of_alone hne.1 hat (halone hat)).trans (if_neg hne.2)
  · intro hout
    simp only [callHistory] at hout ⊢
    cases x.connectedAt with
    | none => rfl
    | some t => exact if_neg hout
  · intro t hat hout
    simp only [callHistory] at hout ⊢
    simp only [hat, if_pos hout]
    exact roundSeconds_eq now t

/-- B hangs up an hour after answering. -/
theorem reports_of_ended_answered : Reports
    { answeredSession with status := .ended, joinedIds := [userA], leftIds := [userB] } .hangup
    (ms 3600000)
    (callHistory { answeredSession with status := .ended, joinedIds := [userA], leftIds := [userB] }
      userB .hangup (ms 3600000)) := by
  have hended : (Prog.run (CallSession.exec keyOrder) (leave 0 userB)
      (Runs.final (CallSession.step keyOrder) answeredCall Redis.empty)).1 =
        .ok (.ok ⟨{ answeredSession with status := .ended, joinedIds := [userA], leftIds := [userB] },
          true, []⟩) := by
    decide
  exact reports_of_ended keyOrder answeredCall (.leave hended) userB .hangup (ms 3600000)

end Relay.Gateway.ChatGateway
