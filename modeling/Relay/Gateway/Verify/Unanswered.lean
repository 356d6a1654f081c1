import Relay.Gateway.Verify.CallShape
import Relay.Gateway.Verify.Handlers

/-!
# Calls that nobody answers

When the ring timer of a call fires before anybody has joined its host, `timeoutRingingCall` ends the
call if somebody still rings. A call whose invitees have all declined or left before that is kept, and
its host stays busy.
-/

namespace Relay.Gateway.ChatGateway

open Relay.Lib CallSession

variable {order : Redis → List CallId} {s : State} {c : CallId} {x : VoiceCallSession}

/-- The call is gone and keeps none of its members busy. -/
structure TimedOut (c : CallId) (x : VoiceCallSession) (s : State) : Prop where
  gone : s.redis.session c = none
  freed : ∀ u ∈ x.memberIds, s.redis.busy u ≠ some c

theorem joined_le_one (h : Phased x) (hat : x.connectedAt = none) : x.joinedIds.length ≤ 1 := by
  rw [h.alone hat]
  exact Nat.le_refl 1

variable (order) in
/-- The timeout of a call its host is alone in: it ends the call, or does nothing. -/
theorem run_timeoutRingingCall (hs : Coherent s.redis) (hx : s.redis.session c = some x)
    (hlen : x.joinedIds.length ≤ 1) :
    (Prog.run (exec order) (timeoutRingingCall c) s).2.redis =
      if ringingIds x = [] then s.redis else s.redis.finish x := by
  unfold timeoutRingingCall
  rw [Prog.run_bind_ok _ (run_calls_same (run_get hs c)), hx]
  simp only
  rw [if_neg fun h => Nat.not_succ_le_self 1 (Nat.le_trans h.2 hlen)]
  by_cases hring : ringingIds x = []
  · rw [if_neg, if_pos hring]
    · rfl
    · rw [hring]
      exact fun h => Nat.lt_irrefl 0 h.2
  · rw [if_pos ⟨hlen, List.length_pos_iff.mpr hring⟩, if_neg hring]
    have hend := @run_end order _ hs c
    rw [hx] at hend
    simp only [finishCall]
    rw [Prog.run_bind_ok _ (run_calls hend), Prog.run_bind_ok _ (run_clearRingTimer c)]
    simp only [← hs.callId_eq hx]
    rfl

/-- For a live call of a run that was never connected, the timeout removes the call and frees all its
members exactly when one of them still rings. -/
theorem timedOut_iff (order : Redis → List CallId) (ops : List CallSession.Op) {s : State}
    (hs : s.redis = Runs.final (CallSession.step order) ops Redis.empty) {c : CallId}
    {x : VoiceCallSession} (hx : s.redis.session c = some x) (hat : x.connectedAt = none) :
    TimedOut c x (Prog.run (exec order) (timeoutRingingCall c) s).2 ↔
      ∃ u ∈ x.memberIds, u ∉ x.joinedIds ∧ u ∉ x.declinedIds ∧ u ∉ x.leftIds := by
  have hcoherent : Coherent s.redis := hs ▸ coherent_final order ops
  have hphased : AllPhased s.redis := hs ▸ allPhased_final order ops
  have hrun := run_timeoutRingingCall order hcoherent hx
    (joined_le_one (hphased c x hx) hat)
  have hid := hcoherent.callId_eq hx
  have hrings : (∃ u ∈ x.memberIds, u ∉ x.joinedIds ∧ u ∉ x.declinedIds ∧ u ∉ x.leftIds) ↔
      ringingIds x ≠ [] := by
    constructor
    · rintro ⟨u, hu⟩
      exact List.ne_nil_of_mem (mem_ringingIds.mpr hu)
    · intro hne
      obtain ⟨u, hu⟩ := List.exists_mem_of_ne_nil _ hne
      exact ⟨u, mem_ringingIds.mp hu⟩
  rw [hrings]
  constructor
  · rintro ⟨hgone, _⟩ hnone
    rw [hrun, if_pos hnone, hx] at hgone
    cases hgone
  · intro hsome
    rw [if_neg hsome] at hrun
    refine ⟨?_, fun u hu => ?_⟩
    · rw [hrun, Redis.session_finish, if_pos hid.symm]
    · rw [hrun, Redis.busy_finish, if_pos hu]
      exact fun h => nomatch h

/-- A group call of A that rings for B. -/
def ringingCall : List CallSession.Op := [.createCall ⟨0, .group, userA, [userA, userB], none⟩]

/-- The gateway over the calls of a run. -/
def State.ofRun (ops : List CallSession.Op) : State :=
  ⟨Runs.final (CallSession.step keyOrder) ops Redis.empty, Chat.Db.empty 0 0, ∅, ∅, [], []⟩

/-- The session of the ringing call, with the users who have declined it. -/
def ringingSession (declinedIds : List UserId) : VoiceCallSession where
  callId := 0
  conversationId := 0
  kind := .group
  media := .audio
  hostId := userA
  memberIds := [userA, userB]
  joinedIds := [userA]
  declinedIds := declinedIds
  leftIds := []
  onHold := false
  heldBy := none
  forceMuted := false
  screenSharerId := none
  status := .ringing
  createdAt := 0
  connectedAt := none

theorem timedOut_iff_ringing :
    TimedOut 0 (ringingSession [])
        (Prog.run (exec keyOrder) (timeoutRingingCall 0) (State.ofRun ringingCall)).2 ↔
      ∃ u ∈ (ringingSession []).memberIds, u ∉ (ringingSession []).joinedIds ∧
        u ∉ (ringingSession []).declinedIds ∧ u ∉ (ringingSession []).leftIds :=
  timedOut_iff keyOrder ringingCall rfl (by decide) rfl

/-- The only invitee declines, and the call outlives its timer. -/
theorem timedOut_fails :
    ¬ ∀ (ops : List CallSession.Op) (s : State) (c : CallId) (x : VoiceCallSession),
      s.redis = Runs.final (CallSession.step keyOrder) ops Redis.empty → s.redis.session c = some x →
      x.connectedAt = none →
      TimedOut c x (Prog.run (exec keyOrder) (timeoutRingingCall c) s).2 := by
  intro h
  have hgone := (h (ringingCall ++ [.decline 0 userB]) (State.ofRun (ringingCall ++ [.decline 0 userB])) 0
    (ringingSession [userB]) rfl (by decide) rfl).gone
  have hstays : ((Prog.run (exec keyOrder) (timeoutRingingCall 0)
      (State.ofRun (ringingCall ++ [.decline 0 userB]))).2.redis.session 0).isSome = true := by
    decide +kernel
  rw [hgone] at hstays
  cases hstays

end Relay.Gateway.ChatGateway
