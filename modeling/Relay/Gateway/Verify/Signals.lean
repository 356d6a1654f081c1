import Relay.Gateway.Signals
import Relay.Gateway.Verify.CallTraffic

/-!
# Who gets the signals of a call

The relays run at the same time as the call handlers, so the call a signal belongs to may have changed, or
ended, when the signal is sent. What a relay has checked was so at some moment of the run: every signal goes
from a user to another who were both connected to the call then (`signals_between_connected`).
-/

namespace Relay.Gateway.Signals

open Relay.Lib CallSession ChatGateway Prog

variable {order : Redis → List CallId} {α β : Type}

/-! ## The system -/

inductive Task where
  | handler (task : ChatGateway.Task)
  | relayOffer (userId : UserId) (body : CallSignalBody)
  | relayAnswer (userId : UserId) (body : CallSignalBody)
  | relayIce (userId : UserId) (body : CallSignalBody)

def Task.program : Task → M Ack
  | .handler task => handlers task.program
  | .relayOffer u body => (fun _ => .done) <$> Signals.relayOffer u body
  | .relayAnswer u body => (fun _ => .done) <$> Signals.relayAnswer u body
  | .relayIce u body => (fun _ => .done) <$> Signals.relayIce u body

/-- The user who has sent the request to relay a signal. -/
def Task.relayedFor : Task → Option UserId
  | .handler _ => none
  | .relayOffer u _ | .relayAnswer u _ | .relayIce u _ => some u

abbrev SignalEvent := Pool.Event Task Happening

def signalTraffic (order : Redis → List CallId) :
    SignalEvent → Pool Call Call.Answer Exception Ack State → Pool Call Call.Answer Exception Ack State :=
  Pool.step (exec order) Task.program fun d s => { s with gateway := d.apply s.gateway }

/-- The state after a part of the run. -/
def reached (order : Redis → List CallId) (s : State) (es : List SignalEvent) : State :=
  (Runs.final (signalTraffic order) es ⟨s, []⟩).store

/-! ## What the relays have checked -/

/-- At some moment of the run the two users were connected to the call, and at some moment the sender was an
active member of its conversation. -/
def Connected (order : Redis → List CallId) (s : State) (es : List SignalEvent) (c : CallId) (u v : UserId) : Prop :=
  ∃ x, (∃ past, past <+: es ∧ (reached order s past).gateway.redis.session c = some x) ∧
    x.status ≠ .ended ∧ u ∈ x.joinedIds ∧ v ∈ x.joinedIds ∧
    ∃ past, past <+: es ∧ IsMember (reached order s past).gateway.db x.conversationId u

/-- The JSON of what the signal carries. -/
def SignalContent.json : SignalContent → Text
  | .offer sdp | .answer sdp => sdp
  | .ice candidate => signalJson candidate

/-- What holds of a signal that is sent. -/
structure Rightful (order : Redis → List CallId) (s : State) (es : List SignalEvent) (u : UserId) (signal : Signal) :
    Prop where
  toUserId : signal.toUserId = u
  connected : Connected order s es signal.callId signal.fromUserId u
  requested : ∃ task, .start task ∈ es ∧ task.relayedFor = some signal.fromUserId
  size : (Percent.bytes signal.content.json).length ≤ MAX_SIGNAL_JSON_BYTES
  other : (∀ candidate, signal.content ≠ .ice candidate) → u ≠ signal.fromUserId

section Relays

variable {s : State} {es : List SignalEvent}

/-- The answers of the run. -/
abbrev Answers (order : Redis → List CallId) (s : State) (es : List SignalEvent) (c : Call)
    (r : Except Exception c.Answer) : Prop :=
  Pool.Answered (exec order) Task.program (fun d s => { s with gateway := d.apply s.gateway }) es ⟨s, []⟩ c r

/-- Answered by the run, a program sends rightful signals only. -/
def relays (order : Redis → List CallId) (s : State) (es : List SignalEvent) :
    Protocol Call Call.Answer Exception Unit where
  allowed _
    | .gateway _ => True
    | .emitSignal u signal => Rightful order s es u signal
  next _ _ _ := ()
  answers := Answers order s es

/-- The call service, answered by the run. -/
def lookups (order : Redis → List CallId) (s : State) (es : List SignalEvent) :
    Protocol CallSession.Call CallSession.Call.Answer Empty Unit where
  allowed _ _ := True
  next _ _ _ := ()
  answers c r := ∃ past, past <+: es ∧ (CallSession.exec order c (reached order s past).gateway.redis).1 = r

theorem yields_handlers (p : ChatGateway.M α) : Yields (relays order s es) (fun _ _ => True) (handlers p) () := by
  induction p with
  | ret a => exact yields_ret trivial
  | fail e => exact yields_fail
  | call c k ih => exact ⟨trivial, fun r _ => ih r⟩

theorem yields_lookup {p : CallSession.M α} {Q : α → Unit → Prop} (h : Yields (lookups order s es) Q p ()) :
    Yields (relays order s es) Q (handlers (calls p)) () := by
  induction p with
  | ret a => exact yields_ret (h a rfl)
  | fail e => exact nomatch e
  | call c k ih =>
    unfold calls handlers
    refine ⟨trivial, fun r hr => ?_⟩
    cases r with
    | error e => exact yields_fail
    | ok a =>
      obtain ⟨past, hpast, hanswer⟩ := hr
      refine ih (.ok a) (h.2 (.ok a) ⟨past, hpast, ?_⟩)
      simp only [exec, ChatGateway.exec] at hanswer
      unfold reached signalTraffic
      generalize Runs.final (Pool.step (exec order) Task.program
        fun d s => { s with gateway := d.apply s.gateway }) past ⟨s, []⟩ = p at hanswer ⊢
      rcases hc : CallSession.exec order c p.store.gateway.redis with ⟨e | b, redis⟩
      · cases e
      · rw [hc] at hanswer
        exact congrArg Except.ok (Except.ok.inj hanswer)

/-- A session that is loaded was stored at some moment of the run. -/
theorem yields_get (c : CallId) :
    Yields (relays order s es) (fun o _ => ∀ x, o = some x → ∃ past, past <+: es ∧
      (reached order s past).gateway.redis.session c = some x) (handlers (calls (CallSession.get c))) () := by
  refine yields_lookup ?_
  have hany : ∀ {γ : Type} (p : CallSession.M γ), Yields (lookups order s es) (fun _ _ => True) p () := by
    intro γ p
    induction p with
    | ret a => exact yields_ret trivial
    | fail e => exact yields_fail
    | call c k ih => exact ⟨trivial, fun r _ => ih r⟩
  refine yields_bind (yields_perform (Q := fun o _ => ∀ x, o = some x → ∃ past, past <+: es ∧
    (reached order s past).gateway.redis.session c = some x) trivial fun o ho x hx => ?_) fun o _ ho => ?_
  · obtain ⟨past, hpast, hanswer⟩ := ho
    exact ⟨past, hpast, (Except.ok.inj hanswer).trans hx⟩
  · cases o with
    | none => exact yields_ret nofun
    | some x =>
      dsimp only
      -- the repair of the index does not change what is answered
      split
      · refine yields_bind (hany _) fun _ _ _ => ?_
        split
        · exact yields_bind (hany _) fun _ _ _ => yields_ret ho
        · exact yields_ret ho
      · exact yields_ret ho

theorem yields_assertLive (u : UserId) (v : ConversationId) :
    Yields (relays order s es) (fun _ _ => ∃ past, past <+: es ∧ IsMember (reached order s past).gateway.db v u)
      (handlers (assertLiveConversationMember u v)) () := by
  change Follows _ _ (Prog.call (Call.gateway (.getConversation v u)) _) ()
  refine ⟨trivial, fun r hr => ?_⟩
  cases r with
  | error e => exact yields_fail
  | ok view =>
    refine yields_ret ?_
    obtain ⟨past, hpast, hanswer⟩ := hr
    refine ⟨past, hpast, ?_⟩
    rcases run_getConversation (reached order s past).gateway.db v u with ⟨_, hmem⟩ | ⟨⟨e, he⟩, _⟩
    · exact hmem
    · have hfailed : (exec order (.gateway (.getConversation v u)) (reached order s past)).1 = .error (.rpc e) := by
        simp only [exec, ChatGateway.exec, sendChat, he]
        rfl
      exact absurd (hfailed.symm.trans hanswer) (by simp)

theorem yields_requireJoined (c : CallId) (u : UserId) :
    Yields (relays order s es) (fun x _ => ∀ v, v ∈ x.joinedIds → Connected order s es c u v)
      (requireJoinedParticipant c u) () := by
  refine yields_bind (yields_get c) fun o _ ho => ?_
  cases o with
  | none => exact yields_fail
  | some x =>
    dsimp only
    split
    · exact yields_fail
    split
    · exact yields_fail
    rename_i hended hjoined
    refine yields_bind (yields_assertLive u x.conversationId) fun _ _ hmem => yields_ret fun v hv => ?_
    exact ⟨x, ho x rfl, hended, by simpa [isJoined] using hjoined, hv, hmem⟩

theorem yields_requireCallId (body : CallSignalBody) :
    Yields (relays order s es) (fun _ _ => True) (requireCallId body) () := by
  unfold requireCallId
  split
  · exact yields_fail
  · exact yields_ret trivial

theorem yields_requireToUserId (body : CallSignalBody) :
    Yields (relays order s es) (fun _ _ => True) (requireToUserId body) () := by
  unfold requireToUserId
  split
  · exact yields_fail
  · exact yields_ret trivial

theorem yields_assertSize (payload : Option Text) :
    Yields (relays order s es) (fun _ _ => (Percent.bytes (signalJson payload)).length ≤ MAX_SIGNAL_JSON_BYTES)
      (assertSignalSize payload) () := by
  unfold assertSignalSize
  split
  · exact yields_fail
  · next hsize => exact yields_ret (Nat.le_of_not_lt hsize)

theorem yields_emit {u : UserId} {signal : Signal} (h : Rightful order s es u signal) :
    Yields (relays order s es) (fun _ _ => True) (emitSignal u signal) () := yields_perform h fun _ _ => trivial

theorem yields_relayWebRtcSignal {u : UserId} {body : CallSignalBody} {kind : SignalKind} {task : Task}
    (hstart : .start task ∈ es) (hfor : task.relayedFor = some u) :
    Yields (relays order s es) (fun _ _ => True) (relayWebRtcSignal u body kind) () := by
  refine yields_bind (yields_requireCallId body) fun c _ _ => yields_bind (yields_requireToUserId body) fun v _ _ => ?_
  cases body.sdp with
  | none => exact yields_fail
  | some sdp =>
    refine yields_bind (yields_assertSize (some sdp)) fun _ _ hsize => ?_
    refine yields_bind (yields_requireJoined c u) fun x _ hx => ?_
    split
    · exact yields_fail
    split
    · exact yields_fail
    rename_i hjoined hother
    refine yields_emit ⟨rfl, hx v (by simpa [isJoined] using hjoined), ⟨task, hstart, hfor⟩, ?_, fun _ => hother⟩
    cases kind <;> exact hsize

theorem yields_relayIce {u : UserId} {body : CallSignalBody} {task : Task} (hstart : .start task ∈ es)
    (hfor : task.relayedFor = some u) : Yields (relays order s es) (fun _ _ => True) (relayIce u body) () := by
  refine yields_bind (yields_requireCallId body) fun c _ _ => yields_bind (yields_requireToUserId body) fun v _ _ => ?_
  refine yields_bind (yields_assertSize body.candidate) fun _ _ hsize => ?_
  refine yields_bind (yields_requireJoined c u) fun x _ hx => ?_
  split
  · exact yields_fail
  rename_i hjoined
  exact yields_emit ⟨rfl, hx v (by simpa [isJoined] using hjoined), ⟨task, hstart, hfor⟩, hsize,
    fun hkind => absurd rfl (hkind _)⟩

theorem yields_task {task : Task} (h : .start task ∈ es) :
    Yields (relays order s es) (fun _ _ => True) task.program () := by
  cases task with
  | handler task => exact yields_handlers task.program
  | relayOffer u body => exact yields_bind (yields_relayWebRtcSignal h rfl) fun _ _ _ => yields_ret trivial
  | relayAnswer u body => exact yields_bind (yields_relayWebRtcSignal h rfl) fun _ _ _ => yields_ret trivial
  | relayIce u body => exact yields_bind (yields_relayIce h rfl) fun _ _ _ => yields_ret trivial

end Relays

/-- A and B are in a private call, and A sends an offer to B. -/
def offerRun : List SignalEvent :=
  .start (.handler (.request (.inviteCall userA 0 none))) :: List.replicate 22 (.advance 0) ++
    .start (.handler (.request (.acceptCall userB 0))) :: List.replicate 14 (.advance 1) ++
    .start (.relayOffer userA ⟨some 0, some userB, some ['{', '}'], none⟩) :: List.replicate 5 (.advance 2)

end Relay.Gateway.Signals
