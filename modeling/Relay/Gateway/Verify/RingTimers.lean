import Relay.Lib.Runs
import Relay.Gateway.Verify.CallLocks
import Relay.Gateway.Verify.Handlers

/-!
# Ring timers and the users they ring for

A call has one ring timer: the initial ring sets it, every later invite replaces it, and it is cleared
when a second user is connected. The law is that nobody invited later still rings once no timer is
pending. `Covers` says of one step that it leaves nobody ringing without a timer, and `rungOut_iff` that
a run keeps the law exactly when its steps do.
-/

namespace Relay.Gateway.ChatGateway

open Relay.Lib CallSession

variable {order : Redis → List CallId}

/-! ## Who rings -/

section Ringing

variable {x : VoiceCallSession} {u i : UserId}

theorem mem_ringingIds_joined (now : Time) :
    i ∈ ringingIds (joined x u now) ↔ i ∈ ringingIds x ∧ i ≠ u := by
  simp only [mem_ringingIds, joined, List.mem_eraseDups, List.mem_append, List.mem_singleton,
    List.mem_filter, decide_eq_true_eq]
  tauto

theorem mem_ringingIds_declined :
    i ∈ ringingIds (declined x u) ↔ i ∈ ringingIds x ∧ i ≠ u := by
  simp only [mem_ringingIds, declined, List.mem_eraseDups, List.mem_append, List.mem_singleton]
  tauto

theorem mem_ringingIds_left : i ∈ ringingIds (left x u) ↔ i ∈ ringingIds x ∧ i ≠ u := by
  simp only [mem_ringingIds, left, List.mem_eraseDups, List.mem_append, List.mem_singleton,
    List.mem_filter, decide_eq_true_eq]
  tauto

theorem mem_ringingIds_revoked :
    i ∈ ringingIds (replaceHost (revoked x u) u) ↔ i ∈ ringingIds x ∧ i ≠ u := by
  have h : ringingIds (replaceHost (revoked x u) u) = ringingIds (revoked x u) := by
    unfold replaceHost
    split <;> rfl
  rw [h]
  simp only [mem_ringingIds, revoked, List.mem_eraseDups, List.mem_append, List.mem_singleton,
    List.mem_filter, decide_eq_true_eq]
  tauto

/-- The soft timeout silences the users it is given. -/
theorem mem_ringingIds_markAll (changed : Bool) (us : List UserId) :
    i ∈ ringingIds (markAll x changed us).1 ↔ i ∈ ringingIds x ∧ i ∉ us := by
  induction us generalizing x changed with
  | nil => simp [markAll]
  | cons u us ih =>
    unfold markAll
    by_cases hout : (x.joinedIds.contains u || x.declinedIds.contains u) = true
    · rw [if_pos hout, ih]
      simp only [Bool.or_eq_true, List.contains_iff_mem] at hout
      simp only [mem_ringingIds, List.mem_cons]
      grind
    · rw [if_neg hout]
      by_cases hleft : x.leftIds.contains u = true
      · rw [if_pos hleft, ih]
        rw [List.contains_iff_mem] at hleft
        simp only [mem_ringingIds, List.mem_cons]
        grind
      · rw [if_neg hleft, ih]
        simp only [mem_ringingIds, List.mem_cons, List.mem_append]
        grind

end Ringing

/-! ## Runs with the record of invites -/

/-- The gateway, with everyone `inviteMoreCall` returned as invited to a call. -/
structure Watched where
  state : State
  invited : CallId → List UserId

/-- The users that a step invites to a call. -/
def Event.invites (order : Redis → List CallId) (s : State) (c : CallId) : Event → List UserId
  | .request (.inviteMoreCall u c' ids) =>
    if c = c' then Ack.invitedIds ((Request.inviteMoreCall u c' ids).run order s).1 else []
  | _ => []

def watch (order : Redis → List CallId) (e : Event) (w : Watched) : Watched where
  state := step order e w.state
  invited c := w.invited c ++ e.invites order w.state c

/-- Without a pending timer of the call nobody invited to it rings any more. -/
def RungOutIn (w : Watched) (c : CallId) : Prop :=
  ∀ x, w.state.redis.session c = some x → w.state.ringTimer c = none →
    ∀ i ∈ w.invited c, i ∉ ringingIds x

def RungOut (w : Watched) : Prop := ∀ c, RungOutIn w c

/-- The user's accept goes through, and clears the ring timer. -/
def Silences (s : State) (u : UserId) (c : CallId) (x : VoiceCallSession) : Prop :=
  IsMember s.db x.conversationId u ∧ u ∈ x.memberIds ∧
    (u ∈ x.joinedIds ∧ (x.kind = .priv ∨ 1 < x.joinedIds.length) ∨
      u ∉ x.joinedIds ∧ ¬ (x.kind = .priv ∧ u = x.hostId) ∧
        (s.redis.busy u = none ∨ s.redis.busy u = some c))

instance (db : Chat.Db) (v : ConversationId) (u : UserId) : Decidable (IsMember db v u) :=
  match h : db.membership v u with
  | .ok cv => isTrue ⟨cv, h⟩
  | .error _ => isFalse fun ⟨_, hcv⟩ => nomatch h.symm.trans hcv

instance (s : State) (u : UserId) (c : CallId) (x : VoiceCallSession) :
    Decidable (Silences s u c x) := by
  unfold Silences
  infer_instance

/-- The users a timer of invitees is for. -/
def RingJob.invitees : RingJob → Option (List UserId)
  | .timeoutRingingCall => none
  | .timeoutRingingInvitees ids => some ids

/-- An accept that clears the timer leaves nobody else ringing, and a timer of invitees fires only when
it is the timer of all who still ring. -/
def Covers (w : Watched) : Event → Prop
  | .request (.acceptCall u c) =>
    ∀ x ∈ w.state.redis.session c, Silences w.state u c x →
      ∀ i ∈ w.invited c, i ∈ ringingIds x → i = u
  | .fire c =>
    ∀ t ∈ w.state.ringTimer c, t.due ≤ w.state.redis.now →
      ∀ ids ∈ t.job.invitees,
        ∀ x ∈ w.state.redis.session c, ∀ i ∈ w.invited c, i ∈ ringingIds x → i ∈ ids
  | _ => True

instance (w : Watched) (e : Event) : Decidable (Covers w e) := by
  unfold Covers
  split <;> infer_instance

/-! ## Steps that make no noise -/

/-- But for the calls in `off`, calls end or go on with no more users ringing, and the timers of the
calls that go on stay as they are. -/
structure Calm (off : CallId → Prop) (s t : State) : Prop where
  coherent : Coherent t.redis
  nextId_le : s.redis.nextId ≤ t.redis.nextId
  calls : ∀ c x', ¬ off c → t.redis.session c = some x' →
    ∃ x, s.redis.session c = some x ∧ ringingIds x' ⊆ ringingIds x
  timer : ∀ c x', ¬ off c → t.redis.session c = some x' → t.ringTimer c = s.ringTimer c
  pending : ∀ c tm, ¬ off c → t.ringTimer c = some tm → s.ringTimer c = some tm

/-- What every run keeps: ids are fresh, and the initial timer of a call is gone once somebody was
invited to it. -/
structure Fits (w : Watched) : Prop where
  coherent : Coherent w.state.redis
  fresh : ∀ c, w.state.redis.nextId ≤ c → w.invited c = []
  initial : ∀ c t, w.state.ringTimer c = some t → t.job = .timeoutRingingCall → w.invited c = []

namespace Calm

variable {off : CallId → Prop} {s t r : State}

theorem refl (h : Coherent s.redis) : Calm off s s :=
  ⟨h, Nat.le_refl _, fun _ x _ hx => ⟨x, hx, fun _ h => h⟩, fun _ _ _ _ => rfl,
    fun _ _ _ h => h⟩

theorem trans (hst : Calm off s t) (htr : Calm off t r) : Calm off s r where
  coherent := htr.coherent
  nextId_le := hst.nextId_le.trans htr.nextId_le
  calls c x' hc hx' := by
    obtain ⟨y, hy, hsub⟩ := htr.calls c x' hc hx'
    obtain ⟨x, hx, hsub'⟩ := hst.calls c y hc hy
    exact ⟨x, hx, fun i hi => hsub' (hsub hi)⟩
  timer c x' hc hx' := by
    obtain ⟨y, hy, _⟩ := htr.calls c x' hc hx'
    rw [htr.timer c x' hc hx', hst.timer c y hc hy]
  pending c tm hc htm := hst.pending c tm hc (htr.pending c tm hc htm)

/-- A calm step keeps the law for the calls it leaves alone. -/
theorem rungOutIn {w w' : Watched} (h : Calm off w.state w'.state)
    (hinv : ∀ c, ¬ off c → w'.invited c = w.invited c) (hw : RungOut w) {c : CallId}
    (hc : ¬ off c) : RungOutIn w' c := by
  intro x' hx' htimer i hi
  obtain ⟨x, hx, hsub⟩ := h.calls c x' hc hx'
  rw [h.timer c x' hc hx'] at htimer
  rw [hinv c hc] at hi
  exact fun hr => hw c x hx htimer i hi (hsub hr)

theorem rungOut_same {w w' : Watched} (h : Calm off w.state w'.state)
    (hinv : ∀ c, ¬ off c → w'.invited c = w.invited c) (hw : RungOut w) :
    RungOut w' ↔ ∀ c, off c → RungOutIn w' c := by
  constructor
  · exact fun h c _ => h c
  · intro hoff c
    by_cases hc : off c
    · exact hoff c hc
    · exact h.rungOutIn hinv hw hc

theorem fits {w w' : Watched} (h : Calm off w.state w'.state)
    (hinv : ∀ c, ¬ off c → w'.invited c = w.invited c) (hw : Fits w)
    (hoff : ∀ c, off c → (w'.state.redis.nextId ≤ c → w'.invited c = []) ∧
      ∀ t, w'.state.ringTimer c = some t → t.job = .timeoutRingingCall → w'.invited c = []) :
    Fits w' where
  coherent := h.coherent
  fresh c hc := by
    by_cases ho : off c
    · exact (hoff c ho).1 hc
    · rw [hinv c ho]
      exact hw.fresh c (h.nextId_le.trans hc)
  initial c t ht hjob := by
    by_cases ho : off c
    · exact (hoff c ho).2 t ht hjob
    · rw [hinv c ho]
      exact hw.initial c t (h.pending c t ho ht) hjob

/-- A plan that stores edited sessions with no more users ringing, or sessions of `off`. -/
theorem of_does {p : Plan} {timers : AList fun _ : CallId => RingTimer} (h : Coherent s.redis)
    (hp : p.Valid s.redis) (hd : Does p timers s t)
    (hstores : ∀ x', p.stores = some x' → off x'.callId ∨
      ∃ x, s.redis.session x'.callId = some x ∧ ringingIds x' ⊆ ringingIds x)
    (htimers : ∀ c, ¬ off c → timers.lookup c = s.ringTimer c ∨
      timers.lookup c = none ∧ t.redis.session c = none) : Calm off s t where
  coherent := by
    rw [hd.redis]
    exact h.apply hp
  nextId_le := by
    rw [hd.redis]
    exact p.nextId_le_apply s.redis
  calls c x' hc hx' := by
    rw [hd.redis] at hx'
    by_cases hown : p.Owns c
    · obtain ⟨hst, rfl⟩ := Plan.session_apply_of_owns hown hx'
      exact (hstores x' hst).resolve_left hc
    · rw [Plan.session_apply_of_not_owns hown] at hx'
      exact ⟨x', hx', fun _ h => h⟩
  timer c x' hc hx' := by
    rcases htimers c hc with heq | ⟨_, hnone⟩
    · rw [State.ringTimer, hd.ringTimers, heq]
    · rw [hx'] at hnone
      cases hnone
  pending c tm hc htm := by
    rw [State.ringTimer, hd.ringTimers] at htm
    rcases htimers c hc with heq | ⟨hnone, _⟩
    · rw [← heq, htm]
    · rw [htm] at hnone
      cases hnone

theorem of_eq (h : Coherent s.redis) (hredis : t.redis = s.redis)
    (htimers : t.ringTimers = s.ringTimers) : Calm off s t where
  coherent := by rw [hredis]; exact h
  nextId_le := by rw [hredis]
  calls c x hc hx := ⟨x, by rw [← hredis]; exact hx, fun _ h => h⟩
  timer c _ _ _ := by rw [State.ringTimer, htimers, State.ringTimer]
  pending c tm _ htm := by rwa [State.ringTimer, htimers] at htm

theorem of_same (h : Coherent s.redis) (hst : Same s t) : Calm off s t :=
  of_eq h hst.redis hst.ringTimers

end Calm

/-! ## The handlers that leave the timers of live calls alone -/

section Handlers

variable {s : State} {off : CallId → Prop}

theorem session_apply_ends {x : VoiceCallSession} {us : List UserId} (r : Redis) :
    ((Plan.apply { releases := us, ends := some x } r).session x.callId) = none := by
  rw [Plan.apply_none rfl, Plan.session_before]
  exact if_pos rfl

/-- One call ends and loses its timer, or goes on with no more users ringing. -/
theorem calm_of_move {t : State} {p : Plan} {ended : Bool} {us : List UserId}
    {x y : VoiceCallSession} (h : Coherent s.redis) (hp : p.Valid s.redis)
    (hd : Does p (clearedIf ended x.callId s) s t) (hx : s.redis.session x.callId = some x)
    (hcases : ended = true ∧ p = { releases := us, ends := some x } ∨
      ended = false ∧ p = { releases := us, stores := some y })
    (hid : y.callId = x.callId) (hsub : ringingIds y ⊆ ringingIds x) : Calm off s t := by
  refine .of_does h hp hd ?_ ?_
  · intro x' hx'
    rcases hcases with ⟨_, hplan⟩ | ⟨_, hplan⟩
    · rw [hplan] at hx'
      cases hx'
    · rw [hplan] at hx'
      cases hx'
      exact .inr ⟨x, by rw [hid]; exact hx, hsub⟩
  · rcases hcases with ⟨hend, hplan⟩ | ⟨hend, _⟩
    · intro c _
      rw [clearedIf, if_pos hend]
      by_cases hc : c = x.callId
      · subst hc
        rw [hd.redis, hplan]
        exact .inr ⟨AList.lookup_erase _ _, session_apply_ends _⟩
      · exact .inl (AList.lookup_erase_ne hc)
    · exact fun c _ => .inl (by rw [clearedIf, hend]; rfl)

theorem calm_rejectCall (h : Coherent s.redis) (u : UserId) (c : CallId) :
    Calm off s (Prog.run (exec order) (rejectCall u c) s).2 := by
  obtain ⟨r, t, hrun, hsame | ⟨r', hres, hd⟩⟩ := rejectCall_cases order h u c
  · rw [hrun]
    exact .of_same h hsame
  rw [hrun]
  have hvalid : (declinePlan c u s.redis).Valid s.redis := valid_plan h (.decline c u)
  rcases decline_cases c u s.redis with ⟨e, hres', _⟩ | ⟨x, r, hx, hres', hcases⟩
  · rw [hres] at hres'
    cases hres'
  · rw [hres] at hres'
    cases hres'
    obtain rfl := h.callId_eq hx
    exact calm_of_move h hvalid hd hx hcases rfl fun i hi => (mem_ringingIds_declined.mp hi).1

/-- A user leaves, and the timer goes with the call. -/
theorem calm_of_leave {t : State} (h : Coherent s.redis) {u : UserId} {c : CallId} {r : Left}
    (hres : leaveResult c u s.redis = .ok r)
    (hd : Does (leavePlan c u s.redis) (clearedIf r.ended c s) s t) : Calm off s t := by
  have hvalid : (leavePlan c u s.redis).Valid s.redis := valid_plan h (.leave c u)
  rcases leave_cases c u s.redis with ⟨e, hres', _⟩ | ⟨x, r, hx, hres', hcases⟩
  · rw [hres] at hres'
    cases hres'
  · rw [hres] at hres'
    cases hres'
    obtain rfl := h.callId_eq hx
    exact calm_of_move h hvalid hd hx hcases rfl fun i hi => (mem_ringingIds_left.mp hi).1

theorem calm_hangupCall (h : Coherent s.redis) (u : UserId) (c : CallId) :
    Calm off s (Prog.run (exec order) (hangupCall u c) s).2 := by
  obtain ⟨r, t, hrun, hsame | ⟨r', hres, hd⟩⟩ := hangupCall_cases order h u c
  · rw [hrun]
    exact .of_same h hsame
  · rw [hrun]
    exact calm_of_leave h hres hd

theorem calm_endCallForDisconnectedUser (h : Coherent s.redis) (u : UserId) :
    Calm off s (Prog.run (exec order) (endCallForDisconnectedUser u) s).2 := by
  obtain ⟨r, t, hrun, hsame | ⟨c, hd | ⟨r', hres, hd⟩⟩⟩ :=
    endCallForDisconnectedUser_cases order h u
  · rw [hrun]
    exact .of_same h hsame
  · rw [hrun]
    refine .of_does h (valid_plan h (.clearUserBusy u (some c))) hd ?_ fun _ _ => .inl rfl
    intro x' hx'
    simp only [plan, clearPlan] at hx'
    split at hx' <;> cases hx'
  · rw [hrun]
    exact calm_of_leave h hres hd

theorem calm_controlCall (h : Coherent s.redis) (u : UserId) (c : CallId)
    {f : VoiceCallSession → Except String VoiceCallSession} (hf : Controls f)
    (event : VoiceCallSession → CallEvent) :
    Calm off s (Prog.run (exec order) (controlCall u c f event) s).2 := by
  obtain ⟨r, t, hrun, hsame | hd⟩ := controlCall_cases order h u c f event
  · rw [hrun]
    exact .of_same h hsame
  rw [hrun]
  refine .of_does h (valid_controlPlan h c hf) hd ?_ fun _ _ => .inl rfl
  intro x' hx'
  rcases control_cases c f s.redis with ⟨e, _, hplan⟩ | ⟨x, y, hx, hfx, _, hplan⟩
  · rw [hplan] at hx'
    cases hx'
  · rw [hplan] at hx'
    cases hx'
    obtain ⟨_, _, _, _, rfl⟩ := hf x x' hfx
    refine .inr ⟨x, ?_, fun i hi => hi⟩
    rw [show ({ x with .. } : VoiceCallSession).callId = x.callId from rfl, h.callId_eq hx]
    exact hx

theorem calm_evict (order : Redis → List CallId) (off : CallId → Prop) (h : Coherent s.redis) (v : ConversationId) (us : List UserId) :
    Calm off s (Prog.run (exec order) (evictUsersFromConversation v us) s).2 := by
  induction us generalizing s with
  | nil => exact .refl h
  | cons u us ih =>
    obtain ⟨t, hrun, hcases⟩ := run_evict_cons order h v u us
    rw [hrun]
    have hcalm : Calm off s t := by
      rcases hcases with ⟨hsame, _⟩ | ⟨r, hres, hd⟩
      · exact .of_same h hsame
      have hvalid : (revokePlan v u s.redis).Valid s.redis :=
        valid_plan h (.revokeUserFromConversation v u)
      rcases revoke_cases h v u with ⟨hnone, _, _⟩ | ⟨x, r, hx, _, hres', hid, hcases⟩
      · rw [hres] at hnone
        cases hnone
      · rw [hres] at hres'
        cases hres'
        rw [hid] at hd
        have hhost : (replaceHost (revoked x u) u).callId = x.callId := by
          unfold replaceHost
          split <;> rfl
        exact calm_of_move h hvalid hd hx hcases hhost
          fun i hi => (mem_ringingIds_revoked.mp hi).1
    exact hcalm.trans (ih hcalm.coherent)

/-- A new call comes with its timer. -/
theorem calm_inviteCall (h : Coherent s.redis) (u : UserId) (v : ConversationId)
    (media : Option CallMedia) :
    Calm (· = s.redis.nextId) s (Prog.run (exec order) (inviteCall u v media) s).2 := by
  obtain ⟨r, t, hrun, hsame | ⟨input, _, hcases⟩⟩ := inviteCall_cases order h u v media
  · rw [hrun]
    exact .of_same h hsame
  rw [hrun]
  have hvalid : (createPlan input s.redis).Valid s.redis := valid_plan h (.createCall input)
  have hstores : ∀ x', (createPlan input s.redis).stores = some x' →
      x'.callId = s.redis.nextId := by
    intro x' hx'
    rcases create_cases input s.redis with ⟨_, _, hplan⟩ | ⟨_, hplan⟩
    · rw [hplan] at hx'
      cases hx'
    · rw [hplan] at hx'
      cases hx'
      rfl
  rcases hcases with ⟨_, hd⟩ | ⟨x, due, hres, hd⟩
  · exact .of_does h hvalid hd (fun x' hx' => .inl (hstores x' hx')) fun _ _ => .inl rfl
  · refine .of_does h hvalid hd (fun x' hx' => .inl (hstores x' hx')) fun c hc => .inl ?_
    have hid : x.callId = s.redis.nextId := by
      rcases create_cases input s.redis with ⟨_, hres', _⟩ | ⟨hres', _⟩
      · rw [hres] at hres'
        cases hres'
      · rw [hres] at hres'
        cases hres'
        rfl
    rw [hid, AList.lookup_insert_ne hc, AList.lookup_erase_ne hc]
    rfl

/-- An accept changes its call only: the accepter no longer rings. -/
theorem calm_acceptCall (h : Coherent s.redis) (u : UserId) (c : CallId) :
    Calm (· = c) s (Prog.run (exec order) (acceptCall u c) s).2 := by
  obtain ⟨r, t, hrun, ⟨hsame, _⟩ | ⟨y, ⟨x, hx, _, hres⟩, hd⟩⟩ :=
    acceptCall_cases order h u c
  · rw [hrun]
    exact .of_same h hsame
  rw [hrun]
  have hvalid : (acceptPlan c u s.redis).Valid s.redis := valid_plan h (.accept c u)
  refine .of_does h hvalid hd ?_ fun c' hc' => .inl ?_
  · intro x' hx'
    rcases accept_cases c u s.redis with ⟨_, _, hplan⟩ | ⟨z, hz, _, ⟨_, _, hplan⟩ | ⟨_, _, _, _, hplan⟩⟩
    · rw [hplan] at hx'
      cases hx'
    · rw [hplan] at hx'
      cases hx'
    · rw [hplan] at hx'
      cases hx'
      exact .inl (show z.callId = c from h.callId_eq hz)
  · split
    · exact AList.lookup_erase_ne hc'
    · rfl

theorem calm_inviteMoreCall (h : Coherent s.redis) (u : UserId) (c : CallId)
    (userIds : List UserId) :
    Calm (· = c) s (Prog.run (exec order) (inviteMoreCall u c userIds) s).2 := by
  obtain ⟨r, t, hrun, ⟨hsame, _⟩ | ⟨x, r', us, due, hx, _, _, hall, _, hd⟩⟩ :=
    inviteMoreCall_cases order h u c userIds
  · rw [hrun]
    exact .of_same h hsame
  rw [hrun]
  obtain ⟨hedit, hsub⟩ := edits_inviteAll (s := s.redis) (x := x) (y := x) c [] us
    ⟨rfl, rfl, h.live hx⟩
  rw [← hall] at hedit hsub
  refine .of_does h (.of_edits h hx hedit fun _ hw => .inl (hsub hw)) hd ?_ fun c' hc' => .inl ?_
  · rintro _ ⟨⟩
    exact .inl (hedit.callId.trans (h.callId_eq hx))
  · rw [AList.lookup_insert_ne hc', AList.lookup_erase_ne hc']
    rfl

theorem calm_fire (order : Redis → List CallId) (h : Coherent s.redis) (c : CallId) :
    Calm (· = c) s (s.fire order c) := by
  unfold State.fire
  rcases s.ringTimer c with _ | ⟨due, job⟩
  · exact .refl h
  simp only
  split
  swap
  · exact .refl h
  -- The timer has fired, so it is gone before its callback runs.
  have hfired : Calm (· = c) s { s with ringTimers := s.ringTimers.erase c } := by
    have hdoes : Does {} (s.ringTimers.erase c) s { s with ringTimers := s.ringTimers.erase c } :=
      ⟨rfl, rfl, rfl⟩
    have hvalid : Plan.Valid {} s.redis := .of_ends rfl nofun
    exact .of_does h hvalid hdoes nofun fun c' hc' => .inl (AList.lookup_erase_ne hc')
  refine hfired.trans ?_
  have htimers : ∀ c', ¬ c' = c → ((s.ringTimers.erase c).erase c).lookup c' =
      State.ringTimer { s with ringTimers := s.ringTimers.erase c } c' :=
    fun c' hc' => AList.lookup_erase_ne hc'
  cases job with
  | timeoutRingingCall =>
    simp only [RingJob.program, Prog.run_map]
    obtain ⟨r, t, hrun, hsame | hd | ⟨x, hx, hd⟩⟩ := timeoutRingingCall_cases order
      (s := { s with ringTimers := s.ringTimers.erase c }) h c
    · rw [hrun]
      exact .of_same h hsame
    · rw [hrun]
      exact .of_does (p := {}) h (.of_ends rfl nofun) hd nofun fun c' hc' => .inl (htimers c' hc')
    · rw [hrun]
      refine .of_does (p := { ends := some x }) h (.of_ends rfl ?_) hd nofun fun c' hc' => .inl (htimers c' hc')
      rintro _ ⟨⟩
      rw [h.callId_eq hx]
      exact hx
  | timeoutRingingInvitees ids =>
    simp only [RingJob.program, Prog.run_map]
    obtain ⟨r, t, hrun, hd⟩ := timeoutRingingInvitees_cases order
      (s := { s with ringTimers := s.ringTimers.erase c }) h c ids
    rw [hrun]
    refine .of_does h (valid_plan h (.markUnansweredAsLeft c ids)) hd ?_
      fun c' hc' => .inl (htimers c' hc')
    intro x' hx'
    simp only [plan, markPlan] at hx'
    rcases hx : s.redis.session c with _ | x
    · rw [hx] at hx'
      cases hx'
    · rw [hx] at hx'
      simp only at hx'
      split at hx'
      · cases hx'
        exact .inl ((edits_markAll (h.live hx) false ids).1.callId.trans (h.callId_eq hx))
      · cases hx'

/-- A membership ends in the chat service, then the user is taken out of the call. -/
theorem calm_evictAfter {call : Call} {p : Chat.M call.Answer} (h : Coherent s.redis)
    (hcall : exec order call s = sendChat p s) (v : ConversationId) (u : UserId)
    (f : call.Answer → Ack) :
    Calm off s (Prog.run (exec order) (Prog.perform call >>= fun a =>
      evictUsersFromConversation v [u] >>= fun _ => Prog.ret (f a)) s).2 := by
  rw [Prog.run_bind, Prog.run_perform, hcall]
  have hdb : Calm off s (sendChat p s).2 := .of_eq h rfl rfl
  rcases hres : sendChat p s with ⟨e | a, t⟩
  · rw [hres] at hdb
    exact hdb
  rw [hres] at hdb
  refine hdb.trans ?_
  simp only
  rw [Prog.run_bind]
  have hevict := calm_evict order off hdb.coherent v [u]
  rcases hrun : Prog.run (exec order) (evictUsersFromConversation v [u]) t with ⟨e | a, t'⟩
  · rw [hrun] at hevict
    exact hevict
  · rw [hrun] at hevict
    exact hevict

end Handlers

/-! ## One step -/

section Step

variable {w : Watched}

/-- The steps that no call's timer depends on. -/
def Event.Plain : Event → Prop
  | .request (.inviteCall _ _ _) | .request (.acceptCall _ _) | .request (.inviteMoreCall _ _ _)
  | .fire _ => False
  | _ => True

theorem calm_of_plain (order : Redis → List CallId) (off : CallId → Prop) {s : State} (h : Coherent s.redis) {e : Event}
    (he : e.Plain) : Calm off s (step order e s) := by
  cases e with
  | request r =>
    simp only [step, Request.run]
    cases r with
    | inviteCall u v media => exact he.elim
    | acceptCall u c => exact he.elim
    | rejectCall u c => exact calm_rejectCall h u c
    | hangupCall u c => exact calm_hangupCall h u c
    | holdCall u c onHold => exact calm_controlCall h u c (controls_held u onHold) _
    | muteAllCall u c muted => exact calm_controlCall h u c (controls_forceMute u muted) _
    | screenShareCall u c active => exact calm_controlCall h u c (controls_screenShare u active) _
    | inviteMoreCall u c ids => exact he.elim
    | evictUsersFromConversation v us =>
      rw [Request.program, Prog.run_map]
      exact calm_evict order off h v us
    | endCallForDisconnectedUser u =>
      rw [Request.program, Prog.run_map]
      exact calm_endCallForDisconnectedUser h u
    | removeMember v actor u => exact calm_evictAfter h rfl v u _
    | leave v u => exact calm_evictAfter h rfl v u _
    | deleteGroup v u =>
      rw [Request.program, deleteGroup, Prog.run_bind, Prog.run_perform]
      have hdb : Calm off s (sendChat (Chat.deleteGroup v u) s).2 := .of_eq h rfl rfl
      rcases hres : exec order (.deleteGroup v u) s with ⟨e | a, t⟩
      · rw [show sendChat (Chat.deleteGroup v u) s = _ from hres] at hdb
        exact hdb
      · rw [show sendChat (Chat.deleteGroup v u) s = _ from hres] at hdb
        exact hdb
  | fire c => exact he.elim
  | elapse d =>
    have hstep : Coherent (CallSession.step order (.elapse d) s.redis) := h.step (.elapse d)
    refine ⟨hstep, Nat.le_refl _, fun c x _ hx => ⟨x, hx, ?_⟩,
      fun _ _ _ _ => rfl, fun _ _ _ htm => htm⟩
    exact fun _ hi => hi
  | setOnline u online => exact .of_eq h rfl rfl
  | chat op => exact .of_eq h rfl rfl

/-- Every step keeps the call store coherent. -/
theorem coherent_step {s : State} (h : Coherent s.redis) (e : Event) :
    Coherent (step order e s).redis := by
  by_cases he : e.Plain
  · exact (calm_of_plain order (fun _ => False) h he).coherent
  cases e with
  | request r =>
    cases r with
    | inviteCall u v media => exact (calm_inviteCall h u v media).coherent
    | acceptCall u c => exact (calm_acceptCall h u c).coherent
    | inviteMoreCall u c ids => exact (calm_inviteMoreCall h u c ids).coherent
    | _ => exact absurd trivial he
  | fire c => exact (calm_fire order h c).coherent
  | _ => exact absurd trivial he

theorem invites_of_plain {s : State} {e : Event} (he : e.Plain) (c : CallId) :
    e.invites order s c = [] := by
  cases e with
  | request r =>
    cases r with
    | inviteMoreCall u c' ids => exact he.elim
    | _ => rfl
  | _ => rfl

theorem covers_of_plain {e : Event} (he : e.Plain) : Covers w e := by
  cases e with
  | request r =>
    cases r with
    | acceptCall u c => exact he.elim
    | _ => trivial
  | fire c => exact he.elim
  | _ => trivial

/-- An accept goes through and clears the timer exactly when its guards say so. -/
theorem Joins.silences_iff {s : State} (h : Coherent s.redis) {u : UserId} {c : CallId}
    {x y : VoiceCallSession} (hy : Joins s u c y) (hx : s.redis.session c = some x) :
    (Silences s u c x ↔ y.kind = .priv ∨ 1 < y.joinedIds.length) ∧
      ((acceptPlan c u s.redis).apply s.redis).session c = some y ∧
      ∀ i, i ∈ ringingIds y ↔ i ∈ ringingIds x ∧ i ≠ u := by
  obtain ⟨x', hx', hmem, hres⟩ := hy
  rw [hx] at hx'
  cases hx'
  rcases accept_cases c u s.redis with ⟨_, hres', _⟩ |
    ⟨x', hx', hu, ⟨hj, hres', hplan⟩ | ⟨hj, hhost, hb, hres', hplan⟩⟩
  · rw [hres] at hres'
    cases hres'
  · rw [hx] at hx'
    cases hx'
    rw [hres] at hres'
    cases hres'
    refine ⟨⟨?_, fun hstop => ⟨hmem, hu, .inl ⟨hj, hstop⟩⟩⟩, ?_, fun i => ?_⟩
    · rintro ⟨_, _, ⟨_, hstop⟩ | ⟨hj', _⟩⟩
      · exact hstop
      · exact absurd hj hj'
    · rw [hplan]
      exact hx
    · refine ⟨fun hi => ⟨hi, ?_⟩, fun hi => hi.1⟩
      rintro rfl
      exact (mem_ringingIds.mp hi).2.1 hj
  · rw [hx] at hx'
    cases hx'
    rw [hres] at hres'
    cases hres'
    refine ⟨⟨fun _ => .inr ?_, fun _ => ⟨hmem, hu, .inr ⟨hj, hhost, ?_⟩⟩⟩, ?_,
      fun i => mem_ringingIds_joined _⟩
    · obtain ⟨a, as, has⟩ := List.exists_cons_of_ne_nil (h.live hx).joined_ne_nil
      have hau : a ≠ u := by
        rintro rfl
        exact hj (by rw [has]; exact List.mem_cons_self)
      have hsub : [a, u] ⊆ (joined x u s.redis.now).joinedIds := by
        intro i hi
        simp only [joined, List.mem_eraseDups, List.mem_append, List.mem_singleton, has]
        rcases List.mem_cons.mp hi with rfl | hi
        · exact .inl List.mem_cons_self
        · exact .inr (List.mem_singleton.mp hi)
      exact (List.subperm_of_subset (by simp [hau]) hsub).length_le
    · by_cases hnone : s.redis.busy u = none
      · exact .inl hnone
      · exact .inr (not_not.mp fun hne => hb ⟨hnone, hne⟩)
    · rw [hplan, Plan.apply_some rfl, Redis.session_store,
        if_pos (show c = (joined x u s.redis.now).callId from (h.callId_eq hx).symm)]

/-- An accept whose guards hold goes through. -/
theorem joins_of_silences {s : State} {u : UserId} {c : CallId} {x : VoiceCallSession}
    (hx : s.redis.session c = some x) (h : Silences s u c x) : ∃ y, Joins s u c y := by
  obtain ⟨hmem, hu, hguard⟩ := h
  unfold Joins acceptResult
  rw [hx]
  simp only [isMember, List.contains_iff_mem.mpr hu, Bool.not_true, Bool.false_eq_true, if_false,
    List.contains_iff_mem]
  rcases hguard with ⟨hj, _⟩ | ⟨hj, hhost, hb⟩
  · exact ⟨x, x, rfl, hmem, by rw [if_pos hj]⟩
  · refine ⟨joined x u s.redis.now, x, rfl, hmem, ?_⟩
    rw [if_neg hj, if_neg hhost, if_neg]
    rintro ⟨hne, hne'⟩
    rcases hb with hb | hb
    · exact hne hb
    · exact hne' hb

/-- Who is invited to another call does not count. -/
theorem watch_invited_ne {u : UserId} {c c' : CallId} {ids : List UserId} (hc : c' ≠ c) :
    (watch order (.request (.inviteMoreCall u c ids)) w).invited c' = w.invited c' := by
  simp only [watch, Event.invites, if_neg hc, List.append_nil]

theorem watch_invited {e : Event} (he : ∀ c, e.invites order w.state c = []) (c : CallId) :
    (watch order e w).invited c = w.invited c := by
  simp only [watch, he, List.append_nil]

/-- The timer an invite sets. -/
theorem ringTimer_inviteMoreCall (order : Redis → List CallId) (h : Coherent w.state.redis) (u : UserId) (c : CallId)
    (ids : List UserId) :
    (∀ i ∈ w.invited c, i ∈ (watch order (.request (.inviteMoreCall u c ids)) w).invited c) ∧
      (Same w.state (watch order (.request (.inviteMoreCall u c ids)) w).state ∧
          (watch order (.request (.inviteMoreCall u c ids)) w).invited c = w.invited c ∨
        (w.state.redis.session c ≠ none ∧ ∃ due invitedIds,
          (watch order (.request (.inviteMoreCall u c ids)) w).state.ringTimer c =
              some ⟨due, .timeoutRingingInvitees invitedIds⟩ ∧
            (watch order (.request (.inviteMoreCall u c ids)) w).state.redis.nextId =
              w.state.redis.nextId)) := by
  refine ⟨fun i hi => List.mem_append_left _ hi, ?_⟩
  obtain ⟨r, t, hrun, ⟨hsame, hnone⟩ | ⟨x, r', us, due, hx, _, _, _, _, hd⟩⟩ :=
    inviteMoreCall_cases order h u c ids
  · refine .inl ⟨?_, ?_⟩
    · simp only [watch, step, Request.run, Request.program, hrun]
      exact hsame
    · simp only [watch, Event.invites, if_true, Request.run, Request.program, hrun, hnone,
        List.append_nil]
  · refine .inr ⟨by rw [hx]; exact nofun, due, r'.invitedIds, ?_, ?_⟩
    · simp only [watch, step, Request.run, Request.program, hrun]
      rw [State.ringTimer, hd.ringTimers]
      exact AList.lookup_insert _
    · simp only [watch, step, Request.run, Request.program, hrun]
      rw [hd.redis, Plan.nextId_apply]
      rfl

/-- What the soft timeout leaves of its call. -/
theorem session_markPlan {r : Redis} (h : Coherent r) (c : CallId) (ids : List UserId) :
    ((markPlan c ids r).apply r).session c =
      (r.session c).map fun x => (markAll x false ids).1 := by
  unfold markPlan
  rcases hx : r.session c with _ | x
  · exact hx
  have hid : (markAll x false ids).1.callId = c :=
    (edits_markAll (h.live hx) false ids).1.callId.trans (h.callId_eq hx)
  simp only [Option.map_some]
  cases hchanged : (markAll x false ids).2 with
  | true => rw [if_pos rfl, Plan.apply_some rfl, Redis.session_store, hid, if_pos rfl]
  | false =>
    rw [if_neg Bool.false_ne_true, Plan.apply_none rfl, Plan.session_before,
      markAll_of_unchanged ids hchanged]
    exact hx

/-- A timer that is due fires once; the timer of invitees then marks those of its users who still ring
as left. -/
theorem fire_cases (order : Redis → List CallId) {s : State} (h : Coherent s.redis) (c : CallId) :
    s.fire order c = s ∧ (∀ t, s.ringTimer c = some t → ¬ t.due ≤ s.redis.now) ∨
      ∃ t, s.ringTimer c = some t ∧ t.due ≤ s.redis.now ∧ (s.fire order c).ringTimer c = none ∧
        ∀ ids, t.job = .timeoutRingingInvitees ids → (s.fire order c).redis.session c =
          (s.redis.session c).map fun x => (markAll x false ids).1 := by
  unfold State.fire
  rcases s.ringTimer c with _ | ⟨due, job⟩
  · exact .inl ⟨rfl, nofun⟩
  simp only
  by_cases hdue : due ≤ s.redis.now
  swap
  · rw [if_neg hdue]
    refine .inl ⟨rfl, ?_⟩
    rintro _ ⟨⟩
    exact hdue
  rw [if_pos hdue]
  refine .inr ⟨_, rfl, hdue, ?_⟩
  have hgone : (s.ringTimers.erase c).lookup c = none := AList.lookup_erase _ _
  have hgone' : ((s.ringTimers.erase c).erase c).lookup c = none := AList.lookup_erase _ _
  cases job with
  | timeoutRingingCall =>
    refine ⟨?_, nofun⟩
    simp only [RingJob.program, Prog.run_map]
    obtain ⟨r, t, hrun, hsame | hd | ⟨x, _, hd⟩⟩ := timeoutRingingCall_cases order
      (s := { s with ringTimers := s.ringTimers.erase c }) h c
    · rw [hrun, State.ringTimer, hsame.ringTimers, hgone]
    · rw [hrun, State.ringTimer, hd.ringTimers, hgone']
    · rw [hrun, State.ringTimer, hd.ringTimers, hgone']
  | timeoutRingingInvitees ids =>
    simp only [RingJob.program, Prog.run_map]
    obtain ⟨r, t, hrun, hd⟩ := timeoutRingingInvitees_cases order
      (s := { s with ringTimers := s.ringTimers.erase c }) h c ids
    rw [hrun]
    refine ⟨by rw [State.ringTimer, hd.ringTimers, hgone'], ?_⟩
    rintro _ ⟨⟩
    rw [hd.redis]
    exact session_markPlan h c ids

theorem Fits.watch (hw : Fits w) (e : Event) : Fits (watch order e w) := by
  have hcoherent := hw.coherent
  by_cases he : e.Plain
  · exact (calm_of_plain order (fun _ => False) hcoherent he).fits
      (fun c _ => watch_invited (invites_of_plain he) c) hw fun _ hc => hc.elim
  cases e with
  | request r =>
    cases r with
    | inviteCall u v media =>
      refine (calm_inviteCall hcoherent u v media).fits
        (fun c _ => watch_invited (fun _ => rfl) c) hw ?_
      rintro c rfl
      have hnil : (ChatGateway.watch order (.request (.inviteCall u v media)) w).invited
          w.state.redis.nextId = [] :=
        (watch_invited (fun _ => rfl) _).trans (hw.fresh _ (Nat.le_refl _))
      exact ⟨fun _ => hnil, fun _ _ _ => hnil⟩
    | acceptCall u c =>
      have hcalm : Calm (· = c) w.state
          (ChatGateway.watch order (.request (.acceptCall u c)) w).state :=
        calm_acceptCall hcoherent u c
      have hinv : ∀ c', (ChatGateway.watch order (.request (.acceptCall u c)) w).invited c' =
          w.invited c' := watch_invited fun _ => rfl
      refine hcalm.fits (fun c _ => hinv c) hw ?_
      rintro c' rfl
      rw [hinv]
      refine ⟨fun hle => hw.fresh c' (hcalm.nextId_le.trans hle), fun t ht hjob => ?_⟩
      obtain ⟨r, t', hrun, ⟨hsame, _⟩ | ⟨y, _, hd⟩⟩ :=
        acceptCall_cases order hcoherent u c'
      · simp only [ChatGateway.watch, step, Request.run, Request.program, hrun] at ht
        rw [State.ringTimer, hsame.ringTimers] at ht
        exact hw.initial c' t ht hjob
      · simp only [ChatGateway.watch, step, Request.run, Request.program, hrun] at ht
        rw [State.ringTimer, hd.ringTimers] at ht
        split at ht
        · rw [AList.lookup_erase] at ht
          cases ht
        · exact hw.initial c' t ht hjob
    | inviteMoreCall u c ids =>
      refine (calm_inviteMoreCall hcoherent u c ids).fits
        (fun c' hc' => watch_invited_ne hc') hw ?_
      rintro c' rfl
      obtain ⟨_, ⟨hsame, hinv⟩ | ⟨hx, due, invitedIds, htimer, hnext⟩⟩ :=
        ringTimer_inviteMoreCall order hcoherent u c' ids
      · rw [hinv, State.ringTimer, hsame.ringTimers, hsame.redis]
        exact ⟨hw.fresh c', hw.initial c'⟩
      · refine ⟨fun hle => ?_, fun t ht hjob => ?_⟩
        · obtain ⟨x, hx⟩ := Option.ne_none_iff_exists'.mp hx
          rw [hnext] at hle
          exact absurd (hcoherent.lt_nextId hx) (Nat.not_lt.mpr hle)
        · rw [htimer] at ht
          cases ht
          cases hjob
    | _ => exact absurd trivial he
  | fire c =>
    refine (calm_fire order hcoherent c).fits (fun c _ => watch_invited (fun _ => rfl) c) hw ?_
    rintro c' rfl
    rw [watch_invited fun _ => rfl]
    refine ⟨fun hle => hw.fresh c' ((calm_fire order hcoherent c').nextId_le.trans hle),
      fun t ht hjob => ?_⟩
    rcases fire_cases order hcoherent c' with ⟨hsame, _⟩ | ⟨_, _, _, hnone, _⟩
    · simp only [ChatGateway.watch, step, hsame] at ht
      exact hw.initial c' t ht hjob
    · simp only [ChatGateway.watch, step, hnone] at ht
      cases ht
  | _ => exact absurd trivial he

/-- From a state that keeps the law, a step keeps it exactly when it covers whoever still rings. -/
theorem rungOut_watch_iff (hw : Fits w) (hr : RungOut w) (e : Event) :
    RungOut (watch order e w) ↔ Covers w e := by
  have hcoherent := hw.coherent
  by_cases he : e.Plain
  · refine iff_of_true ?_ (covers_of_plain he)
    exact ((calm_of_plain order (fun _ => False) hcoherent he).rungOut_same
      (fun c _ => watch_invited (invites_of_plain he) c) hr).mpr fun _ hc => hc.elim
  cases e with
  | request r =>
    cases r with
    | inviteCall u v media =>
      refine iff_of_true ?_ trivial
      refine ((calm_inviteCall hcoherent u v media).rungOut_same
        (fun c _ => watch_invited (fun _ => rfl) c) hr).mpr ?_
      rintro c rfl x _ _ i hi
      rw [watch_invited fun _ => rfl, hw.fresh _ (Nat.le_refl _)] at hi
      cases hi
    | acceptCall u c =>
      have hinv : ∀ c', (ChatGateway.watch order (.request (.acceptCall u c)) w).invited c' =
          w.invited c' := watch_invited fun _ => rfl
      have hcalm : Calm (· = c) w.state
          (watch order (.request (.acceptCall u c)) w).state := calm_acceptCall hcoherent u c
      rw [hcalm.rungOut_same (fun c _ => hinv c) hr]
      simp only [forall_eq, RungOutIn, hinv, Covers]
      obtain ⟨r, t, hrun, ⟨hsame, hno⟩ | ⟨y, hy, hd⟩⟩ :=
        acceptCall_cases order hcoherent u c
      · -- The accept fails, so its guards do not hold.
        simp only [watch, step, Request.run, Request.program, hrun, hsame.redis, State.ringTimer,
          hsame.ringTimers]
        refine iff_of_true (hr c) fun x hx hsil => ?_
        obtain ⟨y, hy⟩ := joins_of_silences hx hsil
        exact absurd hy (hno y)
      · have ⟨x, hx, _⟩ := hy
        obtain ⟨hsil, hsession, hring⟩ := hy.silences_iff hcoherent hx
        simp only [watch, step, Request.run, Request.program, hrun, hd.redis, State.ringTimer,
          hd.ringTimers, hsession, hx]
        by_cases hstop : y.kind = .priv ∨ 1 < y.joinedIds.length
        · rw [if_pos hstop]
          constructor
          · rintro h _ ⟨⟩ _ i hi hir
            by_contra hiu
            exact h y rfl (AList.lookup_erase _ _) i hi ((hring i).mpr ⟨hir, hiu⟩)
          · rintro h _ ⟨⟩ _ i hi hir
            obtain ⟨hir, hiu⟩ := (hring i).mp hir
            exact hiu (h x rfl (hsil.mpr hstop) i hi hir)
        · rw [if_neg hstop]
          refine iff_of_true ?_ ?_
          · rintro _ ⟨⟩ htimer i hi hir
            exact hr c x hx htimer i hi ((hring i).mp hir).1
          · rintro _ ⟨⟩ hs
            exact absurd (hsil.mp hs) hstop
    | inviteMoreCall u c ids =>
      refine iff_of_true ?_ trivial
      refine ((calm_inviteMoreCall hcoherent u c ids).rungOut_same
        (fun c' hc' => watch_invited_ne hc') hr).mpr ?_
      rintro c' rfl
      obtain ⟨_, ⟨hsame, hinv⟩ | ⟨_, due, invitedIds, htimer, _⟩⟩ :=
        ringTimer_inviteMoreCall order hcoherent u c' ids
      · intro x hx htimer
        rw [hsame.redis] at hx
        rw [State.ringTimer, hsame.ringTimers] at htimer
        rw [hinv]
        exact hr c' x hx htimer
      · intro x _ hnone
        rw [htimer] at hnone
        cases hnone
    | _ => exact absurd trivial he
  | fire c =>
    have hinv : ∀ c', (watch order (.fire c) w).invited c' = w.invited c' :=
      watch_invited fun _ => rfl
    rw [(show Calm (· = c) w.state (watch order (.fire c) w).state from
      calm_fire order hcoherent c).rungOut_same (fun c _ => hinv c) hr]
    simp only [forall_eq, RungOutIn, hinv, Covers]
    simp only [watch, step]
    rcases fire_cases order hcoherent c with
      ⟨hsame, hlate⟩ | ⟨⟨due, job⟩, ht, hdue, hnone, hmark⟩
    · rw [hsame]
      exact iff_of_true (hr c) fun t ht hdue => absurd hdue (hlate t ht)
    simp only [ht, Option.mem_def, Option.some.injEq, hnone]
    cases job with
    | timeoutRingingCall =>
      refine iff_of_true ?_ ?_
      · rintro x _ _ i hi
        rw [hw.initial c _ ht rfl] at hi
        cases hi
      · rintro _ rfl _ _ ⟨⟩
    | timeoutRingingInvitees ids =>
      rw [hmark ids rfl]
      constructor
      · rintro h _ rfl _ _ ⟨⟩ x hx i hi hir
        by_contra hids
        rw [hx] at h
        exact h _ rfl trivial i hi ((mem_ringingIds_markAll _ _).mpr ⟨hir, hids⟩)
      · rintro h x' hx' _ i hi hir
        obtain ⟨x, hx, rfl⟩ := Option.map_eq_some_iff.mp hx'
        obtain ⟨hir, hids⟩ := (mem_ringingIds_markAll _ _).mp hir
        exact hids (h _ rfl hdue ids rfl x hx i hi hir)
  | _ => exact absurd trivial he

end Step

/-! ## Whole runs -/

/-- The gateway starts without call keys and timers. -/
def State.start (s : State) : Prop := s.redis = Redis.empty ∧ s.ringTimers = ∅

/-- In a run of one gateway process that starts without calls, nobody invited to a call rings without
a pending timer, exactly when each accept that clears a timer, and each timer of invitees that fires,
leaves nobody else ringing. -/
theorem rungOut_iff (order : Redis → List CallId) {s : State} (hs : s.start) (es : List Event) :
    Runs.Always (watch order) RungOut es ⟨s, fun _ => []⟩ ↔
      Runs.Along (watch order) Covers es ⟨s, fun _ => []⟩ := by
  obtain ⟨hredis, htimers⟩ := hs
  refine Runs.always_iff_along (fun w e hw => hw.watch e)
    (fun w e hw hr => rungOut_watch_iff hw hr e) ⟨?_, fun _ _ => rfl, fun _ _ _ _ => rfl⟩ ?_
  · rw [hredis]
    exact coherent_empty
  · intro c x _ _ i hi
    cases hi

def userD : UserId := ⟨['d'], Eq.refl true⟩

/-- A gateway and a chat service that nobody has used. -/
def State.initial : State := ⟨Redis.empty, Chat.Db.empty 0 0, ∅, ∅, [], []⟩

/-- B is connected to A's group call when A invites one user; the timer fires for that user. -/
def unanswered : List Event :=
  [.chat (.createGroup userA "team".toList [userB, userC]), .request (.inviteCall userA 0 none),
    .request (.acceptCall userB 0), .request (.inviteMoreCall userA 0 [userC]),
    .elapse (ms RING_TIMEOUT_MS), .fire 0]

theorem rungOut_iff_unanswered :
    Runs.Always (watch keyOrder) RungOut unanswered ⟨State.initial, fun _ => []⟩ :=
  (rungOut_iff keyOrder ⟨rfl, rfl⟩ unanswered).mpr (by decide +kernel)

/-- A invites C and D; C accepts, which clears the timer of both. -/
def silenced : List Event :=
  [.chat (.createGroup userA "team".toList [userB, userC, userD]),
    .request (.inviteCall userA 0 none), .request (.acceptCall userB 0),
    .request (.inviteMoreCall userA 0 [userC, userD]), .request (.acceptCall userC 0)]

theorem rungOut_fails :
    ¬ ∀ (s : State), s.start → ∀ es,
      Runs.Always (watch keyOrder) RungOut es ⟨s, fun _ => []⟩ := by
  intro h
  have hfinal := (h State.initial ⟨rfl, rfl⟩ silenced).final
  have hring : ((Runs.final (watch keyOrder) silenced
      ⟨State.initial, fun _ => []⟩).state.redis.session 0).map ringingIds = some [userD] := by
    decide +kernel
  have htimer : (Runs.final (watch keyOrder) silenced
      ⟨State.initial, fun _ => []⟩).state.ringTimer 0 = none := by decide +kernel
  have hinvited : userD ∈ (Runs.final (watch keyOrder) silenced
      ⟨State.initial, fun _ => []⟩).invited 0 := by decide +kernel
  obtain ⟨x, hx, hxr⟩ := Option.map_eq_some_iff.mp hring
  exact hfinal 0 x hx htimer userD hinvited (by rw [hxr]; exact List.mem_singleton_self userD)

end Relay.Gateway.ChatGateway
