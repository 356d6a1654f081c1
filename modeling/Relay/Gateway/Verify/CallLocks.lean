import Relay.Gateway.Verify.CallRefine

/-!
# The busy keys over whole runs

The busy key of a user is the lock that keeps one user out of two calls. Two laws about it are
stated over runs of the service that start with no call keys:

* `CallLock`: a user connected to a live call holds the lock for it, so nobody is connected twice;
* `BusyBacked`: a lock names a live call in which the user is connected or rings.

Neither holds of every run, since `persist` and `end` rewrite the keys of all members of the call at
hand without looking at what they hold. `callLock_iff` and `busyBacked_iff` give the exact runs.
-/

namespace Relay.Gateway.CallSession

open Relay.Lib

variable {order : Redis → List CallId} {s : Redis}

/-! ## A connected user holds the lock -/

/-- The busy key of everyone connected to a live call names that call. -/
def LocksHeld (s : Redis) : Prop :=
  ∀ c x u, s.session c = some x → u ∈ x.joinedIds → s.busy u = some c

/-- Nobody is connected to two live calls. -/
def JoinedOnce (s : Redis) : Prop :=
  ∀ u c c' x y, s.session c = some x → s.session c' = some y → u ∈ x.joinedIds →
    u ∈ y.joinedIds → c = c'

def CallLock (s : Redis) : Prop := LocksHeld s ∧ JoinedOnce s

theorem LocksHeld.joinedOnce (h : LocksHeld s) : JoinedOnce s := by
  intro u c c' x y hx hy hux huy
  have hc := h c x u hx hux
  rw [h c' y u hy huy] at hc
  exact (Option.some.inj hc).symm

/-- The plan sets or drops the busy key of the user. -/
def Plan.Rewrites (p : Plan) (u : UserId) : Prop :=
  u ∈ p.releases ∨ (∃ x, p.ends = some x ∧ u ∈ x.memberIds) ∨
    ∃ x, p.stores = some x ∧ u ∈ x.memberIds

/-- The plan ends or stores the call. -/
def Plan.Owns (p : Plan) (c : CallId) : Prop :=
  p.ends.map VoiceCallSession.callId = some c ∨ p.stores.map VoiceCallSession.callId = some c

/-- Whoever loses or changes the busy key is connected to no live call but those the plan ends or
stores. -/
def Clean (p : Plan) (s : Redis) : Prop :=
  ∀ u, p.Rewrites u → ∀ c y, s.session c = some y → u ∈ y.joinedIds → p.Owns c

/-- The busy keys a plan does not rewrite stay. -/
theorem Plan.busy_apply_of_not_rewrites {p : Plan} {u : UserId} (hu : ¬ p.Rewrites u) :
    (p.apply s).busy u = s.busy u := by
  have hbefore : (p.before s).busy u = s.busy u := by
    rw [Plan.busy_before, if_neg]
    rintro (hrel | hends)
    · exact hu (.inl hrel)
    · exact hu (.inr (.inl hends))
  rcases hx : p.stores with _ | x
  · rw [Plan.apply_none hx, hbefore]
  · rw [Plan.apply_some hx, Redis.busy_store, if_neg, hbefore]
    exact fun hmem => hu (.inr (.inr ⟨x, hx, hmem⟩))

/-- A rewritten busy key names the call the plan stores, or nothing. -/
theorem Plan.busy_apply_of_rewrites {p : Plan} {u : UserId} (hu : p.Rewrites u) :
    (p.apply s).busy u = none ∨ (p.apply s).busy u = p.stores.map VoiceCallSession.callId := by
  rcases hx : p.stores with _ | x
  · rw [Plan.apply_none hx, Plan.busy_before]
    rcases hu with hrel | hends | ⟨y, hy, _⟩
    · exact .inl (if_pos (.inl hrel))
    · exact .inl (if_pos (.inr hends))
    · rw [hx] at hy
      cases hy
  · rw [Plan.apply_some hx, Redis.busy_store]
    by_cases hmem : u ∈ x.memberIds
    · rw [if_pos hmem]
      split
      · exact .inr rfl
      · exact .inl rfl
    · rw [if_neg hmem, Plan.busy_before]
      rcases hu with hrel | hends | ⟨y, hy, huy⟩
      · exact .inl (if_pos (.inl hrel))
      · exact .inl (if_pos (.inr hends))
      · rw [hx] at hy
        cases hy
        exact absurd huy hmem

/-- The calls a plan does not touch stay. -/
theorem Plan.session_apply_of_not_owns {p : Plan} {c : CallId} (hc : ¬ p.Owns c) :
    (p.apply s).session c = s.session c := by
  have hbefore : (p.before s).session c = s.session c := by
    rw [Plan.session_before, if_neg fun h => hc (.inl h)]
  rcases hx : p.stores with _ | x
  · rw [Plan.apply_none hx, hbefore]
  · rw [Plan.apply_some hx, Redis.session_store, if_neg, hbefore]
    intro h
    exact hc (.inr (by rw [hx, Option.map_some, h]))

/-- What a plan leaves of the calls it touches is the session it stores. -/
theorem Plan.session_apply_of_owns {p : Plan} {c : CallId} {y : VoiceCallSession}
    (hc : p.Owns c) (hy : (p.apply s).session c = some y) :
    p.stores = some y ∧ c = y.callId := by
  rcases hx : p.stores with _ | x
  · rw [Plan.apply_none hx, Plan.session_before] at hy
    rcases hc with hends | hstores
    · rw [if_pos hends] at hy
      cases hy
    · rw [hx] at hstores
      cases hstores
  · rw [Plan.apply_some hx, Redis.session_store] at hy
    split at hy
    · cases hy
      exact ⟨rfl, ‹_›⟩
    · rcases hc with hends | hstores
      · rw [Plan.session_before, if_pos hends] at hy
        cases hy
      · rw [hx] at hstores
        exact absurd (Option.some.inj hstores).symm ‹_›

/-- From a store where connected users hold their locks, a valid plan leads to such a store exactly
when it is clean. -/
theorem locksHeld_apply_iff {p : Plan} (hp : p.Valid s) (h : LocksHeld s) :
    LocksHeld (p.apply s) ↔ Clean p s := by
  constructor
  · intro h' u hu c y hy huy
    by_contra hc
    have hkept : (p.apply s).session c = some y := (Plan.session_apply_of_not_owns hc).trans hy
    have hbusy := h' c y u hkept huy
    rcases Plan.busy_apply_of_rewrites (s := s) hu with hnone | hstored
    · rw [hnone] at hbusy
      cases hbusy
    · rw [hstored] at hbusy
      exact hc (.inr hbusy)
  · intro hclean c y u hy huy
    by_cases hc : p.Owns c
    · obtain ⟨hx, rfl⟩ := Plan.session_apply_of_owns hc hy
      have hmem := (hp.storable y hx).live.joined_sub huy
      have hids : u ∈ busyIds y := by
        simp only [busyIds, List.mem_append]
        exact .inl (.inl huy)
      rw [Plan.apply_some hx, Redis.busy_store, if_pos hmem, if_pos hids]
    · rw [Plan.session_apply_of_not_owns hc] at hy
      have hu : ¬ p.Rewrites u := fun hu => hc (hclean u hu c y hy huy)
      rw [Plan.busy_apply_of_not_rewrites hu]
      exact h c y u hy huy

theorem locksHeld_empty : LocksHeld Redis.empty := nofun

/-- In a run from an empty store, everyone connected to a live call holds the lock for it, and
nobody is connected to two, exactly when every step is clean: the users whose busy keys it rewrites
(the members of the call it stores or ends, and whoever it takes out or clears) are connected to no
other live call. -/
theorem callLock_iff (order : Redis → List CallId) (ops : List Op) :
    Runs.Always (step order) CallLock ops Redis.empty ↔
      Runs.Along (step order) (fun s op => Clean (plan op s) s) ops Redis.empty := by
  have hiff : ∀ s op, Coherent s → LocksHeld s →
      (LocksHeld (step order op s) ↔ Clean (plan op s) s) := by
    intro s op hs h
    rw [step_eq_apply hs]
    exact locksHeld_apply_iff (valid_plan hs op) h
  rw [← Runs.always_iff_along (fun _ op hs => Coherent.step hs op) hiff coherent_empty
    locksHeld_empty]
  constructor
  · exact Runs.Always.mono fun _ h => h.1
  · exact Runs.Always.mono fun _ h => ⟨h, h.joinedOnce⟩

/-- Three users for the runs below. -/
def userA : UserId := ⟨['a'], Eq.refl true⟩
def userB : UserId := ⟨['b'], Eq.refl true⟩
def userC : UserId := ⟨['c'], Eq.refl true⟩

/-- A scan that yields the keys as they are kept. -/
def keyOrder (s : Redis) : List CallId := s.sessions.keys

/-- A starts a group call; C then starts another group call with A invited, which takes over A's
busy key; A accepts it and is connected to both. -/
def doubleJoin : List Op :=
  [.createCall ⟨0, .group, userA, [userA, userB], none⟩,
    .createCall ⟨1, .group, userC, [userA, userC], none⟩,
    .accept 1 userA]

theorem callLock_fails :
    ¬ ∀ ops, Runs.Always (step keyOrder) CallLock ops Redis.empty := by
  intro h
  have hfinal := (h doubleJoin).final
  have hfirst : ((Runs.final (step keyOrder) doubleJoin Redis.empty).session 0).map
      VoiceCallSession.joinedIds = some [userA] := by decide
  have hsecond : ((Runs.final (step keyOrder) doubleJoin Redis.empty).session 1).map
      VoiceCallSession.joinedIds = some [userC, userA] := by decide
  obtain ⟨x, hx, hxj⟩ := Option.map_eq_some_iff.mp hfirst
  obtain ⟨y, hy, hyj⟩ := Option.map_eq_some_iff.mp hsecond
  have hc := hfinal.2 userA 0 1 x y hx hy (by rw [hxj]; decide) (by rw [hyj]; decide)
  cases hc

/-! ## A lock names a call the user is in -/

/-- Every busy key names a live call in which the user is connected or rings. -/
def BusyBacked (s : Redis) : Prop :=
  ∀ u c, s.busy u = some c →
    ∃ x, s.session c = some x ∧ (u ∈ x.joinedIds ∨ u ∈ ringingIds x)

/-- A user who has left a call without error is not busy with it. -/
def LeaveFrees (order : Redis → List CallId) (s : Redis) (op : Op) : Prop :=
  ∀ c u r, op = .leave c u → (Prog.run (exec order) (leave c u) s).1 = .ok (.ok r) →
    (step order op s).busy u ≠ some c

/-- The host leaves a group call in which somebody else is connected. -/
def HostLeaves (s : Redis) (op : Op) : Prop :=
  ∃ c x, op = .leave c x.hostId ∧ s.session c = some x ∧ x.kind = .group ∧
    ∃ u ∈ x.joinedIds, u ≠ x.hostId

/-- The host of every live call is connected to it. -/
def HostJoined (s : Redis) : Prop := ∀ c x, s.session c = some x → x.hostId ∈ x.joinedIds

theorem mem_ringingIds {x : VoiceCallSession} {u : UserId} :
    u ∈ ringingIds x ↔
      u ∈ x.memberIds ∧ u ∉ x.joinedIds ∧ u ∉ x.declinedIds ∧ u ∉ x.leftIds := by
  simp [ringingIds, and_assoc]

theorem mem_busyIds {x : VoiceCallSession} (hx : x.hostId ∈ x.joinedIds) {u : UserId} :
    u ∈ busyIds x ↔ u ∈ x.joinedIds ∨ u ∈ ringingIds x := by
  simp only [busyIds, List.mem_append, List.mem_singleton]
  constructor
  · rintro (h | rfl)
    · exact h
    · exact .inl hx
  · exact .inl

/-- Whoever is connected or rings is invited. -/
theorem Live.mem_of_backed {x : VoiceCallSession} (hx : Live x) {u : UserId}
    (hu : u ∈ x.joinedIds ∨ u ∈ ringingIds x) : u ∈ x.memberIds := by
  rcases hu with hu | hu
  · exact hx.joined_sub hu
  · exact (mem_ringingIds.mp hu).1

/-- A valid plan that stores no call without its host keeps the locks backed. -/
theorem BusyBacked.apply (hs : Coherent s) (h : BusyBacked s) {p : Plan} (hp : p.Valid s)
    (hhost : ∀ x, p.stores = some x → x.hostId ∈ x.joinedIds) : BusyBacked (p.apply s) := by
  intro u c hbusy
  by_cases hu : p.Rewrites u
  · rcases Plan.busy_apply_of_rewrites (s := s) hu with hnone | hstored
    · rw [hnone] at hbusy
      cases hbusy
    · -- The key names the stored call, so `persist` found the user among its busy members.
      rw [hstored] at hbusy
      obtain ⟨x, hx, hxc⟩ := Option.map_eq_some_iff.mp hbusy
      subst hxc
      rw [hx, Plan.apply_some hx, Redis.busy_store] at hstored
      have hsession : (p.apply s).session x.callId = some x := by
        rw [Plan.apply_some hx, Redis.session_store, if_pos rfl]
      refine ⟨x, hsession, (mem_busyIds (hhost x hx)).mp ?_⟩
      by_contra hids
      by_cases hmem : u ∈ x.memberIds
      · rw [if_pos hmem, if_neg hids] at hstored
        cases hstored
      · rw [if_neg hmem, Plan.busy_before] at hstored
        rcases hu with hrel | hends | ⟨y, hy, huy⟩
        · rw [if_pos (.inl hrel)] at hstored
          cases hstored
        · rw [if_pos (.inr hends)] at hstored
          cases hstored
        · rw [hx] at hy
          cases hy
          exact hmem huy
  · rw [Plan.busy_apply_of_not_rewrites hu] at hbusy
    obtain ⟨y, hy, huy⟩ := h u c hbusy
    have hmem := (hs.live hy).mem_of_backed huy
    by_cases hc : p.Owns c
    · -- The plan rewrites the busy keys of all members of the call.
      refine absurd ?_ hu
      rcases hc with hends | hstores
      · obtain ⟨x, hx, rfl⟩ := Option.map_eq_some_iff.mp hends
        rw [hp.ends x hx] at hy
        cases hy
        exact .inr (.inl ⟨_, hx, hmem⟩)
      · obtain ⟨x, hx, rfl⟩ := Option.map_eq_some_iff.mp hstores
        rcases hp.keeps x y hx hy u hmem with hin | hrel
        · exact .inr (.inr ⟨x, hx, hin⟩)
        · exact .inl hrel
    · exact ⟨y, (Plan.session_apply_of_not_owns hc).trans hy, huy⟩

theorem HostJoined.apply (h : HostJoined s) {p : Plan}
    (hhost : ∀ x, p.stores = some x → x.hostId ∈ x.joinedIds) : HostJoined (p.apply s) := by
  intro c x hx
  by_cases hc : p.Owns c
  · exact hhost x (Plan.session_apply_of_owns hc hx).1
  · rw [Plan.session_apply_of_not_owns hc] at hx
    exact h c x hx

theorem joinedIds_inviteAll (c : CallId) (x : VoiceCallSession) (ids us : List UserId) :
    (inviteAll c s x ids us).1.joinedIds = x.joinedIds ∧
      (inviteAll c s x ids us).1.hostId = x.hostId := by
  induction us generalizing x ids with
  | nil => exact ⟨rfl, rfl⟩
  | cons u us ih =>
    unfold inviteAll
    split
    · exact ih x ids
    · split
      · exact ih x ids
      · split
        · exact ih x ids
        · exact ih (invited x u) (ids ++ [u])

/-- Unless the host leaves the others behind, the call a step stores has its host connected. -/
theorem host_mem_of_stores (h : HostJoined s) (op : Op) (hop : ¬ HostLeaves s op) :
    ∀ x, (plan op s).stores = some x → x.hostId ∈ x.joinedIds := by
  have hcontrol : ∀ c f, Controls f → ∀ x', (controlPlan c f s).stores = some x' →
      x'.hostId ∈ x'.joinedIds := by
    intro c f hf x' hx'
    unfold controlPlan at hx'
    rcases hx : s.session c with _ | x
    · rw [hx] at hx'
      cases hx'
    rw [hx] at hx'
    simp only at hx'
    rcases hfx : f x with e | z
    · rw [hfx] at hx'
      cases hx'
    · rw [hfx] at hx'
      cases hx'
      obtain ⟨_, _, _, _, rfl⟩ := hf x x' hfx
      exact h c x hx
  intro x' hx'
  cases op with
  | createCall input =>
    simp only [plan, createPlan] at hx'
    split at hx'
    · cases hx'
    split at hx'
    · cases hx'
    split at hx'
    · cases hx'
    split at hx'
    · cases hx'
    cases hx'
    exact List.mem_singleton.mpr rfl
  | accept c u =>
    simp only [plan, acceptPlan] at hx'
    split at hx'
    · cases hx'
    split at hx'
    · cases hx'
    split at hx'
    · cases hx'
    split at hx'
    · cases hx'
    cases hx'
    rename_i x hx _ _ _
    simp only [joined, List.mem_eraseDups, List.mem_append]
    exact .inl (h c x hx)
  | decline c u =>
    simp only [plan, declinePlan] at hx'
    split at hx'
    · cases hx'
    split at hx'
    · cases hx'
    split at hx'
    · cases hx'
    cases hx'
    rename_i x hx _ _
    exact h c x hx
  | leave c u =>
    simp only [plan, leavePlan] at hx'
    split at hx'
    · cases hx'
    split at hx'
    · cases hx'
    split at hx'
    · cases hx'
    cases hx'
    rename_i x hx _ hguard
    simp only [not_or] at hguard
    have hne : x.hostId ≠ u := by
      rintro rfl
      obtain ⟨w, ws, hw⟩ := List.exists_cons_of_ne_nil hguard.1
      have hmem : w ∈ (left x x.hostId).joinedIds := by rw [hw]; exact List.mem_cons_self
      have hw' := List.mem_filter.mp hmem
      refine hop ⟨c, x, rfl, hx, ?_, w, hw'.1, by simpa using hw'.2⟩
      cases hk : x.kind with
      | priv => exact absurd hk hguard.2
      | group => rfl
    exact List.mem_filter.mpr ⟨h c x hx, decide_eq_true hne⟩
  | revokeUserFromConversation v u =>
    simp only [plan, revokePlan] at hx'
    split at hx'
    · cases hx'
    split at hx'
    · cases hx'
    split at hx'
    · cases hx'
    cases hx'
    rename_i x hv _ hguard
    obtain ⟨c, hc, hx⟩ := Option.bind_eq_some_iff.mp hv
    simp only [not_or] at hguard
    obtain ⟨w, ws, hw⟩ := List.exists_cons_of_ne_nil hguard.1
    unfold replaceHost
    split
    · simp only [hw, List.head?_cons, Option.some_or, Option.getD_some]
      exact List.mem_cons_self
    · rename_i hne
      exact List.mem_filter.mpr ⟨h c x hx, decide_eq_true hne⟩
  | inviteMore c actor userIds allowed =>
    simp only [plan, invitePlan] at hx'
    split at hx'
    · cases hx'
    split at hx'
    · cases hx'
    split at hx'
    · cases hx'
    split at hx'
    · cases hx'
    cases hx'
    rename_i x hx _ _ _
    obtain ⟨hjoined, hhost⟩ := joinedIds_inviteAll (s := s) c x []
      (userIds.eraseDups.filter fun u => u ∈ allowed ∧ u ≠ actor)
    rw [hjoined, hhost]
    exact h c x hx
  | markUnansweredAsLeft c userIds =>
    simp only [plan, markPlan] at hx'
    split at hx'
    · cases hx'
    rename_i x hx
    split at hx'
    · cases hx'
      obtain ⟨ids, _, heq⟩ := markAll_eq (x := x) false userIds
      rw [heq]
      exact h c x hx
    · cases hx'
  | setHold c actor onHold => exact hcontrol c _ (controls_held actor onHold) x' hx'
  | setForceMute c actor muted => exact hcontrol c _ (controls_forceMute actor muted) x' hx'
  | setScreenShare c actor active => exact hcontrol c _ (controls_screenShare actor active) x' hx'
  | clearUserBusy u c =>
    simp only [plan, clearPlan] at hx'
    split at hx' <;> split at hx' <;> cases hx'
  | «end» c => cases hx'
  | get c => cases hx'
  | getByConversation v => cases hx'
  | getActiveCallIdForUser u => cases hx'
  | elapse d => cases hx'

/-- When the host leaves others behind, `persist` gives the host the busy key back. -/
theorem not_busyBacked_of_hostLeaves (hs : Coherent s) {op : Op} (h : HostLeaves s op) :
    ¬ BusyBacked (step order op s) := by
  obtain ⟨c, x, rfl, hx, hkind, u, hu, hne⟩ := h
  have hlive := hs.live hx
  have hguard : isMember x x.hostId = true := by
    simp only [isMember, List.contains_iff_mem]
    exact hlive.host_mem
  have hrest : (left x x.hostId).joinedIds ≠ [] :=
    List.ne_nil_of_mem (List.mem_filter.mpr ⟨hu, decide_eq_true hne⟩)
  have hplan : plan (.leave c x.hostId) s =
      { releases := [x.hostId], stores := some (left x x.hostId) } := by
    simp [plan, leavePlan, hx, hguard, hrest, hkind]
  rw [step_eq_apply hs, hplan, Plan.apply_some rfl]
  have hid : (left x x.hostId).callId = c := (rfl : _ = x.callId).trans (hs.callId_eq hx)
  intro hback
  have hmem : x.hostId ∈ (left x x.hostId).memberIds := hlive.host_mem
  have hids : x.hostId ∈ busyIds (left x x.hostId) := by simp [busyIds, left]
  obtain ⟨y, hy, hyu⟩ := hback x.hostId c (by
    rw [Redis.busy_store, if_pos hmem, if_pos hids, hid])
  rw [Redis.session_store, hid, if_pos rfl] at hy
  cases hy
  rcases hyu with hj | hr
  · simp [left] at hj
  · exact (mem_ringingIds.mp hr).2.2.2 (by simp [left, List.mem_eraseDups])

/-- After a leave that went through, the call is gone or the user neither joined nor rings in it. -/
theorem leaveFrees_of_busyBacked (hs : Coherent s) {op : Op}
    (h : BusyBacked (step order op s)) : LeaveFrees order s op := by
  rintro c u r rfl hr hbusy
  obtain ⟨y, hy, hyu⟩ := h u c hbusy
  rw [step_eq_apply hs] at hy
  simp only [plan, leavePlan] at hy
  rcases hx : s.session c with _ | x
  · unfold leave at hr
    rw [Prog.run_bind_ok _ (run_get hs c), hx] at hr
    cases hr
  have hid : (left x u).callId = c := (rfl : _ = x.callId).trans (hs.callId_eq hx)
  simp only [hx] at hy
  by_cases hm : isMember x u = true
  swap
  · unfold leave at hr
    rw [Prog.run_bind_ok _ (run_get hs c), hx] at hr
    simp only [hm, Bool.not_false, if_true] at hr
    cases hr
  simp only [hm, Bool.not_true, Bool.false_eq_true, if_false] at hy
  split at hy
  · rw [Plan.apply_none rfl, Plan.session_before] at hy
    rw [if_pos (by simp [hs.callId_eq hx])] at hy
    cases hy
  · rw [Plan.apply_some rfl, Redis.session_store, hid, if_pos rfl] at hy
    cases hy
    rcases hyu with hj | hr
    · simp [left] at hj
    · exact (mem_ringingIds.mp hr).2.2.2 (by simp [left, List.mem_eraseDups])

/-- In a run from an empty store, every busy key names a live call in which the user is connected
or rings, and leaving frees the user, exactly when no host leaves a group call others stay in. -/
theorem busyBacked_iff (order : Redis → List CallId) (ops : List Op) :
    (Runs.Always (step order) BusyBacked ops Redis.empty ∧
        Runs.Along (step order) (LeaveFrees order) ops Redis.empty) ↔
      Runs.Along (step order) (fun s op => ¬ HostLeaves s op) ops Redis.empty := by
  have hcoherent : Runs.Always (step order) Coherent ops Redis.empty :=
    .of_step (fun _ op hs => Coherent.step hs op) coherent_empty
  constructor
  · rintro ⟨hback, _⟩
    exact Runs.Along.of_always_next
      (fun _ _ hs hnext hleave => not_busyBacked_of_hostLeaves hs hleave hnext) hcoherent hback
  · intro h
    have hall : Runs.Always (step order) (fun s => Coherent s ∧ BusyBacked s ∧ HostJoined s) ops
        Redis.empty := by
      refine .of_along ?_ ⟨coherent_empty, nofun, nofun⟩ h
      rintro s op ⟨hs, hback, hhost⟩ hop
      have hstores := host_mem_of_stores hhost op hop
      refine ⟨Coherent.step hs op, ?_, ?_⟩
      · rw [step_eq_apply hs]
        exact hback.apply hs (valid_plan hs op) hstores
      · rw [step_eq_apply hs]
        exact hhost.apply hstores
    have hback := hall.mono fun _ hs => hs.2.1
    exact ⟨hback, .of_always_next (fun _ _ hs hnext => leaveFrees_of_busyBacked hs hnext)
      hcoherent hback⟩

/-- A starts a group call, B joins it, and A leaves: A stays busy with the call. -/
def hostGone : List Op :=
  [.createCall ⟨0, .group, userA, [userA, userB], none⟩, .accept 0 userB, .leave 0 userA]

theorem busyBacked_fails :
    ¬ ∀ ops, Runs.Always (step keyOrder) BusyBacked ops Redis.empty ∧
      Runs.Along (step keyOrder) (LeaveFrees keyOrder) ops Redis.empty := by
  intro h
  have hback := (h hostGone).1.final
  have hbusy : (Runs.final (step keyOrder) hostGone Redis.empty).busy userA = some 0 := by decide
  have hout : ((Runs.final (step keyOrder) hostGone Redis.empty).session 0).map
      (fun x => x.joinedIds ++ ringingIds x) = some [userB] := by decide
  obtain ⟨x, hx, hu⟩ := hback userA 0 hbusy
  rw [hx, Option.map_some, Option.some.injEq] at hout
  have hmem : userA ∈ [userB] := by
    rw [← hout]
    exact List.mem_append.mpr hu
  exact absurd hmem (by decide)

end Relay.Gateway.CallSession
