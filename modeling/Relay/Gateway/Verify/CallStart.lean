import Relay.Gateway.Verify.CallLocks

/-!
# What starting a call takes away

`createCall` drops a busy key of the caller and ends the call the conversation has while it still
checks. Two laws about that, for every store a run reaches:

* only a call with at most one connected user is replaced (`spares_iff`);
* a refused call leaves the sessions and the busy keys as they were, up to keys that name no call
  (`keepsOnError_iff`).
-/

namespace Relay.Gateway.CallSession

open Relay.Lib

variable {order : Redis → List CallId} {s : Redis} {input : CreateCall}

/-! ## The checks -/

/-- The busy key of the user names no live call that the user is connected to or hosts. -/
def HostFree (s : Redis) (u : UserId) : Prop :=
  ∀ c x, s.busy u = some c → s.session c = some x → u ∉ x.joinedIds ∧ x.hostId ≠ u

/-- The busy key of the user names a live call in which the user rings at most. -/
def RingsElsewhere (s : Redis) (u : UserId) : Prop :=
  ∃ c x, s.busy u = some c ∧ s.session c = some x ∧ u ∉ x.joinedIds ∧ x.hostId ≠ u

/-- The conversation has a call that a new call may replace. -/
def Replaces (input : CreateCall) (s : Redis) : Prop :=
  ∃ x, s.callOf input.conversationId = some x ∧
    (x.hostId = input.hostId ∨ x.joinedIds.length ≤ 1)

/-- The conversation has a call in progress that somebody else hosts. -/
def Occupied (input : CreateCall) (s : Redis) : Prop :=
  ∃ x, s.callOf input.conversationId = some x ∧ x.hostId ≠ input.hostId ∧ 2 ≤ x.joinedIds.length

/-- The other party of a private call has a busy key, which no replaced call frees. -/
def OtherBusy (input : CreateCall) (s : Redis) : Prop :=
  input.kind = .priv ∧ ∃ u, input.members.find? (· ≠ input.hostId) = some u ∧ s.busy u ≠ none ∧
    ∀ x, s.callOf input.conversationId = some x →
      (x.hostId = input.hostId ∨ x.joinedIds.length ≤ 1) → u ∉ x.memberIds

/-- What refuses the call once its host is free. -/
def Refused (input : CreateCall) (s : Redis) : Prop :=
  Occupied input s ∨ input.members.length < 2 ∨ OtherBusy input s

theorem hostRelease_cases (u : UserId) :
    hostRelease u s = none ∧ ¬ HostFree s u ∨
      ∃ us, hostRelease u s = some us ∧ HostFree s u ∧
        (us = [] ∧ s.busy u = none ∨
          us = [u] ∧ ∃ c, s.busy u = some c ∧ (s.session c = none ∨ RingsElsewhere s u)) := by
  unfold hostRelease
  rcases hb : s.busy u with _ | c
  · refine .inr ⟨[], rfl, fun c x hc => ?_, .inl ⟨rfl, rfl⟩⟩
    rw [hb] at hc
    cases hc
  simp only
  rcases hx : s.session c with _ | x
  · refine .inr ⟨[u], rfl, fun c' x hc hx' => ?_, .inr ⟨rfl, c, rfl, .inl hx⟩⟩
    rw [hb] at hc
    cases hc
    rw [hx] at hx'
    cases hx'
  simp only
  by_cases hin : (x.joinedIds.contains u || x.hostId = u) = true
  · rw [if_pos hin]
    refine .inl ⟨rfl, fun hfree => ?_⟩
    obtain ⟨hout, hhost⟩ := hfree c x hb hx
    simp [hout, hhost] at hin
  · rw [if_neg hin]
    simp only [Bool.or_eq_true, List.contains_eq_mem, decide_eq_true_eq, not_or] at hin
    refine .inr ⟨[u], rfl, fun c' x' hc hx' => ?_, .inr ⟨rfl, c, rfl, .inr ⟨c, x, hb, hx, hin⟩⟩⟩
    rw [hb] at hc
    cases hc
    rw [hx] at hx'
    cases hx'
    exact hin

theorem convoEnd_cases (input : CreateCall) (s : Redis) :
    convoEnd input s = none ∧ Occupied input s ∨
      ¬ Occupied input s ∧ (convoEnd input s = some none ∧ s.callOf input.conversationId = none ∨
        ∃ x, convoEnd input s = some (some x) ∧ s.callOf input.conversationId = some x ∧
          (x.hostId = input.hostId ∨ x.joinedIds.length ≤ 1)) := by
  unfold convoEnd Occupied
  rcases s.callOf input.conversationId with _ | x
  · refine .inr ⟨?_, .inl ⟨rfl, rfl⟩⟩
    rintro ⟨x, hx, _⟩
    cases hx
  simp only
  by_cases hreplace : x.hostId = input.hostId ∨ x.joinedIds.length ≤ 1
  · rw [if_pos hreplace]
    refine .inr ⟨?_, .inr ⟨x, rfl, rfl, hreplace⟩⟩
    rintro ⟨y, hy, hhost, hlen⟩
    cases hy
    rcases hreplace with hhost' | hlen'
    · exact hhost hhost'
    · exact Nat.not_succ_le_self 1 (Nat.le_trans hlen hlen')
  · rw [if_neg hreplace]
    rw [not_or] at hreplace
    exact .inl ⟨rfl, x, rfl, hreplace.1, Nat.lt_of_not_le hreplace.2⟩

/-- The other party is looked up after the keys of a replaced call are gone. -/
theorem otherTaken_iff {us : List UserId} (hus : us ⊆ [input.hostId]) {e : Option VoiceCallSession}
    (he : ∀ x, e = some x ↔ s.callOf input.conversationId = some x ∧
      (x.hostId = input.hostId ∨ x.joinedIds.length ≤ 1)) :
    otherTaken input (Plan.apply { releases := us, ends := e } s) = true ↔ OtherBusy input s := by
  unfold otherTaken OtherBusy
  rw [decide_eq_true_eq]
  refine and_congr_right fun _ => ?_
  rcases hfind : input.members.find? (· ≠ input.hostId) with _ | u
  · simp
  have hne : u ≠ input.hostId := by simpa using List.find?_some hfind
  have hout : u ∉ us := fun hu => hne (List.mem_singleton.mp (hus hu))
  have hbusy : (Plan.apply { releases := us, ends := e } s).busy u =
      if ∃ x, e = some x ∧ u ∈ x.memberIds then none else s.busy u := by
    rw [Plan.apply_none rfl, Plan.busy_before]
    simp only [hout, false_or]
  rw [Option.bind_some, hbusy]
  constructor
  · intro h
    split at h
    · cases h
    next hkept =>
    refine ⟨u, rfl, Option.isSome_iff_ne_none.mp h, fun x hx hreplace hu => hkept ⟨x, ?_, hu⟩⟩
    exact (he x).mpr ⟨hx, hreplace⟩
  · rintro ⟨w, hw, hb, hkept⟩
    cases hw
    rw [if_neg]
    · exact Option.isSome_iff_ne_none.mpr hb
    · rintro ⟨x, hx, hu⟩
      obtain ⟨hx, hreplace⟩ := (he x).mp hx
      exact hkept x hx hreplace hu

/-- How `createCall` ends, and what it does, by the checks alone. -/
theorem createCall_cases (input : CreateCall) (s : Redis) :
    ¬ HostFree s input.hostId ∧ (∃ e, createResult input s = .error e) ∧ createPlan input s = {} ∨
      ∃ us e, HostFree s input.hostId ∧
        (us = [] ∧ s.busy input.hostId = none ∨ us = [input.hostId] ∧
          ∃ c, s.busy input.hostId = some c ∧
            (s.session c = none ∨ RingsElsewhere s input.hostId)) ∧
        (∀ x, e = some x ↔ s.callOf input.conversationId = some x ∧
          (x.hostId = input.hostId ∨ x.joinedIds.length ≤ 1)) ∧
        (Refused input s ∧ (∃ e', createResult input s = .error e') ∧
            createPlan input s = { releases := us, ends := e } ∨
          ¬ Refused input s ∧ (∃ x, createResult input s = .ok x) ∧
            createPlan input s =
              { releases := us, ends := e, mints := true
                stores := some (input.newSession s.nextId s.now) }) := by
  unfold createResult createPlan
  rcases hostRelease_cases (s := s) input.hostId with ⟨hr, hbusy⟩ | ⟨us, hr, hfree, hus⟩
  · rw [hr]
    exact .inl ⟨hbusy, ⟨_, rfl⟩, rfl⟩
  rw [hr]
  simp only
  have hsub : us ⊆ [input.hostId] := by
    rcases hus with ⟨rfl, _⟩ | ⟨rfl, _⟩
    · exact List.nil_subset _
    · exact fun _ h => h
  rcases convoEnd_cases input s with ⟨hconvo, hocc⟩ | ⟨hocc, hconvo⟩
  · -- Another call is in progress.
    rw [hconvo]
    refine .inr ⟨us, none, hfree, hus, fun x => iff_of_false nofun ?_,
      .inl ⟨.inl hocc, ⟨_, rfl⟩, rfl⟩⟩
    rintro ⟨hx, hreplace⟩
    obtain ⟨y, hy, hhost, hlen⟩ := hocc
    rw [hx] at hy
    cases hy
    exact hreplace.elim hhost fun hlen' => Nat.not_succ_le_self 1 (Nat.le_trans hlen hlen')
  obtain ⟨e, hend, he⟩ : ∃ e, convoEnd input s = some e ∧ ∀ x, e = some x ↔
      s.callOf input.conversationId = some x ∧
        (x.hostId = input.hostId ∨ x.joinedIds.length ≤ 1) := by
    rcases hconvo with ⟨hnone, hcall⟩ | ⟨y, hsome, hcall, hreplace⟩
    · refine ⟨none, hnone, fun x => iff_of_false nofun fun h => ?_⟩
      rw [hcall] at h
      cases h.1
    · refine ⟨some y, hsome, fun x => ⟨fun h => ?_, fun h => ?_⟩⟩
      · cases h
        exact ⟨hcall, hreplace⟩
      · rw [← hcall]
        exact h.1
  rw [hend]
  simp only
  refine .inr ⟨us, e, hfree, hus, he, ?_⟩
  by_cases hfew : input.members.length < 2
  · rw [if_pos hfew, if_pos hfew]
    exact .inl ⟨.inr (.inl hfew), ⟨_, rfl⟩, rfl⟩
  rw [if_neg hfew, if_neg hfew]
  by_cases hother : otherTaken input (Plan.apply { releases := us, ends := e } s) = true
  · rw [if_pos hother, if_pos hother]
    exact .inl ⟨.inr (.inr ((otherTaken_iff hsub he).mp hother)), ⟨_, rfl⟩, rfl⟩
  · rw [if_neg hother, if_neg hother]
    refine .inr ⟨?_, ⟨_, rfl⟩, rfl⟩
    rintro (h | h | h)
    · exact hocc h
    · exact hfew h
    · exact hother ((otherTaken_iff hsub he).mpr h)

/-! ## A call in progress stays -/

/-- Creating a call spares every call with two connected users, and fails where the conversation has
one. -/
structure Spares (order : Redis → List CallId) (input : CreateCall) (s : Redis) : Prop where
  kept : ∀ c x, s.session c = some x → 2 ≤ x.joinedIds.length →
    (step order (.createCall input) s).session c = some x
  ended : ∀ c x, s.session c = some x → (step order (.createCall input) s).session c = none →
    x.joinedIds.length ≤ 1
  refused : ∀ c x, s.session c = some x → x.conversationId = input.conversationId →
    2 ≤ x.joinedIds.length →
    ∃ e, (Prog.run (exec order) (createCall input) s).1 = .ok (.error e)

/-- The caller hosts a call of two or more in the conversation, and has no busy key that keeps them from
starting another. -/
def HostAway (input : CreateCall) (s : Redis) : Prop :=
  HostFree s input.hostId ∧ ∃ c x, s.session c = some x ∧
    x.conversationId = input.conversationId ∧ x.hostId = input.hostId ∧ 2 ≤ x.joinedIds.length

theorem callOf_of_session (hs : Coherent s) {c : CallId} {x : VoiceCallSession}
    (hx : s.session c = some x) : s.callOf x.conversationId = some x := by
  refine hs.callOf_eq_some.mpr ⟨?_, rfl⟩
  rw [hs.callId_eq hx]
  exact hx

/-- The calls `createCall` touches are the one it replaces and the new one. -/
theorem owns_createPlan (hs : Coherent s) {c : CallId} {x : VoiceCallSession}
    (hx : s.session c = some x) (h : (createPlan input s).Owns c) :
    HostFree s input.hostId ∧ x.conversationId = input.conversationId ∧
      (x.hostId = input.hostId ∨ x.joinedIds.length ≤ 1) := by
  have hold : (createPlan input s).ends.map VoiceCallSession.callId = some c := by
    rcases h with hends | hstores
    · exact hends
    · obtain ⟨y, hy, rfl⟩ := Option.map_eq_some_iff.mp hstores
      rcases create_cases input s with ⟨_, _, hnone⟩ | ⟨_, hnew⟩
      · rw [hnone] at hy
        cases hy
      · rw [hnew] at hy
        cases hy
        exact absurd rfl (Nat.ne_of_lt (hs.lt_nextId hx))
  obtain ⟨y, hy, rfl⟩ := Option.map_eq_some_iff.mp hold
  obtain ⟨hfree, e, hplan, he⟩ : HostFree s input.hostId ∧ ∃ e, (createPlan input s).ends = e ∧
      ∀ x, e = some x ↔ s.callOf input.conversationId = some x ∧
        (x.hostId = input.hostId ∨ x.joinedIds.length ≤ 1) := by
    rcases createCall_cases input s with ⟨_, _, hplan⟩ | ⟨us, e, hfree, _, he, ⟨_, _, hplan⟩ | ⟨_, _, hplan⟩⟩
    · rw [hplan] at hy
      cases hy
    · exact ⟨hfree, e, by rw [hplan], he⟩
    · exact ⟨hfree, e, by rw [hplan], he⟩
  rw [hplan] at hy
  obtain ⟨hcall, hreplace⟩ := (he y).mp hy
  obtain ⟨hstored, hconv⟩ := hs.callOf_eq_some.mp hcall
  rw [hstored] at hx
  cases hx
  exact ⟨hfree, hconv, hreplace⟩

theorem spares_of_not_hostAway (hs : Coherent s) (h : ¬ HostAway input s) :
    Spares order input s := by
  have hkept : ∀ c x, s.session c = some x → 2 ≤ x.joinedIds.length →
      (step order (.createCall input) s).session c = some x := by
    intro c x hx hlen
    rw [step_eq_apply hs, Plan.session_apply_of_not_owns]
    · exact hx
    · intro howns
      obtain ⟨hfree, hconv, hhost | hfew⟩ := owns_createPlan hs hx howns
      · exact h ⟨hfree, c, x, hx, hconv, hhost, hlen⟩
      · exact Nat.not_succ_le_self 1 (Nat.le_trans hlen hfew)
  refine ⟨hkept, fun c x hx hgone => ?_, fun c x hx hconv hlen => ?_⟩
  · by_contra hmany
    rw [hkept c x hx (Nat.lt_of_not_le hmany)] at hgone
    cases hgone
  · rw [run_createCall hs]
    have hcall := hconv ▸ callOf_of_session hs hx
    rcases createCall_cases input s with
      ⟨_, ⟨e, he⟩, _⟩ | ⟨us, e, hfree, _, _, ⟨_, ⟨e', he'⟩, _⟩ | ⟨hnot, _, _⟩⟩
    · exact ⟨e, congrArg Except.ok he⟩
    · exact ⟨e', congrArg Except.ok he'⟩
    · exact absurd (.inl ⟨x, hcall, fun hhost => h ⟨hfree, c, x, hx, hconv, hhost, hlen⟩, hlen⟩) hnot

theorem not_spares_of_hostAway (hs : Coherent s) (h : HostAway input s) :
    ¬ Spares order input s := by
  obtain ⟨hfree, c, x, hx, hconv, hhost, hlen⟩ := h
  intro hspares
  have hcall := hconv ▸ callOf_of_session hs hx
  have hends : (createPlan input s).ends = some x := by
    rcases createCall_cases input s with
      ⟨hbusy, _, _⟩ | ⟨us, e, _, _, he, ⟨_, _, hplan⟩ | ⟨_, _, hplan⟩⟩
    · exact absurd hfree hbusy
    · rw [hplan]
      exact (he x).mpr ⟨hcall, .inl hhost⟩
    · rw [hplan]
      exact (he x).mpr ⟨hcall, .inl hhost⟩
  have howns : (createPlan input s).Owns c := by
    left
    rw [hends, Option.map_some, hs.callId_eq hx]
  have hkept := hspares.kept c x hx hlen
  rw [step_eq_apply hs] at hkept
  obtain ⟨hstores, rfl⟩ := Plan.session_apply_of_owns (p := createPlan input s) howns hkept
  rcases create_cases input s with ⟨_, _, hnone⟩ | ⟨_, hnew⟩
  · rw [hnone] at hstores
    cases hstores
  · rw [hnew] at hstores
    cases hstores
    exact Nat.lt_irrefl _ (hs.lt_nextId hx)

/-- In a store that a run reaches, creating a call ends no call in which two users are connected, and
fails where the conversation has such a call, exactly when the caller does not host such a call of the
conversation without a busy key that says so. -/
theorem spares_iff (order : Redis → List CallId) (ops : List Op) (input : CreateCall) :
    Spares order input (Runs.final (step order) ops Redis.empty) ↔
      ¬ HostAway input (Runs.final (step order) ops Redis.empty) := by
  have hs := coherent_final order ops
  exact ⟨fun h haway => not_spares_of_hostAway hs haway h, spares_of_not_hostAway hs⟩

/-- A leaves the group call that B and C stay in, and disconnects. -/
def hostDisconnected : List Op :=
  [.createCall ⟨0, .group, userA, [userA, userB, userC], none⟩, .accept 0 userB, .accept 0 userC,
    .leave 0 userA, .clearUserBusy userA (some 0)]

/-- A calls the group again: the call of B and C is ended. -/
theorem spares_fails :
    ¬ ∀ ops input, Spares keyOrder input (Runs.final (step keyOrder) ops Redis.empty) := by
  intro h
  have hspares := h hostDisconnected ⟨0, .group, userA, [userA, userB, userC], none⟩
  have htwo : ((Runs.final (step keyOrder) hostDisconnected Redis.empty).session 0).map
      VoiceCallSession.joinedIds = some [userB, userC] := by decide
  have hgone : (step keyOrder (.createCall ⟨0, .group, userA, [userA, userB, userC], none⟩)
      (Runs.final (step keyOrder) hostDisconnected Redis.empty)).session 0 = none := by decide
  obtain ⟨x, hx, hjoined⟩ := Option.map_eq_some_iff.mp htwo
  have hfew := hspares.ended 0 x hx hgone
  rw [hjoined] at hfew
  exact absurd hfew (by decide)

/-! ## A refused call changes nothing -/

/-- If the call is refused, the sessions stay, and so do the busy keys that name a stored session. -/
def KeepsOnError (order : Redis → List CallId) (input : CreateCall) (s : Redis) : Prop :=
  ∀ e, (Prog.run (exec order) (createCall input) s).1 = .ok (.error e) →
    (∀ c, (step order (.createCall input) s).session c = s.session c) ∧
      ∀ u, (step order (.createCall input) s).busy u = s.busy u ∨
        (step order (.createCall input) s).busy u = none ∧
          ∃ c, s.busy u = some c ∧ s.session c = none

/-- The call is refused only after the busy key of a ringing caller was dropped or a call was ended. -/
def Undone (input : CreateCall) (s : Redis) : Prop :=
  HostFree s input.hostId ∧ Refused input s ∧ (RingsElsewhere s input.hostId ∨ Replaces input s)

theorem keepsOnError_of_not_undone (hs : Coherent s) (h : ¬ Undone input s) :
    KeepsOnError order input s := by
  intro e hrun
  rw [run_createCall hs] at hrun
  have hresult : createResult input s = .error e := Except.ok.inj hrun
  rw [step_eq_apply hs]
  change (∀ c, ((createPlan input s).apply s).session c = s.session c) ∧
    ∀ u, ((createPlan input s).apply s).busy u = s.busy u ∨
      ((createPlan input s).apply s).busy u = none ∧ ∃ c, s.busy u = some c ∧ s.session c = none
  rcases createCall_cases input s with
    ⟨_, _, hplan⟩ | ⟨us, e', hfree, hus, he, ⟨hrefused, _, hplan⟩ | ⟨_, ⟨x, hok⟩, _⟩⟩
  · rw [hplan]
    exact ⟨fun _ => rfl, fun _ => .inl rfl⟩
  · obtain ⟨hring, hreplace⟩ : ¬ RingsElsewhere s input.hostId ∧ ¬ Replaces input s := by
      rw [← not_or]
      exact fun hor => h ⟨hfree, hrefused, hor⟩
    have hnone : e' = none := by
      rcases e' with _ | x
      · rfl
      · exact absurd ⟨x, (he x).mp rfl⟩ hreplace
    rw [hplan, hnone]
    refine ⟨fun c => Redis.session_release s us c, fun u => ?_⟩
    rw [Plan.apply_none rfl, Plan.busy_before]
    by_cases hu : u ∈ us
    · rw [if_pos (.inl hu)]
      rcases hus with ⟨rfl, _⟩ | ⟨rfl, c, hc, hgone | hring'⟩
      · cases hu
      · rw [List.mem_singleton.mp hu]
        exact .inr ⟨rfl, c, hc, hgone⟩
      · exact absurd hring' hring
    · rw [if_neg]
      · exact .inl rfl
      · rintro (hu' | ⟨x, hx, _⟩)
        · exact hu hu'
        · cases hx
  · rw [hresult] at hok
    cases hok

theorem not_keepsOnError_of_undone (hs : Coherent s) (h : Undone input s) :
    ¬ KeepsOnError order input s := by
  obtain ⟨hfree, hrefused, heffect⟩ := h
  intro hkeeps
  rcases createCall_cases input s with
    ⟨hbusy, _, _⟩ | ⟨us, e', _, hus, he, ⟨_, ⟨e, herror⟩, hplan⟩ | ⟨hnot, _, _⟩⟩
  · exact hbusy hfree
  · have hrun : (Prog.run (exec order) (createCall input) s).1 = .ok (.error e) := by
      rw [run_createCall hs, herror]
    obtain ⟨hsessions, hbusy⟩ := hkeeps e hrun
    have happly : step order (.createCall input) s =
        Plan.apply { releases := us, ends := e' } s := by
      rw [step_eq_apply hs, plan, hplan]
    rw [happly] at hsessions hbusy
    rcases heffect with ⟨c, x, hc, hx, hout⟩ | ⟨x, hcall, hreplace⟩
    · -- The key of the ringing host named a stored session.
      have hhost : input.hostId ∈ us := by
        rcases hus with ⟨_, hnone⟩ | ⟨rfl, _⟩
        · rw [hnone] at hc
          cases hc
        · exact List.mem_singleton.mpr rfl
      have hdropped : (Plan.apply { releases := us, ends := e' } s).busy input.hostId = none := by
        rw [Plan.apply_none rfl, Plan.busy_before, if_pos (.inl hhost)]
      rcases hbusy input.hostId with hsame | ⟨_, c', hc', hgone⟩
      · rw [hdropped, hc] at hsame
        cases hsame
      · rw [hc] at hc'
        cases hc'
        rw [hx] at hgone
        cases hgone
    · -- The replaced call was stored.
      have hends : e' = some x := (he x).mpr ⟨hcall, hreplace⟩
      have hgone := hsessions x.callId
      rw [Plan.apply_none rfl, Plan.session_before, hends, Option.map_some, if_pos rfl,
        (hs.callOf_eq_some.mp hcall).1] at hgone
      cases hgone
  · exact hnot hrefused

/-- In a store that a run reaches, a refused call leaves every session and every busy key as it was, up
to a key that names no session, exactly when the refusal does not come after the busy key of a caller
who rings elsewhere was dropped or the call of the conversation was ended. -/
theorem keepsOnError_iff (order : Redis → List CallId) (ops : List Op) (input : CreateCall) :
    KeepsOnError order input (Runs.final (step order) ops Redis.empty) ↔
      ¬ Undone input (Runs.final (step order) ops Redis.empty) := by
  have hs := coherent_final order ops
  exact ⟨fun h hundone => not_keepsOnError_of_undone hs hundone h, keepsOnError_of_not_undone hs⟩

/-- B calls a group in which A rings, and A then calls B. -/
theorem keepsOnError_fails :
    ¬ ∀ ops input, KeepsOnError keyOrder input (Runs.final (step keyOrder) ops Redis.empty) := by
  intro h
  have hkeeps := h [.createCall ⟨0, .group, userB, [userA, userB], none⟩]
    ⟨1, .priv, userA, [userA, userB], none⟩ "User is busy on another call" (by decide)
  rcases hkeeps.2 userA with hsame | ⟨_, c, hc, hgone⟩
  · revert hsame
    decide
  · obtain rfl : c = 0 := by
      have hbusy : (Runs.final (step keyOrder) [.createCall ⟨0, .group, userB, [userA, userB], none⟩]
          Redis.empty).busy userA = some 0 := by decide
      rw [hbusy] at hc
      exact (Option.some.inj hc).symm
    revert hgone
    decide

end Relay.Gateway.CallSession
