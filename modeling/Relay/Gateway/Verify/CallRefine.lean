import Relay.Gateway.Verify.CallPlan

/-!
# The service does what the plan says

`step_eq_apply`: in a coherent store, running an operation is applying its plan.
`coherent_apply`: plans of coherent stores are valid, and a valid plan keeps the store coherent.
-/

namespace Relay.Gateway.CallSession

open Relay.Lib

variable {order : Redis → List CallId} {s : Redis}

/-! ## Coherence of the intermediate stores -/

/-- Coherence reads the sessions, the index and the id counter only. -/
theorem Coherent.of_eq {t : Redis} (h : Coherent s) (hsession : ∀ c, t.session c = s.session c)
    (hconvo : ∀ v, t.convo v = s.convo v) (hnext : s.nextId ≤ t.nextId) : Coherent t where
  callId_eq hx := h.callId_eq ((hsession _).symm.trans hx)
  lt_nextId hx := Nat.lt_of_lt_of_le (h.lt_nextId ((hsession _).symm.trans hx)) hnext
  live hx := h.live ((hsession _).symm.trans hx)
  index := by
    intro v c
    rw [hconvo, hsession]
    exact h.index

theorem Coherent.release (h : Coherent s) (us : List UserId) : Coherent (s.release us) :=
  h.of_eq (fun _ => by simp) (fun _ => by simp) (by simp)

/-- Two live calls of one conversation are the same call. -/
theorem Coherent.convo_inj (h : Coherent s) {c c' : CallId} {x y : VoiceCallSession}
    (hx : s.session c = some x) (hy : s.session c' = some y)
    (hv : x.conversationId = y.conversationId) : c = c' := by
  have hc := h.index.mpr ⟨x, hx, hv⟩
  rw [h.index.mpr ⟨y, hy, rfl⟩] at hc
  exact (Option.some.inj hc).symm

theorem Coherent.finish (h : Coherent s) {x : VoiceCallSession}
    (hx : s.session x.callId = some x) : Coherent (s.finish x) := by
  have hmem : ∀ {c y}, (s.finish x).session c = some y → c ≠ x.callId ∧ s.session c = some y := by
    intro c y hy
    rw [Redis.session_finish] at hy
    split at hy
    · cases hy
    · exact ⟨‹_›, hy⟩
  refine ⟨fun hy => h.callId_eq (hmem hy).2, fun hy => ?_, fun hy => h.live (hmem hy).2, ?_⟩
  · rw [Redis.nextId_finish]
    exact h.lt_nextId (hmem hy).2
  · intro v c
    rw [Redis.convo_finish, Redis.session_finish]
    by_cases hv : v = x.conversationId
    · subst hv
      simp only [if_true]
      constructor
      · intro hc
        cases hc
      · rintro ⟨y, hy, hyv⟩
        split at hy
        · cases hy
        · exact absurd (h.convo_inj hy hx hyv) ‹_›
    · rw [if_neg hv, h.index]
      by_cases hc : c = x.callId
      · subst hc
        simp only [if_true, hx]
        constructor
        · rintro ⟨y, hy, hyv⟩
          cases hy
          exact absurd hyv.symm hv
        · rintro ⟨y, hy, _⟩
          cases hy
      · rw [if_neg hc]

/-- What a session must satisfy to be stored in a coherent store. -/
structure Storable (s : Redis) (x : VoiceCallSession) : Prop where
  lt_nextId : x.callId < s.nextId
  live : Live x
  /-- A stored session keeps its conversation. -/
  same_convo : ∀ y, s.session x.callId = some y → y.conversationId = x.conversationId
  /-- No other call of the conversation is live. -/
  only : ∀ c y, s.session c = some y → y.conversationId = x.conversationId → c = x.callId

theorem Coherent.store (h : Coherent s) {x : VoiceCallSession} (hx : Storable s x) :
    Coherent (s.store x) := by
  constructor
  case callId_eq =>
    intro c y hy
    rcases Redis.session_store_cases hy with ⟨rfl, rfl⟩ | ⟨_, hy⟩
    · rfl
    · exact h.callId_eq hy
  case lt_nextId =>
    intro c y hy
    rw [Redis.nextId_store]
    rcases Redis.session_store_cases hy with ⟨rfl, rfl⟩ | ⟨_, hy⟩
    · exact hx.lt_nextId
    · exact h.lt_nextId hy
  case live =>
    intro c y hy
    rcases Redis.session_store_cases hy with ⟨rfl, rfl⟩ | ⟨_, hy⟩
    · exact hx.live
    · exact h.live hy
  case index =>
    intro v c
    rw [Redis.convo_store, Redis.session_store]
    by_cases hv : v = x.conversationId
    · subst hv
      rw [if_pos rfl]
      constructor
      · intro hc
        cases hc
        exact ⟨x, if_pos rfl, rfl⟩
      · rintro ⟨y, hy, hyv⟩
        split at hy
        · rw [‹c = x.callId›]
        · rw [hx.only c y hy hyv]
    · rw [if_neg hv, h.index]
      by_cases hc : c = x.callId
      · subst hc
        rw [if_pos rfl]
        constructor
        · rintro ⟨y, hy, hyv⟩
          exact absurd (hyv.symm.trans (hx.same_convo y hy)) hv
        · rintro ⟨y, hy, hyv⟩
          cases hy
          exact absurd hyv.symm hv
      · rw [if_neg hc]

/-! ## The loops -/

theorem run_inviteLoop (c : CallId) (x : VoiceCallSession) (ids us : List UserId) :
    Prog.run (exec order) (inviteLoop c x ids us) s = (.ok (inviteAll c s x ids us), s) := by
  induction us generalizing x ids with
  | nil => rfl
  | cons u us ih =>
    unfold inviteLoop inviteAll
    split
    · exact ih _ _
    · rw [Prog.run_bind_ok _ (run_getActiveCallIdForUser u)]
      split
      · exact ih _ _
      · split
        · exact ih _ _
        · exact ih _ _

theorem markReleases_leftIds (c : CallId) (x : VoiceCallSession) (ids us : List UserId) :
    markReleases c { x with leftIds := ids } s us = markReleases c x s us := by
  induction us generalizing s with
  | nil => rfl
  | cons u us ih =>
    unfold markReleases
    rw [ih, ih]

theorem run_markLoop (c : CallId) (x : VoiceCallSession) (changed : Bool) (us : List UserId) :
    Prog.run (exec order) (markLoop c x changed us) s =
      (.ok (markAll x changed us), s.release (markReleases c x s us)) := by
  induction us generalizing s x changed with
  | nil => rfl
  | cons u us ih =>
    unfold markLoop markAll markReleases
    split
    · exact ih _ _
    · rw [Prog.run_bind_ok _ (run_clearUserBusy_self u c)]
      by_cases hb : s.busy u = some c
      · simp only [hb, if_true, Redis.release_cons]
        split
        · exact ih _ _
        · rw [ih, markReleases_leftIds]
      · simp only [hb, if_false]
        split
        · exact ih _ _
        · rw [ih, markReleases_leftIds]

/-! ## One operation at a time -/

theorem run_hostBusy (h : Coherent s) (hostId : UserId) :
    Prog.run (exec order) (hostBusy hostId) s =
      match hostRelease hostId s with
      | none => (.ok true, s)
      | some us => (.ok false, s.release us) := by
  unfold hostBusy hostRelease
  rw [Prog.run_bind_ok _ (run_getActiveCallIdForUser hostId)]
  rcases hb : s.busy hostId with _ | c
  · rfl
  · simp only
    rw [Prog.run_bind_ok _ (run_get h c)]
    rcases hx : s.session c with _ | x
    · simp only
      rw [Prog.run_bind_ok _ (run_clearUserBusy_self hostId c), if_pos hb]
      rfl
    · simp only [(h.live hx).not_ended, if_false]
      split
      · rfl
      · rw [Prog.run_bind_ok _ (run_clearUserBusy_self hostId c), if_pos hb]
        rfl

theorem run_convoBusy (h : Coherent s) (input : CreateCall) :
    Prog.run (exec order) (convoBusy input) s =
      match convoEnd input s with
      | none => (.ok true, s)
      | some none => (.ok false, s)
      | some (some x) => (.ok false, s.finish x) := by
  unfold convoBusy convoEnd
  rw [Prog.run_bind_ok _ (run_getByConversation h _)]
  rcases hx : s.callOf input.conversationId with _ | x
  · rfl
  · simp only
    split
    · have hend := @run_end order _ h x.callId
      rw [(h.callOf_eq_some.mp hx).1] at hend
      rw [Prog.run_bind_ok _ hend]
      rfl
    · rfl

theorem run_otherBusy (input : CreateCall) :
    Prog.run (exec order) (otherBusy input) s = (.ok (otherTaken input s), s) := by
  unfold otherBusy otherTaken
  by_cases hk : input.kind = .priv
  · rw [if_pos hk]
    rcases hf : input.members.find? (· ≠ input.hostId) with _ | u
    · simp [hk]
    · simp only
      rw [Prog.run_bind_ok _ (run_getActiveCallIdForUser u)]
      simp [hk]
  · rw [if_neg hk]
    simp [hk]

theorem convoEnd_release (input : CreateCall) (us : List UserId) :
    convoEnd input (s.release us) = convoEnd input s := by
  unfold convoEnd Redis.callOf
  rw [Redis.convo_release]
  rw [show (s.release us).session = s.session from funext fun c => Redis.session_release s us c]

theorem convoEnd_stored (h : Coherent s) {input : CreateCall} {e : Option VoiceCallSession}
    (he : convoEnd input s = some e) : ∀ x, e = some x → s.session x.callId = some x := by
  rintro x rfl
  unfold convoEnd at he
  split at he
  · cases he
  · rename_i y hy
    split at he
    · cases he
      exact (h.callOf_eq_some.mp hy).1
    · cases he

theorem run_createCall (h : Coherent s) (input : CreateCall) :
    Prog.run (exec order) (createCall input) s =
      (.ok (createResult input s), (createPlan input s).apply s) := by
  unfold createCall createPlan createResult
  have hhost := @run_hostBusy order _ h input.hostId
  rcases hr : hostRelease input.hostId s with _ | us
  · rw [hr] at hhost
    rw [Prog.run_bind_ok _ hhost]
    rfl
  rw [hr] at hhost
  rw [Prog.run_bind_ok _ hhost]
  have hconvo := @run_convoBusy order _ (h.release us) input
  rw [convoEnd_release] at hconvo
  simp only [Bool.false_eq_true, if_false]
  rcases he : convoEnd input s with _ | e
  · rw [he] at hconvo
    rw [Prog.run_bind_ok _ hconvo]
    rfl
  -- The store after the replaced call, if any, has been ended.
  have hended : Prog.run (exec order) (convoBusy input) (s.release us) =
      (.ok false, Plan.apply { releases := us, ends := e } s) := by
    rw [hconvo, he]
    rcases e with _ | x <;> rfl
  rw [Prog.run_bind_ok _ hended]
  have hnow : (Plan.apply { releases := us, ends := e } s).now = s.now := by
    rcases e with _ | x
    · exact Redis.now_release s us
    · exact (Redis.now_finish _ x).trans (Redis.now_release s us)
  have hnext : (Plan.apply { releases := us, ends := e } s).nextId = s.nextId := by
    rcases e with _ | x
    · exact Redis.nextId_release s us
    · exact (Redis.nextId_finish _ x).trans (Redis.nextId_release s us)
  simp only [Bool.false_eq_true, if_false]
  by_cases hlen : input.members.length < 2
  · simp only [hlen, if_true]
    rfl
  simp only [hlen, if_false]
  rw [Prog.run_bind_ok _ (run_otherBusy input)]
  by_cases hother : otherTaken input (Plan.apply { releases := us, ends := e } s) = true
  · simp only [hother, if_true]
    rfl
  simp only [hother, Bool.false_eq_true, if_false]
  rw [Prog.run_bind_ok _ run_randomUUID, Prog.run_bind_ok _ run_newDate,
    Prog.run_bind_ok _ (run_persist _), Prog.run_bind_ok _ (run_command _)]
  rw [Redis.now_advance, hnow, hnext]
  refine congrArg (Prod.mk _) ?_
  rcases e with _ | x
  · exact Redis.store_setConvo ((s.release us).advance true 0) (input.newSession s.nextId s.now)
  · exact Redis.store_setConvo (((s.release us).finish x).advance true 0)
      (input.newSession s.nextId s.now)

theorem run_accept (h : Coherent s) (c : CallId) (u : UserId) :
    Prog.run (exec order) (accept c u) s =
      (.ok (acceptResult c u s), (acceptPlan c u s).apply s) := by
  unfold accept acceptPlan acceptResult
  rw [Prog.run_bind_ok _ (run_get h c)]
  rcases hx : s.session c with _ | x
  · rfl
  simp only [(h.live hx).not_ended, if_false]
  by_cases hm : isMember x u = true
  swap
  · simp only [hm, Bool.not_false, Bool.true_or, if_true]
    rfl
  by_cases hj : x.joinedIds.contains u = true
  · simp only [hm, hj, Bool.not_true, Bool.false_eq_true, if_false, if_true, Bool.false_or]
    rfl
  simp only [hm, hj, Bool.not_true, Bool.false_eq_true, if_false, Bool.false_or]
  by_cases hhost : x.kind = .priv ∧ u = x.hostId
  · rw [if_pos hhost, if_pos hhost, if_pos hhost]
    rfl
  rw [if_neg hhost, if_neg hhost, if_neg hhost, Prog.run_bind_ok _ (run_getActiveCallIdForUser u)]
  by_cases hb : s.busy u ≠ none ∧ s.busy u ≠ some c
  · rw [if_pos hb, if_pos hb, if_pos hb]
    rfl
  rw [if_neg hb, if_neg hb, if_neg hb, Prog.run_bind_ok _ run_newDate,
    Prog.run_bind_ok _ (run_persist _), Prog.run_bind_ok _ (run_command _)]
  exact congrArg (Prod.mk _) (Redis.store_setConvo _ _)

theorem run_decline (h : Coherent s) (c : CallId) (u : UserId) :
    Prog.run (exec order) (decline c u) s =
      (.ok (declineResult c u s), (declinePlan c u s).apply s) := by
  unfold decline declinePlan declineResult
  rw [Prog.run_bind_ok _ (run_get h c)]
  rcases hx : s.session c with _ | x
  · rfl
  simp only [(h.live hx).not_ended, if_false]
  by_cases hg : (!isMember x u || x.joinedIds.contains u) = true
  · simp only [hg, if_true]
    rfl
  simp only [hg, Bool.false_eq_true, if_false]
  by_cases hk : x.kind = .priv
  · have hend := @run_end order _ h c
    rw [hx] at hend
    rw [if_pos hk, if_pos hk, if_pos hk, Prog.run_bind_ok _ hend, ← h.callId_eq hx]
    rfl
  · rw [if_neg hk, if_neg hk, if_neg hk, Prog.run_bind_ok _ (run_persist _)]
    rfl

/-- Ending the stored call after the busy key of a user was dropped. -/
theorem run_end_release (h : Coherent s) {c : CallId} {x : VoiceCallSession}
    (hx : s.session c = some x) (us : List UserId) :
    Prog.run (exec order) («end» c) (s.release us) =
      (.ok (some { x with status := .ended }), (s.release us).finish x) := by
  have hend := @run_end order _ (h.release us) c
  rw [Redis.session_release, hx] at hend
  rw [hend, ← h.callId_eq hx]
  rfl

theorem run_leave (h : Coherent s) (c : CallId) (u : UserId) :
    Prog.run (exec order) (leave c u) s =
      (.ok (leaveResult c u s), (leavePlan c u s).apply s) := by
  unfold leave leavePlan leaveResult
  rw [Prog.run_bind_ok _ (run_get h c)]
  rcases hx : s.session c with _ | x
  · rfl
  simp only
  by_cases hm : isMember x u = true
  swap
  · simp only [hm, Bool.not_false, if_true]
    rfl
  simp only [hm, Bool.not_true, Bool.false_eq_true, if_false]
  rw [Prog.run_bind_ok _ (run_command _)]
  change Prog.run (exec order) _ (s.release [u]) = _
  by_cases hj : (left x u).joinedIds = []
  · simp only [hj, List.length_nil, if_true, true_or]
    rw [Prog.run_bind_ok _ (run_end_release h hx [u])]
    rfl
  have hlen : (left x u).joinedIds.length ≠ 0 := fun h0 => hj (List.length_eq_zero_iff.mp h0)
  have hkind : (left x u).kind = x.kind := rfl
  simp only [hj, hlen, if_false, false_or, hkind]
  by_cases hk : x.kind = .priv
  · rw [if_pos hk, if_pos hk, if_pos hk, Prog.run_bind_ok _ (run_end_release h hx [u])]
    rfl
  · rw [if_neg hk, if_neg hk, if_neg hk, Prog.run_bind_ok _ (run_persist _),
      Prog.run_bind_ok _ (run_command _)]
    exact congrArg (Prod.mk _) (Redis.store_setConvo _ _)

theorem revoked_joined_sub {x : VoiceCallSession} (h : x.joinedIds ⊆ x.memberIds) (u : UserId) :
    (revoked x u).joinedIds ⊆ (revoked x u).memberIds := by
  intro v hv
  simp only [revoked, List.mem_filter] at hv ⊢
  exact ⟨h hv.1, hv.2⟩

theorem run_revoke (h : Coherent s) (v : ConversationId) (u : UserId) :
    Prog.run (exec order) (revokeUserFromConversation v u) s =
      (.ok (revokeResult v u s), (revokePlan v u s).apply s) := by
  unfold revokeUserFromConversation revokePlan revokeResult
  rw [Prog.run_bind_ok _ (run_getByConversation h v)]
  rcases hv : s.callOf v with _ | x
  · rfl
  have hx := (h.callOf_eq_some.mp hv).1
  simp only [(h.live hx).not_ended, if_false]
  by_cases hm : isMember x u = true
  swap
  · have hj : isJoined x u = false := by
      rw [← Bool.not_eq_true]
      intro hj
      refine hm ?_
      simp only [isMember, isJoined, List.contains_iff_mem] at hj ⊢
      exact (h.live hx).joined_sub hj
    simp only [hm, hj, Bool.not_false, Bool.and_true, if_true]
    rfl
  simp only [hm, Bool.not_true, Bool.false_and, Bool.false_eq_true, if_false]
  rw [Prog.run_bind_ok _ (run_command _)]
  change Prog.run (exec order) _ (s.release [u]) = _
  have hsub := revoked_joined_sub (h.live hx).joined_sub u
  have hiff : ((revoked x u).joinedIds.length = 0 ∨ (revoked x u).memberIds.length = 0 ∨
      (revoked x u).kind = .priv) ↔ ((revoked x u).joinedIds = [] ∨ x.kind = .priv) := by
    simp only [List.length_eq_zero_iff]
    constructor
    · rintro (hj | hm | hk)
      · exact .inl hj
      · rw [hm] at hsub
        exact .inl (List.subset_nil.mp hsub)
      · exact .inr hk
    · rintro (hj | hk)
      · exact .inl hj
      · exact .inr (.inr hk)
  by_cases hend : (revoked x u).joinedIds = [] ∨ x.kind = .priv
  · have hid : (revoked x u).callId = x.callId := rfl
    rw [if_pos (hiff.mpr hend), if_pos hend, if_pos hend, hid,
      Prog.run_bind_ok _ (run_end_release h hx [u])]
    rfl
  · rw [if_neg (fun h' => hend (hiff.mp h')), if_neg hend, if_neg hend,
      Prog.run_bind_ok _ (run_persist _), Prog.run_bind_ok _ (run_command _)]
    exact congrArg (Prod.mk _) (Redis.store_setConvo _ _)

theorem run_inviteMore (h : Coherent s) (c : CallId) (actor : UserId)
    (userIds allowed : List UserId) :
    Prog.run (exec order) (inviteMore c actor userIds allowed) s =
      (.ok (inviteResult c actor userIds allowed s),
        (invitePlan c actor userIds allowed s).apply s) := by
  unfold inviteMore invitePlan inviteResult
  rw [Prog.run_bind_ok _ (run_get h c)]
  rcases hx : s.session c with _ | x
  · rfl
  simp only [(h.live hx).not_ended, if_false]
  by_cases hk : x.kind = .group
  swap
  · simp only [ne_eq, hk, not_false_eq_true, if_true]
    rfl
  simp only [ne_eq, hk, not_true_eq_false, if_false]
  by_cases hj : isJoined x actor = true
  swap
  · simp only [hj, Bool.not_false, if_true]
    rfl
  simp only [hj, Bool.not_true, Bool.false_eq_true, if_false]
  by_cases hlen : (userIds.eraseDups.filter fun u => u ∈ allowed ∧ u ≠ actor).length = 0
  · rw [if_pos hlen, if_pos hlen, List.length_eq_zero_iff.mp hlen]
    rfl
  rw [if_neg hlen, if_neg hlen, Prog.run_bind_ok _ (run_inviteLoop c x [] _)]
  simp only [List.length_eq_zero_iff]
  split
  · rfl
  · rw [Prog.run_bind_ok _ (run_persist _)]
    rfl

theorem run_markUnansweredAsLeft (h : Coherent s) (c : CallId) (userIds : List UserId) :
    Prog.run (exec order) (markUnansweredAsLeft c userIds) s =
      (.ok (markResult c userIds s), (markPlan c userIds s).apply s) := by
  unfold markUnansweredAsLeft markPlan markResult
  rw [Prog.run_bind_ok _ (run_get h c)]
  rcases hx : s.session c with _ | x
  · rfl
  simp only [(h.live hx).not_ended, if_false]
  rw [Prog.run_bind_ok _ (run_markLoop c x false userIds)]
  by_cases hc : (markAll x false userIds).2 = true
  · simp only [hc, Bool.not_true, Bool.false_eq_true, if_false, if_true]
    rw [Prog.run_bind_ok _ (run_persist _)]
    rfl
  · simp only [hc, Bool.not_false, if_true]
    rfl

theorem run_control (h : Coherent s) (c : CallId)
    (f : VoiceCallSession → Except String VoiceCallSession) :
    Prog.run (exec order) (control c f) s =
      (.ok (controlResult c f s), (controlPlan c f s).apply s) := by
  unfold control controlPlan controlResult
  rw [Prog.run_bind_ok _ (run_get h c)]
  rcases hx : s.session c with _ | x
  · rfl
  simp only [(h.live hx).not_ended, if_false]
  rcases f x with e | x'
  · rfl
  · simp only
    rw [Prog.run_bind_ok _ (run_persist _)]
    rfl

theorem run_clearUserBusy (u : UserId) (c : Option CallId) :
    Prog.run (exec order) (clearUserBusy u c) s = (.ok (), (clearPlan u c s).apply s) := by
  rcases c with _ | c
  · rw [run_clearUserBusy_none]
    unfold clearPlan
    by_cases hb : s.busy u = none
    · simp only [hb, if_true]
      rfl
    · simp only [hb, if_false]
      rfl
  · rw [run_clearUserBusy_self]
    unfold clearPlan
    by_cases hb : s.busy u = some c
    · simp only [hb, if_true]
      rfl
    · simp only [hb, if_false]
      rfl

/-- In a coherent store an operation does exactly what its plan says. -/
theorem step_eq_apply (h : Coherent s) (op : Op) : step order op s = (plan op s).apply s := by
  cases op with
  | createCall input => exact congrArg Prod.snd (run_createCall h input)
  | accept c u => exact congrArg Prod.snd (run_accept h c u)
  | decline c u => exact congrArg Prod.snd (run_decline h c u)
  | leave c u => exact congrArg Prod.snd (run_leave h c u)
  | revokeUserFromConversation v u => exact congrArg Prod.snd (run_revoke h v u)
  | inviteMore c actor userIds allowed => exact congrArg Prod.snd (run_inviteMore h c actor userIds allowed)
  | markUnansweredAsLeft c userIds => exact congrArg Prod.snd (run_markUnansweredAsLeft h c userIds)
  | setHold c actor onHold => exact congrArg Prod.snd (run_control h c _)
  | setForceMute c actor muted => exact congrArg Prod.snd (run_control h c _)
  | setScreenShare c actor active => exact congrArg Prod.snd (run_control h c _)
  | clearUserBusy u c => exact congrArg Prod.snd (run_clearUserBusy u c)
  | «end» c =>
    simp only [step, plan]
    rw [run_end h]
    rcases hx : s.session c with _ | x
    · rfl
    · rw [← h.callId_eq hx]
      rfl
  | get c =>
    simp only [step, plan]
    rw [run_get h]
    rfl
  | getByConversation v =>
    simp only [step, plan]
    rw [run_getByConversation h]
    rfl
  | getActiveCallIdForUser u => rfl
  | elapse d => rfl

/-! ## Plans are valid -/

/-- A plan ends stored calls only, stores a session the store can take, and drops the busy keys of
the members the session loses. -/
structure Plan.Valid (p : Plan) (s : Redis) : Prop where
  ends : ∀ x, p.ends = some x → s.session x.callId = some x
  storable : ∀ x, p.stores = some x → Storable (p.before s) x
  keeps : ∀ x y, p.stores = some x → s.session x.callId = some y →
    ∀ u ∈ y.memberIds, u ∈ x.memberIds ∨ u ∈ p.releases

theorem Coherent.before (h : Coherent s) {p : Plan}
    (hp : ∀ x, p.ends = some x → s.session x.callId = some x) : Coherent (p.before s) := by
  have hadvance : ∀ {t : Redis}, Coherent t → Coherent (t.advance p.mints p.elapses) := by
    intro t ht
    refine ht.of_eq (fun _ => rfl) (fun _ => rfl) ?_
    rw [Redis.nextId_advance]
    split
    · exact Nat.le_succ _
    · exact Nat.le_refl _
  unfold Plan.before
  rcases he : p.ends with _ | x
  · exact hadvance (h.release _)
  · refine hadvance ((h.release _).finish ?_)
    rw [Redis.session_release]
    exact hp x he

theorem Plan.nextId_apply (p : Plan) (s : Redis) :
    (p.apply s).nextId = if p.mints then s.nextId + 1 else s.nextId := by
  have hbefore : (p.before s).nextId = if p.mints then s.nextId + 1 else s.nextId := by
    unfold Plan.before
    rcases p.ends with _ | x
    · simp [Redis.nextId_advance]
    · simp [Redis.nextId_advance]
  rcases hx : p.stores with _ | x
  · rw [Plan.apply_none hx, hbefore]
  · rw [Plan.apply_some hx, Redis.nextId_store, hbefore]

theorem Plan.nextId_le_apply (p : Plan) (s : Redis) : s.nextId ≤ (p.apply s).nextId := by
  rw [Plan.nextId_apply]
  split
  · exact Nat.le_succ _
  · exact Nat.le_refl _

/-- A valid plan keeps the store coherent. -/
theorem Coherent.apply (h : Coherent s) {p : Plan} (hp : p.Valid s) : Coherent (p.apply s) := by
  rcases hx : p.stores with _ | x
  · rw [Plan.apply_none hx]
    exact h.before hp.ends
  · rw [Plan.apply_some hx]
    exact (h.before hp.ends).store (hp.storable x hx)

/-- `x` is an edited copy of `y`. -/
structure Edits (y x : VoiceCallSession) : Prop where
  callId : x.callId = y.callId
  conversationId : x.conversationId = y.conversationId
  live : Live x

theorem Storable.of_edits (h : Coherent s) {c : CallId} {x y : VoiceCallSession}
    (hy : s.session c = some y) (hxy : Edits y x) (us : List UserId) :
    Storable (Plan.before { releases := us, stores := some x } s) x := by
  have hid : x.callId = c := hxy.callId.trans (h.callId_eq hy)
  refine ⟨?_, hxy.live, fun z hz => ?_, fun c' z hz hv => ?_⟩
  · exact Nat.lt_of_lt_of_eq (hid ▸ h.lt_nextId hy) (Redis.nextId_release s us).symm
  · rw [Plan.session_before, hid] at hz
    simp only [Option.map_none, reduceCtorEq, if_false, hy, Option.some.injEq] at hz
    rw [← hz, hxy.conversationId]
  · rw [Plan.session_before] at hz
    simp only [Option.map_none, reduceCtorEq, if_false] at hz
    rw [hid]
    exact h.convo_inj hz hy (hv.trans hxy.conversationId)

/-- Storing an edited copy, after dropping some busy keys. -/
theorem Plan.Valid.of_edits (h : Coherent s) {c : CallId} {x y : VoiceCallSession}
    (hy : s.session c = some y) (hxy : Edits y x) {us : List UserId}
    (hmem : ∀ u ∈ y.memberIds, u ∈ x.memberIds ∨ u ∈ us) :
    Plan.Valid { releases := us, stores := some x } s where
  ends := nofun
  storable := by
    rintro _ ⟨⟩
    exact Storable.of_edits h hy hxy us
  keeps := by
    rintro _ z ⟨⟩ hz
    rw [hxy.callId, h.callId_eq hy, hy] at hz
    cases hz
    exact hmem

theorem Plan.Valid.of_ends {p : Plan} (hstores : p.stores = none)
    (hends : ∀ x, p.ends = some x → s.session x.callId = some x) : p.Valid s where
  ends := hends
  storable := by
    intro x hx
    rw [hstores] at hx
    cases hx
  keeps := by
    intro x _ hx
    rw [hstores] at hx
    cases hx

/-! ### The edits -/

variable {x : VoiceCallSession}

theorem edits_joined (hx : Live x) {u : UserId} (hu : u ∈ x.memberIds) (now : Time) :
    Edits x (joined x u now) where
  callId := rfl
  conversationId := rfl
  live := by
    have hmem : ∀ w, w ∈ (joined x u now).joinedIds ↔ w ∈ x.joinedIds ∨ w = u := by
      intro w
      simp [joined, List.mem_eraseDups]
    refine ⟨nofun, List.ne_nil_of_mem ((hmem u).mpr (.inr rfl)), fun w hw => ?_, hx.host_mem⟩
    rcases (hmem w).mp hw with hw | rfl
    · exact hx.joined_sub hw
    · exact hu

theorem edits_declined (hx : Live x) (u : UserId) : Edits x (declined x u) :=
  ⟨rfl, rfl, hx.not_ended, hx.joined_ne_nil, hx.joined_sub, hx.host_mem⟩

theorem edits_left (hx : Live x) {u : UserId} (hu : (left x u).joinedIds ≠ []) :
    Edits x (left x u) :=
  ⟨rfl, rfl, hx.not_ended, hu, fun _ hw => hx.joined_sub (List.mem_filter.mp hw).1, hx.host_mem⟩

theorem edits_revoked (hx : Live x) {u : UserId} (hu : (revoked x u).joinedIds ≠ []) :
    Edits x (replaceHost (revoked x u) u) := by
  have hsub := revoked_joined_sub hx.joined_sub u
  unfold replaceHost
  split
  · refine ⟨rfl, rfl, hx.not_ended, hu, hsub, ?_⟩
    obtain ⟨w, ws, hw⟩ := List.exists_cons_of_ne_nil hu
    simp only [hw, List.head?_cons, Option.some_or, Option.getD_some]
    exact hsub (by rw [hw]; exact List.mem_cons_self)
  · refine ⟨rfl, rfl, hx.not_ended, hu, hsub, ?_⟩
    exact List.mem_filter.mpr ⟨hx.host_mem, by simpa [revoked] using ‹¬ _›⟩

theorem edits_invited {y : VoiceCallSession} (hx : Edits y x) (u : UserId) :
    Edits y (invited x u) ∧ x.memberIds ⊆ (invited x u).memberIds := by
  have hsub : x.memberIds ⊆ (invited x u).memberIds := by
    unfold invited
    simp only
    split
    · exact fun _ hw => hw
    · exact List.subset_append_left _ _
  exact ⟨⟨hx.callId, hx.conversationId, hx.live.not_ended, hx.live.joined_ne_nil,
    fun _ hw => hsub (hx.live.joined_sub hw), hsub hx.live.host_mem⟩, hsub⟩

theorem edits_inviteAll {y : VoiceCallSession} (c : CallId) (ids us : List UserId)
    (hx : Edits y x) : Edits y (inviteAll c s x ids us).1 ∧
      x.memberIds ⊆ (inviteAll c s x ids us).1.memberIds := by
  induction us generalizing x ids with
  | nil => exact ⟨hx, fun _ h => h⟩
  | cons u us ih =>
    unfold inviteAll
    split
    · exact ih ids hx
    · split
      · exact ih ids hx
      · split
        · exact ih ids hx
        · obtain ⟨hedit, hsub⟩ := edits_invited hx u
          obtain ⟨hrest, hsub'⟩ := ih (ids ++ [u]) hedit
          exact ⟨hrest, fun w hw => hsub' (hsub hw)⟩

/-- The soft timeout changes who has left, nothing else. -/
theorem markAll_eq (changed : Bool) (us : List UserId) :
    ∃ ids, x.leftIds ⊆ ids ∧ (markAll x changed us).1 = { x with leftIds := ids } := by
  induction us generalizing x changed with
  | nil => exact ⟨x.leftIds, fun _ h => h, rfl⟩
  | cons u us ih =>
    unfold markAll
    split
    · exact ih changed
    · split
      · exact ih changed
      · obtain ⟨ids, hsub, heq⟩ := ih (x := { x with leftIds := x.leftIds ++ [u] }) true
        exact ⟨ids, fun w hw => hsub (List.mem_append_left _ hw), heq⟩

/-- The soft timeout reports a change whenever it makes one. -/
theorem markAll_of_unchanged (us : List UserId) (h : (markAll x false us).2 = false) :
    (markAll x false us).1 = x := by
  have htrue : ∀ us y, (markAll y true us).2 = true := by
    intro us
    induction us with
    | nil => exact fun _ => rfl
    | cons u us ih =>
      intro y
      unfold markAll
      split
      · exact ih y
      · split
        · exact ih y
        · exact ih _
  induction us with
  | nil => rfl
  | cons u us ih =>
    unfold markAll at h ⊢
    split
    · next hout =>
      rw [if_pos hout] at h
      exact ih h
    · next hout =>
      rw [if_neg hout] at h
      split
      · next hleft =>
        rw [if_pos hleft] at h
        exact ih h
      · next hleft =>
        rw [if_neg hleft, htrue] at h
        cases h

theorem edits_markAll (hx : Live x) (changed : Bool) (us : List UserId) :
    Edits x (markAll x changed us).1 ∧ (markAll x changed us).1.memberIds = x.memberIds := by
  obtain ⟨ids, _, heq⟩ := markAll_eq (x := x) changed us
  rw [heq]
  exact ⟨⟨rfl, rfl, hx.not_ended, hx.joined_ne_nil, hx.joined_sub, hx.host_mem⟩, rfl⟩

/-- A control touches the hold, the mute and the screen share of a session only. -/
def Controls (f : VoiceCallSession → Except String VoiceCallSession) : Prop :=
  ∀ x x', f x = .ok x' → ∃ onHold heldBy forceMuted screenSharerId,
    x' = { x with
      onHold := onHold, heldBy := heldBy, forceMuted := forceMuted
      screenSharerId := screenSharerId }

theorem Controls.edits {f : VoiceCallSession → Except String VoiceCallSession} (hf : Controls f)
    {x' : VoiceCallSession} (h : f x = .ok x') (hx : Live x) :
    Edits x x' ∧ x'.memberIds = x.memberIds := by
  obtain ⟨_, _, _, _, rfl⟩ := hf x x' h
  exact ⟨⟨rfl, rfl, hx.not_ended, hx.joined_ne_nil, hx.joined_sub, hx.host_mem⟩, rfl⟩

theorem controls_held (actor : UserId) (onHold : Bool) :
    Controls fun x => held x actor onHold := by
  intro x x' h
  dsimp only [held] at h
  split at h
  · cases h
  · split at h
    · cases h
      exact ⟨true, some actor, x.forceMuted, x.screenSharerId, rfl⟩
    · split at h
      · cases h
      · cases h
        exact ⟨false, none, x.forceMuted, x.screenSharerId, rfl⟩

theorem controls_forceMute (actor : UserId) (muted : Bool) :
    Controls fun x => forceMute x actor muted := by
  intro x x' h
  dsimp only [forceMute] at h
  split at h
  · cases h
  · split at h
    · cases h
    · cases h
      exact ⟨x.onHold, x.heldBy, muted, x.screenSharerId, rfl⟩

theorem controls_screenShare (actor : UserId) (active : Bool) :
    Controls fun x => screenShare x actor active := by
  intro x x' h
  dsimp only [screenShare] at h
  split at h
  · cases h
  · split at h
    · cases h
      exact ⟨x.onHold, x.heldBy, x.forceMuted, some actor, rfl⟩
    · split at h
      · cases h
        exact ⟨x.onHold, x.heldBy, x.forceMuted, none, rfl⟩
      · cases h

/-! ### The plans -/

theorem mem_members (input : CreateCall) : input.hostId ∈ input.members := by
  unfold CreateCall.members
  simp only
  split
  · exact ‹_›
  · exact List.mem_append_right _ (List.mem_singleton.mpr rfl)

theorem valid_createPlan (h : Coherent s) (input : CreateCall) :
    (createPlan input s).Valid s := by
  unfold createPlan
  rcases hostRelease input.hostId s with _ | us
  · exact .of_ends rfl nofun
  rcases he : convoEnd input s with _ | e
  · exact .of_ends rfl nofun
  have hends := convoEnd_stored h he
  simp only
  split
  · exact .of_ends rfl hends
  split
  · exact .of_ends rfl hends
  -- The new call has a fresh id, and whatever call the conversation had is ended.
  have hfresh : ∀ c x, s.session c = some x → c ≠ s.nextId :=
    fun c x hx => Nat.ne_of_lt (h.lt_nextId hx)
  have honly : ∀ c y, s.session c = some y → y.conversationId = input.conversationId →
      e.map VoiceCallSession.callId = some c := by
    intro c y hy hv
    have hcall : s.callOf input.conversationId = some y :=
      h.callOf_eq_some.mpr ⟨by rw [h.callId_eq hy]; exact hy, hv⟩
    unfold convoEnd at he
    rw [hcall] at he
    simp only at he
    split at he
    · cases he
      exact congrArg some (h.callId_eq hy)
    · cases he
  refine ⟨hends, ?_, ?_⟩
  · rintro _ ⟨⟩
    refine ⟨?_, ⟨nofun, nofun, ?_, mem_members input⟩, ?_, ?_⟩
    · have hnext : (Plan.before { releases := us, ends := e, mints := true } s).nextId =
          s.nextId + 1 := by
        rcases e with _ | x
        · exact congrArg (· + 1) (Redis.nextId_release s us)
        · exact congrArg (· + 1) ((Redis.nextId_finish _ x).trans (Redis.nextId_release s us))
      exact Nat.lt_of_lt_of_eq (Nat.lt_succ_self _) hnext.symm
    · intro w hw
      rw [List.mem_singleton.mp hw]
      exact mem_members input
    · intro y hy
      rw [Plan.session_before] at hy
      split at hy
      · cases hy
      · exact absurd rfl (hfresh _ y hy)
    · intro c y hy hv
      rw [Plan.session_before] at hy
      split at hy
      · cases hy
      · exact absurd (honly c y hy hv) ‹_›
  · rintro _ y ⟨⟩ hy
    exact absurd rfl (hfresh _ y hy)

theorem valid_controlPlan (h : Coherent s) (c : CallId)
    {f : VoiceCallSession → Except String VoiceCallSession} (hf : Controls f) :
    (controlPlan c f s).Valid s := by
  unfold controlPlan
  rcases hx : s.session c with _ | x
  · exact .of_ends rfl nofun
  simp only
  rcases hfx : f x with e | x'
  · exact .of_ends rfl nofun
  · obtain ⟨hedit, hmem⟩ := hf.edits hfx (h.live hx)
    exact .of_edits h hx hedit fun u hu => .inl (hmem ▸ hu)

theorem valid_plan (h : Coherent s) (op : Op) : (plan op s).Valid s := by
  have hempty : Plan.Valid {} s := .of_ends rfl nofun
  cases op with
  | createCall input => exact valid_createPlan h input
  | accept c u =>
    simp only [plan, acceptPlan]
    rcases hx : s.session c with _ | x
    · exact hempty
    simp only
    split
    · exact hempty
    split
    · exact hempty
    split
    · exact hempty
    rename_i hguard _ _
    simp only [isMember, Bool.or_eq_true, Bool.not_eq_true', List.contains_eq_mem,
      decide_eq_true_eq, decide_eq_false_iff_not, not_or, not_not] at hguard
    exact .of_edits h hx (edits_joined (h.live hx) hguard.1 s.now) fun _ => .inl
  | decline c u =>
    simp only [plan, declinePlan]
    rcases hx : s.session c with _ | x
    · exact hempty
    simp only
    split
    · exact hempty
    split
    · refine .of_ends rfl ?_
      rintro _ ⟨⟩
      rw [h.callId_eq hx]
      exact hx
    · exact .of_edits h hx (edits_declined (h.live hx) u) fun _ => .inl
  | leave c u =>
    simp only [plan, leavePlan]
    rcases hx : s.session c with _ | x
    · exact hempty
    simp only
    split
    · exact hempty
    split
    · refine .of_ends rfl ?_
      rintro _ ⟨⟩
      rw [h.callId_eq hx]
      exact hx
    · rename_i hguard
      exact .of_edits h hx (edits_left (h.live hx) fun hj => hguard (.inl hj)) fun _ => .inl
  | revokeUserFromConversation v u =>
    simp only [plan, revokePlan]
    rcases hv : s.callOf v with _ | x
    · exact hempty
    have hx := (h.callOf_eq_some.mp hv).1
    simp only
    split
    · exact hempty
    split
    · refine .of_ends rfl ?_
      rintro _ ⟨⟩
      exact hx
    · rename_i hguard
      refine .of_edits h hx (edits_revoked (h.live hx) fun hj => hguard (.inl hj)) ?_
      intro w hw
      by_cases hwu : w = u
      · exact .inr (List.mem_singleton.mpr hwu)
      · have hmem : w ∈ (revoked x u).memberIds :=
          List.mem_filter.mpr ⟨hw, decide_eq_true hwu⟩
        unfold replaceHost
        split
        · exact .inl hmem
        · exact .inl hmem
  | inviteMore c actor userIds allowed =>
    simp only [plan, invitePlan]
    rcases hx : s.session c with _ | x
    · exact hempty
    simp only
    split
    · exact hempty
    split
    · exact hempty
    split
    · exact hempty
    obtain ⟨hedit, hsub⟩ := edits_inviteAll (s := s) (x := x) (y := x) c []
      (userIds.eraseDups.filter fun u => u ∈ allowed ∧ u ≠ actor) ⟨rfl, rfl, h.live hx⟩
    exact .of_edits h hx hedit fun _ hw => .inl (hsub hw)
  | markUnansweredAsLeft c userIds =>
    simp only [plan, markPlan]
    rcases hx : s.session c with _ | x
    · exact hempty
    simp only
    split
    · obtain ⟨hedit, hmem⟩ := edits_markAll (h.live hx) false userIds
      exact .of_edits h hx hedit fun u hu => .inl (hmem ▸ hu)
    · exact .of_ends rfl nofun
  | setHold c actor onHold => exact valid_controlPlan h c (controls_held actor onHold)
  | setForceMute c actor muted => exact valid_controlPlan h c (controls_forceMute actor muted)
  | setScreenShare c actor active => exact valid_controlPlan h c (controls_screenShare actor active)
  | clearUserBusy u c =>
    simp only [plan, clearPlan]
    rcases c with _ | c
    · simp only
      split
      · exact hempty
      · exact .of_ends rfl nofun
    · simp only
      split
      · exact .of_ends rfl nofun
      · exact hempty
  | «end» c =>
    refine .of_ends rfl ?_
    intro x hx
    rw [h.callId_eq hx]
    exact hx
  | get c => exact hempty
  | getByConversation v => exact hempty
  | getActiveCallIdForUser u => exact hempty
  | elapse d => exact .of_ends rfl nofun

/-- Every operation keeps the store coherent. -/
theorem Coherent.step (h : Coherent s) (op : Op) : Coherent (step order op s) := by
  rw [step_eq_apply h]
  exact h.apply (valid_plan h op)

/-- The store a run of the service ends in. -/
theorem coherent_final (order : Redis → List CallId) (ops : List Op) :
    Coherent (Runs.final (CallSession.step order) ops Redis.empty) := by
  have h : Runs.Always (CallSession.step order) Coherent ops Redis.empty :=
    .of_step (fun _ op hs => Coherent.step hs op) coherent_empty
  exact h.final

/-! ## Results and plans

An operation that fails has done nothing, and one that succeeds says what its plan stores. -/

theorem create_cases (input : CreateCall) (s : Redis) :
    (∃ e, createResult input s = .error e ∧ (createPlan input s).stores = none) ∨
      createResult input s = .ok (input.newSession s.nextId s.now) ∧
        (createPlan input s).stores = some (input.newSession s.nextId s.now) := by
  unfold createResult createPlan
  rcases hostRelease input.hostId s with _ | us
  · exact .inl ⟨_, rfl, rfl⟩
  simp only
  rcases convoEnd input s with _ | e
  · exact .inl ⟨_, rfl, rfl⟩
  simp only
  by_cases hlen : input.members.length < 2
  · rw [if_pos hlen, if_pos hlen]
    exact .inl ⟨_, rfl, rfl⟩
  rw [if_neg hlen, if_neg hlen]
  by_cases hother : otherTaken input (Plan.apply { releases := us, ends := e } s) = true
  · rw [if_pos hother, if_pos hother]
    exact .inl ⟨_, rfl, rfl⟩
  · rw [if_neg hother, if_neg hother]
    exact .inr ⟨rfl, rfl⟩

theorem accept_cases (c : CallId) (u : UserId) (s : Redis) :
    (∃ e, acceptResult c u s = .error e ∧ acceptPlan c u s = {}) ∨
      ∃ x, s.session c = some x ∧ u ∈ x.memberIds ∧
        (u ∈ x.joinedIds ∧ acceptResult c u s = .ok x ∧ acceptPlan c u s = {} ∨
          u ∉ x.joinedIds ∧ ¬ (x.kind = .priv ∧ u = x.hostId) ∧
            ¬ (s.busy u ≠ none ∧ s.busy u ≠ some c) ∧
            acceptResult c u s = .ok (joined x u s.now) ∧
            acceptPlan c u s = { stores := some (joined x u s.now) }) := by
  unfold acceptResult acceptPlan
  rcases hx : s.session c with _ | x
  · exact .inl ⟨_, rfl, rfl⟩
  simp only
  by_cases hm : u ∈ x.memberIds
  swap
  · exact .inl ⟨"You are not invited to this call", by simp [isMember, hm], by simp [isMember, hm]⟩
  by_cases hj : u ∈ x.joinedIds
  · exact .inr ⟨x, rfl, hm, .inl ⟨hj, by simp [isMember, hm, hj], by simp [isMember, hm, hj]⟩⟩
  simp only [isMember, List.contains_iff_mem.mpr hm, Bool.not_true, Bool.false_or,
    Bool.false_eq_true, if_false, List.contains_iff_mem, hj]
  by_cases hhost : x.kind = .priv ∧ u = x.hostId
  · rw [if_pos hhost, if_pos hhost]
    exact .inl ⟨_, rfl, rfl⟩
  rw [if_neg hhost, if_neg hhost]
  by_cases hb : s.busy u ≠ none ∧ s.busy u ≠ some c
  · rw [if_pos hb, if_pos hb]
    exact .inl ⟨_, rfl, rfl⟩
  · rw [if_neg hb, if_neg hb]
    exact .inr ⟨x, rfl, hm, .inr ⟨hj, hhost, hb, rfl, rfl⟩⟩

theorem decline_cases (c : CallId) (u : UserId) (s : Redis) :
    (∃ e, declineResult c u s = .error e ∧ declinePlan c u s = {}) ∨
      ∃ x r, s.session c = some x ∧ declineResult c u s = .ok r ∧
        (r.ended = true ∧ declinePlan c u s = { ends := some x } ∨
          r.ended = false ∧ declinePlan c u s = { stores := some (declined x u) }) := by
  unfold declineResult declinePlan
  rcases hx : s.session c with _ | x
  · exact .inl ⟨_, rfl, rfl⟩
  simp only
  by_cases hg : (!isMember x u || x.joinedIds.contains u) = true
  · rw [if_pos hg, if_pos hg]
    exact .inl ⟨_, rfl, rfl⟩
  rw [if_neg hg, if_neg hg]
  by_cases hk : x.kind = .priv
  · rw [if_pos hk, if_pos hk]
    exact .inr ⟨x, _, rfl, rfl, .inl ⟨rfl, rfl⟩⟩
  · rw [if_neg hk, if_neg hk]
    exact .inr ⟨x, _, rfl, rfl, .inr ⟨rfl, rfl⟩⟩

theorem leave_cases (c : CallId) (u : UserId) (s : Redis) :
    (∃ e, leaveResult c u s = .error e ∧ leavePlan c u s = {}) ∨
      ∃ x r, s.session c = some x ∧ leaveResult c u s = .ok r ∧
        (r.ended = true ∧ leavePlan c u s = { releases := [u], ends := some x } ∨
          r.ended = false ∧ leavePlan c u s = { releases := [u], stores := some (left x u) }) := by
  unfold leaveResult leavePlan
  rcases hx : s.session c with _ | x
  · exact .inl ⟨_, rfl, rfl⟩
  simp only
  by_cases hg : (!isMember x u) = true
  · rw [if_pos hg, if_pos hg]
    exact .inl ⟨_, rfl, rfl⟩
  rw [if_neg hg, if_neg hg]
  by_cases hk : (left x u).joinedIds = [] ∨ x.kind = .priv
  · rw [if_pos hk, if_pos hk]
    exact .inr ⟨x, _, rfl, rfl, .inl ⟨rfl, rfl⟩⟩
  · rw [if_neg hk, if_neg hk]
    exact .inr ⟨x, _, rfl, rfl, .inr ⟨rfl, rfl⟩⟩

theorem revoke_cases (h : Coherent s) (v : ConversationId) (u : UserId) :
    (revokeResult v u s = none ∧ revokePlan v u s = {} ∧
        ∀ x, s.session x.callId = some x → x.conversationId = v → u ∉ x.memberIds) ∨
      ∃ x r, s.session x.callId = some x ∧ x.conversationId = v ∧ revokeResult v u s = some r ∧
        r.callId = x.callId ∧
        (r.ended = true ∧ revokePlan v u s = { releases := [u], ends := some x } ∨
          r.ended = false ∧ revokePlan v u s =
            { releases := [u], stores := some (replaceHost (revoked x u) u) }) := by
  unfold revokeResult revokePlan
  rcases hx : s.callOf v with _ | x
  · refine .inl ⟨rfl, rfl, fun x hx' hv => ?_⟩
    rw [h.callOf_eq_some.mpr ⟨hx', hv⟩] at hx
    cases hx
  obtain ⟨hstored, hv⟩ := h.callOf_eq_some.mp hx
  simp only
  by_cases hg : (!isMember x u) = true
  · rw [if_pos hg, if_pos hg]
    refine .inl ⟨rfl, rfl, fun y hy hyv hu => ?_⟩
    rw [h.callOf_eq_some.mpr ⟨hy, hyv⟩] at hx
    cases hx
    simp [isMember, hu] at hg
  rw [if_neg hg, if_neg hg]
  have hid : (replaceHost (revoked x u) u).callId = x.callId := by
    unfold replaceHost
    split <;> rfl
  by_cases hk : (revoked x u).joinedIds = [] ∨ x.kind = .priv
  · rw [if_pos hk, if_pos hk]
    exact .inr ⟨x, _, hstored, hv, rfl, rfl, .inl ⟨rfl, rfl⟩⟩
  · rw [if_neg hk, if_neg hk]
    exact .inr ⟨x, _, hstored, hv, rfl, hid, .inr ⟨rfl, rfl⟩⟩

theorem invite_cases (c : CallId) (actor : UserId) (userIds allowed : List UserId) (s : Redis) :
    (∃ e, inviteResult c actor userIds allowed s = .error e ∧
        invitePlan c actor userIds allowed s = {}) ∨
      ∃ x r us, s.session c = some x ∧ x.kind = .group ∧ us ⊆ allowed ∧
        (r.session, r.invitedIds) = inviteAll c s x [] us ∧
        inviteResult c actor userIds allowed s = .ok r ∧
        invitePlan c actor userIds allowed s = { stores := some r.session } := by
  unfold inviteResult invitePlan
  rcases hx : s.session c with _ | x
  · exact .inl ⟨_, rfl, rfl⟩
  simp only
  by_cases hk : x.kind ≠ .group
  · rw [if_pos hk, if_pos hk]
    exact .inl ⟨_, rfl, rfl⟩
  rw [if_neg hk, if_neg hk]
  by_cases hj : (!isJoined x actor) = true
  · rw [if_pos hj, if_pos hj]
    exact .inl ⟨_, rfl, rfl⟩
  rw [if_neg hj, if_neg hj]
  by_cases hlen : (userIds.eraseDups.filter fun u => u ∈ allowed ∧ u ≠ actor).length = 0
  · rw [if_pos hlen, List.length_eq_zero_iff.mp hlen]
    exact .inl ⟨_, rfl, rfl⟩
  rw [if_neg hlen]
  by_cases hnone : (inviteAll c s x [] (userIds.eraseDups.filter fun u => u ∈ allowed ∧
      u ≠ actor)).2 = []
  · rw [if_pos hnone, if_pos hnone]
    exact .inl ⟨_, rfl, rfl⟩
  · rw [if_neg hnone, if_neg hnone]
    refine .inr ⟨x, _, _, rfl, not_not.mp hk, fun u hu => ?_, rfl, rfl, rfl⟩
    exact (decide_eq_true_eq.mp (List.mem_filter.mp hu).2).1

theorem control_cases (c : CallId) (f : VoiceCallSession → Except String VoiceCallSession)
    (s : Redis) :
    (∃ e, controlResult c f s = .error e ∧ controlPlan c f s = {}) ∨
      ∃ x y, s.session c = some x ∧ f x = .ok y ∧ controlResult c f s = .ok y ∧
        controlPlan c f s = { stores := some y } := by
  unfold controlResult controlPlan
  rcases hx : s.session c with _ | x
  · exact .inl ⟨_, rfl, rfl⟩
  simp only
  rcases hf : f x with e | y
  · exact .inl ⟨e, rfl, rfl⟩
  · exact .inr ⟨x, y, rfl, hf, rfl, rfl⟩

end Relay.Gateway.CallSession
