import Relay.Gateway.Verify.CallLocks

/-!
# What one operation does to one session

In a coherent store a session that is stored after an operation was there before, is new, or is an
edited copy of the one stored before under its id. `Edited` lists the edits with what the operation
has checked, so that a law about sessions is shown edit by edit.
-/

namespace Relay.Gateway.CallSession

open Relay.Lib

variable {order : Redis → List CallId} {s : Redis} {x y : VoiceCallSession} {op : Op}

/-! ## The loop of `inviteMore` -/

/-- The invited users are members once and ring again; the rest of the session stays. -/
theorem inviteAll_eq (c : CallId) (ids us : List UserId) : ∃ memberIds declinedIds leftIds,
    (inviteAll c s x ids us).1 =
        { x with memberIds := memberIds, declinedIds := declinedIds, leftIds := leftIds } ∧
      declinedIds ⊆ x.declinedIds ∧ leftIds ⊆ x.leftIds ∧
      (x.memberIds.Nodup → memberIds.Nodup) ∧
      (x.memberIds.length ≤ MAX_GROUP_CALL → memberIds.length ≤ MAX_GROUP_CALL) := by
  induction us generalizing x ids with
  | nil => exact ⟨_, _, _, rfl, fun _ h => h, fun _ h => h, id, id⟩
  | cons u us ih =>
    unfold inviteAll
    split
    · exact ih ids
    split
    · exact ih ids
    split
    · exact ih ids
    rename_i hroom
    obtain ⟨memberIds, declinedIds, leftIds, heq, hdeclined, hleft, hnodup, hlen⟩ :=
      ih (x := invited x u) (ids ++ [u])
    refine ⟨memberIds, declinedIds, leftIds, heq, fun w hw => ?_, fun w hw => ?_, fun h => ?_,
      fun h => ?_⟩
    · exact List.mem_of_mem_filter (hdeclined hw)
    · exact List.mem_of_mem_filter (hleft hw)
    · refine hnodup ?_
      unfold invited
      simp only
      split
      · exact h
      · next hnew =>
        exact List.nodup_append.mpr ⟨h, List.nodup_singleton u, fun a ha b hb => by
          rw [List.mem_singleton.mp hb]
          rintro rfl
          exact hnew ha⟩
    · refine hlen ?_
      unfold invited
      simp only
      split
      · exact h
      · next hnew =>
        have hfew : x.memberIds.length < MAX_GROUP_CALL :=
          Nat.lt_of_not_le fun hfull => hroom ⟨hnew, hfull⟩
        rw [List.length_append]
        exact hfew

/-! ## The edits -/

/-- The operation turns the stored session `x` into the session it stores. -/
inductive Edited (s : Redis) (x : VoiceCallSession) : Op → VoiceCallSession → Prop
  | accept {u : UserId} (hmem : u ∈ x.memberIds) (hout : u ∉ x.joinedIds) :
    Edited s x (.accept x.callId u) (joined x u s.now)
  | decline {u : UserId} (hmem : u ∈ x.memberIds) (hout : u ∉ x.joinedIds) (hkind : x.kind ≠ .priv) :
    Edited s x (.decline x.callId u) (declined x u)
  | leave {u : UserId} (hmem : u ∈ x.memberIds) (hrest : (left x u).joinedIds ≠ [])
      (hkind : x.kind ≠ .priv) :
    Edited s x (.leave x.callId u) (left x u)
  | revoke {u : UserId} (hmem : u ∈ x.memberIds) (hrest : (revoked x u).joinedIds ≠ [])
      (hkind : x.kind ≠ .priv) :
    Edited s x (.revokeUserFromConversation x.conversationId u) (replaceHost (revoked x u) u)
  | invite {actor : UserId} {userIds allowed : List UserId} (hkind : x.kind = .group)
      (hactor : actor ∈ x.joinedIds) :
    Edited s x (.inviteMore x.callId actor userIds allowed)
      (inviteAll x.callId s x [] (userIds.eraseDups.filter fun u => u ∈ allowed ∧ u ≠ actor)).1
  | mark {userIds : List UserId} :
    Edited s x (.markUnansweredAsLeft x.callId userIds) (markAll x false userIds).1
  | hold {actor : UserId} {onHold : Bool} {y : VoiceCallSession}
      (hok : held x actor onHold = .ok y) : Edited s x (.setHold x.callId actor onHold) y
  | mute {actor : UserId} {muted : Bool} {y : VoiceCallSession}
      (hok : forceMute x actor muted = .ok y) : Edited s x (.setForceMute x.callId actor muted) y
  | share {actor : UserId} {active : Bool} {y : VoiceCallSession}
      (hok : screenShare x actor active = .ok y) :
    Edited s x (.setScreenShare x.callId actor active) y

/-- An edited session is live, and keeps its id and its conversation. -/
theorem Edited.edits (h : Edited s x op y) (hx : Live x) : Edits x y := by
  cases h with
  | accept hmem _ => exact edits_joined hx hmem _
  | decline => exact edits_declined hx _
  | leave _ hrest _ => exact edits_left hx hrest
  | revoke _ hrest _ => exact edits_revoked hx hrest
  | invite => exact (edits_inviteAll _ _ _ ⟨rfl, rfl, hx⟩).1
  | mark => exact (edits_markAll hx _ _).1
  | hold hok => exact ((controls_held _ _).edits hok hx).1
  | mute hok => exact ((controls_forceMute _ _).edits hok hx).1
  | share hok => exact ((controls_screenShare _ _).edits hok hx).1

/-- A session `createCall` may store. -/
structure Opens (s : Redis) (op : Op) (input : CreateCall) (y : VoiceCallSession) : Prop where
  op_eq : op = .createCall input
  eq : y = input.newSession s.nextId s.now
  enough : 2 ≤ input.members.length

theorem control_stores {c : CallId} {f : VoiceCallSession → Except String VoiceCallSession}
    (hs : Coherent s) (h : (controlPlan c f s).stores = some y) :
    ∃ x, s.session c = some x ∧ x.callId = c ∧ f x = .ok y := by
  rcases control_cases c f s with ⟨_, _, hplan⟩ | ⟨x, y', hx, hf, _, hplan⟩
  · rw [hplan] at h
    cases h
  · rw [hplan] at h
    cases h
    exact ⟨x, hx, hs.callId_eq hx, hf⟩

/-- A plan stores a new session or an edited one. -/
theorem stores_cases (hs : Coherent s) (h : (plan op s).stores = some y) :
    (∃ input, Opens s op input y) ∨ ∃ x, s.session x.callId = some x ∧ Edited s x op y := by
  cases op with
  | createCall input =>
    refine .inl ⟨input, ?_⟩
    simp only [plan, createPlan] at h
    split at h
    · cases h
    split at h
    · cases h
    split at h
    · cases h
    split at h
    · cases h
    cases h
    rename_i hlen _
    exact ⟨rfl, rfl, Nat.le_of_not_lt hlen⟩
  | accept c u =>
    rcases accept_cases c u s with
      ⟨_, _, hplan⟩ | ⟨x, hx, hmem, ⟨_, _, hplan⟩ | ⟨hout, _, _, _, hplan⟩⟩
    · rw [plan, hplan] at h
      cases h
    · rw [plan, hplan] at h
      cases h
    · rw [plan, hplan] at h
      cases h
      obtain rfl := hs.callId_eq hx
      exact .inr ⟨x, hx, .accept hmem hout⟩
  | decline c u =>
    simp only [plan, declinePlan] at h
    split at h
    · cases h
    split at h
    · cases h
    split at h
    · cases h
    cases h
    rename_i x hx hguard hkind
    obtain rfl := hs.callId_eq hx
    simp only [isMember, Bool.or_eq_true, Bool.not_eq_true', List.contains_eq_mem,
      decide_eq_true_eq, decide_eq_false_iff_not, not_or, not_not] at hguard
    exact .inr ⟨x, hx, .decline hguard.1 hguard.2 hkind⟩
  | leave c u =>
    simp only [plan, leavePlan] at h
    split at h
    · cases h
    split at h
    · cases h
    split at h
    · cases h
    cases h
    rename_i x hx hguard hend
    obtain rfl := hs.callId_eq hx
    simp only [isMember, Bool.not_eq_true', List.contains_eq_mem, decide_eq_false_iff_not,
      not_not] at hguard
    exact .inr ⟨x, hx, .leave hguard (fun h0 => hend (.inl h0)) fun hk => hend (.inr hk)⟩
  | revokeUserFromConversation v u =>
    simp only [plan, revokePlan] at h
    split at h
    · cases h
    split at h
    · cases h
    split at h
    · cases h
    cases h
    rename_i x hcall hguard hend
    obtain ⟨hx, rfl⟩ := hs.callOf_eq_some.mp hcall
    simp only [isMember, Bool.not_eq_true', List.contains_eq_mem, decide_eq_false_iff_not,
      not_not] at hguard
    exact .inr ⟨x, hx, .revoke hguard (fun h0 => hend (.inl h0)) fun hk => hend (.inr hk)⟩
  | inviteMore c actor userIds allowed =>
    simp only [plan, invitePlan] at h
    split at h
    · cases h
    split at h
    · cases h
    split at h
    · cases h
    split at h
    · cases h
    cases h
    rename_i x hx hkind hactor _
    obtain rfl := hs.callId_eq hx
    simp only [isJoined, Bool.not_eq_true', List.contains_eq_mem, decide_eq_false_iff_not,
      not_not] at hactor
    exact .inr ⟨x, hx, .invite (not_not.mp hkind) hactor⟩
  | markUnansweredAsLeft c userIds =>
    simp only [plan, markPlan] at h
    split at h
    · cases h
    rename_i x hx
    split at h
    · cases h
      obtain rfl := hs.callId_eq hx
      exact .inr ⟨x, hx, .mark⟩
    · cases h
  | setHold c actor onHold =>
    obtain ⟨x, hx, rfl, hok⟩ := control_stores hs h
    exact .inr ⟨x, hx, .hold hok⟩
  | setForceMute c actor muted =>
    obtain ⟨x, hx, rfl, hok⟩ := control_stores hs h
    exact .inr ⟨x, hx, .mute hok⟩
  | setScreenShare c actor active =>
    obtain ⟨x, hx, rfl, hok⟩ := control_stores hs h
    exact .inr ⟨x, hx, .share hok⟩
  | clearUserBusy u c =>
    simp only [plan, clearPlan] at h
    split at h <;> split at h <;> cases h
  | «end» c => cases h
  | get c => cases h
  | getByConversation v => cases h
  | getActiveCallIdForUser u => cases h
  | elapse d => cases h

/-- A session stored after an operation was there before, is new, or is an edited one. -/
theorem step_session_cases (hs : Coherent s) {c : CallId}
    (h : (step order op s).session c = some y) :
    s.session c = some y ∨ (c = s.nextId ∧ ∃ input, Opens s op input y) ∨
      ∃ x, s.session c = some x ∧ Edited s x op y := by
  rw [step_eq_apply hs] at h
  by_cases hc : (plan op s).Owns c
  · obtain ⟨hstores, rfl⟩ := Plan.session_apply_of_owns hc h
    rcases stores_cases hs hstores with ⟨input, hopens⟩ | ⟨x, hx, hedit⟩
    · refine .inr (.inl ⟨?_, input, hopens⟩)
      rw [hopens.eq]
      rfl
    · rw [(hedit.edits (hs.live hx)).callId]
      exact .inr (.inr ⟨x, hx, hedit⟩)
  · rw [Plan.session_apply_of_not_owns hc] at h
    exact .inl h

end Relay.Gateway.CallSession
