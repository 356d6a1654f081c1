import Relay.Gateway.Verify.CallEdits

/-!
# Who holds a call and who shares the screen

Two laws of the call controls, over runs of the call service:

* a call that is on hold is resumed by its holder or by the host only (`stays_held_iff`);
* whoever holds a call, or shares the screen in it, is connected to it (`allShown_iff`).

`setHold` lets any connected user take the hold over, and `leave` clears neither field, so each law
has its exact runs.
-/

namespace Relay.Gateway.CallSession

open Relay.Lib

variable {order : Redis → List CallId} {s : Redis} {x y : VoiceCallSession} {op : Op}

/-! ## Resuming a call -/

/-- The call is live and on hold. -/
def OnHold (c : CallId) (s : Redis) : Prop := ∃ x, s.session c = some x ∧ x.onHold = true

/-- The calls of `setHold` for one session, each by a user. -/
def holds (c : CallId) (calls : List (UserId × Bool)) : List Op :=
  calls.map fun a => .setHold c a.1 a.2

/-- Who has put the call on hold last, when `h` holds it before the calls. -/
def lastHolder (h : UserId) (calls : List (UserId × Bool)) : UserId :=
  calls.foldl (fun h a => if a.2 then a.1 else h) h

theorem step_setHold_ok (hs : Coherent s) {c : CallId} {actor : UserId} {onHold : Bool}
    (hx : s.session c = some x) (hok : held x actor onHold = .ok y) :
    (step order (.setHold c actor onHold) s).session c = some y := by
  have hid : y.callId = c :=
    ((controls_held actor onHold).edits hok (hs.live hx)).1.callId.trans (hs.callId_eq hx)
  have hplan : plan (.setHold c actor onHold) s = { stores := some y } := by
    simp [plan, controlPlan, hx, hok, Except.toOption]
  rw [step_eq_apply hs, hplan, Plan.apply_some rfl, Redis.session_store, hid, if_pos rfl]

theorem step_setHold_error (hs : Coherent s) {c : CallId} {actor : UserId} {onHold : Bool} {e : String}
    (hx : s.session c = some x) (herr : held x actor onHold = .error e) :
    step order (.setHold c actor onHold) s = s := by
  have hplan : plan (.setHold c actor onHold) s = {} := by
    simp [plan, controlPlan, hx, herr, Except.toOption]
  rw [step_eq_apply hs, hplan]
  rfl

/-- The splits of a sequence of calls at a resume, after its first call. -/
theorem resumes_cons {a : UserId × Bool} {calls : List (UserId × Bool)}
    {P : List (UserId × Bool) → UserId → Prop} :
    (∀ before u after, a :: calls = before ++ (u, false) :: after → P before u) ↔
      (a.2 = false → P [] a.1) ∧
        ∀ before u after, calls = before ++ (u, false) :: after → P (a :: before) u := by
  constructor
  · intro h
    refine ⟨fun ha => h [] a.1 calls ?_, fun before u after heq => h (a :: before) u after ?_⟩
    · rw [← ha]
      rfl
    · rw [heq]
      rfl
  · rintro ⟨hfirst, hrest⟩ before u after heq
    cases before with
    | nil =>
      cases heq
      exact hfirst rfl
    | cons b before =>
      cases heq
      exact hrest before u after rfl

/-- From a call held by `h` on, as long as neither the host nor an outsider resumes it. -/
theorem onHold_iff (hs : Coherent s) {c : CallId} {h : UserId} (calls : List (UserId × Bool))
    (hx : s.session c = some x) (hhold : x.onHold = true) (hheld : x.heldBy = some h)
    (hcalls : ∀ a ∈ calls, a.1 ∈ x.joinedIds ∧ a.1 ≠ x.hostId) :
    Runs.Always (step order) (OnHold c) (holds c calls) s ↔
      ∀ before u after, calls = before ++ (u, false) :: after → u ≠ lastHolder h before := by
  induction calls generalizing s x h with
  | nil =>
    refine iff_of_true ⟨x, hx, hhold⟩ fun before u after heq => ?_
    cases before <;> cases heq
  | cons a calls ih =>
    obtain ⟨u, onHold⟩ := a
    obtain ⟨hjoined, hhost⟩ := hcalls _ List.mem_cons_self
    have hrest : ∀ a ∈ calls, a.1 ∈ x.joinedIds ∧ a.1 ≠ x.hostId := fun a ha =>
      hcalls a (List.mem_cons_of_mem _ ha)
    have hnow : OnHold c s := ⟨x, hx, hhold⟩
    rw [resumes_cons]
    change OnHold c s ∧ Runs.Always (step order) (OnHold c) (holds c calls)
      (step order (.setHold c u onHold) s) ↔ _
    rw [and_iff_right hnow]
    have hin : isJoined x u = true := List.contains_iff_mem.mpr hjoined
    cases onHold with
    | true =>
      -- The hold is taken over.
      have hok : held x u true = .ok { x with onHold := true, heldBy := some u } := by
        simp [held, hin]
      rw [ih (Coherent.step hs _) (step_setHold_ok hs hx hok) rfl rfl hrest]
      exact (and_iff_right (fun h0 => nomatch h0)).symm
    | false =>
      by_cases huh : u = h
      · -- The holder resumes the call.
        have hok : held x u false = .ok { x with onHold := false, heldBy := none } := by
          simp [held, hin, hheld, ← huh]
        refine iff_of_false (fun hall => ?_) fun hall => hall.1 rfl huh
        obtain ⟨y, hy, hon⟩ := hall.head
        rw [step_setHold_ok hs hx hok] at hy
        cases hy
        cases hon
      · have herr : held x u false =
            .error "Only the person who put the call on hold can resume" := by
          simp [held, hin, hheld, Ne.symm huh, Ne.symm hhost]
        rw [step_setHold_error hs hx herr, ih hs hx hhold hheld hrest]
        exact (and_iff_right fun _ => huh).symm

/-- A live call of a run that `h` has put on hold stays on hold throughout a sequence of `setHold` by
other connected users than the host exactly when nobody in it resumes a hold of their own: no resume
comes from the user who has put the call on hold last. -/
theorem stays_held_iff (order : Redis → List CallId) (ops : List Op) {c : CallId}
    {x : VoiceCallSession} (hx : (Runs.final (step order) ops Redis.empty).session c = some x)
    {h : UserId} (hhold : x.onHold = true) (hheld : x.heldBy = some h) (calls : List (UserId × Bool))
    (hcalls : ∀ a ∈ calls, a.1 ∈ x.joinedIds ∧ a.1 ≠ h ∧ a.1 ≠ x.hostId) :
    Runs.Always (step order) (OnHold c) (holds c calls) (Runs.final (step order) ops Redis.empty) ↔
      ∀ before u after, calls = before ++ (u, false) :: after → u ≠ lastHolder h before :=
  onHold_iff (coherent_final order ops) calls hx hhold hheld fun a ha =>
    ⟨(hcalls a ha).1, (hcalls a ha).2.2⟩

/-- A starts a group call that B and C join, and B puts it on hold. -/
def heldCall : List Op :=
  [.createCall ⟨0, .group, userA, [userA, userB, userC], none⟩, .accept 0 userB, .accept 0 userC,
    .setHold 0 userB true]

/-- The session of the call B holds. -/
def heldSession : VoiceCallSession where
  callId := 0
  conversationId := 0
  kind := .group
  media := .audio
  hostId := userA
  memberIds := [userA, userB, userC]
  joinedIds := [userA, userB, userC]
  declinedIds := []
  leftIds := []
  onHold := true
  heldBy := some userB
  forceMuted := false
  screenSharerId := none
  status := .active
  createdAt := 0
  connectedAt := some 0

theorem session_heldCall :
    (Runs.final (step keyOrder) heldCall Redis.empty).session 0 = some heldSession := by decide

theorem stays_held_iff_resumeRefused :
    Runs.Always (step keyOrder) (OnHold 0) (holds 0 [(userC, false)])
        (Runs.final (step keyOrder) heldCall Redis.empty) ↔
      ∀ before u after, [(userC, false)] = before ++ (u, false) :: after →
        u ≠ lastHolder userB before :=
  stays_held_iff keyOrder heldCall session_heldCall rfl rfl _ (by decide)

/-- C puts the held call on hold once more and resumes it. -/
theorem stays_held_fails :
    ¬ ∀ (ops : List Op) (c : CallId) (x : VoiceCallSession) (h : UserId)
        (calls : List (UserId × Bool)),
      (Runs.final (step keyOrder) ops Redis.empty).session c = some x → h ∈ x.joinedIds →
      x.onHold = true → x.heldBy = some h →
      (∀ a ∈ calls, a.1 ∈ x.joinedIds ∧ a.1 ≠ h ∧ a.1 ≠ x.hostId) →
      Runs.Always (step keyOrder) (OnHold c) (holds c calls)
        (Runs.final (step keyOrder) ops Redis.empty) := by
  intro hall
  have h := (hall heldCall 0 heldSession userB [(userC, true), (userC, false)] session_heldCall
    (by decide) rfl rfl (by decide)).final
  have hoff : ((Runs.final (step keyOrder) (holds 0 [(userC, true), (userC, false)])
      (Runs.final (step keyOrder) heldCall Redis.empty)).session 0).map
        VoiceCallSession.onHold = some false := by decide
  obtain ⟨x, hx, hon⟩ := h
  rw [hx, Option.map_some, hon] at hoff
  cases hoff

/-! ## Who is shown -/

/-- Nobody who is out of the call holds it or is shown as sharing. -/
structure Shown (x : VoiceCallSession) : Prop where
  sharer : ∀ u, x.screenSharerId = some u → u ∈ x.joinedIds
  onHold : x.onHold = true ↔ x.heldBy ≠ none
  holder : ∀ u, x.heldBy = some u → u ∈ x.joinedIds

def AllShown (s : Redis) : Prop := ∀ c x, s.session c = some x → Shown x

/-- Someone leaves a group call others stay in, and holds it or shares the screen in it. -/
def ControllerLeaves (s : Redis) (op : Op) : Prop :=
  ∃ c x u, op = .leave c u ∧ s.session c = some x ∧ x.kind = .group ∧
    (∃ w ∈ x.joinedIds, w ≠ u) ∧ (x.heldBy = some u ∨ x.screenSharerId = some u)

theorem Shown.mono (h : Shown x) (hsub : x.joinedIds ⊆ y.joinedIds)
    (heq : (y.onHold, y.heldBy, y.screenSharerId) = (x.onHold, x.heldBy, x.screenSharerId)) :
    Shown y := by
  obtain ⟨hhold, hheld, hshare⟩ : y.onHold = x.onHold ∧ y.heldBy = x.heldBy ∧
      y.screenSharerId = x.screenSharerId := by simpa using heq
  refine ⟨fun u hu => hsub (h.sharer u (hshare ▸ hu)), ?_, fun u hu => hsub (h.holder u (hheld ▸ hu))⟩
  rw [hhold, hheld]
  exact h.onHold

/-- A user out of `joinedIds` who neither held the call nor shared the screen is not missed. -/
theorem Shown.without (h : Shown x) {u : UserId} (hjoined : y.joinedIds = x.joinedIds.filter (· ≠ u))
    (heq : (y.onHold, y.heldBy, y.screenSharerId) = (x.onHold, x.heldBy, x.screenSharerId))
    (hheld : x.heldBy ≠ some u) (hshare : x.screenSharerId ≠ some u) : Shown y := by
  obtain ⟨hhold', hheld', hshare'⟩ : y.onHold = x.onHold ∧ y.heldBy = x.heldBy ∧
      y.screenSharerId = x.screenSharerId := by simpa using heq
  refine ⟨fun w hw => ?_, ?_, fun w hw => ?_⟩
  · rw [hshare'] at hw
    rw [hjoined]
    refine List.mem_filter.mpr ⟨h.sharer w hw, decide_eq_true ?_⟩
    rintro rfl
    exact hshare hw
  · rw [hhold', hheld']
    exact h.onHold
  · rw [hheld'] at hw
    rw [hjoined]
    refine List.mem_filter.mpr ⟨h.holder w hw, decide_eq_true ?_⟩
    rintro rfl
    exact hheld hw

/-- A revoked user is cleared from both fields. -/
theorem Shown.revoked (h : Shown x) (u : UserId) : Shown (revoked x u) := by
  have hkeep : ∀ {o : Option UserId} {w}, (if o = some u then none else o) = some w →
      o = some w ∧ w ≠ u := by
    intro o w how
    split at how
    · cases how
    · next hne =>
      refine ⟨how, ?_⟩
      rintro rfl
      exact hne how
  refine ⟨fun w hw => ?_, ?_, fun w hw => ?_⟩
  · obtain ⟨hw, hne⟩ := hkeep hw
    exact List.mem_filter.mpr ⟨h.sharer w hw, decide_eq_true hne⟩
  · simp only [CallSession.revoked]
    split
    · simp
    · exact h.onHold
  · obtain ⟨hw, hne⟩ := hkeep hw
    exact List.mem_filter.mpr ⟨h.holder w hw, decide_eq_true hne⟩

/-- Edit by edit: only a leave takes a user out without clearing the fields. -/
theorem Shown.edited (h : Shown x) (hx : s.session x.callId = some x)
    (hedit : Edited s x op y) (hop : ¬ ControllerLeaves s op) : Shown y := by
  cases hedit with
  | accept =>
    refine h.mono (fun w hw => ?_) rfl
    simp only [joined, List.mem_eraseDups, List.mem_append]
    exact .inl hw
  | decline => exact h.mono (fun _ hw => hw) rfl
  | @leave u hmem hrest hkind =>
    obtain ⟨w, hw⟩ := List.exists_mem_of_ne_nil _ hrest
    obtain ⟨hw, hwu⟩ := List.mem_filter.mp hw
    have hgroup : x.kind = .group := by
      cases hk : x.kind with
      | priv => exact absurd hk hkind
      | group => rfl
    have hout : ¬ (x.heldBy = some u ∨ x.screenSharerId = some u) := fun hor =>
      hop ⟨x.callId, x, u, rfl, hx, hgroup, ⟨w, hw, of_decide_eq_true hwu⟩, hor⟩
    exact h.without rfl rfl (fun h0 => hout (.inl h0)) fun h0 => hout (.inr h0)
  | @revoke u =>
    unfold replaceHost
    split
    · exact (h.revoked u).mono (fun _ hw => hw) rfl
    · exact h.revoked u
  | invite =>
    obtain ⟨_, _, _, heq, _⟩ := inviteAll_eq (s := s) (x := x) x.callId [] _
    rw [heq]
    exact h.mono (fun _ hw => hw) rfl
  | mark =>
    obtain ⟨_, _, heq⟩ := markAll_eq (x := x) false _
    rw [heq]
    exact h.mono (fun _ hw => hw) rfl
  | @hold actor onHold _ hok =>
    unfold held at hok
    split at hok
    · cases hok
    next hin =>
    have hin : actor ∈ x.joinedIds := by simpa [isJoined] using hin
    split at hok
    · cases hok
      refine ⟨h.sharer, by simp, fun u hu => ?_⟩
      cases hu
      exact hin
    split at hok
    · cases hok
    · cases hok
      exact ⟨h.sharer, by simp, by simp⟩
  | mute hok =>
    unfold forceMute at hok
    split at hok
    · cases hok
    split at hok
    · cases hok
    · cases hok
      exact h.mono (fun _ hw => hw) rfl
  | @share actor active _ hok =>
    unfold screenShare at hok
    split at hok
    · cases hok
    next hin =>
    have hin : actor ∈ x.joinedIds := by simpa [isJoined] using hin
    split at hok
    · cases hok
      refine ⟨fun u hu => ?_, h.onHold, h.holder⟩
      cases hu
      exact hin
    split at hok
    · cases hok
      exact ⟨by simp, h.onHold, h.holder⟩
    · cases hok

/-- The session of a group call that a connected user leaves while others stay. -/
theorem step_leave (hs : Coherent s) {c : CallId} {u : UserId} (hx : s.session c = some x)
    (hu : u ∈ x.joinedIds) (hkind : x.kind = .group) {w : UserId} (hw : w ∈ x.joinedIds)
    (hwu : w ≠ u) : (step order (.leave c u) s).session c = some (left x u) := by
  have hmem : isMember x u = true := List.contains_iff_mem.mpr ((hs.live hx).joined_sub hu)
  have hrest : (left x u).joinedIds ≠ [] :=
    List.ne_nil_of_mem (List.mem_filter.mpr ⟨hw, decide_eq_true hwu⟩)
  have hplan : plan (.leave c u) s = { releases := [u], stores := some (left x u) } := by
    simp [plan, leavePlan, hx, hmem, hrest, hkind]
  have hid : (left x u).callId = c := (rfl : _ = x.callId).trans (hs.callId_eq hx)
  rw [step_eq_apply hs, hplan, Plan.apply_some rfl, Redis.session_store, hid, if_pos rfl]

theorem allShown_step_iff (hs : Coherent s) (h : AllShown s) :
    AllShown (step order op s) ↔ ¬ ControllerLeaves s op := by
  constructor
  · rintro h' ⟨c, x, u, rfl, hx, hkind, ⟨w, hw, hwu⟩, hor⟩
    have hjoined : u ∈ x.joinedIds := by
      rcases hor with hheld | hshare
      · exact (h c x hx).holder u hheld
      · exact (h c x hx).sharer u hshare
    have hleft := h' c _ (step_leave hs hx hjoined hkind hw hwu)
    have hgone : u ∉ (left x u).joinedIds := by simp [left]
    rcases hor with hheld | hshare
    · exact hgone (hleft.holder u hheld)
    · exact hgone (hleft.sharer u hshare)
  · intro hop c y hy
    rcases step_session_cases hs hy with hold | ⟨_, input, hopens⟩ | ⟨x, hx, hedit⟩
    · exact h c y hold
    · rw [hopens.eq]
      exact ⟨by simp [CreateCall.newSession], by simp [CreateCall.newSession], by simp [CreateCall.newSession]⟩
    · have hid := hs.callId_eq hx
      exact (h c x hx).edited (hid ▸ hx) hedit hop

/-- In a run from an empty store, everybody who holds a call or is shown as sharing the screen in it
is connected to it, and a call is on hold exactly when somebody holds it, exactly when nobody who holds
a group call, or shares the screen in it, leaves it while others stay. -/
theorem allShown_iff (order : Redis → List CallId) (ops : List Op) :
    Runs.Always (step order) AllShown ops Redis.empty ↔
      Runs.Along (step order) (fun s op => ¬ ControllerLeaves s op) ops Redis.empty :=
  Runs.always_iff_along (fun _ op hs => Coherent.step hs op)
    (fun _ _ hs h => allShown_step_iff hs h) coherent_empty nofun

/-- The holder of the held call leaves it. -/
theorem allShown_fails :
    ¬ ∀ ops, Runs.Always (step keyOrder) AllShown ops Redis.empty := by
  intro hall
  have h := (hall (heldCall ++ [.leave 0 userB])).final
  have hheld : ((Runs.final (step keyOrder) (heldCall ++ [.leave 0 userB]) Redis.empty).session 0).map
      (fun x => (x.heldBy, x.joinedIds)) = some (some userB, [userA, userC]) := by decide
  obtain ⟨x, hx, heq⟩ := Option.map_eq_some_iff.mp hheld
  obtain ⟨hholder, hjoined⟩ := Prod.mk.inj heq
  have hmem := (h 0 x hx).holder userB hholder
  rw [hjoined] at hmem
  exact absurd hmem (by decide)

end Relay.Gateway.CallSession
