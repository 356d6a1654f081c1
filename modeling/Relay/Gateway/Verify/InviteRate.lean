import Relay.Lib.Runs
import Relay.Lib.Window
import Relay.Gateway.ChatGateway
import Relay.Gateway.Verify.CallLocks

/-!
# The rate of call invites

`takeCallInviteSlot` keeps the recent invites of each user, and rewrites them only when it grants another
one. What it keeps is faithful to what it has granted, so it counts exactly the grants of the window
(`granted_iff`).
-/

namespace Relay.Gateway.ChatGateway

open Relay.Lib CallSession

/-- A call of `takeCallInviteSlot` for a user, at a time of the clock. -/
structure SlotCall where
  userId : UserId
  time : Time
deriving DecidableEq

section Slots

variable (order : Redis → List CallId) (u : UserId)

/-- The call, answered with a message unless the slot is granted. -/
def takeSlot (e : SlotCall) (s : State) : Except Exception (Option String) × State :=
  exec order (.takeCallInviteSlot e.userId) { s with redis := { s.redis with now := e.time } }

def slotStep (e : SlotCall) (s : State) : State := (takeSlot order e s).2

/-- No message, and no failure. -/
def Granted (e : SlotCall) (s : State) : Prop := (takeSlot order e s).1.toOption = some none

instance (e : SlotCall) (s : State) : Decidable (Granted order e s) :=
  inferInstanceAs (Decidable ((takeSlot order e s).1.toOption = some none))

/-- When the user was granted a slot in a run of calls: the values of `Date.now()`. -/
def grants : List SlotCall → State → List Time
  | [], _ => []
  | e :: es, s =>
    (if e.userId = u ∧ Granted order e s then [jsDate e.time] else []) ++
      grants es (slotStep order e s)

end Slots

variable {order : Redis → List CallId} {u : UserId} {s : State} {e : SlotCall} {es : List SlotCall}

theorem grants_append (past : List SlotCall) :
    grants order u (past ++ es) s =
      grants order u past s ++ grants order u es (Runs.final (slotStep order) past s) := by
  induction past generalizing s with
  | nil => rfl
  | cons e past ih =>
    simp only [List.cons_append, grants, ih, Runs.final, List.append_assoc]

/-! ## One call -/

variable (order) in
theorem takeSlot_cases (e : SlotCall) (s : State) :
    (CALL_INVITE_MAX_PER_WINDOW ≤
          (Window.recent (ms CALL_INVITE_WINDOW_MS) (jsDate e.time) (s.recentInvites e.userId)).length ∧
        ¬ Granted order e s ∧ ∀ u, (slotStep order e s).recentInvites u = s.recentInvites u) ∨
      (Window.recent (ms CALL_INVITE_WINDOW_MS) (jsDate e.time) (s.recentInvites e.userId)).length <
          CALL_INVITE_MAX_PER_WINDOW ∧
        Granted order e s ∧ ∀ u, (slotStep order e s).recentInvites u =
          if u = e.userId then
            Window.recent (ms CALL_INVITE_WINDOW_MS) (jsDate e.time) (s.recentInvites u) ++
              [jsDate e.time]
          else s.recentInvites u := by
  by_cases hfull : CALL_INVITE_MAX_PER_WINDOW ≤
      (Window.recent (ms CALL_INVITE_WINDOW_MS) (jsDate e.time) (s.recentInvites e.userId)).length
  · have htake : takeSlot order e s = (.ok (some "Too many call invites. Please wait a moment."),
        { s with redis := { s.redis with now := e.time } }) := if_pos hfull
    refine .inl ⟨hfull, ?_, fun u => ?_⟩
    · rw [Granted, htake]
      simp [Except.toOption]
    · rw [slotStep, htake]
      rfl
  · have htake : takeSlot order e s = (.ok none,
        { s with
          redis := { s.redis with now := e.time }
          inviteRateByUser := s.inviteRateByUser.insert e.userId
            (Window.recent (ms CALL_INVITE_WINDOW_MS) (jsDate e.time) (s.recentInvites e.userId) ++
              [jsDate e.time]) }) := if_neg hfull
    refine .inr ⟨Nat.lt_of_not_le hfull, ?_, fun u => ?_⟩
    · rw [Granted, htake]
      rfl
    · rw [slotStep, htake]
      by_cases hu : u = e.userId
      · subst hu
        simp [State.recentInvites]
      · simp [State.recentInvites, hu]

/-! ## Runs of calls -/

variable (order) in
/-- What is kept for the user is faithful to the user's grants, and these are few in every window. -/
theorem kept_final (hfresh : s.recentInvites u = []) (es : List SlotCall)
    (hsorted : (es.filter (·.userId = u)).Pairwise (·.time ≤ ·.time)) (last : Time)
    (hlast : ∀ e ∈ es, e.userId = u → jsDate e.time ≤ last) :
    Window.Faithful (ms CALL_INVITE_WINDOW_MS) last
        ((Runs.final (slotStep order) es s).recentInvites u) (grants order u es s) ∧
      Window.Bounded (ms CALL_INVITE_WINDOW_MS) CALL_INVITE_MAX_PER_WINDOW (grants order u es s) := by
  induction es using List.reverseRecOn generalizing last with
  | nil =>
    simp only [Runs.final, hfresh, grants]
    exact ⟨Window.faithful_nil last, Window.bounded_nil⟩
  | append_singleton es e ih =>
    rw [List.filter_append, List.pairwise_append] at hsorted
    obtain ⟨hsorted, _, hbefore⟩ := hsorted
    have hlater : ∀ e' ∈ es, e'.userId = u → jsDate e'.time ≤ last :=
      fun e' he' => hlast e' (List.mem_append_left _ he')
    rw [grants_append, Runs.final_append]
    simp only [Runs.final, grants, List.append_nil]
    by_cases hu : e.userId = u
    · subst hu
      have hnow : jsDate e.time ≤ last := hlast e (by simp) rfl
      -- The calls of the run were made before this one.
      have hle : ∀ e' ∈ es, e'.userId = e.userId → jsDate e'.time ≤ jsDate e.time := by
        intro e' he' hu'
        have htime : e'.time ≤ e.time := hbefore e' (by simp [he', hu']) e (by simp)
        exact Nat.mul_le_mul_right 1000 (Nat.div_le_div_right htime)
      obtain ⟨hfaithful, hbounded⟩ := ih hsorted _ hle
      rcases takeSlot_cases order e (Runs.final (slotStep order) es s) with
        ⟨_, hnot, hkept⟩ | ⟨hfree, hgranted, hkept⟩
      · simp only [hnot, and_false, if_false, List.append_nil, hkept]
        exact ⟨hfaithful.mono hnow, hbounded⟩
      · simp only [hgranted, and_self, if_true, hkept]
        rw [hfaithful.recent_eq _ (Nat.le_refl _)] at hfree
        exact ⟨hfaithful.grant.mono hnow, hbounded.grant hfree⟩
    · simp only [hu, false_and, if_false, List.append_nil]
      have hkept : (slotStep order e (Runs.final (slotStep order) es s)).recentInvites u =
          (Runs.final (slotStep order) es s).recentInvites u := by
        rcases takeSlot_cases order e (Runs.final (slotStep order) es s) with
          ⟨_, _, hkept⟩ | ⟨_, _, hkept⟩
        · exact hkept u
        · rw [hkept u, if_neg fun h => hu h.symm]
      rw [hkept]
      exact ih hsorted last hlater

/-- A run of calls comes to an end at some time. -/
theorem exists_last (es : List SlotCall) : ∃ last, ∀ e ∈ es, jsDate e.time ≤ last := by
  induction es with
  | nil => exact ⟨0, fun e he => absurd he List.not_mem_nil⟩
  | cons e es ih =>
    obtain ⟨last, hlast⟩ := ih
    refine ⟨max (jsDate e.time) last, fun e' he' => ?_⟩
    rcases List.mem_cons.mp he' with rfl | he'
    · exact Nat.le_max_left _ _
    · exact Nat.le_trans (hlast e' he') (Nat.le_max_right _ _)

/-- In a run of calls whose times do not decrease for a user, a slot is granted exactly when fewer than
five were granted to the user in the minute before; so no minute holds more than five of the user's
slots. Other users may call in between. -/
theorem granted_iff (order : Redis → List CallId) (u : UserId) (s : State)
    (hfresh : s.recentInvites u = []) (es : List SlotCall)
    (hsorted : (es.filter (·.userId = u)).Pairwise (·.time ≤ ·.time)) :
    (∀ past e later, es = past ++ e :: later → e.userId = u →
      (Granted order e (Runs.final (slotStep order) past s) ↔
        ((grants order u past s).filter fun g =>
          jsDate e.time < g + ms 60000 ∧ g ≤ jsDate e.time).length < 5)) ∧
    ∀ a : Time,
      ((grants order u es s).filter fun g => a < g ∧ g ≤ a + ms 60000).length ≤ 5 ∧
      ((grants order u es s).filter fun g => a ≤ g ∧ g < a + ms 60000).length ≤ 5 := by
  constructor
  · rintro past e later rfl rfl
    rw [List.filter_append, List.pairwise_append] at hsorted
    obtain ⟨hsorted, _, hbefore⟩ := hsorted
    have hle : ∀ e' ∈ past, e'.userId = e.userId → jsDate e'.time ≤ jsDate e.time := by
      intro e' he' hu'
      have htime : e'.time ≤ e.time := hbefore e' (by simp [he', hu']) e (by simp)
      exact Nat.mul_le_mul_right 1000 (Nat.div_le_div_right htime)
    have hfaithful := (kept_final order hfresh past hsorted _ hle).1
    have hrecent := (hfaithful.recent_eq _ (Nat.le_refl _)).trans
      (Window.recent_eq_filter hfaithful.le_last)
    rcases takeSlot_cases order e (Runs.final (slotStep order) past s) with
      ⟨hfull, hnot, _⟩ | ⟨hfree, hgranted, _⟩
    · rw [hrecent] at hfull
      exact iff_of_false hnot (Nat.not_lt_of_le hfull)
    · rw [hrecent] at hfree
      exact iff_of_true hgranted hfree
  · intro a
    obtain ⟨last, hlast⟩ := exists_last es
    exact (kept_final order hfresh es hsorted last fun e he _ => hlast e he).2.interval a

/-- The gateway after its start. -/
def State.fresh : State := ⟨Redis.empty, Chat.Db.empty 0 0, ∅, ∅, [], []⟩

/-- Six calls of A within a minute. -/
def sixCalls : List SlotCall :=
  [⟨userA, ms 0⟩, ⟨userA, ms 10⟩, ⟨userA, ms 20⟩, ⟨userA, ms 30⟩, ⟨userA, ms 40⟩, ⟨userA, ms 59999⟩]

theorem granted_iff_sixCalls :
    (∀ past e later, sixCalls = past ++ e :: later → e.userId = userA →
      (Granted keyOrder e (Runs.final (slotStep keyOrder) past State.fresh) ↔
        ((grants keyOrder userA past State.fresh).filter fun g =>
          jsDate e.time < g + ms 60000 ∧ g ≤ jsDate e.time).length < 5)) ∧
    ∀ a : Time,
      ((grants keyOrder userA sixCalls State.fresh).filter fun g =>
        a < g ∧ g ≤ a + ms 60000).length ≤ 5 ∧
      ((grants keyOrder userA sixCalls State.fresh).filter fun g =>
        a ≤ g ∧ g < a + ms 60000).length ≤ 5 :=
  granted_iff keyOrder userA State.fresh rfl sixCalls (by decide)

end Relay.Gateway.ChatGateway
