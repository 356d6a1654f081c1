import Mathlib.Logic.Basic

/-!
# Runs of a system that takes one operation at a time

`step` is total and deterministic: it says what an operation does in a state, and a run is a list
of operations. A property of runs is either about every state the run visits (`Always`) or about
every step it takes, with the state the step starts in (`Along`). The rules below reduce both to
one step.
-/

namespace Relay.Lib

namespace Runs

variable {O S : Type} (step : O → S → S)

/-- The state a run ends in. -/
def final : List O → S → S
  | [], s => s
  | o :: os, s => final os (step o s)

/-- Every state the run visits satisfies `I`, the first and the last included. -/
def Always (I : S → Prop) : List O → S → Prop
  | [], s => I s
  | o :: os, s => I s ∧ Always I os (step o s)

/-- Every step of the run satisfies `P` in the state it is taken in. -/
def Along (P : S → O → Prop) : List O → S → Prop
  | [], _ => True
  | o :: os, s => P s o ∧ Along P os (step o s)

instance Along.decide (P : S → O → Prop) [h : ∀ s o, Decidable (P s o)] :
    (os : List O) → (s : S) → Decidable (Along step P os s)
  | [], _ => isTrue trivial
  | o :: os, s =>
    have := Along.decide P os (step o s)
    inferInstanceAs (Decidable (P s o ∧ Along step P os (step o s)))

theorem final_append (os os' : List O) (s : S) :
    final step (os ++ os') s = final step os' (final step os s) := by
  induction os generalizing s with
  | nil => rfl
  | cons o os ih => exact ih _

variable {step} {I J : S → Prop} {P Q : S → O → Prop} {os : List O} {s : S}

theorem Always.head (h : Always step I os s) : I s := by
  cases os with
  | nil => exact h
  | cons o os => exact h.1

theorem Always.final (h : Always step I os s) : I (final step os s) := by
  induction os generalizing s with
  | nil => exact h
  | cons o os ih => exact ih h.2

theorem Always.mono (hIJ : ∀ s, I s → J s) (h : Always step I os s) : Always step J os s := by
  induction os generalizing s with
  | nil => exact hIJ s h
  | cons o os ih => exact ⟨hIJ s h.1, ih h.2⟩

theorem Along.mono (hPQ : ∀ s o, P s o → Q s o) (h : Along step P os s) : Along step Q os s := by
  induction os generalizing s with
  | nil => trivial
  | cons o os ih => exact ⟨hPQ s o h.1, ih h.2⟩

theorem along_append {os' : List O} :
    Along step P (os ++ os') s ↔ Along step P os s ∧ Along step P os' (Runs.final step os s) := by
  induction os generalizing s with
  | nil => simp [Along, Runs.final]
  | cons o os ih =>
    simp only [List.cons_append, Along, ih, Runs.final]
    exact and_assoc.symm

/-- What holds at the start and is kept by every legal step holds throughout a legal run. -/
theorem Always.of_along (hstep : ∀ s o, I s → P s o → I (step o s)) (hs : I s)
    (h : Along step P os s) : Always step I os s := by
  induction os generalizing s with
  | nil => exact hs
  | cons o os ih => exact ⟨hs, ih (hstep s o hs h.1) h.2⟩

/-- What holds at the start and is kept by every step holds throughout every run. -/
theorem Always.of_step (hstep : ∀ s o, I s → I (step o s)) (hs : I s) : Always step I os s := by
  induction os generalizing s with
  | nil => exact hs
  | cons o os ih => exact ⟨hs, ih (hstep s o hs)⟩

theorem Along.of_forall (h : ∀ s o, P s o) : Along step P os s := by
  induction os generalizing s with
  | nil => trivial
  | cons o os ih => exact ⟨h s o, ih⟩

theorem Along.of_mem {P : O → Prop} (h : ∀ o ∈ os, P o) : Along step (fun _ o => P o) os s := by
  induction os generalizing s with
  | nil => trivial
  | cons o os ih => exact ⟨h o List.mem_cons_self, ih fun o ho => h o (List.mem_cons_of_mem _ ho)⟩

/-- A property of steps that the visited states imply. -/
theorem Along.of_always (hI : ∀ s o, I s → P s o) (h : Always step I os s) :
    Along step P os s := by
  induction os generalizing s with
  | nil => trivial
  | cons o os ih => exact ⟨hI s o h.1, ih h.2⟩

/-- A property of steps that an invariant and another property of steps imply. -/
theorem Along.of_always_along (hI : ∀ s o, I s → P s o → Q s o) (h : Always step I os s)
    (hP : Along step P os s) : Along step Q os s := by
  induction os generalizing s with
  | nil => trivial
  | cons o os ih => exact ⟨hI s o h.1 hP.1, ih h.2 hP.2⟩

/-- A property of steps that is read off the state each step leaves. -/
theorem Along.of_always_next (hI : ∀ s o, J s → I (step o s) → P s o) (hJ : Always step J os s)
    (h : Always step I os s) : Along step P os s := by
  induction os generalizing s with
  | nil => trivial
  | cons o os ih => exact ⟨hI s o hJ.1 h.2.head, ih hJ.2 h.2⟩

/-- If, over the states of an invariant `J`, a step keeps `I` exactly when `P` holds of it, then `I`
holds throughout a run exactly when every step satisfies `P`. -/
theorem always_iff_along (hJ : ∀ s o, J s → J (step o s))
    (hstep : ∀ s o, J s → I s → (I (step o s) ↔ P s o)) (hs : J s) (hI : I s) :
    Always step I os s ↔ Along step P os s := by
  induction os generalizing s with
  | nil => exact ⟨fun _ => trivial, fun _ => hI⟩
  | cons o os ih =>
    have hiff := hstep s o hs hI
    constructor
    · rintro ⟨_, h⟩
      exact ⟨hiff.mp h.head, (ih (hJ s o hs) h.head).mp h⟩
    · rintro ⟨hP, h⟩
      exact ⟨hI, (ih (hJ s o hs) (hiff.mpr hP)).mpr h⟩

/-- Two properties of steps that mean the same where `J` holds, which one of them keeps. -/
theorem along_iff_along (hJ : ∀ s o, J s → Q s o → J (step o s)) (hiff : ∀ s o, J s → (P s o ↔ Q s o))
    (hs : J s) : Along step P os s ↔ Along step Q os s := by
  induction os generalizing s with
  | nil => exact Iff.rfl
  | cons o os ih =>
    rw [Along, Along, hiff s o hs]
    exact and_congr_right fun hQ => ih (hJ s o hs hQ)

variable (os) in
/-- If a step leaves `I` true exactly when it was and `P` holds of the step, a run ends in `I` exactly when
it started there and every step satisfies `P`. -/
theorem final_iff_along (hJ : ∀ s o, J s → J (step o s))
    (hstep : ∀ s o, J s → (I (step o s) ↔ I s ∧ P s o)) (hs : J s) :
    I (Runs.final step os s) ↔ I s ∧ Along step P os s := by
  induction os generalizing s with
  | nil => exact (and_iff_left trivial).symm
  | cons o os ih =>
    rw [Runs.final, ih (hJ s o hs), hstep s o hs, and_assoc]
    rfl

/-! ## Two systems driven by the same operations -/

section Beside

variable {T : Type} (step' : O → T → T)

/-- Both systems take the operation. -/
def beside (step : O → S → S) (step' : O → T → T) (o : O) (st : S × T) : S × T := (step o st.1, step' o st.2)

theorem final_beside (os : List O) (s : S) (t : T) :
    Runs.final (beside step step') os (s, t) = (Runs.final step os s, Runs.final step' os t) := by
  induction os generalizing s t with
  | nil => rfl
  | cons o os ih => exact ih _ _

/-- A property of the steps of the second system. -/
theorem along_beside {P : T → O → Prop} {t : T} :
    Along (beside step step') (fun st o => P st.2 o) os (s, t) ↔ Along step' P os t := by
  induction os generalizing s t with
  | nil => exact Iff.rfl
  | cons o os ih => exact and_congr_right fun _ => ih

end Beside

/-! ## A record of what happens -/

section Noting

variable {H : Type} (note : S → O → List H)

/-- The system with a record of what its operations do, the latest first. -/
def noting (step : O → S → S) (note : S → O → List H) (o : O) (st : S × List H) : S × List H :=
  (step o st.1, note st.1 o ++ st.2)

theorem final_noting (os : List O) (s : S) (hs : List H) :
    (Runs.final (noting step note) os (s, hs)).1 = Runs.final step os s := by
  induction os generalizing s hs with
  | nil => rfl
  | cons o os ih => exact ih _ _

end Noting

/-! ## Relations between the states of a run -/

section Relations

variable {r : S → S → Prop}

theorem Along.final (hrefl : ∀ s, r s s) (htrans : ∀ s t u, r s t → r t u → r s u)
    (h : Along step (fun s o => r s (step o s)) os s) : r s (Runs.final step os s) := by
  induction os generalizing s with
  | nil => exact hrefl s
  | cons o os ih => exact htrans _ _ _ h.1 (ih h.2)

/-- Each state of a run is related to all later ones exactly when each step relates its two states. -/
theorem along_iff_later (hrefl : ∀ s, r s s) (htrans : ∀ s t u, r s t → r t u → r s u) :
    (∀ os₁ os₂ os₃, os = os₁ ++ os₂ ++ os₃ →
      r (Runs.final step os₁ s) (Runs.final step (os₁ ++ os₂) s)) ↔
      Along step (fun s o => r s (step o s)) os s := by
  constructor
  · intro h
    induction os generalizing s with
    | nil => trivial
    | cons o os ih =>
      refine ⟨h [] [o] os rfl, ih fun os₁ os₂ os₃ heq => ?_⟩
      exact h (o :: os₁) os₂ os₃ (by rw [heq]; rfl)
  · rintro h os₁ os₂ os₃ rfl
    rw [final_append]
    exact (along_append.mp (along_append.mp h).1).2.final hrefl htrans

end Relations

end Runs

end Relay.Lib
