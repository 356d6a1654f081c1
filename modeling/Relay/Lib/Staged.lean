import Relay.Lib.Protocol

/-!
# Pools that show how far each thread has come

The state of a thread in a protocol depends on the calls it has made and the answers it got, and on
nothing else. `Staged` is a pool with these states, the stages, written next to the threads; it takes the
steps of the pool (`Staged.final_pool`). A statement about a run can then speak of the stages, and so can
a condition on its steps (`Meets`). A call may have to wait, as for a lock; the event that would make it
then changes nothing.
-/

namespace Relay.Lib

variable {C : Type} {R : C → Type} {E G α S O D : Type}

structure Staged (C : Type) (R : C → Type) (E α S G : Type) where
  pool : Pool C R E α S
  stages : List G

namespace Staged

variable (exec : (c : C) → S → Except E (R c) × S) (program : O → Prog C R E α) (env : D → S → S)
  (P : Protocol C R E G) (init : O → G) (waits : S → C → Bool)

/-- A thread makes its next call, unless it has to wait. -/
def advance (i : Nat) (w : Staged C R E α S G) : Staged C R E α S G :=
  match w.pool.threads[i]?, w.stages[i]? with
  | some (.call c k), some g =>
    if waits w.pool.store c then w
    else
      { pool := ⟨(exec c w.pool.store).2, w.pool.threads.set i (k (exec c w.pool.store).1)⟩
        stages := w.stages.set i (P.next g c (exec c w.pool.store).1) }
  | _, _ => w

def step : Pool.Event O D → Staged C R E α S G → Staged C R E α S G
  | .start o, w => ⟨⟨w.pool.store, w.pool.threads ++ [program o]⟩, w.stages ++ [init o]⟩
  | .advance i, w => w.advance exec P waits i
  | .pass d, w => ⟨⟨env d w.pool.store, w.pool.threads⟩, w.stages⟩

/-- If the event makes a thread execute a call, the call satisfies `L` in the store and at the stages it
meets. -/
def Meets (L : S → List G → Nat → C → Prop) (w : Staged C R E α S G) (e : Pool.Event O D) : Prop :=
  match e with
  | .advance i =>
    match w.pool.nextCall i with
    | some c => waits w.pool.store c = false → L w.pool.store w.stages i c
    | none => True
  | _ => True

instance [∀ s gs i c, Decidable (L s gs i c)] (w : Staged C R E α S G) (e : Pool.Event O D) :
    Decidable (Meets waits L w e) := by
  unfold Meets
  split
  · split <;> infer_instance
  · infer_instance

/-- Any step meets no condition at all. -/
theorem meets_true (w : Staged C R E α S G) (e : Pool.Event O D) :
    Meets waits (fun _ _ _ _ => True) w e := by
  unfold Meets
  split
  · split
    · exact fun _ => trivial
    · trivial
  · trivial

variable {exec program env P init waits}

/-- What an event does. -/
theorem step_cases (w : Staged C R E α S G) (e : Pool.Event O D) :
    (∃ o, e = .start o ∧ step exec program env P init waits e w =
      ⟨⟨w.pool.store, w.pool.threads ++ [program o]⟩, w.stages ++ [init o]⟩) ∨
    (∃ i c k g, e = .advance i ∧ w.pool.threads[i]? = some (.call c k) ∧ w.stages[i]? = some g ∧
      waits w.pool.store c = false ∧ step exec program env P init waits e w =
        ⟨⟨(exec c w.pool.store).2, w.pool.threads.set i (k (exec c w.pool.store).1)⟩,
          w.stages.set i (P.next g c (exec c w.pool.store).1)⟩) ∨
    step exec program env P init waits e w = w ∨
    (∃ d, e = .pass d ∧ step exec program env P init waits e w =
      ⟨⟨env d w.pool.store, w.pool.threads⟩, w.stages⟩) := by
  cases e with
  | start o => exact .inl ⟨o, rfl, rfl⟩
  | pass d => exact .inr (.inr (.inr ⟨d, rfl, rfl⟩))
  | advance i =>
    simp only [step, advance]
    split
    · next c k g hi hg =>
      split
      · exact .inr (.inr (.inl rfl))
      · next hfree => exact .inr (.inl ⟨i, c, k, g, rfl, hi, hg, Bool.eq_false_iff.mpr hfree, rfl⟩)
    · exact .inr (.inr (.inl rfl))

/-- Each thread keeps to the protocol from its stage on. -/
def Follow (P : Protocol C R E G) (Q : Except E α → G → Prop) (w : Staged C R E α S G) : Prop :=
  Pool.Follow P Q w.pool w.stages

variable {Q : Except E α → G → Prop} {J : S → List G → Prop} {L : S → List G → Nat → C → Prop}

/-- An invariant of the store and the stages, shown call by call. -/
theorem invariant_step (hanswers : ∀ s c, P.answers c (exec c s).1)
    (hprogram : ∀ o, Prog.Follows P Q (program o) (init o))
    (hstart : ∀ o s gs, J s gs → J s (gs ++ [init o]))
    (hcall : ∀ s gs i g c, J s gs → gs[i]? = some g → P.allowed g c → waits s c = false →
      L s gs i c → J (exec c s).2 (gs.set i (P.next g c (exec c s).1)))
    (henv : ∀ d s gs, J s gs → J (env d s) gs) {w : Staged C R E α S G} (hw : Follow P Q w)
    (hJ : J w.pool.store w.stages) {e : Pool.Event O D} (hL : Meets waits L w e) :
    Follow P Q (step exec program env P init waits e w) ∧
      J (step exec program env P init waits e w).pool.store
        (step exec program env P init waits e w).stages := by
  obtain ⟨o, rfl, heq⟩ | ⟨i, c, k, g, rfl, hi, hg, hfree, heq⟩ | heq | ⟨d, rfl, heq⟩ :=
    step_cases w e
  · rw [heq]
    exact ⟨List.rel_append hw (.cons (hprogram o) .nil), hstart o _ _ hJ⟩
  · rw [heq]
    obtain ⟨g', hg', hallowed, hset⟩ := Pool.Follow.call hw hi
    rw [hg] at hg'
    cases hg'
    simp only [Meets, Pool.nextCall_of_thread hi] at hL
    exact ⟨hset _ (hanswers _ _), hcall _ _ i g c hJ hg hallowed hfree (hL hfree)⟩
  · rw [heq]
    exact ⟨hw, hJ⟩
  · rw [heq]
    exact ⟨hw, henv d _ _ hJ⟩

/-- The invariant holds throughout every run whose steps meet the condition. -/
theorem invariant (hanswers : ∀ s c, P.answers c (exec c s).1)
    (hprogram : ∀ o, Prog.Follows P Q (program o) (init o))
    (hstart : ∀ o s gs, J s gs → J s (gs ++ [init o]))
    (hcall : ∀ s gs i g c, J s gs → gs[i]? = some g → P.allowed g c → waits s c = false →
      L s gs i c → J (exec c s).2 (gs.set i (P.next g c (exec c s).1)))
    (henv : ∀ d s gs, J s gs → J (env d s) gs) {w : Staged C R E α S G} (hw : Follow P Q w)
    (hJ : J w.pool.store w.stages) {es : List (Pool.Event O D)}
    (hL : Runs.Along (step exec program env P init waits) (Meets waits L) es w) :
    Runs.Always (step exec program env P init waits)
      (fun w => Follow P Q w ∧ J w.pool.store w.stages) es w :=
  Runs.Always.of_along (fun _ _ ⟨hw, hJ⟩ hL =>
    invariant_step hanswers hprogram hstart hcall henv hw hJ hL) ⟨hw, hJ⟩ hL

/-- An invariant that also tells which answers the store gives, throughout every run that starts legal
programs only. -/
theorem always_started {T : O → Prop}
    (hprogram : ∀ o, T o → Prog.Follows P Q (program o) (init o))
    (hstart : ∀ o s gs, T o → J s gs → J s (gs ++ [init o]))
    (hcall : ∀ s gs i g c, J s gs → gs[i]? = some g → P.allowed g c → waits s c = false →
      P.answers c (exec c s).1 ∧ J (exec c s).2 (gs.set i (P.next g c (exec c s).1)))
    (henv : ∀ d s gs, J s gs → J (env d s) gs) {w : Staged C R E α S G} (hw : Follow P Q w)
    (hJ : J w.pool.store w.stages) {es : List (Pool.Event O D)} (hes : ∀ o, .start o ∈ es → T o) :
    Runs.Always (step exec program env P init waits)
      (fun w => Follow P Q w ∧ J w.pool.store w.stages) es w := by
  have hlegal : Runs.Along (step exec program env P init waits) (fun _ e => ∀ o, e = .start o → T o) es w :=
    .of_mem fun e he o heq => hes o (heq ▸ he)
  refine Runs.Always.of_along (fun w e ⟨hw, hJ⟩ he => ?_) ⟨hw, hJ⟩ hlegal
  obtain ⟨o, rfl, heq⟩ | ⟨i, c, k, g, rfl, hi, hg, hfree, heq⟩ | heq | ⟨d, rfl, heq⟩ :=
    step_cases w e
  · rw [heq]
    exact ⟨List.rel_append hw (.cons (hprogram o (he o rfl)) .nil), hstart o _ _ (he o rfl) hJ⟩
  · rw [heq]
    obtain ⟨g', hg', hallowed, hset⟩ := Pool.Follow.call hw hi
    rw [hg] at hg'
    cases hg'
    obtain ⟨hanswer, hnext⟩ := hcall _ _ i g c hJ hg hallowed hfree
    exact ⟨hset _ hanswer, hnext⟩
  · rw [heq]
    exact ⟨hw, hJ⟩
  · rw [heq]
    exact ⟨hw, henv d _ _ hJ⟩

/-! ## The pool without its stages -/

/-- Every thread has a stage. -/
def Complete (w : Staged C R E α S G) : Prop := w.stages.length = w.pool.threads.length

theorem Complete.step {w : Staged C R E α S G} (h : Complete w) (e : Pool.Event O D) :
    Complete (step exec program env P init waits e w) := by
  unfold Complete at h ⊢
  obtain ⟨o, _, heq⟩ | ⟨i, c, k, g, _, _, _, _, heq⟩ | heq | ⟨d, _, heq⟩ :=
    step_cases w e <;>
    rw [heq] <;> simp [h]

/-- Where nothing has to wait, the pool takes the step it takes without the stages. -/
theorem step_pool {w : Staged C R E α S G} (h : Complete w) (e : Pool.Event O D) :
    (step exec program env P init (fun _ _ => false) e w).pool =
      Pool.step exec program env e w.pool := by
  cases e with
  | start o => rfl
  | pass d => rfl
  | advance i =>
    simp only [step, advance, Pool.step]
    cases ht : w.pool.threads[i]? with
    | none => rfl
    | some t =>
      obtain ⟨hlt, _⟩ := List.getElem?_eq_some_iff.mp ht
      have hg : w.stages[i]? = some (w.stages.get ⟨i, h ▸ hlt⟩) := List.getElem?_eq_getElem _
      cases t with
      | ret a => rfl
      | fail e => rfl
      | call c k => simp [hg, Prog.step]

theorem final_pool {w : Staged C R E α S G} (h : Complete w) (es : List (Pool.Event O D)) :
    (Runs.final (step exec program env P init fun _ _ => false) es w).pool =
      Runs.final (Pool.step exec program env) es w.pool := by
  induction es generalizing w with
  | nil => rfl
  | cons e es ih =>
    rw [Runs.final, Runs.final, ih (h.step e), step_pool h e]

end Staged

end Relay.Lib
