import Relay.Lib.Prog

/-!
# Failures that leave the store as it was

For a kind `K` of failures, a program is `Atomic` in a store when a run that ends with a failure of
that kind has changed nothing, and `Commits` when no run ends so. A program that checks first and
writes later is atomic: its checks change nothing, and what follows the first write commits. Failures
outside `K`, such as those of the calls themselves, are left open.
-/

namespace Relay.Lib.Prog

variable {C : Type} {R : C → Type} {E α β S : Type}

section Atomic

variable (exec : (c : C) → S → Except E (R c) × S) (K : E → Prop)

/-- Run alone in `s`, the program does not end with a failure of the kind `K`. -/
def Commits (p : Prog C R E α) (s : S) : Prop := ∀ e, K e → (run exec p s).1 ≠ .error e

/-- Run alone in `s`, the program leaves `s` as it is when it ends with a failure of the kind `K`. -/
def Atomic (p : Prog C R E α) (s : S) : Prop :=
  ∀ e, K e → (run exec p s).1 = .error e → (run exec p s).2 = s

/-- Run alone, the program leaves every store as it is. -/
def Idle (p : Prog C R E α) : Prop := ∀ s, (run exec p s).2 = s

variable {exec K} {p : Prog C R E α} {f : α → Prog C R E β} {s : S}

/-! ## Programs that only read -/

theorem Idle.of_sat (h : Sat (fun _ _ => True) (fun c => ∀ s, (exec c s).2 = s) p) :
    Idle exec p := by
  intro s
  induction p generalizing s with
  | ret a => rfl
  | fail e => rfl
  | call c k ih =>
    rw [run_call, ih _ (h.2 _ trivial), h.1 s]

theorem Idle.run_eq (h : Idle exec p) (s : S) : run exec p s = ((run exec p s).1, s) :=
  Prod.ext rfl (h s)

/-! ## Programs that cannot be stopped -/

theorem commits_ret (a : α) : Commits exec K (ret a : Prog C R E α) s := fun _ _ h => nomatch h

theorem commits_perform {c : C} (h : ∀ e, K e → (exec c s).1 ≠ .error e) :
    Commits exec K (perform c) s := by
  intro e he
  rw [run_perform]
  exact h e he

theorem commits_bind (hp : Commits exec K p s)
    (hf : ∀ a t, run exec p s = (.ok a, t) → Commits exec K (f a) t) :
    Commits exec K (p >>= f) s := by
  intro e he
  rcases hrun : run exec p s with ⟨e' | a, t⟩
  · rw [run_bind_error exec hrun]
    rintro ⟨⟩
    exact hp _ he (congrArg Prod.fst hrun)
  · rw [run_bind_ok exec hrun]
    exact hf a t hrun e he

/-! ## Programs that are stopped before they write -/

theorem Commits.atomic (h : Commits exec K p s) : Atomic exec K p s :=
  fun e he hrun => absurd hrun (h e he)

theorem atomic_ret (a : α) : Atomic exec K (ret a : Prog C R E α) s := (commits_ret a).atomic

theorem atomic_fail (e : E) : Atomic exec K (fail e : Prog C R E α) s := fun _ _ _ => rfl

theorem Idle.atomic (h : Idle exec p) : Atomic exec K p s := fun _ _ _ => h s

/-- A part that only reads, with what is known of its value. -/
theorem atomic_read (hp : (run exec p s).2 = s)
    (hf : ∀ a, run exec p s = (.ok a, s) → Atomic exec K (f a) s) :
    Atomic exec K (p >>= f) s := by
  intro e he
  rcases hrun : run exec p s with ⟨e' | a, t⟩ <;> rw [hrun] at hp <;> cases hp
  · rw [run_bind_error exec hrun]
    exact fun _ => rfl
  · rw [run_bind_ok exec hrun]
    exact hf a hrun e he

/-- After the part that may be stopped, the rest goes on to its end. -/
theorem atomic_bind (hp : Atomic exec K p s)
    (hf : ∀ a t, run exec p s = (.ok a, t) → Commits exec K (f a) t) :
    Atomic exec K (p >>= f) s := by
  intro e he
  rcases hrun : run exec p s with ⟨e' | a, t⟩
  · rw [run_bind_error exec hrun]
    rintro ⟨⟩
    have hstore := hp _ he (congrArg Prod.fst hrun)
    rwa [hrun] at hstore
  · rw [run_bind_ok exec hrun]
    exact fun heq => absurd heq (hf a t hrun e he)

end Atomic

end Relay.Lib.Prog
