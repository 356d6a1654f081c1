import Relay.Lib.Prog

/-!
# Calls that fail

`faulty` makes some calls of a program fail: those that can fail are counted along with the store, and
`fault` says which of them fail and how. A call that fails leaves the store alone. `amid` also lets the
world around the store move on between the calls.
-/

namespace Relay.Lib

variable {C : Type} {R : C → Type} {E α S : Type}

/-- A store, and how many of the calls that can fail have been made. -/
abbrev Faulty (S : Type) := S × Nat

/-- The calls that `can` selects fail where `fault` says so. -/
def faulty (exec : (c : C) → S → Except E (R c) × S) (can : C → Bool) (fault : Nat → Option E) :
    (c : C) → Faulty S → Except E (R c) × Faulty S
  | c, (s, n) =>
    if can c then
      match fault n with
      | some e => (.error e, (s, n + 1))
      | none => ((exec c s).1, ((exec c s).2, n + 1))
    else ((exec c s).1, ((exec c s).2, n))

/-- What the calls keep is kept when some of them fail. -/
theorem faulty_keeps {exec : (c : C) → S → Except E (R c) × S} {can : C → Bool} {fault : Nat → Option E}
    {I : S → Prop} {c : C} {t : Faulty S} (hcall : I t.1 → I (exec c t.1).2) (h : I t.1) :
    I (faulty exec can fault c t).2.1 := by
  obtain ⟨s, n⟩ := t
  simp only [faulty]
  split
  · split
    · exact h
    · exact hcall h
  · exact hcall h

namespace Prog

variable {exec : (c : C) → S → Except E (R c) × S} {can : C → Bool} {fault : Nat → Option E}

theorem run_faulty_safe {c : C} (h : can c = false) (s : S) (n : Nat) :
    run (faulty exec can fault) (perform c) (s, n) = ((exec c s).1, ((exec c s).2, n)) := by
  rw [run_perform]
  simp [faulty, h]

theorem run_faulty_fails {c : C} {e : E} {n : Nat} (h : can c = true) (hn : fault n = some e) (s : S) :
    run (faulty exec can fault) (perform c) (s, n) = (.error e, (s, n + 1)) := by
  rw [run_perform]
  simp [faulty, h, hn]

theorem run_faulty_works {c : C} {n : Nat} (h : can c = true) (hn : fault n = none) (s : S) :
    run (faulty exec can fault) (perform c) (s, n) = ((exec c s).1, ((exec c s).2, n + 1)) := by
  rw [run_perform]
  simp [faulty, h, hn]

/-- A call that succeeds has done what it does alone. -/
theorem run_faulty_ok {c : C} {r : R c} {s s' : S} {n m : Nat}
    (h : run (faulty exec can fault) (perform c) (s, n) = (.ok r, (s', m))) : exec c s = (.ok r, s') := by
  cases hc : can c with
  | false =>
    rw [run_faulty_safe hc] at h
    have hresult := congrArg Prod.fst h
    have hstore := congrArg (fun x => x.2.1) h
    exact Prod.ext hresult hstore
  | true =>
    cases hn : fault n with
    | some e =>
      rw [run_faulty_fails hc hn] at h
      cases h
    | none =>
      rw [run_faulty_works hc hn] at h
      have hresult := congrArg Prod.fst h
      have hstore := congrArg (fun x => x.2.1) h
      exact Prod.ext hresult hstore

/-- A program none of whose calls can fail. -/
theorem run_faulty_of_sat {p : Prog C R E α} (h : Sat (fun _ _ => True) (fun c => can c = false) p)
    (s : S) (n : Nat) :
    run (faulty exec can fault) p (s, n) = ((run exec p s).1, ((run exec p s).2, n)) := by
  induction p generalizing s with
  | ret a => rfl
  | fail e => rfl
  | call c k ih =>
    obtain ⟨hc, hk⟩ := h
    rw [run_call, run_call]
    simp only [faulty, hc]
    exact ih _ (hk _ trivial) _

/-- A program none of whose calls fails any more does what it does alone. -/
theorem run_faulty_of_none {n : Nat} (h : ∀ i, n ≤ i → fault i = none) (p : Prog C R E α) (s : S) :
    ∃ m, n ≤ m ∧ run (faulty exec can fault) p (s, n) = ((run exec p s).1, ((run exec p s).2, m)) := by
  induction p generalizing s n with
  | ret a => exact ⟨n, Nat.le_refl n, rfl⟩
  | fail e => exact ⟨n, Nat.le_refl n, rfl⟩
  | call c k ih =>
    have hn := h n (Nat.le_refl n)
    cases hc : can c with
    | true =>
      obtain ⟨m, hm, heq⟩ := ih (exec c s).1 (n := n + 1) (fun i hi => h i (by omega)) (exec c s).2
      refine ⟨m, by omega, ?_⟩
      rw [run_call, run_call, ← heq]
      simp [faulty, hc, hn]
    | false =>
      obtain ⟨m, hm, heq⟩ := ih (exec c s).1 h (exec c s).2
      refine ⟨m, hm, ?_⟩
      rw [run_call, run_call, ← heq]
      simp [faulty, hc]

end Prog

/-! ## Calls amid a changing world -/

variable {D : Type}

/-- The calls while the world around the store moves on: at each call the next element of the list says
what happens after it, and whether the call fails. -/
def amid (exec : (c : C) → S → Except E (R c) × S) (env : D → S → S) (fault : D → Option E) :
    (c : C) → S × List D → Except E (R c) × S × List D
  | c, (s, []) => ((exec c s).1, ((exec c s).2, []))
  | c, (s, d :: ds) =>
    match fault d with
    | some e => (.error e, (env d s, ds))
    | none => ((exec c s).1, (env d (exec c s).2, ds))

section Amid

variable {exec : (c : C) → S → Except E (R c) × S} {env : D → S → S} {fault : D → Option E} {c : C}
  {t : S × List D}

/-- What both a call and the world keep is kept. -/
theorem amid_keeps {I : S → Prop} (hcall : I t.1 → I (exec c t.1).2) (henv : ∀ d s, I s → I (env d s))
    (h : I t.1) : I (amid exec env fault c t).2.1 := by
  obtain ⟨s, ds⟩ := t
  cases ds with
  | nil => exact hcall h
  | cons d ds =>
    simp only [amid]
    split
    · exact henv d _ h
    · exact henv d _ (hcall h)

/-- A call that succeeds has done what it does alone, and the world has moved on. -/
theorem amid_ok {a : R c} (h : (amid exec env fault c t).1 = .ok a) :
    (exec c t.1).1 = .ok a ∧ ((amid exec env fault c t).2.1 = (exec c t.1).2 ∨
      ∃ d, (amid exec env fault c t).2.1 = env d (exec c t.1).2) := by
  obtain ⟨s, ds⟩ := t
  cases ds with
  | nil => exact ⟨h, .inl rfl⟩
  | cons d ds =>
    simp only [amid] at h ⊢
    cases hfault : fault d with
    | some e =>
      rw [hfault] at h
      cases h
    | none =>
      rw [hfault] at h
      exact ⟨h, .inr ⟨d, rfl⟩⟩

end Amid

end Relay.Lib
