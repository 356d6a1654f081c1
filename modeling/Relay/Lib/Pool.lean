import Mathlib.Data.List.Basic
import Relay.Lib.Runs
import Relay.Lib.Prog

/-!
# Programs that share a store

A pool is a store with the programs that run on it; one program at a time makes its next call.
`Guards` is what has to be shown of one program so that an invariant of the store survives the
others: each call is legal in every store the others can have left, given that they only take the
store upwards in the preorder `le`. `Pool.invariant` puts the programs together.
-/

namespace Relay.Lib

variable {C : Type} {R : C → Type} {E α β S O D : Type}

namespace Prog

variable (exec : (c : C) → S → Except E (R c) × S) (I : S → Prop) (le : S → S → Prop)
  (L : S → C → Prop)

/-- Between any two calls of the program the others can take the store upwards, to any store that
satisfies `I`. Every call is legal in the store it then meets, and what the program returns
satisfies `Q`. -/
def Guards (Q : α → S → Prop) : Prog C R E α → S → Prop
  | ret a, s => Q a s
  | fail _, _ => True
  | call c k, s =>
    ∀ s', I s' → le s s' → L s' c ∧ Guards Q (k (exec c s').1) (exec c s').2

variable {exec I le L}

@[simp] theorem guards_ret {Q : α → S → Prop} {a : α} {s : S} :
    Guards exec I le L Q (ret a : Prog C R E α) s ↔ Q a s := Iff.rfl

@[simp] theorem guards_fail {Q : α → S → Prop} {e : E} {s : S} :
    Guards exec I le L Q (fail e : Prog C R E α) s := trivial

theorem guards_bind {Q : α → S → Prop} {Q' : β → S → Prop} {p : Prog C R E α}
    {f : α → Prog C R E β} {s : S} (hp : Guards exec I le L Q p s)
    (hf : ∀ a s', Q a s' → Guards exec I le L Q' (f a) s') :
    Guards exec I le L Q' (p >>= f) s := by
  induction p generalizing s with
  | ret a => exact hf a s hp
  | fail e => trivial
  | call c k ih =>
    intro s' hI hle
    obtain ⟨hL, hk⟩ := hp s' hI hle
    exact ⟨hL, ih _ hk⟩

/-- One call, with what its answer says about the store it was made in. -/
theorem guards_perform {Q : R c → S → Prop} {s : S}
    (h : ∀ s', I s' → le s s' →
      L s' c ∧ ∀ a, (exec c s').1 = .ok a → Q a (exec c s').2) :
    Guards exec I le L Q (perform c : Prog C R E (R c)) s := by
  intro s' hI hle
  obtain ⟨hL, hQ⟩ := h s' hI hle
  refine ⟨hL, ?_⟩
  cases hr : (exec c s').1 with
  | error e => trivial
  | ok a => exact hQ a hr

theorem Guards.mono {Q Q' : α → S → Prop} (hQ : ∀ a s, Q a s → Q' a s) {p : Prog C R E α}
    {s : S} (h : Guards exec I le L Q p s) : Guards exec I le L Q' p s := by
  induction p generalizing s with
  | ret a => exact hQ a s h
  | fail e => trivial
  | call c k ih =>
    intro s' hI hle
    obtain ⟨hL, hk⟩ := h s' hI hle
    exact ⟨hL, ih _ hk⟩

/-- Whether the program fails or not, the store has only gone up. -/
theorem Guards.attempt (htrans : ∀ s s' s'', le s s' → le s' s'' → le s s'')
    (hstep : ∀ s c, I s → L s c → le s (exec c s).2) {Q : α → S → Prop} {p : Prog C R E α}
    {s₀ s : S} (h : Guards exec I le L Q p s) (hs : le s₀ s) :
    Guards exec I le L (fun _ t => le s₀ t) p.attempt s := by
  induction p generalizing s with
  | ret a => exact hs
  | fail e => exact hs
  | call c k ih =>
    intro s' hI hle
    obtain ⟨hL, hk⟩ := h s' hI hle
    exact ⟨hL, ih _ hk (htrans _ _ _ hs (htrans _ _ _ hle (hstep s' c hI hL)))⟩

/-- A program all of whose calls are legal in every store that satisfies the invariant, when such stores
answer them as the program expects. -/
theorem guards_of_sat {A : (c : C) → Except E (R c) → Prop} {G : C → Prop}
    (hG : ∀ s c, I s → G c → L s c ∧ A c (exec c s).1) {p : Prog C R E α} (h : Sat A G p) (s : S) :
    Guards exec I le L (fun _ _ => True) p s := by
  induction p generalizing s with
  | ret a => trivial
  | fail e => trivial
  | call c k ih =>
    intro s' hI _
    obtain ⟨hL, hA⟩ := hG s' c hI h.1
    exact ⟨hL, ih _ (h.2 _ hA) _⟩

/-- The others may go on. -/
theorem Guards.later (htrans : ∀ s s' s'', le s s' → le s' s'' → le s s'') {p : Prog C R E α}
    {s s' : S} (h : Guards exec I le L (fun _ _ => True) p s) (hle : le s s') :
    Guards exec I le L (fun _ _ => True) p s' := by
  cases p with
  | ret a => trivial
  | fail e => trivial
  | call c k => exact fun s'' hI hle' => h s'' hI (htrans _ _ _ hle hle')

/-- Run alone, the program makes legal calls only. -/
theorem Guards.calls (hrefl : ∀ s, le s s) (hstep : ∀ s c, I s → L s c → I (exec c s).2)
    {Q : α → S → Prop} {p : Prog C R E α} {s : S} (h : Guards exec I le L Q p s) (hs : I s) :
    Calls exec L p s := by
  induction p generalizing s with
  | ret a => trivial
  | fail e => trivial
  | call c k ih =>
    obtain ⟨hL, hk⟩ := h s hs (hrefl s)
    exact ⟨hL, ih _ hk (hstep s c hs hL)⟩

/-- Run alone, the program ends as it says. -/
theorem Guards.run_ok (hrefl : ∀ s, le s s) (hstep : ∀ s c, I s → L s c → I (exec c s).2)
    {Q : α → S → Prop} {p : Prog C R E α} {s s' : S} {a : α} (h : Guards exec I le L Q p s) (hs : I s)
    (hrun : run exec p s = (.ok a, s')) : Q a s' := by
  induction p generalizing s with
  | ret b =>
    cases hrun
    exact h
  | fail e => cases hrun
  | call c k ih =>
    obtain ⟨hL, hk⟩ := h s hs (hrefl s)
    exact ih _ hk (hstep s c hs hL) hrun

/-- The program run while the world around the store moves on: after each call, as the next element of
the list says. -/
def runUnder (exec : (c : C) → S → Except E (R c) × S) (env : D → S → S) :
    Prog C R E α → List D → S → Except E α × S
  | ret a, _, s => (.ok a, s)
  | fail e, _, s => (.error e, s)
  | call c k, [], s => runUnder exec env (k (exec c s).1) [] (exec c s).2
  | call c k, d :: ds, s => runUnder exec env (k (exec c s).1) ds (env d (exec c s).2)

theorem runUnder_nil (env : D → S → S) (p : Prog C R E α) (s : S) :
    runUnder exec env p [] s = run exec p s := by
  induction p generalizing s with
  | ret a => rfl
  | fail e => rfl
  | call c k ih => exact ih _ _

/-- A guarded program keeps the invariant, whatever the world does meanwhile. -/
theorem Guards.runUnder {env : D → S → S} (hrefl : ∀ s, le s s)
    (hlegal : ∀ s c, I s → L s c → I (exec c s).2)
    (henv : ∀ d s, I s → I (env d s) ∧ le s (env d s)) {Q : α → S → Prop} {p : Prog C R E α}
    {s s' : S} (h : Guards exec I le L Q p s) (hI : I s') (hle : le s s') (ds : List D) :
    I (runUnder exec env p ds s').2 := by
  induction p generalizing s s' ds with
  | ret a => exact hI
  | fail e => exact hI
  | call c k ih =>
    obtain ⟨hL, hk⟩ := h s' hI hle
    have hI' := hlegal s' c hI hL
    cases ds with
    | nil => exact ih _ hk hI' (hrefl _) []
    | cons d ds =>
      obtain ⟨henvI, henvle⟩ := henv d _ hI'
      exact ih _ hk henvI henvle ds

end Prog

/-- A store and the programs that use it. -/
structure Pool (C : Type) (R : C → Type) (E α S : Type) where
  store : S
  threads : List (Prog C R E α)

/-- What can happen next: a request starts its program, a program makes its next call, or the world
around the store moves on. -/
inductive Pool.Event (O D : Type) where
  | start (o : O)
  | advance (i : Nat)
  | pass (d : D)

namespace Pool

variable (exec : (c : C) → S → Except E (R c) × S) (program : O → Prog C R E α)
  (env : D → S → S)

def step : Event O D → Pool C R E α S → Pool C R E α S
  | .start o, p => { p with threads := p.threads ++ [program o] }
  | .advance i, p =>
    match p.threads[i]? with
    | none => p
    | some t =>
      match Prog.step exec t p.store with
      | none => p
      | some (t', s') => { store := s', threads := p.threads.set i t' }
  | .pass d, p => { p with store := env d p.store }

theorem step_call {p : Pool C R E α S} {i : Nat} {c : C} {k : Except E (R c) → Prog C R E α}
    (hi : p.threads[i]? = some (.call c k)) :
    step exec program env (.advance i) p =
      ⟨(exec c p.store).2, p.threads.set i (k (exec c p.store).1)⟩ := by
  simp only [step, hi, Prog.step]

variable {exec program env} {I : S → Prop} {le : S → S → Prop} {L : S → C → Prop}

/-- The invariant holds of the store, and every program keeps to legal calls from there on. -/
def Guarded (exec : (c : C) → S → Except E (R c) × S) (I : S → Prop) (le : S → S → Prop)
    (L : S → C → Prop) (p : Pool C R E α S) : Prop :=
  I p.store ∧ ∀ t ∈ p.threads, Prog.Guards exec I le L (fun _ _ => True) t p.store

theorem Guarded.step (hrefl : ∀ s, le s s) (htrans : ∀ s s' s'', le s s' → le s' s'' → le s s'')
    (hlegal : ∀ s c, I s → L s c → I (exec c s).2 ∧ le s (exec c s).2)
    (henv : ∀ d s, I s → I (env d s) ∧ le s (env d s))
    (hprogram : ∀ o s, I s → Prog.Guards exec I le L (fun _ _ => True) (program o) s)
    {p : Pool C R E α S} (h : Guarded exec I le L p) (e : Event O D) :
    Guarded exec I le L (step exec program env e p) := by
  obtain ⟨hI, hthreads⟩ := h
  cases e with
  | start o =>
    refine ⟨hI, fun t ht => ?_⟩
    rcases List.mem_append.mp ht with ht | ht
    · exact hthreads t ht
    · rw [List.mem_singleton.mp ht]
      exact hprogram o p.store hI
  | advance i =>
    simp only [Pool.step]
    split
    · exact ⟨hI, hthreads⟩
    · next t hi =>
      split
      · exact ⟨hI, hthreads⟩
      · next t' s' hstep =>
        obtain ⟨c, k, rfl, rfl, rfl⟩ := Prog.step_eq_some hstep
        have ht := hthreads _ (List.mem_of_getElem? hi)
        obtain ⟨hL, hk⟩ := ht p.store hI (hrefl p.store)
        obtain ⟨hI', hle⟩ := hlegal p.store c hI hL
        refine ⟨hI', fun t₁ ht₁ => ?_⟩
        rcases List.mem_or_eq_of_mem_set ht₁ with ht₁ | rfl
        · exact (hthreads t₁ ht₁).later htrans hle
        · exact hk
  | pass d =>
    obtain ⟨hI', hle⟩ := henv d p.store hI
    exact ⟨hI', fun t ht => (hthreads t ht).later htrans hle⟩

/-- An invariant that legal calls and the world keep holds in every store a pool of guarded
programs reaches. -/
theorem invariant (hrefl : ∀ s, le s s)
    (htrans : ∀ s s' s'', le s s' → le s' s'' → le s s'')
    (hlegal : ∀ s c, I s → L s c → I (exec c s).2 ∧ le s (exec c s).2)
    (henv : ∀ d s, I s → I (env d s) ∧ le s (env d s))
    (hprogram : ∀ o s, I s → Prog.Guards exec I le L (fun _ _ => True) (program o) s)
    {s : S} (hs : I s) (es : List (Event O D)) :
    I (Runs.final (step exec program env) es ⟨s, []⟩).store := by
  have hall : Runs.Always (step exec program env) (Guarded exec I le L) es ⟨s, []⟩ :=
    Runs.Always.of_step (fun p e h => h.step hrefl htrans hlegal henv hprogram e)
      ⟨hs, fun t ht => absurd ht List.not_mem_nil⟩
  exact hall.final.1

/-- What every call and the world keep stays, whatever the threads of the pool do. -/
theorem stable (hcall : ∀ c s, I s → I (exec c s).2) (henv : ∀ d s, I s → I (env d s))
    {p : Pool C R E α S} (h : I p.store) (es : List (Event O D)) :
    I (Runs.final (step exec program env) es p).store := by
  refine (Runs.Always.of_step (I := fun p : Pool C R E α S => I p.store) ?_ h).final
  intro p e hp
  cases e with
  | start o => exact hp
  | advance i =>
    simp only [Pool.step]
    split
    · exact hp
    · split
      · exact hp
      · next t' s' hstep =>
        obtain ⟨c, k, rfl, rfl, rfl⟩ := Prog.step_eq_some hstep
        exact hcall c p.store hp
  | pass d => exact henv d p.store hp

/-- A thread that is advanced until it ends has run alone. -/
theorem run_thread (exec : (c : C) → S → Except E (R c) × S) (program : O → Prog C R E α)
    (env : D → S → S) (t : Prog C R E α) {p : Pool C R E α S} {i : Nat}
    (ht : p.threads[i]? = some t) :
    ∃ es : List (Event O D),
      (Runs.final (step exec program env) es p).store = (Prog.run exec t p.store).2 := by
  induction t generalizing p with
  | ret a => exact ⟨[], rfl⟩
  | fail e => exact ⟨[], rfl⟩
  | call c k ih =>
    obtain ⟨hi, _⟩ := List.getElem?_eq_some_iff.mp ht
    obtain ⟨es, hes⟩ := ih (exec c p.store).1
      (p := ⟨(exec c p.store).2, p.threads.set i (k (exec c p.store).1)⟩)
      (List.getElem?_set_self hi)
    refine ⟨.advance i :: es, ?_⟩
    rw [Runs.final, step_call exec program env ht]
    exact hes

end Pool

end Relay.Lib
