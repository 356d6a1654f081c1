import Mathlib.Logic.Basic

/-!
# Programs over calls to a shared store

A request handler is a sequence of calls to a store (a repository, a key-value server) with pure
computation between them. `Prog` keeps the calls apart from what they do: one handler can be run
alone (`run`), or step by step between the calls of other handlers (`Prog.step`). A call can fail,
and a handler can fail by itself or go on after a failed call (`attempt`).

Three kinds of statement about a program are stated here with their rules: what calls it makes in
a run (`Calls`), what calls it makes whatever the answers are (`Sat`), and that runs from two stores
have the same outcome (`Same`).
-/

namespace Relay.Lib

/-- A program that makes calls `c : C`, each answered by a value of `R c` or an error. -/
inductive Prog (C : Type) (R : C → Type) (E α : Type) where
  | ret (a : α)
  | fail (e : E)
  | call (c : C) (k : Except E (R c) → Prog C R E α)

namespace Prog

variable {C : Type} {R : C → Type} {E α β γ S : Type}

protected def bind : Prog C R E α → (α → Prog C R E β) → Prog C R E β
  | ret a, f => f a
  | fail e, _ => fail e
  | call c k, f => call c fun r => (k r).bind f

instance : Monad (Prog C R E) where
  pure := ret
  bind := Prog.bind

/-- One call; an error of the call fails the program. -/
def perform (c : C) : Prog C R E (R c) :=
  call c fun
    | .ok r => ret r
    | .error e => fail e

/-- The program with its failure, its own or that of a call, returned as a value. -/
def attempt : Prog C R E α → Prog C R E (Except E α)
  | ret a => ret (.ok a)
  | fail e => ret (.error e)
  | call c k => call c fun r => (k r).attempt

@[simp] theorem pure_def (a : α) : (pure a : Prog C R E α) = ret a := rfl

@[simp] theorem ret_bind (a : α) (f : α → Prog C R E β) : ret a >>= f = f a := rfl

@[simp] theorem fail_bind (e : E) (f : α → Prog C R E β) : fail e >>= f = fail e := rfl

@[simp] theorem call_bind (c : C) (k : Except E (R c) → Prog C R E α) (f : α → Prog C R E β) :
    call c k >>= f = call c fun r => k r >>= f := rfl

theorem bind_assoc' (p : Prog C R E α) (f : α → Prog C R E β) (g : β → Prog C R E γ) :
    (p >>= f) >>= g = p >>= fun a => f a >>= g := by
  induction p with
  | ret a => rfl
  | fail e => rfl
  | call c k ih =>
    simp only [call_bind]
    congr 1
    exact funext ih

theorem bind_ret (p : Prog C R E α) : p >>= ret = p := by
  induction p with
  | ret a => rfl
  | fail e => rfl
  | call c k ih =>
    simp only [call_bind]
    congr 1
    exact funext ih

instance : LawfulMonad (Prog C R E) :=
  LawfulMonad.mk' _ bind_ret (fun _ _ => rfl) bind_assoc'

/-! ## Running a program alone -/

section Run

variable (exec : (c : C) → S → Except E (R c) × S)

/-- The result of the program and the store it leaves, when nothing else uses the store. -/
def run : Prog C R E α → S → Except E α × S
  | ret a, s => (.ok a, s)
  | fail e, s => (.error e, s)
  | call c k, s => run (k (exec c s).1) (exec c s).2

@[simp] theorem run_ret (a : α) (s : S) : run exec (ret a : Prog C R E α) s = (.ok a, s) := rfl

@[simp] theorem run_fail (e : E) (s : S) :
    run exec (fail e : Prog C R E α) s = (.error e, s) := rfl

@[simp] theorem run_call (c : C) (k : Except E (R c) → Prog C R E α) (s : S) :
    run exec (call c k) s = run exec (k (exec c s).1) (exec c s).2 := rfl

theorem run_perform (c : C) (s : S) : run exec (perform c) s = exec c s := by
  unfold perform
  rw [run_call]
  rcases exec c s with ⟨_ | r, s'⟩ <;> rfl

theorem run_bind (p : Prog C R E α) (f : α → Prog C R E β) (s : S) :
    run exec (p >>= f) s =
      match run exec p s with
      | (.ok a, s') => run exec (f a) s'
      | (.error e, s') => (.error e, s') := by
  induction p generalizing s with
  | ret a => rfl
  | fail e => rfl
  | call c k ih => exact ih _ _

theorem run_bind_ok {p : Prog C R E α} {f : α → Prog C R E β} {s s' : S} {a : α}
    (h : run exec p s = (.ok a, s')) : run exec (p >>= f) s = run exec (f a) s' := by
  rw [run_bind, h]

theorem run_bind_error {p : Prog C R E α} {f : α → Prog C R E β} {s s' : S} {e : E}
    (h : run exec p s = (.error e, s')) : run exec (p >>= f) s = (.error e, s') := by
  rw [run_bind, h]

/-- What is done with the value changes nothing in the store. -/
theorem run_map (f : α → β) (p : Prog C R E α) (s : S) :
    run exec (f <$> p) s = ((run exec p s).1.map f, (run exec p s).2) := by
  change run exec (p >>= fun a => ret (f a)) s = _
  rw [run_bind]
  rcases run exec p s with ⟨e | a, s'⟩ <;> rfl

/-- A sequence that succeeds has run its first part to success. -/
theorem run_bind_inv {p : Prog C R E α} {f : α → Prog C R E β} {s s'' : S} {b : β}
    (h : run exec (p >>= f) s = (.ok b, s'')) :
    ∃ a s', run exec p s = (.ok a, s') ∧ run exec (f a) s' = (.ok b, s'') := by
  rw [run_bind] at h
  rcases hp : run exec p s with ⟨e | a, s'⟩
  · rw [hp] at h
    cases h
  · rw [hp] at h
    exact ⟨a, s', rfl, h⟩

theorem run_attempt (p : Prog C R E α) (s : S) :
    run exec p.attempt s = (.ok (run exec p s).1, (run exec p s).2) := by
  induction p generalizing s with
  | ret a => rfl
  | fail e => rfl
  | call c k ih => exact ih _ _

/-! ## The calls of a run -/

/-- Every call the run makes satisfies `L` at the store it is made in. -/
def Calls (L : S → C → Prop) : Prog C R E α → S → Prop
  | ret _, _ => True
  | fail _, _ => True
  | call c k, s => L s c ∧ Calls L (k (exec c s).1) (exec c s).2

@[simp] theorem calls_ret (L : S → C → Prop) (a : α) (s : S) :
    Calls exec L (ret a : Prog C R E α) s := trivial

@[simp] theorem calls_fail (L : S → C → Prop) (e : E) (s : S) :
    Calls exec L (fail e : Prog C R E α) s := trivial

variable {exec}

/-- Any call is some call. -/
theorem calls_true (p : Prog C R E α) (s : S) : Calls exec (fun _ _ => True) p s := by
  induction p generalizing s with
  | ret a => trivial
  | fail e => trivial
  | call c k ih => exact ⟨trivial, ih _ _⟩

theorem calls_perform {L : S → C → Prop} {c : C} {s : S} (h : L s c) :
    Calls exec L (perform c : Prog C R E (R c)) s := by
  refine ⟨h, ?_⟩
  rcases exec c s with ⟨_ | r, s'⟩ <;> trivial

theorem calls_bind {L : S → C → Prop} {p : Prog C R E α} {f : α → Prog C R E β} {s : S}
    (hp : Calls exec L p s)
    (hf : ∀ a s', run exec p s = (.ok a, s') → Calls exec L (f a) s') :
    Calls exec L (p >>= f) s := by
  induction p generalizing s with
  | ret a => exact hf a s rfl
  | fail e => trivial
  | call c k ih => exact ⟨hp.1, ih _ hp.2 hf⟩

theorem Calls.bind_left {L : S → C → Prop} {p : Prog C R E α} {f : α → Prog C R E β} {s : S}
    (h : Calls exec L (p >>= f) s) : Calls exec L p s := by
  induction p generalizing s with
  | ret a => trivial
  | fail e => trivial
  | call c k ih => exact ⟨h.1, ih _ h.2⟩

theorem Calls.bind_right {L : S → C → Prop} {p : Prog C R E α} {f : α → Prog C R E β} {s s' : S}
    {a : α} (h : Calls exec L (p >>= f) s) (hp : run exec p s = (.ok a, s')) :
    Calls exec L (f a) s' := by
  induction p generalizing s with
  | ret a' =>
    cases hp
    exact h
  | fail e => cases hp
  | call c k ih => exact ih _ h.2 hp

/-- After a part that makes legal calls only, the rest decides. -/
theorem calls_bind_ok {L : S → C → Prop} {p : Prog C R E α} {f : α → Prog C R E β} {s s' : S} {a : α}
    (hp : Calls exec L p s) (hrun : run exec p s = (.ok a, s')) :
    Calls exec L (p >>= f) s ↔ Calls exec L (f a) s' := by
  refine ⟨fun h => h.bind_right hrun, fun h => calls_bind hp fun b t hb => ?_⟩
  obtain ⟨hab, rfl⟩ := Prod.mk.inj (hrun.symm.trans hb)
  cases hab
  exact h

/-- After a part that fails, nothing follows. -/
theorem calls_bind_error {L : S → C → Prop} {p : Prog C R E α} {f : α → Prog C R E β} {s s' : S} {e : E}
    (hp : Calls exec L p s) (hrun : run exec p s = (.error e, s')) : Calls exec L (p >>= f) s :=
  calls_bind hp fun b t hb => by
    rw [hrun] at hb
    cases hb

theorem Calls.of_attempt {L : S → C → Prop} {p : Prog C R E α} {s : S}
    (h : Calls exec L p.attempt s) : Calls exec L p s := by
  induction p generalizing s with
  | ret a => trivial
  | fail e => trivial
  | call c k ih => exact ⟨h.1, ih _ h.2⟩

theorem Calls.mono {L M : S → C → Prop} (hLM : ∀ s c, L s c → M s c) {p : Prog C R E α} {s : S}
    (h : Calls exec L p s) : Calls exec M p s := by
  induction p generalizing s with
  | ret a => trivial
  | fail e => trivial
  | call c k ih => exact ⟨hLM _ _ h.1, ih _ h.2⟩

/-- What each legal call keeps, the run keeps. -/
theorem Calls.preserves {L : S → C → Prop} {I : S → Prop}
    (hI : ∀ s c, L s c → I s → I (exec c s).2) {p : Prog C R E α} {s : S}
    (h : Calls exec L p s) (hs : I s) : I (run exec p s).2 := by
  induction p generalizing s with
  | ret a => exact hs
  | fail e => exact hs
  | call c k ih => exact ih _ h.2 (hI _ _ h.1 hs)

/-- Calls that are legal as long as the invariant they keep holds are legal. -/
theorem Calls.and_inv {L : S → C → Prop} {I : S → Prop}
    (hI : ∀ s c, L s c → I s → I (exec c s).2) {p : Prog C R E α} {s : S}
    (h : Calls exec L p s) (hs : I s) : Calls exec (fun s c => I s ∧ L s c) p s := by
  induction p generalizing s with
  | ret a => trivial
  | fail e => trivial
  | call c k ih => exact ⟨⟨hs, h.1⟩, ih _ h.2 (hI _ _ h.1 hs)⟩

end Run

/-! ## The calls of a program, whatever the answers -/

/-- Every call the program can make satisfies `G`, as long as every answer satisfies `A`. -/
def Sat (A : (c : C) → Except E (R c) → Prop) (G : C → Prop) : Prog C R E α → Prop
  | ret _ => True
  | fail _ => True
  | call c k => G c ∧ ∀ r, A c r → Sat A G (k r)

section Sat

variable {A : (c : C) → Except E (R c) → Prop} {G : C → Prop}

theorem sat_perform {c : C} (h : G c) : Sat A G (perform c : Prog C R E (R c)) := by
  refine ⟨h, fun r _ => ?_⟩
  cases r <;> trivial

/-- Sequencing, with what the first program's value is known to satisfy. -/
theorem sat_bind {p : Prog C R E α} {f : α → Prog C R E β} (hp : Sat A G p)
    (hf : ∀ a, Sat A G (f a)) : Sat A G (p >>= f) := by
  induction p with
  | ret a => exact hf a
  | fail e => trivial
  | call c k ih => exact ⟨hp.1, fun r hr => ih r (hp.2 r hr)⟩

/-- Sequencing after one call, whose answer may be used. -/
theorem sat_perform_bind {c : C} {f : R c → Prog C R E β} (h : G c)
    (hf : ∀ r, A c (.ok r) → Sat A G (f r)) : Sat A G (perform c >>= f) := by
  refine ⟨h, fun r hr => ?_⟩
  cases r with
  | error e => trivial
  | ok r => exact hf r hr

/-- Fewer answers, and more calls allowed. -/
theorem Sat.mono {A' : (c : C) → Except E (R c) → Prop} {G' : C → Prop}
    (hA : ∀ c r, A' c r → A c r) (hG : ∀ c, G c → G' c) {p : Prog C R E α} (h : Sat A G p) :
    Sat A' G' p := by
  induction p with
  | ret a => trivial
  | fail e => trivial
  | call c k ih => exact ⟨hG c h.1, fun r hr => ih r (h.2 r (hA c r hr))⟩

theorem sat_attempt {p : Prog C R E α} (h : Sat A G p) : Sat A G p.attempt := by
  induction p with
  | ret a => trivial
  | fail e => trivial
  | call c k ih => exact ⟨h.1, fun r hr => ih r (h.2 r hr)⟩

/-- What a run does legally, of calls the program can make. -/
theorem Calls.and_sat {exec : (c : C) → S → Except E (R c) × S} {L : S → C → Prop} {p : Prog C R E α}
    {s : S} (h : Calls exec L p s) (hG : Sat (fun _ _ => True) G p) :
    Calls exec (fun s c => L s c ∧ G c) p s := by
  induction p generalizing s with
  | ret a => trivial
  | fail e => trivial
  | call c k ih => exact ⟨⟨h.1, hG.1⟩, ih _ h.2 (hG.2 _ trivial)⟩

/-- Executors that agree on the calls of the program run it alike. -/
theorem Sat.run_congr {exec exec' : (c : C) → S → Except E (R c) × S}
    (hG : ∀ c s, G c → exec' c s = exec c s) {p : Prog C R E α} (h : Sat (fun _ _ => True) G p) (s : S) :
    run exec' p s = run exec p s := by
  induction p generalizing s with
  | ret a => rfl
  | fail e => rfl
  | call c k ih =>
    rw [run_call, run_call, hG c s h.1]
    exact ih _ (h.2 _ trivial) _

/-- What each of its calls keeps, the program keeps. -/
theorem Sat.preserves {exec : (c : C) → S → Except E (R c) × S} {I : S → Prop}
    (hI : ∀ s c, G c → I s → I (exec c s).2) {p : Prog C R E α}
    (h : Sat (fun _ _ => True) G p) {s : S} (hs : I s) : I (run exec p s).2 := by
  induction p generalizing s with
  | ret a => exact hs
  | fail e => exact hs
  | call c k ih => exact ih _ (h.2 _ trivial) (hI _ _ h.1 hs)

end Sat

/-! ## Calls that are good, and what is returned -/

/-- Every call the program can make satisfies `L`, as long as every answer satisfies `A`, and then what it
returns satisfies `Q`. -/
def Keeps (A : (c : C) → Except E (R c) → Prop) (L : C → Prop) (Q : α → Prop) : Prog C R E α → Prop
  | ret a => Q a
  | fail _ => True
  | call c k => L c ∧ ∀ r, A c r → Keeps A L Q (k r)

section Keeps

variable {A : (c : C) → Except E (R c) → Prop} {L : C → Prop} {Q : α → Prop} {Q' : β → Prop}

@[simp] theorem keeps_ret {a : α} : Keeps A L Q (ret a : Prog C R E α) ↔ Q a := Iff.rfl

@[simp] theorem keeps_fail {e : E} : Keeps A L Q (fail e : Prog C R E α) := trivial

theorem keeps_bind {p : Prog C R E α} {f : α → Prog C R E β} (hp : Keeps A L Q p)
    (hf : ∀ a, Q a → Keeps A L Q' (f a)) : Keeps A L Q' (p >>= f) := by
  induction p with
  | ret a => exact hf a hp
  | fail e => trivial
  | call c k ih => exact ⟨hp.1, fun r hr => ih r (hp.2 r hr)⟩

/-- One call, and what its answer tells. -/
theorem keeps_perform {c : C} {Q : R c → Prop} (hc : L c) (hQ : ∀ a, A c (.ok a) → Q a) :
    Keeps A L Q (perform c : Prog C R E (R c)) := by
  refine ⟨hc, fun r hr => ?_⟩
  cases r with
  | error e => trivial
  | ok a => exact hQ a hr

/-- Sequencing after one call, whose answer may be used. -/
theorem keeps_ask {c : C} {f : R c → Prog C R E β} (hc : L c)
    (hf : ∀ a, A c (.ok a) → Keeps A L Q' (f a)) : Keeps A L Q' (perform c >>= f) :=
  keeps_bind (keeps_perform (Q := fun a => A c (.ok a)) hc fun _ ha => ha) hf

theorem Keeps.mono {Q₁ : α → Prop} (hQ : ∀ a, Q a → Q₁ a) {p : Prog C R E α} (h : Keeps A L Q p) :
    Keeps A L Q₁ p := by
  induction p with
  | ret a => exact hQ a h
  | fail e => trivial
  | call c k ih => exact ⟨h.1, fun r hr => ih r (h.2 r hr)⟩

/-- Forgetting what is returned. -/
theorem Keeps.sat {p : Prog C R E α} (h : Keeps A L Q p) : Sat A L p := by
  induction p with
  | ret a => trivial
  | fail e => trivial
  | call c k ih => exact ⟨h.1, fun r hr => ih r (h.2 r hr)⟩

theorem Sat.keeps {p : Prog C R E α} (h : Sat A L p) : Keeps A L (fun _ => True) p := by
  induction p with
  | ret a => trivial
  | fail e => trivial
  | call c k ih => exact ⟨h.1, fun r hr => ih r (h.2 r hr)⟩

theorem keeps_attempt {p : Prog C R E α} (h : Keeps A L Q p) : Keeps A L (fun _ => True) p.attempt :=
  (sat_attempt h.sat).keeps

end Keeps

/-! ## What a program can return -/

/-- The program returns the value if each of its calls is answered in a way that satisfies `A`. -/
def Returns (A : (c : C) → Except E (R c) → Prop) : Prog C R E α → α → Prop
  | ret b, a => b = a
  | fail _, _ => False
  | call c k, a => ∃ r, A c r ∧ Returns A (k r) a

section Returns

variable {A : (c : C) → Except E (R c) → Prop}

/-- A sequence that returns has had its first part return. -/
theorem returns_bind_inv {p : Prog C R E α} {f : α → Prog C R E β} {b : β}
    (h : Returns A (p >>= f) b) : ∃ a, Returns A p a ∧ Returns A (f a) b := by
  induction p with
  | ret a => exact ⟨a, rfl, h⟩
  | fail e => exact h.elim
  | call c k ih =>
    obtain ⟨r, hr, h⟩ := h
    obtain ⟨a, ha, hb⟩ := ih r h
    exact ⟨a, ⟨r, hr, ha⟩, hb⟩

theorem returns_perform_inv {c : C} {a : R c} (h : Returns A (perform c : Prog C R E (R c)) a) :
    A c (.ok a) := by
  obtain ⟨r, hr, h⟩ := h
  cases r with
  | error e => exact h.elim
  | ok b =>
    cases h
    exact hr

/-- What a run returns whose calls are answered so. -/
theorem returns_of_run {exec : (c : C) → S → Except E (R c) × S} {p : Prog C R E α} {s : S}
    (hcalls : Calls exec (fun s c => A c (exec c s).1) p s) {a : α} (h : (run exec p s).1 = .ok a) :
    Returns A p a := by
  induction p generalizing s with
  | ret b => exact Except.ok.inj h
  | fail e => cases h
  | call c k ih =>
    rw [run_call] at h
    exact ⟨_, hcalls.1, ih _ hcalls.2 h⟩

end Returns

/-! ## Two runs from related stores -/

section Same

variable (exec : (c : C) → S → Except E (R c) × S)

/-- Run in `s` and in `t`, the two programs have the same outcome and leave related stores. -/
def Same (J : S → S → Prop) (p q : Prog C R E α) (s t : S) : Prop :=
  (run exec p s).1 = (run exec q t).1 ∧ J (run exec p s).2 (run exec q t).2

variable {exec} {J : S → S → Prop} {s t : S}

theorem same_bind {p q : Prog C R E α} {f g : α → Prog C R E β} (h : Same exec J p q s t)
    (hfg : ∀ a s' t', run exec p s = (.ok a, s') → run exec q t = (.ok a, t') → J s' t' →
      Same exec J (f a) (g a) s' t') :
    Same exec J (p >>= f) (q >>= g) s t := by
  obtain ⟨h₁, h₂⟩ := h
  rcases hp : run exec p s with ⟨e | a, s'⟩ <;> rcases hq : run exec q t with ⟨e' | b, t'⟩ <;>
    simp only [hp, hq] at h₁ h₂
  · cases h₁
    exact ⟨by rw [run_bind_error exec hp, run_bind_error exec hq],
      by rw [run_bind_error exec hp, run_bind_error exec hq]; exact h₂⟩
  · cases h₁
  · cases h₁
  · cases h₁
    unfold Same
    rw [run_bind_ok exec hp, run_bind_ok exec hq]
    exact hfg a s' t' hp hq h₂

theorem Same.attempt {p q : Prog C R E α} (h : Same exec J p q s t) :
    Same exec J p.attempt q.attempt s t := by
  unfold Same
  rw [run_attempt, run_attempt]
  exact ⟨congrArg Except.ok h.1, h.2⟩

end Same

/-! ## Interleaving -/

/-- One call of a program against the shared store; nothing when the program has ended. -/
def step (exec : (c : C) → S → Except E (R c) × S) :
    Prog C R E α → S → Option (Prog C R E α × S)
  | ret _, _ => none
  | fail _, _ => none
  | call c k, s => some (k (exec c s).1, (exec c s).2)

/-- The call a program makes next. -/
def next : Prog C R E α → Option C
  | ret _ => none
  | fail _ => none
  | call c _ => some c

/-- The outcome of a program that has ended. -/
def outcome : Prog C R E α → Option (Except E α)
  | ret a => some (.ok a)
  | fail e => some (.error e)
  | call _ _ => none

theorem step_eq_some {exec : (c : C) → S → Except E (R c) × S} {p p' : Prog C R E α} {s s' : S}
    (h : step exec p s = some (p', s')) :
    ∃ c k, p = call c k ∧ p' = k (exec c s).1 ∧ s' = (exec c s).2 := by
  cases p with
  | ret a => cases h
  | fail e => cases h
  | call c k =>
    simp only [step, Option.some.injEq, Prod.mk.injEq] at h
    exact ⟨c, k, rfl, h.1.symm, h.2.symm⟩

end Prog

end Relay.Lib
