import Mathlib.Data.List.Forall2
import Mathlib.Data.List.Induction
import Relay.Lib.Pool

/-!
# Programs that keep to a protocol

A protocol is an automaton over the calls of a program: its state says which calls may come next, and
every call with its answer moves it. `Prog.Follows` says that a program keeps to a protocol, whatever
answers the store can give. In a pool every thread has its own state of the protocol, and an invariant
of the store together with these states is shown call by call, without the programs
(`Pool.follow_always`).
-/

namespace Relay.Lib

variable {C : Type} {R : C → Type} {E G α β S O D : Type}

structure Protocol (C : Type) (R : C → Type) (E G : Type) where
  /-- The call may be made in the state. -/
  allowed : G → C → Prop
  /-- The state after the call and its answer. -/
  next : G → (c : C) → Except E (R c) → G
  /-- The store can give the answer. -/
  answers : (c : C) → Except E (R c) → Prop

namespace Prog

/-- The program keeps to the protocol, and ends with an outcome and in a state that satisfy `Q`. -/
def Follows (P : Protocol C R E G) (Q : Except E α → G → Prop) : Prog C R E α → G → Prop
  | ret a, g => Q (.ok a) g
  | fail e, g => Q (.error e) g
  | call c k, g => P.allowed g c ∧ ∀ r, P.answers c r → Follows P Q (k r) (P.next g c r)

variable {P : Protocol C R E G} {g : G}

@[simp] theorem follows_ret {Q : Except E α → G → Prop} {a : α} :
    Follows P Q (ret a : Prog C R E α) g ↔ Q (.ok a) g := Iff.rfl

@[simp] theorem follows_fail {Q : Except E α → G → Prop} {e : E} :
    Follows P Q (fail e : Prog C R E α) g ↔ Q (.error e) g := Iff.rfl

theorem follows_bind {Q : Except E α → G → Prop} {Q' : Except E β → G → Prop}
    {p : Prog C R E α} {f : α → Prog C R E β} (hp : Follows P Q p g)
    (hf : ∀ a g', Q (.ok a) g' → Follows P Q' (f a) g')
    (he : ∀ e g', Q (.error e) g' → Q' (.error e) g') : Follows P Q' (p >>= f) g := by
  induction p generalizing g with
  | ret a => exact hf a g hp
  | fail e => exact he e g hp
  | call c k ih => exact ⟨hp.1, fun r hr => ih r (hp.2 r hr)⟩

theorem follows_perform {c : C} {Q : Except E (R c) → G → Prop} (h : P.allowed g c)
    (hQ : ∀ r, P.answers c r → Q r (P.next g c r)) :
    Follows P Q (perform c : Prog C R E (R c)) g := by
  refine ⟨h, fun r hr => ?_⟩
  cases r with
  | error e => exact hQ (.error e) hr
  | ok r => exact hQ (.ok r) hr

theorem Follows.attempt {Q : Except E (Except E α) → G → Prop} {p : Prog C R E α}
    (h : Follows P (fun r => Q (.ok r)) p g) : Follows P Q p.attempt g := by
  induction p generalizing g with
  | ret a => exact h
  | fail e => exact h
  | call c k ih => exact ⟨h.1, fun r hr => ih r (h.2 r hr)⟩

theorem Follows.mono {Q Q' : Except E α → G → Prop} (hQ : ∀ r g, Q r g → Q' r g)
    {p : Prog C R E α} (h : Follows P Q p g) : Follows P Q' p g := by
  induction p generalizing g with
  | ret a => exact hQ _ g h
  | fail e => exact hQ _ g h
  | call c k ih => exact ⟨h.1, fun r hr => ih r (h.2 r hr)⟩

/-- One call that leaves the state alone. -/
theorem follows_skip {c : C} {Q : Except E β → G → Prop} {f : R c → Prog C R E β}
    (hallowed : P.allowed g c) (hnext : ∀ r, P.answers c r → P.next g c r = g)
    (hf : ∀ a, P.answers c (.ok a) → Follows P Q (f a) g) (he : ∀ e, Q (.error e) g) :
    Follows P Q (perform c >>= f) g := by
  refine ⟨hallowed, fun r hr => ?_⟩
  rw [hnext r hr]
  cases r with
  | error e => exact he e
  | ok a => exact hf a hr

/-- Calls that are allowed in the state and leave it alone. -/
theorem follows_of_sat {L : C → Prop} (hL : ∀ c, L c → P.allowed g c ∧ ∀ r, P.next g c r = g)
    {p : Prog C R E α} (h : Sat P.answers L p) : Follows P (fun _ g' => g' = g) p g := by
  induction p with
  | ret a => rfl
  | fail e => rfl
  | call c k ih =>
    obtain ⟨hallowed, hnext⟩ := hL c h.1
    refine ⟨hallowed, fun r hr => ?_⟩
    rw [hnext r]
    exact ih r (h.2 r hr)

/-- Calls that are allowed in the states of `K` and lead to such states. -/
theorem follows_within {K : G → Prop} {L : C → Prop}
    (hL : ∀ c g, L c → K g → P.allowed g c ∧ ∀ r, P.answers c r → K (P.next g c r))
    {p : Prog C R E α} (h : Sat P.answers L p) (hg : K g) : Follows P (fun _ g' => K g') p g := by
  induction p generalizing g with
  | ret a => exact hg
  | fail e => exact hg
  | call c k ih =>
    obtain ⟨hallowed, hnext⟩ := hL c g h.1 hg
    exact ⟨hallowed, fun r hr => ih r (h.2 r hr) (hnext r hr)⟩

/-- Forgetting the states. -/
theorem Follows.sat {Q : Except E α → G → Prop} {L : C → Prop} (hL : ∀ g c, P.allowed g c → L c)
    {p : Prog C R E α} (h : Follows P Q p g) : Sat P.answers L p := by
  induction p generalizing g with
  | ret a => trivial
  | fail e => trivial
  | call c k ih => exact ⟨hL g c h.1, fun r hr => ih r (h.2 r hr)⟩

/-! ## What a program returns -/

/-- The program keeps to the protocol, and what it returns satisfies `Q`; of its failures nothing is
said. -/
abbrev Yields (P : Protocol C R E G) (Q : α → G → Prop) (p : Prog C R E α) (g : G) : Prop :=
  Follows P (fun r g' => ∀ a, r = .ok a → Q a g') p g

theorem yields_ret {Q : α → G → Prop} {a : α} (h : Q a g) : Yields P Q (ret a : Prog C R E α) g := by
  rintro _ ⟨⟩
  exact h

theorem yields_fail {Q : α → G → Prop} {e : E} : Yields P Q (fail e : Prog C R E α) g := by
  intro a h
  cases h

theorem yields_bind {Q : α → G → Prop} {Q' : β → G → Prop} {p : Prog C R E α} {f : α → Prog C R E β}
    (hp : Yields P Q p g) (hf : ∀ a g', Q a g' → Yields P Q' (f a) g') : Yields P Q' (p >>= f) g := by
  refine follows_bind hp (fun a g' ha => hf a g' (ha a rfl)) fun e g' _ a h => ?_
  cases h

theorem yields_perform {c : C} {Q : R c → G → Prop} (h : P.allowed g c)
    (hQ : ∀ a, P.answers c (.ok a) → Q a (P.next g c (.ok a))) :
    Yields P Q (perform c : Prog C R E (R c)) g := by
  refine follows_perform h fun r hr a heq => ?_
  subst heq
  exact hQ a hr

theorem Follows.yields {Q : G → Prop} {p : Prog C R E α} (h : Follows P (fun _ g' => Q g') p g) :
    Yields P (fun _ g' => Q g') p g := h.mono fun _ _ hg _ _ => hg

/-! ## One program alone -/

section Alone

variable (exec : (c : C) → S → Except E (R c) × S)

variable (P) in
/-- The state of the protocol when the program, run alone, has ended. -/
def stageAfter : Prog C R E α → G → S → G
  | ret _, g, _ => g
  | fail _, g, _ => g
  | call c k, g, s => stageAfter (k (exec c s).1) (P.next g c (exec c s).1) (exec c s).2

variable {exec} {J : S → G → Prop} {p : Prog C R E α} {s : S}

/-- An invariant of the store and the state of the protocol, shown call by call. -/
theorem Follows.run {Q : Except E α → G → Prop} (h : Follows P Q p g) (hs : J s g)
    (hJ : ∀ s g c, J s g → P.allowed g c →
      P.answers c (exec c s).1 ∧ J (exec c s).2 (P.next g c (exec c s).1)) :
    J (run exec p s).2 (stageAfter P exec p g s) ∧
      Q (run exec p s).1 (stageAfter P exec p g s) := by
  induction p generalizing g s with
  | ret a => exact ⟨hs, h⟩
  | fail e => exact ⟨hs, h⟩
  | call c k ih =>
    obtain ⟨hanswer, hnext⟩ := hJ s g c hs h.1
    exact ih _ (h.2 _ hanswer) hnext

/-- When only the calls outside `L` lead to a state of `B`, which is never left, the run ends outside
`B` exactly when it makes no other calls than those of `L`. -/
theorem Follows.calls_iff {Q : Except E α → G → Prop} {B : G → Prop} {L : S → C → Prop}
    (h : Follows P Q p g) (hs : J s g) (hg : ¬ B g)
    (hJ : ∀ s g c, J s g → P.allowed g c →
      P.answers c (exec c s).1 ∧ J (exec c s).2 (P.next g c (exec c s).1))
    (hstay : ∀ g c r, B g → B (P.next g c r))
    (hleave : ∀ s g c, J s g → ¬ B g → P.allowed g c →
      (B (P.next g c (exec c s).1) ↔ ¬ L s c)) :
    Calls exec L p s ↔ ¬ B (stageAfter P exec p g s) := by
  have hdead : ∀ (p : Prog C R E α) (g : G) (s : S), B g → B (stageAfter P exec p g s) := by
    intro p
    induction p with
    | ret a => exact fun _ _ h => h
    | fail e => exact fun _ _ h => h
    | call c k ih => exact fun g s h => ih _ _ _ (hstay g c _ h)
  induction p generalizing g s with
  | ret a => exact ⟨fun _ => hg, fun _ => trivial⟩
  | fail e => exact ⟨fun _ => hg, fun _ => trivial⟩
  | call c k ih =>
    obtain ⟨hanswer, hnext⟩ := hJ s g c hs h.1
    by_cases hL : L s c
    · have hgood : ¬ B (P.next g c (exec c s).1) := fun hb =>
        (hleave s g c hs hg h.1).mp hb hL
      exact (and_iff_right hL).trans (ih _ (h.2 _ hanswer) hnext hgood)
    · have hbad := (hleave s g c hs hg h.1).mpr hL
      exact ⟨fun hcalls => absurd hcalls.1 hL, fun hend => absurd (hdead _ _ _ hbad) hend⟩

end Alone

end Prog

namespace Pool

/-- The call a thread makes next. -/
def nextCall (p : Pool C R E α S) (i : Nat) : Option C := p.threads[i]?.bind Prog.next

/-- If the event makes a thread execute a call, the call satisfies `L` in the store it meets. -/
def Executes (L : S → C → Prop) (p : Pool C R E α S) (e : Event O D) : Prop :=
  ∀ i c, e = .advance i → p.nextCall i = some c → L p.store c

theorem executes_start (L : S → C → Prop) (p : Pool C R E α S) (o : O) :
    Executes L p (.start o : Event O D) := fun _ _ h => (nomatch h)

theorem executes_advance {L : S → C → Prop} {p : Pool C R E α S} {i : Nat} {c : C}
    (hc : p.nextCall i = some c) (hL : L p.store c) : Executes L p (.advance i : Event O D) := by
  rintro _ c' ⟨⟩ hc'
  rw [hc] at hc'
  cases hc'
  exact hL

/-- Each thread keeps to the protocol from its state on. -/
def Follow (P : Protocol C R E G) (Q : Except E α → G → Prop) (p : Pool C R E α S)
    (gs : List G) : Prop :=
  List.Forall₂ (Prog.Follows P Q) p.threads gs

variable {exec : (c : C) → S → Except E (R c) × S} {program : O → Prog C R E α}
  {env : D → S → S} {P : Protocol C R E G} {Q : Except E α → G → Prop}

variable (exec program env) in
/-- What an event does to a pool. -/
theorem step_cases (p : Pool C R E α S) (e : Event O D) :
    (∃ o, e = .start o ∧ step exec program env e p = ⟨p.store, p.threads ++ [program o]⟩) ∨
    (∃ i c k, e = .advance i ∧ p.threads[i]? = some (.call c k) ∧
      step exec program env e p = ⟨(exec c p.store).2, p.threads.set i (k (exec c p.store).1)⟩) ∨
    (∃ i, e = .advance i ∧ p.nextCall i = none ∧ step exec program env e p = p) ∨
    (∃ d, e = .pass d ∧ step exec program env e p = ⟨env d p.store, p.threads⟩) := by
  cases e with
  | start o => exact .inl ⟨o, rfl, rfl⟩
  | advance i =>
    refine .inr ?_
    cases ht : p.threads[i]? with
    | none => exact .inr (.inl ⟨i, rfl, by simp [nextCall, ht], by simp [step, ht]⟩)
    | some t =>
      cases t with
      | ret a =>
        exact .inr (.inl ⟨i, rfl, by simp [nextCall, ht, Prog.next], by simp [step, ht, Prog.step]⟩)
      | fail e =>
        exact .inr (.inl ⟨i, rfl, by simp [nextCall, ht, Prog.next], by simp [step, ht, Prog.step]⟩)
      | call c k => exact .inl ⟨i, c, k, rfl, ht, step_call exec program env ht⟩
  | pass d => exact .inr (.inr (.inr ⟨d, rfl, rfl⟩))

theorem executes_call {p : Pool C R E α S} {i : Nat} {c : C} {k : Except E (R c) → Prog C R E α}
    (hi : p.threads[i]? = some (.call c k)) {L : S → C → Prop} :
    Executes L p (.advance i : Event O D) ↔ L p.store c := by
  have hnext : p.nextCall i = some c := by simp [nextCall, hi, Prog.next]
  exact ⟨fun h => h i c rfl hnext, executes_advance hnext⟩

/-- Where the calls of all programs keep `I` exactly when `L` holds of them, `I` holds throughout a run
exactly when it holds at the start and `L` holds of every call the run makes. -/
theorem always_iff_executes {I J : S → Prop} {L : S → C → Prop} {G : C → Prop}
    (hprogram : ∀ o, Prog.Sat (fun _ _ => True) G (program o))
    (hkeep : ∀ s c, J s → G c → J (exec c s).2) (hpass : ∀ d s, J s → J (env d s))
    (hcall : ∀ s c, J s → I s → G c → (I (exec c s).2 ↔ L s c)) (henv : ∀ d s, I s → I (env d s))
    {s : S} (hs : J s) (es : List (Event O D)) :
    Runs.Always (step exec program env) (fun p => I p.store) es ⟨s, []⟩ ↔
      I s ∧ Runs.Along (step exec program env) (Executes L) es ⟨s, []⟩ := by
  let K (p : Pool C R E α S) : Prop := J p.store ∧ ∀ t ∈ p.threads, Prog.Sat (fun _ _ => True) G t
  have hsat : ∀ {p : Pool C R E α S} {i : Nat} {c : C} {k : Except E (R c) → Prog C R E α}, K p →
      p.threads[i]? = some (.call c k) → G c ∧ ∀ r, Prog.Sat (fun _ _ => True) G (k r) :=
    fun h hi => (h.2 _ (List.mem_of_getElem? hi)).imp_right fun hk r => hk r trivial
  have hK : ∀ p e, K p → K (step exec program env e p) := by
    intro p e h
    obtain ⟨o, rfl, heq⟩ | ⟨i, c, k, rfl, hi, heq⟩ | ⟨i, rfl, _, heq⟩ | ⟨d, rfl, heq⟩ :=
      step_cases exec program env p e <;>
      rw [heq]
    · refine ⟨h.1, fun t ht => ?_⟩
      obtain ht | ht := List.mem_append.mp ht
      · exact h.2 t ht
      · rw [List.mem_singleton.mp ht]
        exact hprogram o
    · obtain ⟨hG, hk⟩ := hsat h hi
      refine ⟨hkeep _ c h.1 hG, fun t ht => ?_⟩
      obtain ht | rfl := List.mem_or_eq_of_mem_set ht
      · exact h.2 t ht
      · exact hk _
    · exact h
    · exact ⟨hpass d _ h.1, h.2⟩
  have hstep : ∀ p e, K p → I p.store → (I (step exec program env e p).store ↔ Executes L p e) := by
    intro p e h hI
    obtain ⟨o, rfl, heq⟩ | ⟨i, c, k, rfl, hi, heq⟩ | ⟨i, rfl, hnone, heq⟩ | ⟨d, rfl, heq⟩ :=
      step_cases exec program env p e <;>
      rw [heq]
    · exact iff_of_true hI (executes_start L p o)
    · rw [executes_call hi]
      exact hcall _ c h.1 hI (hsat h hi).1
    · refine iff_of_true hI ?_
      rintro _ c ⟨⟩ hc
      rw [hnone] at hc
      cases hc
    · exact iff_of_true (henv d _ hI) fun _ _ h => nomatch h
  constructor
  · intro h
    refine ⟨h.head, ?_⟩
    exact (Runs.always_iff_along hK hstep ⟨hs, fun t ht => absurd ht List.not_mem_nil⟩ h.head).mp h
  · rintro ⟨hI, h⟩
    exact (Runs.always_iff_along hK hstep ⟨hs, fun t ht => absurd ht List.not_mem_nil⟩ hI).mpr h

variable (exec program env) in
/-- The answer is the one of a store the run has visited. -/
def Answered (es : List (Event O D)) (p : Pool C R E α S) (c : C) (r : Except E (R c)) : Prop :=
  ∃ past, past <+: es ∧ (exec c (Runs.final (step exec program env) past p).store).1 = r

/-- Programs whose calls are good when they are answered by stores of the run make good calls only. -/
theorem along_of_answered {L : C → Prop} {p : Pool C R E α S} {es : List (Event O D)}
    (hp : ∀ t ∈ p.threads, Prog.Sat (Answered exec program env es p) L t)
    (hprogram : ∀ o, .start o ∈ es → Prog.Sat (Answered exec program env es p) L (program o)) :
    Runs.Along (step exec program env) (Executes fun _ c => L c) es p := by
  -- by induction on what is left of the run, with the part it has made
  have hrest : ∀ (rest past : List (Event O D)), past ++ rest = es →
      (∀ t ∈ (Runs.final (step exec program env) past p).threads,
        Prog.Sat (Answered exec program env es p) L t) →
      Runs.Along (step exec program env) (Executes fun _ c => L c) rest
        (Runs.final (step exec program env) past p) := by
    intro rest
    induction rest with
    | nil => exact fun _ _ _ => trivial
    | cons e rest ih =>
      intro past hes hthreads
      have hnext := ih (past ++ [e]) (by simpa using hes)
      rw [Runs.final_append] at hnext
      obtain ⟨o, rfl, heq⟩ | ⟨i, c, k, rfl, hi, heq⟩ | ⟨i, rfl, hnone, heq⟩ | ⟨d, rfl, heq⟩ :=
        step_cases exec program env (Runs.final (step exec program env) past p) e
      · refine ⟨executes_start _ _ o, hnext fun t ht => ?_⟩
        rw [Runs.final, Runs.final, heq] at ht
        rcases List.mem_append.mp ht with ht | ht
        · exact hthreads t ht
        · rw [List.mem_singleton.mp ht]
          exact hprogram o (hes ▸ List.mem_append_right past List.mem_cons_self)
      · have hsat := hthreads _ (List.mem_of_getElem? hi)
        have hanswer : Answered exec program env es p c
            (exec c (Runs.final (step exec program env) past p).store).1 :=
          ⟨past, ⟨_, hes⟩, rfl⟩
        refine ⟨(executes_call hi).mpr hsat.1, hnext fun t ht => ?_⟩
        rw [Runs.final, Runs.final, heq] at ht
        rcases List.mem_or_eq_of_mem_set ht with ht | rfl
        · exact hthreads t ht
        · exact hsat.2 _ hanswer
      · refine ⟨?_, hnext fun t ht => ?_⟩
        · rintro _ c ⟨⟩ hc
          rw [hnone] at hc
          cases hc
        · rw [Runs.final, Runs.final, heq] at ht
          exact hthreads t ht
      · refine ⟨fun _ _ h => (by cases h), hnext fun t ht => ?_⟩
        rw [Runs.final, Runs.final, heq] at ht
        exact hthreads t ht
  exact hrest es [] rfl hp

variable (exec program env) in
/-- The run goes through the store. -/
def Visited (es : List (Event O D)) (p : Pool C R E α S) (s : S) : Prop :=
  ∃ past, past <+: es ∧ (Runs.final (step exec program env) past p).store = s

variable (exec program env) in
/-- The run makes the call in the store. -/
def Made (es : List (Event O D)) (p : Pool C R E α S) (s : S) (c : C) : Prop :=
  ∃ past i k, past ++ [.advance i] <+: es ∧ (Runs.final (step exec program env) past p).store = s ∧
    (Runs.final (step exec program env) past p).threads[i]? = some (.call c k)

theorem Made.visited {es : List (Event O D)} {p : Pool C R E α S} {s : S} {c : C}
    (h : Made exec program env es p s c) : Visited exec program env es p s := by
  obtain ⟨past, i, k, hpast, hs, _⟩ := h
  exact ⟨past, (List.prefix_append past _).trans hpast, hs⟩

/-- An invariant that good calls keep, of programs that make good calls only when they are answered by stores
of the run in which it holds. -/
theorem visited_invariant {I : S → Prop} {L : C → Prop} {s : S} {es : List (Event O D)} (hs : I s)
    (hprogram : ∀ o, .start o ∈ es → Prog.Sat
      (fun c r => ∃ s', Made exec program env es ⟨s, []⟩ s' c ∧ I s' ∧ (exec c s').1 = r) L (program o))
    (hcall : ∀ s' c, Made exec program env es ⟨s, []⟩ s' c → I s' → L c → I (exec c s').2)
    (henv : ∀ d s', I s' → I (env d s')) {s' : S} (h : Visited exec program env es ⟨s, []⟩ s') : I s' := by
  obtain ⟨past, hpast, rfl⟩ := h
  have hrun : ∀ past, past <+: es → I (Runs.final (step exec program env) past ⟨s, []⟩).store ∧
      ∀ t ∈ (Runs.final (step exec program env) past ⟨s, []⟩).threads, Prog.Sat
        (fun c r => ∃ s', Made exec program env es ⟨s, []⟩ s' c ∧ I s' ∧ (exec c s').1 = r) L t := by
    intro past
    induction past using List.reverseRecOn with
    | nil => exact fun _ => ⟨hs, fun t ht => absurd ht List.not_mem_nil⟩
    | append_singleton past e ih =>
      intro hpast
      have hmem : e ∈ es := hpast.subset (by simp)
      obtain ⟨hI, hthreads⟩ := ih ((List.prefix_append past [e]).trans hpast)
      rw [Runs.final_append, Runs.final, Runs.final]
      obtain ⟨o, rfl, heq⟩ | ⟨i, c, k, rfl, hi, heq⟩ | ⟨i, rfl, _, heq⟩ | ⟨d, rfl, heq⟩ :=
        step_cases exec program env (Runs.final (step exec program env) past ⟨s, []⟩) e <;>
        rw [heq]
      · refine ⟨hI, fun t ht => ?_⟩
        rcases List.mem_append.mp ht with ht | ht
        · exact hthreads t ht
        · rw [List.mem_singleton.mp ht]
          exact hprogram o hmem
      · have hmade : Made exec program env es ⟨s, []⟩
            (Runs.final (step exec program env) past ⟨s, []⟩).store c := ⟨past, i, k, hpast, rfl, hi⟩
        have hsat := hthreads _ (List.mem_of_getElem? hi)
        refine ⟨hcall _ c hmade hI hsat.1, fun t ht => ?_⟩
        rcases List.mem_or_eq_of_mem_set ht with ht | rfl
        · exact hthreads t ht
        · exact hsat.2 _ ⟨_, hmade, hI, rfl⟩
      · exact ⟨hI, hthreads⟩
      · exact ⟨henv d _ hI, hthreads⟩
  exact (hrun past hpast).1

theorem nextCall_of_thread {p : Pool C R E α S} {i : Nat} {c : C}
    {k : Except E (R c) → Prog C R E α} (h : p.threads[i]? = some (.call c k)) :
    p.nextCall i = some c := by
  simp [nextCall, h, Prog.next]

/-- The threads that do not move keep their next calls. -/
theorem nextCall_set {p : Pool C R E α S} {i j : Nat} (h : i ≠ j) {t : Prog C R E α} {s : S} :
    (⟨s, p.threads.set i t⟩ : Pool C R E α S).nextCall j = p.nextCall j := by
  simp [nextCall, List.getElem?_set_ne h]

theorem nextCall_append {p : Pool C R E α S} {i : Nat} {c : C} (h : p.nextCall i = some c)
    {ts : List (Prog C R E α)} {s : S} :
    (⟨s, p.threads ++ ts⟩ : Pool C R E α S).nextCall i = some c := by
  obtain ⟨t, ht, hc⟩ := Option.bind_eq_some_iff.mp h
  obtain ⟨hlt, _⟩ := List.getElem?_eq_some_iff.mp ht
  simp only [nextCall, List.getElem?_append_left hlt]
  exact h

/-- The state of a thread allows its next call, and the step moves it along. -/
theorem Follow.call {p : Pool C R E α S} {gs : List G} (h : Follow P Q p gs) {i : Nat} {c : C}
    {k : Except E (R c) → Prog C R E α} (hi : p.threads[i]? = some (.call c k)) :
    ∃ g, gs[i]? = some g ∧ P.allowed g c ∧ ∀ r, P.answers c r →
      List.Forall₂ (Prog.Follows P Q) (p.threads.set i (k r)) (gs.set i (P.next g c r)) := by
  obtain ⟨hlt, hget⟩ := List.getElem?_eq_some_iff.mp hi
  have hlen := h.length_eq
  have hthread := List.forall₂_iff_get.mp h
  have hg : i < gs.length := hlen ▸ hlt
  have hfollows := hthread.2 i hlt hg
  simp only [List.get_eq_getElem, hget] at hfollows
  refine ⟨gs[i], List.getElem?_eq_getElem hg, hfollows.1, fun r hr => ?_⟩
  refine List.forall₂_iff_get.mpr ⟨by simp [hlen], fun j hj hj' => ?_⟩
  simp only [List.get_eq_getElem, List.getElem_set]
  split
  · exact hfollows.2 r hr
  · exact hthread.2 j (by simpa using hj) (by simpa using hj')

/-- An invariant of the store and the states of the threads, shown call by call. -/
theorem follow_step {J : S → List G → Prop} {L : S → C → Prop} {init : O → G}
    (hanswers : ∀ s c, P.answers c (exec c s).1)
    (hprogram : ∀ o, Prog.Follows P Q (program o) (init o))
    (hstart : ∀ o s gs, J s gs → J s (gs ++ [init o]))
    (hcall : ∀ s gs i g c, J s gs → gs[i]? = some g → P.allowed g c → L s c →
      J (exec c s).2 (gs.set i (P.next g c (exec c s).1)))
    (henv : ∀ d s gs, J s gs → J (env d s) gs) {p : Pool C R E α S} {gs : List G}
    (hp : Follow P Q p gs) (hJ : J p.store gs) {e : Event O D} (hL : Executes L p e) :
    ∃ gs', Follow P Q (step exec program env e p) gs' ∧
      J (step exec program env e p).store gs' := by
  obtain ⟨o, rfl, heq⟩ | ⟨i, c, k, rfl, hi, heq⟩ | ⟨i, rfl, _, heq⟩ | ⟨d, rfl, heq⟩ :=
    step_cases exec program env p e
  · rw [heq]
    exact ⟨gs ++ [init o], List.rel_append hp (.cons (hprogram o) .nil), hstart o _ _ hJ⟩
  · rw [heq]
    obtain ⟨g, hg, hallowed, hset⟩ := hp.call hi
    exact ⟨_, hset _ (hanswers _ _), hcall _ _ i g c hJ hg hallowed (hL i c rfl (nextCall_of_thread hi))⟩
  · rw [heq]
    exact ⟨gs, hp, hJ⟩
  · rw [heq]
    exact ⟨gs, hp, henv d _ _ hJ⟩

/-- The invariant holds throughout every run that executes legal calls only. -/
theorem follow_always {J : S → List G → Prop} {L : S → C → Prop} {init : O → G}
    (hanswers : ∀ s c, P.answers c (exec c s).1)
    (hprogram : ∀ o, Prog.Follows P Q (program o) (init o))
    (hstart : ∀ o s gs, J s gs → J s (gs ++ [init o]))
    (hcall : ∀ s gs i g c, J s gs → gs[i]? = some g → P.allowed g c → L s c →
      J (exec c s).2 (gs.set i (P.next g c (exec c s).1)))
    (henv : ∀ d s gs, J s gs → J (env d s) gs) {p : Pool C R E α S} {gs : List G}
    (hp : Follow P Q p gs) (hJ : J p.store gs) {es : List (Event O D)}
    (hL : Runs.Along (step exec program env) (Executes L) es p) :
    Runs.Always (step exec program env) (fun p => ∃ gs, Follow P Q p gs ∧ J p.store gs) es p :=
  Runs.Always.of_along (fun _ _ ⟨_, hp, hJ⟩ hL =>
    follow_step hanswers hprogram hstart hcall henv hp hJ hL) ⟨gs, hp, hJ⟩ hL

theorem follow_nil (P : Protocol C R E G) (Q : Except E α → G → Prop) (s : S) :
    Follow P Q (⟨s, []⟩ : Pool C R E α S) [] := List.Forall₂.nil

/-- What a thread that has ended is left with. -/
theorem Follow.outcome {p : Pool C R E α S} {gs : List G} (h : Follow P Q p gs) {i : Nat}
    {t : Prog C R E α} {r : Except E α} (hi : p.threads[i]? = some t) (ht : t.outcome = some r) :
    ∃ g, gs[i]? = some g ∧ Q r g := by
  obtain ⟨hlt, hget⟩ := List.getElem?_eq_some_iff.mp hi
  have hthread := List.forall₂_iff_get.mp h
  have hg : i < gs.length := h.length_eq ▸ hlt
  have hfollows := hthread.2 i hlt hg
  simp only [List.get_eq_getElem, hget] at hfollows
  refine ⟨gs[i], List.getElem?_eq_getElem hg, ?_⟩
  cases t with
  | ret a =>
    cases ht
    exact hfollows
  | fail e =>
    cases ht
    exact hfollows
  | call c k => cases ht

/-- Where all threads have ended, each stage is one a thread may end in. -/
theorem Follow.ended {p : Pool C R E α S} {gs : List G} (h : Follow P Q p gs)
    (hended : ∀ t ∈ p.threads, t.outcome.isSome) : ∀ g ∈ gs, ∃ r, Q r g := by
  intro g hg
  obtain ⟨i, hi⟩ := List.getElem?_of_mem hg
  obtain ⟨hlt, _⟩ := List.getElem?_eq_some_iff.mp hi
  have hthread : i < p.threads.length := h.length_eq ▸ hlt
  obtain ⟨r, hr⟩ := Option.isSome_iff_exists.mp (hended _ (List.getElem_mem hthread))
  obtain ⟨g', hg', hQ⟩ := h.outcome (List.getElem?_eq_getElem hthread) hr
  rw [hi] at hg'
  cases hg'
  exact ⟨r, hQ⟩

end Pool

end Relay.Lib
