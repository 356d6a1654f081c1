import Relay.Lib.Staged

/-!
# Pools of given requests

Any number of requests are there from the start, each makes its calls when its turn comes, and no further
request arrives: a request that comes later is one that has not made its first call yet. Each kind of
request has its own protocol, and the stages say which request a thread serves.
-/

namespace Relay.Lib

variable {C : Type} {R : C → Type} {E G α S O D : Type}

/-- The result of a thread that has ended. -/
def Pool.result (p : Pool C R E α S) (i : Nat) : Option (Except E α) :=
  p.threads[i]?.bind Prog.outcome

namespace Protocol

/-- One protocol of all kinds of request: a state says which request it is about. -/
def each (P : O → Protocol C R E G) : Protocol C R E (O × G) where
  allowed g c := (P g.1).allowed g.2 c
  next g c r := (g.1, (P g.1).next g.2 c r)
  answers c r := ∀ o, (P o).answers c r

theorem follows_each {P : O → Protocol C R E G} {o : O} {Q : Except E α → G → Prop}
    {p : Prog C R E α} {g : G} (h : Prog.Follows (P o) Q p g) :
    Prog.Follows (each P) (fun r g => Q r g.2) p (o, g) := by
  induction p generalizing g with
  | ret a => exact h
  | fail e => exact h
  | call c k ih => exact ⟨h.1, fun r hr => ih r (h.2 r (hr o))⟩

end Protocol

/-- The stages after one of them was set. -/
theorem getElem?_set_iff {gs : List G} {i j : Nat} {g g' y : G} (hg : gs[i]? = some g) :
    (gs.set i g')[j]? = some y ↔ j = i ∧ y = g' ∨ j ≠ i ∧ gs[j]? = some y := by
  obtain ⟨hlt, _⟩ := List.getElem?_eq_some_iff.mp hg
  rw [List.getElem?_set]
  by_cases hij : i = j
  · subst hij
    simp [hlt, eq_comm]
  · simp [hij, Ne.symm hij]

theorem set_self {gs : List G} {i : Nat} {g : G} (hg : gs[i]? = some g) : gs.set i g = gs := by
  obtain ⟨hlt, rfl⟩ := List.getElem?_eq_some_iff.mp hg
  exact List.set_getElem_self hlt

/-- The requests, none of which has made a call. -/
def requests (program : O → Prog C R E α) (init : O → G) (os : List O) (s : S) :
    Staged C R E α S (O × G) :=
  ⟨⟨s, os.map program⟩, os.map fun o => (o, init o)⟩

/-- A request makes its next call, or the world around the store changes it. -/
def serve (exec : (c : C) → S → Except E (R c) × S) (env : D → S → S)
    (P : O → Protocol C R E G) (waits : S → C → Bool) :
    Pool.Event Empty D → Staged C R E α S (O × G) → Staged C R E α S (O × G) :=
  Staged.step exec Empty.elim env (Protocol.each P) Empty.elim waits

variable {exec : (c : C) → S → Except E (R c) × S} {program : O → Prog C R E α} {env : D → S → S}
  {P : O → Protocol C R E G} {init : O → G} {waits : S → C → Bool}
  {Q : O → Except E α → G → Prop} {J : S → List (O × G) → Prop}
  {L : S → List (O × G) → Nat → C → Prop}

/-- Where nothing has to wait, the requests run as they do in the pool. -/
theorem serve_pool {os : List O} {s : S} (es : List (Pool.Event Empty D)) :
    (Runs.final (serve exec env P fun _ _ => false) es (requests program init os s)).pool =
      Runs.final (Pool.step exec Empty.elim env) es ⟨s, os.map program⟩ := by
  have hcomplete : Staged.Complete (requests program init os s) := by
    unfold Staged.Complete requests
    rw [List.length_map, List.length_map]
  exact Staged.final_pool hcomplete es

/-- What is known throughout a run: each thread keeps to the protocol of its request, and `J`. -/
structure Serving (P : O → Protocol C R E G) (Q : O → Except E α → G → Prop)
    (J : S → List (O × G) → Prop) (os : List O) (w : Staged C R E α S (O × G)) : Prop where
  follow : List.Forall₂ (fun p g => Prog.Follows (Protocol.each P) (fun r g' => Q g.1 r g'.2) p g)
    w.pool.threads w.stages
  served : w.stages.map Prod.fst = os
  inv : J w.pool.store w.stages

namespace Serving

variable {os : List O} {w : Staged C R E α S (O × G)}

theorem start (hfollows : ∀ o, Prog.Follows (P o) (Q o) (program o) (init o)) {os : List O} {s : S}
    (hJ : J s (os.map fun o => (o, init o))) : Serving P Q J os (requests program init os s) where
  follow := by
    rw [show (requests program init os s).pool.threads = os.map program from rfl,
      show (requests program init os s).stages = os.map fun o => (o, init o) from rfl,
      List.forall₂_map_left_iff, List.forall₂_map_right_iff]
    exact List.forall₂_same.mpr fun o _ => Protocol.follows_each (hfollows o)
  served := by
    rw [requests, List.map_map]
    exact List.map_id os
  inv := hJ

/-- The request of a thread and its stage. -/
theorem stage (h : Serving P Q J os w) {i : Nat} {o : O} {g : G} (hg : w.stages[i]? = some (o, g)) :
    os[i]? = some o := by
  rw [← h.served, List.getElem?_map, hg]
  rfl

/-- How far a request has come when its thread has ended. -/
theorem result (h : Serving P Q J os w) {i : Nat} {o : O} {r : Except E α} (ho : os[i]? = some o)
    (hr : w.pool.result i = some r) : ∃ g, w.stages[i]? = some (o, g) ∧ Q o r g := by
  obtain ⟨t, ht, hr⟩ := Option.bind_eq_some_iff.mp hr
  obtain ⟨hlt, hget⟩ := List.getElem?_eq_some_iff.mp ht
  have hthread := List.forall₂_iff_get.mp h.follow
  have hlt' : i < w.stages.length := h.follow.length_eq ▸ hlt
  have hfollows := hthread.2 i hlt hlt'
  have hstage : w.stages[i]? = some w.stages[i] := List.getElem?_eq_getElem hlt'
  rw [← h.served, List.getElem?_map, hstage] at ho
  cases ho
  refine ⟨w.stages[i].2, hstage, ?_⟩
  simp only [List.get_eq_getElem, hget] at hfollows
  cases t with
  | ret a =>
    cases hr
    exact hfollows
  | fail e =>
    cases hr
    exact hfollows
  | call c k => cases hr

/-- A thread that has a call to make is at a stage that allows it. -/
theorem nextCall (h : Serving P Q J os w) {i : Nat} {c : C} (hc : w.pool.nextCall i = some c) :
    ∃ o g, w.stages[i]? = some (o, g) ∧ (P o).allowed g c := by
  obtain ⟨t, ht, hc⟩ := Option.bind_eq_some_iff.mp hc
  obtain ⟨hlt, hget⟩ := List.getElem?_eq_some_iff.mp ht
  have hthread := List.forall₂_iff_get.mp h.follow
  have hlt' : i < w.stages.length := h.follow.length_eq ▸ hlt
  have hfollows := hthread.2 i hlt hlt'
  refine ⟨w.stages[i].1, w.stages[i].2, List.getElem?_eq_getElem hlt', ?_⟩
  simp only [List.get_eq_getElem, hget] at hfollows
  cases t with
  | ret a => cases hc
  | fail e => cases hc
  | call c' k =>
    cases hc
    exact hfollows.1

/-- A thread with no call to make has ended. -/
theorem ended (h : Serving P Q J os w) {i : Nat} {o : O} (ho : os[i]? = some o)
    (hc : w.pool.nextCall i = none) : ∃ r g, w.pool.result i = some r ∧ w.stages[i]? = some (o, g) ∧ Q o r g := by
  have hlength : os.length = w.pool.threads.length := by
    rw [← h.served, List.length_map, h.follow.length_eq]
  obtain ⟨hlt, _⟩ := List.getElem?_eq_some_iff.mp ho
  have ht : w.pool.threads[i]? = some (w.pool.threads.get ⟨i, hlength ▸ hlt⟩) := List.getElem?_eq_getElem _
  have hr : ∃ r, w.pool.result i = some r := by
    unfold Pool.nextCall at hc
    unfold Pool.result
    rw [ht] at hc ⊢
    cases hthread : w.pool.threads.get ⟨i, hlength ▸ hlt⟩ with
    | ret a => exact ⟨.ok a, rfl⟩
    | fail e => exact ⟨.error e, rfl⟩
    | call c k =>
      rw [hthread] at hc
      cases hc
  obtain ⟨r, hr⟩ := hr
  obtain ⟨g, hg, hQ⟩ := h.result ho hr
  exact ⟨r, g, hr, hg, hQ⟩

variable (exec env waits) in
/-- What a turn of a thread does to the store. -/
theorem turn (h : Serving P Q J os w) (i : Nat) :
    w.pool.nextCall i = none ∧ serve exec env P waits (.advance i) w = w ∨
    ∃ c o g, w.pool.nextCall i = some c ∧ w.stages[i]? = some (o, g) ∧ (P o).allowed g c ∧
      (waits w.pool.store c = true ∧ serve exec env P waits (.advance i) w = w ∨
        waits w.pool.store c = false ∧
          (serve exec env P waits (.advance i) w).pool.store = (exec c w.pool.store).2) := by
  cases hc : w.pool.nextCall i with
  | none =>
    refine .inl ⟨rfl, ?_⟩
    simp only [serve, Staged.step, Staged.advance]
    split
    · next c k g ht hg => rw [Pool.nextCall_of_thread ht] at hc; cases hc
    · rfl
  | some c =>
    obtain ⟨o, g, hg, hallowed⟩ := h.nextCall hc
    refine .inr ⟨c, o, g, rfl, hg, hallowed, ?_⟩
    obtain ⟨t, ht, hnext⟩ := Option.bind_eq_some_iff.mp hc
    cases t with
    | ret a => cases hnext
    | fail e => cases hnext
    | call c' k =>
      cases hnext
      cases hw : waits w.pool.store c with
      | true => exact .inl ⟨rfl, by simp [serve, Staged.step, Staged.advance, ht, hg, hw]⟩
      | false => exact .inr ⟨rfl, by simp [serve, Staged.step, Staged.advance, ht, hg, hw]⟩

variable (exec env waits) in
/-- What an event does: a request makes a call its stage allows, or nothing happens, or the world moves on. -/
theorem event_cases (h : Serving P Q J os w) (e : Pool.Event Empty D) :
    (∃ i c o g, e = .advance i ∧ w.pool.nextCall i = some c ∧ w.stages[i]? = some (o, g) ∧
      (P o).allowed g c ∧ waits w.pool.store c = false ∧
      (serve exec env P waits e w).pool.store = (exec c w.pool.store).2 ∧
      (serve exec env P waits e w).stages =
        w.stages.set i (o, (P o).next g c (exec c w.pool.store).1)) ∨
    (serve exec env P waits e w = w ∧ (∀ L, Staged.Meets waits L w e) ∧ ∀ d, e ≠ .pass d) ∨
    ∃ d, e = .pass d ∧
      serve exec env P waits e w = ⟨⟨env d w.pool.store, w.pool.threads⟩, w.stages⟩ := by
  cases e with
  | start o => exact o.elim
  | pass d => exact .inr (.inr ⟨d, rfl, rfl⟩)
  | advance i =>
    cases hc : w.pool.nextCall i with
    | none =>
      refine .inr (.inl ⟨?_, fun L => by simp [Staged.Meets, hc], nofun⟩)
      obtain ⟨_, heq⟩ | ⟨c, o, g, hcall, _⟩ := h.turn exec env waits i
      · exact heq
      · rw [hc] at hcall
        cases hcall
    | some c =>
      obtain ⟨o, g, hg, hallowed⟩ := h.nextCall hc
      obtain ⟨t, ht, hnext⟩ := Option.bind_eq_some_iff.mp hc
      cases t with
      | ret a => cases hnext
      | fail e => cases hnext
      | call c' k =>
        cases hnext
        cases hw : waits w.pool.store c with
        | true =>
          refine .inr (.inl ⟨?_, fun L => by simp [Staged.Meets, hc, hw], nofun⟩)
          simp [serve, Staged.step, Staged.advance, ht, hg, hw]
        | false =>
          refine .inl ⟨i, c, o, g, rfl, hc, hg, hallowed, hw, ?_, ?_⟩ <;>
            simp [serve, Staged.step, Staged.advance, ht, hg, hw, Protocol.each]

/-- What holds of the calls the stages allow holds of the next step. -/
theorem meets (h : Serving P Q J os w) (hL : ∀ i o g c, w.stages[i]? = some (o, g) →
      (P o).allowed g c → L w.pool.store w.stages i c) (e : Pool.Event Empty D) :
    Staged.Meets waits L w e := by
  cases e with
  | start o => exact o.elim
  | pass d => trivial
  | advance i =>
    simp only [Staged.Meets]
    split
    · next c hc =>
      obtain ⟨o, g, hg, hallowed⟩ := h.nextCall hc
      exact fun _ => hL i o g c hg hallowed
    · trivial

theorem step (hanswers : ∀ o s c, (P o).answers c (exec c s).1)
    (hcall : ∀ s gs i o g c, J s gs → gs[i]? = some (o, g) → (P o).allowed g c → waits s c = false →
      L s gs i c → J (exec c s).2 (gs.set i (o, (P o).next g c (exec c s).1)))
    (henv : ∀ d s gs, J s gs → J (env d s) gs) (h : Serving P Q J os w) {e : Pool.Event Empty D}
    (hL : Staged.Meets waits L w e) : Serving P Q J os (serve exec env P waits e w) := by
  obtain ⟨o, rfl, heq⟩ | ⟨i, c, k, og, rfl, hi, hg, hfree, heq⟩ | heq | ⟨d, rfl, heq⟩ :=
    Staged.step_cases w e
  · exact o.elim
  · obtain ⟨o, g⟩ := og
    rw [serve, heq]
    obtain ⟨hlt, hget⟩ := List.getElem?_eq_some_iff.mp hi
    obtain ⟨hlt', hget'⟩ := List.getElem?_eq_some_iff.mp hg
    have hthread := List.forall₂_iff_get.mp h.follow
    have hfollows := hthread.2 i hlt hlt'
    simp only [List.get_eq_getElem, hget, hget'] at hfollows
    simp only [Staged.Meets, Pool.nextCall_of_thread hi] at hL
    refine ⟨List.forall₂_iff_get.mpr ⟨by simp [h.follow.length_eq], fun j hj hj' => ?_⟩, ?_,
      hcall _ _ i o g c h.inv hg hfollows.1 hfree (hL hfree)⟩
    · simp only [List.get_eq_getElem, List.getElem_set]
      split
      · exact hfollows.2 _ fun o => hanswers o _ _
      · exact hthread.2 j (by simpa using hj) (by simpa using hj')
    · rw [List.map_set, ← h.served]
      refine List.ext_getElem (by simp) fun j hj hj' => ?_
      rw [List.getElem_set]
      split
      · next hij =>
        subst hij
        simp [Protocol.each, hget']
      · rfl
  · rw [serve, heq]
    exact h
  · rw [serve, heq]
    exact ⟨h.follow, h.served, henv d _ _ h.inv⟩

/-- Throughout every run whose steps meet the condition. -/
theorem always (hanswers : ∀ o s c, (P o).answers c (exec c s).1)
    (hcall : ∀ s gs i o g c, J s gs → gs[i]? = some (o, g) → (P o).allowed g c → waits s c = false →
      L s gs i c → J (exec c s).2 (gs.set i (o, (P o).next g c (exec c s).1)))
    (henv : ∀ d s gs, J s gs → J (env d s) gs) (h : Serving P Q J os w)
    {es : List (Pool.Event Empty D)}
    (hL : Runs.Along (serve exec env P waits) (Staged.Meets waits L) es w) :
    Runs.Always (serve exec env P waits) (Serving P Q J os) es w :=
  Runs.Always.of_along (fun _ _ h hL => h.step hanswers hcall henv hL) h hL

end Serving

/-! ## Counting the requests that have succeeded -/

def Prog.succeeded : Prog C R E α → Bool
  | .ret _ => true
  | _ => false

/-- How many of the requests that `p` selects have succeeded. -/
def successes (p : O → Bool) (os : List O) (threads : List (Prog C R E α)) : Nat :=
  (os.zip threads).countP fun x => p x.1 && x.2.succeeded

section Successes

variable {threads : List (Prog C R E α)} {gs : List (O × G)} {p : O → Bool} {q : O × G → Bool}

theorem successes_cons (o : O) (t : Prog C R E α) (os : List O) (threads : List (Prog C R E α)) :
    successes p (o :: os) (t :: threads) =
      successes p os threads + if p o && t.succeeded then 1 else 0 := by
  unfold successes
  rw [List.zip_cons_cons, List.countP_cons]

/-- Where success is told by the stage, no more requests have succeeded than stages tell. -/
theorem successes_le (h : List.Forall₂ (fun p g => Prog.Follows (Protocol.each P)
      (fun r g' => Q g.1 r g'.2) p g) threads gs)
    (hpq : ∀ o g a, (o, g) ∈ gs → p o = true → Q o (.ok a) g → q (o, g) = true) :
    successes p (gs.map Prod.fst) threads ≤ gs.countP q := by
  induction h with
  | nil => exact Nat.le_refl 0
  | @cons t g threads gs hfollows _ ih =>
    have hrest := ih fun o g a hmem => hpq o g a (List.mem_cons_of_mem _ hmem)
    rw [List.map_cons, successes_cons, List.countP_cons]
    cases t with
    | ret a =>
      cases hp : p g.1 with
      | false =>
        simp only [Bool.false_and, Bool.false_eq_true, if_false]
        omega
      | true =>
        have hq := hpq g.1 g.2 a List.mem_cons_self hp hfollows
        simp only [Prog.succeeded, hq, Bool.and_self, if_true]
        omega
    | fail e =>
      simp only [Prog.succeeded, Bool.and_false, Bool.false_eq_true, if_false]
      omega
    | call c k =>
      simp only [Prog.succeeded, Bool.and_false, Bool.false_eq_true, if_false]
      omega

/-- And as many, where all have ended and no request is at such a stage without having succeeded. -/
theorem le_successes (h : List.Forall₂ (fun p g => Prog.Follows (Protocol.each P)
      (fun r g' => Q g.1 r g'.2) p g) threads gs)
    (hended : ∀ t ∈ threads, t.outcome.isSome)
    (hqp : ∀ o g r, (o, g) ∈ gs → q (o, g) = true → Q o r g → p o = true ∧ ∃ a, r = .ok a) :
    gs.countP q ≤ successes p (gs.map Prod.fst) threads := by
  induction h with
  | nil => exact Nat.le_refl 0
  | @cons t g threads gs hfollows _ ih =>
    have hrest := ih (fun t ht => hended t (List.mem_cons_of_mem _ ht))
      fun o g r hmem => hqp o g r (List.mem_cons_of_mem _ hmem)
    have ht := hended t List.mem_cons_self
    rw [List.map_cons, successes_cons, List.countP_cons]
    cases hq : q g with
    | false =>
      simp only [Bool.false_eq_true, if_false]
      omega
    | true =>
      cases t with
      | ret a =>
        obtain ⟨hp, _⟩ := hqp g.1 g.2 (.ok a) List.mem_cons_self hq hfollows
        simp only [hp, Prog.succeeded, Bool.and_self, if_true]
        omega
      | fail e =>
        obtain ⟨_, a, ha⟩ := hqp g.1 g.2 (.error e) List.mem_cons_self hq hfollows
        cases ha
      | call c k => cases ht

end Successes

end Relay.Lib
