import Mathlib.Data.List.Basic

/-!
# A limit on the grants of a sliding window

A limiter keeps the times it remembers, drops those out of the window when it is asked, and grants when
few enough are left. What it remembers need not be all it has granted: it is `Faithful` when the two agree
on every window from some time on. Its grants are then `Bounded`: no set of times that lie within one
window holds more than `limit` of them.
-/

namespace Relay.Lib.Window

variable {window limit : Nat}

variable (window) in
/-- The times that are within the window at `now`. -/
def recent (now : Nat) (times : List Nat) : List Nat := times.filter fun t => now - t < window

variable (window) in
/-- From `last` on, the kept times answer for the grants, which are not later than `last`. -/
structure Faithful (last : Nat) (kept grants : List Nat) : Prop where
  le_last : ∀ g ∈ grants, g ≤ last
  recent_eq : ∀ now, last ≤ now → recent window now kept = recent window now grants

variable (window limit) in
/-- Times that lie within one window hold at most `limit` of the grants. -/
def Bounded (grants : List Nat) : Prop :=
  ∀ p : Nat → Bool, (∀ s t, p s = true → p t = true → t - s < window) →
    (grants.filter p).length ≤ limit

theorem recent_append (now : Nat) (times times' : List Nat) :
    recent window now (times ++ times') = recent window now times ++ recent window now times' :=
  List.filter_append ..

/-- What is within the window at a later time was within it before. -/
theorem recent_recent {now later : Nat} (h : now ≤ later) (times : List Nat) :
    recent window later (recent window now times) = recent window later times := by
  unfold recent
  rw [List.filter_filter]
  apply List.filter_congr
  intro t _
  rw [Bool.and_eq_left_iff_imp]
  simp only [decide_eq_true_eq]
  omega

theorem faithful_nil (last : Nat) : Faithful window last [] [] where
  le_last _ hg := absurd hg List.not_mem_nil
  recent_eq _ _ := rfl

theorem bounded_nil : Bounded window limit [] := by
  intro p _
  simp

section Faithful

variable {last now : Nat} {kept grants : List Nat}

theorem Faithful.mono (h : Faithful window last kept grants) (hlast : last ≤ now) :
    Faithful window now kept grants where
  le_last g hg := Nat.le_trans (h.le_last g hg) hlast
  recent_eq later hlater := h.recent_eq later (Nat.le_trans hlast hlater)

/-- A grant is remembered, with what is still within the window. -/
theorem Faithful.grant (h : Faithful window now kept grants) :
    Faithful window now (recent window now kept ++ [now]) (grants ++ [now]) where
  le_last g hg := by
    rcases List.mem_append.mp hg with hg | hg
    · exact h.le_last g hg
    · exact Nat.le_of_eq (List.mem_singleton.mp hg)
  recent_eq later hlater := by
    rw [recent_append, recent_append, recent_recent hlater, h.recent_eq later hlater]

/-- A grant with few enough grants within the window leaves every window with few enough. -/
theorem Bounded.grant (h : Bounded window limit grants)
    (hfree : (recent window now grants).length < limit) :
    Bounded window limit (grants ++ [now]) := by
  intro p hp
  rw [List.filter_append]
  by_cases hnow : p now = true
  · -- The grants of these times were all within the window at `now`.
    have hsub : (grants.filter p).length ≤ (recent window now grants).length := by
      unfold recent
      apply List.Sublist.length_le
      apply List.monotone_filter_right
      intro g hg
      exact decide_eq_true (hp g now hg hnow)
    rw [List.filter_cons_of_pos hnow, List.filter_nil, List.length_append, List.length_singleton]
    omega
  · rw [List.filter_cons_of_neg hnow, List.filter_nil, List.append_nil]
    exact h p hp

end Faithful

/-- The window at `now`, as an interval that is open on the left. -/
theorem recent_eq_filter {now : Nat} {times : List Nat} (hle : ∀ t ∈ times, t ≤ now) :
    recent window now times = times.filter fun t => now < t + window ∧ t ≤ now := by
  unfold recent
  apply List.filter_congr
  intro t ht
  have hle : t ≤ now := hle t ht
  simp only [decide_eq_decide]
  omega

/-- Intervals that are open on one side and no longer than the window. -/
theorem Bounded.interval {grants : List Nat} (h : Bounded window limit grants) (a : Nat) :
    (grants.filter fun t => a < t ∧ t ≤ a + window).length ≤ limit ∧
      (grants.filter fun t => a ≤ t ∧ t < a + window).length ≤ limit := by
  refine ⟨h _ fun s t hs ht => ?_, h _ fun s t hs ht => ?_⟩
  · simp only [decide_eq_true_eq] at hs ht
    omega
  · simp only [decide_eq_true_eq] at hs ht
    omega

end Relay.Lib.Window
