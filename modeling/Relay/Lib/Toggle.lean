import Mathlib.Algebra.Ring.Parity
import Mathlib.Data.Finset.Card
import Mathlib.Data.List.Nodup
import Mathlib.Data.Finset.Image

/-!
# Toggled keys

A key that is toggled is taken out of the list if it is there, and put at the end if not. After any number
of toggles, starting with none, a key is in the list exactly when it was toggled an odd number of times
(`mem_toggleAll`). For keys with two parts, `toggledBy` collects the first parts by the second.
-/

namespace Relay.Lib

variable {κ ι ε : Type} [DecidableEq κ] [DecidableEq ι] [DecidableEq ε]

def toggle (l : List κ) (k : κ) : List κ := if k ∈ l then l.filter fun x => x ≠ k else l ++ [k]

/-- All keys toggled in turn, starting with none. -/
def toggleAll (ks : List κ) : List κ := ks.foldl toggle []

section Toggle

variable {l : List κ} {k x : κ}

theorem nodup_toggle (h : l.Nodup) (k : κ) : (toggle l k).Nodup := by
  unfold toggle
  split
  · exact h.filter _
  · next hk =>
    rw [← List.concat_eq_append]
    exact h.concat hk

theorem mem_toggle_self : k ∈ toggle l k ↔ k ∉ l := by
  unfold toggle
  split
  · next hk => simp [hk]
  · next hk => simp [hk]

theorem mem_toggle_of_ne (h : x ≠ k) : x ∈ toggle l k ↔ x ∈ l := by
  unfold toggle
  split
  · simp [h]
  · simp [h]

end Toggle

theorem toggleAll_concat (ks : List κ) (k : κ) : toggleAll (ks ++ [k]) = toggle (toggleAll ks) k := by
  simp [toggleAll]

theorem nodup_foldl_toggle {l : List κ} (h : l.Nodup) (ks : List κ) : (ks.foldl toggle l).Nodup := by
  induction ks generalizing l with
  | nil => exact h
  | cons k ks ih => exact ih (nodup_toggle h k)

theorem nodup_toggleAll (ks : List κ) : (toggleAll ks).Nodup := nodup_foldl_toggle List.nodup_nil ks

/-- By induction on the last toggle, which changes the parity of its own key only. -/
theorem mem_toggleAll [BEq κ] [LawfulBEq κ] (ks : List κ) (x : κ) : x ∈ toggleAll ks ↔ Odd (ks.count x) := by
  induction ks using List.reverseRecOn with
  | nil => simp [toggleAll]
  | append_singleton ks k ih =>
    rw [toggleAll_concat, List.count_append]
    by_cases h : x = k
    · subst h
      have hlast : List.count x [x] = 1 := List.count_singleton_self
      rw [mem_toggle_self, ih, hlast, Nat.odd_add_one]
    · have hlast : List.count x [k] = 0 := by simp [Ne.symm h]
      rw [mem_toggle_of_ne h, ih, hlast, Nat.add_zero]

/-! ## Keys with two parts -/

/-- The first parts of the keys with this second part that were toggled an odd number of times. -/
def toggledBy (ks : List (ι × ε)) (e : ε) : Finset ι :=
  (ks.map Prod.fst).toFinset.filter fun i => Odd (ks.count (i, e))

theorem mem_toggledBy {ks : List (ι × ε)} {e : ε} {i : ι} : i ∈ toggledBy ks e ↔ (i, e) ∈ toggleAll ks := by
  unfold toggledBy
  rw [Finset.mem_filter, List.mem_toFinset, ← mem_toggleAll]
  constructor
  · intro h
    exact h.2
  · intro h
    have hodd : Odd (ks.count (i, e)) := (mem_toggleAll ks (i, e)).mp h
    have hpos : 0 < ks.count (i, e) := Nat.pos_of_ne_zero fun h0 => by simp [h0] at hodd
    have hmem : (i, e) ∈ ks := List.count_pos_iff.mp hpos
    exact ⟨List.mem_map.mpr ⟨_, hmem, rfl⟩, h⟩

/-- The keys with one second part are as many as the first parts that toggled it. -/
theorem length_toggleAll_filter (ks : List (ι × ε)) (e : ε) :
    ((toggleAll ks).filter fun k => k.2 = e).length = (toggledBy ks e).card := by
  have hnodup : (((toggleAll ks).filter fun k => k.2 = e).map Prod.fst).Nodup := by
    refine (nodup_toggleAll ks).filter _ |>.map_on ?_
    intro a ha b hb hab
    have hae : a.2 = e := of_decide_eq_true (List.mem_filter.mp ha).2
    have hbe : b.2 = e := of_decide_eq_true (List.mem_filter.mp hb).2
    exact Prod.ext hab (hae.trans hbe.symm)
  have hmem : (((toggleAll ks).filter fun k => k.2 = e).map Prod.fst).toFinset = toggledBy ks e := by
    ext i
    rw [List.mem_toFinset, mem_toggledBy, List.mem_map]
    constructor
    · rintro ⟨k, hk, rfl⟩
      obtain ⟨hkept, he⟩ := List.mem_filter.mp hk
      have hke : k.2 = e := of_decide_eq_true he
      subst hke
      exact hkept
    · intro h
      exact ⟨(i, e), List.mem_filter.mpr ⟨h, decide_eq_true rfl⟩, rfl⟩
  rw [← hmem, List.toFinset_card_of_nodup hnodup, List.length_map]

end Relay.Lib
