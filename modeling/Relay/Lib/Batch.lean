import Relay.Lib.Rows
import Relay.Lib.Runs

/-!
# Jobs that work off the due rows of a table

Such a job runs again and again, takes at most `limit` of the rows that are due and rewrites each of them.
`Clears` says what the rounds of one run did so far: rows with the keys of the batch are not due any more,
the others are as they were. If the batch is the first `limit` of the due rows in some order, the run
`Drains` the table, and enough runs leave no due row (`length_due_final`).
-/

namespace Relay.Lib.Batch

open Rows

variable {α : Type} {id : α → Nat} {due : α → Bool} {ks ks' : List Nat} {rows rows' rows'' : List α}

/-! ## One run -/

variable (id due) in
/-- The rows with these keys are not due any more, the others are as they were. -/
def Clears (ks : List Nat) : List α → List α → Prop :=
  List.Forall₂ fun a b => id b = id a ∧ (id a ∈ ks → due b = false) ∧ (id a ∉ ks → b = a)

namespace Clears

theorem refl (rows : List α) : Clears id due [] rows rows :=
  List.forall₂_same.mpr fun _ _ => ⟨rfl, fun h => absurd h List.not_mem_nil, fun _ => rfl⟩

theorem trans (h : Clears id due ks rows rows') (h' : Clears id due ks' rows' rows'') :
    Clears id due (ks ++ ks') rows rows'' := by
  induction h generalizing rows'' with
  | nil =>
    cases h'
    exact .nil
  | @cons a _ _ _ hab _ ih =>
    cases h' with
    | cons hbc hrest =>
      refine .cons ?_ (ih hrest)
      obtain ⟨hid, hclear, hkeep⟩ := hab
      obtain ⟨hid', hclear', hkeep'⟩ := hbc
      rw [hid] at hid' hclear' hkeep'
      refine ⟨hid', fun hmem => ?_, fun hnot => ?_⟩
      · by_cases hlater : id a ∈ ks'
        · exact hclear' hlater
        · rw [hkeep' hlater]
          exact hclear ((List.mem_append.mp hmem).resolve_right hlater)
      · rw [List.mem_append, not_or] at hnot
        rw [hkeep' hnot.2, hkeep hnot.1]

theorem congr (h : Clears id due ks rows rows') (hks : ∀ k, k ∈ ks ↔ k ∈ ks') : Clears id due ks' rows rows' := by
  refine h.imp fun a b hab => ?_
  rwa [hks] at hab

/-- A row saved as one that is not due. -/
theorem of_replaceRow {row : α} (hdue : due row = false) (rows : List α) :
    Clears id due [id row] rows (replaceRow id row rows) := by
  unfold Clears replaceRow
  rw [List.forall₂_map_right_iff, List.forall₂_same]
  intro a _
  simp only [List.mem_singleton]
  split
  · next hid => exact ⟨hid.symm, fun _ => hdue, fun hne => absurd hid hne⟩
  · next hne => exact ⟨rfl, fun hid => absurd hid hne, fun _ => rfl⟩

theorem map_id (h : Clears id due ks rows rows') : rows'.map id = rows.map id := by
  induction h with
  | nil => rfl
  | cons hab _ ih => rw [List.map_cons, List.map_cons, ih, hab.1]

theorem mem (h : Clears id due ks rows rows') {a : α} (ha : a ∈ rows) (hnot : id a ∉ ks) : a ∈ rows' := by
  induction h with
  | nil => exact ha
  | cons hab _ ih =>
    rcases List.mem_cons.mp ha with rfl | ha
    · rw [hab.2.2 hnot]
      exact List.mem_cons_self
    · exact List.mem_cons_of_mem _ (ih ha)

/-- The rows that are still due. -/
theorem filter_due (h : Clears id due ks rows rows') :
    rows'.filter due = (rows.filter due).filter fun a => id a ∉ ks := by
  induction h with
  | nil => rfl
  | @cons a b rows rows' hab _ ih =>
    obtain ⟨_, hclear, hkeep⟩ := hab
    by_cases hmem : id a ∈ ks
    · rw [List.filter_cons_of_neg (by simp [hclear hmem]), ih]
      by_cases hdue : due a = true
      · rw [List.filter_cons_of_pos hdue, List.filter_cons_of_neg (by simpa using hmem)]
      · rw [List.filter_cons_of_neg hdue]
    · rw [hkeep hmem]
      by_cases hdue : due a = true
      · rw [List.filter_cons_of_pos hdue, List.filter_cons_of_pos hdue,
          List.filter_cons_of_pos (by simpa using hmem), ih]
      · rw [List.filter_cons_of_neg hdue, List.filter_cons_of_neg hdue, ih]

end Clears

variable (id due) in
/-- As many due rows as the limit allows are not due any more; nothing else happens to the table. -/
structure Drains (limit : Nat) (rows rows' : List α) : Prop where
  count : (rows'.filter due).length = (rows.filter due).length - min limit (rows.filter due).length
  /-- What is due was due, and is as it was. -/
  left : (rows'.filter due).Sublist (rows.filter due)
  /-- Rows that were not due are as they were. -/
  others : ∀ a ∈ rows, due a = false → a ∈ rows'
  keys : rows'.map id = rows.map id

theorem filter_not_mem_take {order : List α} (hnodup : (order.map id).Nodup) (n : Nat) :
    (order.filter fun a => id a ∉ (order.take n).map id) = order.drop n := by
  have hsplit : order.filter (fun a => id a ∉ (order.take n).map id) =
      (order.take n ++ order.drop n).filter fun a => id a ∉ (order.take n).map id := by
    rw [List.take_append_drop]
  have hnodup' : ((order.take n).map id ++ (order.drop n).map id).Nodup := by
    rwa [← List.map_append, List.take_append_drop]
  rw [hsplit, List.filter_append, List.filter_eq_nil_iff.mpr, List.filter_eq_self.mpr, List.nil_append]
  · intro a ha
    have hout : id a ∉ (order.take n).map id := fun hmem =>
      List.disjoint_of_nodup_append hnodup' hmem (List.mem_map_of_mem ha)
    simpa using hout
  · intro a ha hout
    exact of_decide_eq_true hout (List.mem_map_of_mem ha)

/-- The batch is the first rows of the due ones, in some order. -/
theorem Clears.drains {order : List α} {limit : Nat} (hnodup : (rows.map id).Nodup)
    (horder : order.Perm (rows.filter due)) (h : Clears id due ((order.take limit).map id) rows rows') :
    Drains id due limit rows rows' := by
  have hdue : ((rows.filter due).map id).Nodup := hnodup.sublist (List.filter_sublist.map id)
  have hids : (order.map id).Nodup := (horder.map id).nodup_iff.mpr hdue
  refine ⟨?_, ?_, fun a ha hnot => h.mem ha fun hmem => ?_, h.map_id⟩
  · rw [h.filter_due, ← (horder.filter _).length_eq, filter_not_mem_take hids, List.length_drop, horder.length_eq]
    omega
  · rw [h.filter_due]
    exact List.filter_sublist
  · obtain ⟨b, hb, hid⟩ := List.mem_map.mp hmem
    obtain ⟨hb, hbdue⟩ := List.mem_filter.mp (horder.mem_iff.mp (List.mem_of_mem_take hb))
    rw [eq_of_id_eq hnodup hb ha hid, hnot] at hbdue
    cases hbdue

/-! ## Repeated runs -/

variable {O S : Type} {step : O → S → S} {I : S → Prop} {rowsOf : S → List α} {limit : Nat} {os : List O}

/-- Each run takes its batch off the due rows, until none is left. -/
theorem length_due_final (hI : ∀ s, I s → ∀ o ∈ os, I (step o s))
    (hstep : ∀ s, I s → ∀ o ∈ os, Drains id due limit (rowsOf s) (rowsOf (step o s))) {s : S} (hs : I s) :
    ((rowsOf (Runs.final step os s)).filter due).length = ((rowsOf s).filter due).length - limit * os.length := by
  induction os generalizing s with
  | nil => simp [Runs.final]
  | cons o os ih =>
    have hfirst := (hstep s hs o List.mem_cons_self).count
    have hrest := ih (fun t ht o' ho' => hI t ht o' (List.mem_cons_of_mem _ ho'))
      (fun t ht o' ho' => hstep t ht o' (List.mem_cons_of_mem _ ho')) (hI s hs o List.mem_cons_self)
    rw [Runs.final, hrest, hfirst, List.length_cons, Nat.mul_succ]
    omega

theorem due_final_eq_nil (hI : ∀ s, I s → ∀ o ∈ os, I (step o s))
    (hstep : ∀ s, I s → ∀ o ∈ os, Drains id due limit (rowsOf s) (rowsOf (step o s))) {s : S} (hs : I s)
    (henough : ((rowsOf s).filter due).length ≤ limit * os.length) :
    (rowsOf (Runs.final step os s)).filter due = [] := by
  rw [← List.length_eq_zero_iff, length_due_final hI hstep hs, Nat.sub_eq_zero_of_le henough]

end Relay.Lib.Batch
