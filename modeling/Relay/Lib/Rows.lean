import Mathlib.Data.List.Nodup
import Mathlib.Data.List.Sort

/-!
# Tables as lists of rows

A table is the list of its rows in the order of insertion, with a key `id`. Rows are replaced by
their key (`replaceRow`) and appended with fresh keys (`Keyed`). The last section compares two
tables that are only known to agree on the rows a predicate selects.
-/

namespace Relay.Lib.Rows

/-- The row with the key of `row` becomes `row`. -/
def replaceRow {α : Type} (id : α → Nat) (row : α) (rows : List α) : List α :=
  rows.map fun r => if id r = id row then row else r

/-! ## Replaced rows -/

section ReplaceRow

variable {α β : Type} {id : α → Nat} {row : α} {rows : List α}

theorem mem_replaceRow {a : α} (h : a ∈ replaceRow id row rows) : a = row ∨ a ∈ rows := by
  obtain ⟨r, hr, rfl⟩ := List.mem_map.mp h
  split
  · exact .inl rfl
  · exact .inr hr

theorem mem_replaceRow_iff {a : α} :
    a ∈ replaceRow id row rows ↔
      a = row ∧ (∃ r ∈ rows, id r = id row) ∨ a ∈ rows ∧ id a ≠ id row := by
  unfold replaceRow
  rw [List.mem_map]
  constructor
  · rintro ⟨r, hr, rfl⟩
    split
    · next hid => exact .inl ⟨rfl, r, hr, hid⟩
    · next hid => exact .inr ⟨hr, hid⟩
  · rintro (⟨rfl, r, hr, hid⟩ | ⟨ha, hid⟩)
    · exact ⟨r, hr, if_pos hid⟩
    · exact ⟨a, ha, if_neg hid⟩

/-- What the new row has in common with the row it replaces stays. -/
theorem map_replaceRow {f : α → β} (h : ∀ r ∈ rows, id r = id row → f r = f row) :
    (replaceRow id row rows).map f = rows.map f := by
  unfold replaceRow
  rw [List.map_map]
  refine List.map_congr_left fun r hr => ?_
  simp only [Function.comp_apply]
  split
  · next hid => exact (h r hr hid).symm
  · rfl

/-- Rows with different ids agree when they agree on their ids. -/
theorem eq_of_id_eq (h : (rows.map id).Nodup) {a b : α} (ha : a ∈ rows) (hb : b ∈ rows)
    (hid : id a = id b) : a = b := List.inj_on_of_nodup_map h ha hb hid

/-- The row with a key, after a row was replaced. -/
theorem find?_replaceRow (n : Nat) :
    (replaceRow id row rows).find? (fun a => id a = n) =
      if id row = n then (rows.find? fun a => id a = n).map fun _ => row
      else rows.find? fun a => id a = n := by
  induction rows with
  | nil => simp [replaceRow]
  | cons a rows ih =>
    unfold replaceRow at ih ⊢
    rw [List.map_cons, List.find?_cons, List.find?_cons, ih]
    by_cases ha : id a = id row
    · by_cases hn : id row = n <;> simp [ha, hn]
    · by_cases hn : id row = n
      · simp [hn, hn ▸ ha]
      · simp [ha, hn]

/-! ### Counting -/

theorem replaceRow_absent (h : ∀ r ∈ rows, id r ≠ id row) : replaceRow id row rows = rows := by
  unfold replaceRow
  rw [List.map_congr_left (g := fun r => r) fun r hr => if_neg (h r hr)]
  exact List.map_id' rows

/-- One row comes for another. -/
theorem length_filter_replaceRow {p : α → Bool} (h : (rows.map id).Nodup) {r : α} (hr : r ∈ rows)
    (hid : id r = id row) :
    ((replaceRow id row rows).filter p).length + (if p r then 1 else 0) =
      (rows.filter p).length + if p row then 1 else 0 := by
  induction rows with
  | nil => cases hr
  | cons a rows ih =>
    rw [List.map_cons, List.nodup_cons] at h
    have hcons : replaceRow id row (a :: rows) =
        (if id a = id row then row else a) :: replaceRow id row rows := rfl
    rw [hcons]
    obtain rfl | hr := List.mem_cons.mp hr
    · have habsent : replaceRow id row rows = rows := replaceRow_absent fun b hb hab =>
        h.1 (hid.trans hab.symm ▸ List.mem_map_of_mem hb)
      rw [if_pos hid, habsent, List.filter_cons, List.filter_cons]
      cases p r <;> cases p row <;> simp
    · have hne : id a ≠ id row := fun ha => h.1 (ha.trans hid.symm ▸ List.mem_map_of_mem hr)
      have hrest := ih h.2 hr
      rw [if_neg hne, List.filter_cons, List.filter_cons]
      cases p a <;> simp only [Bool.false_eq_true, if_true, if_false, List.length_cons] <;> omega

variable (id row rows) in
/-- A row of `p` comes for one that is not of `p`. -/
def Takes (p : α → Bool) : Prop := p row = true ∧ ∃ r ∈ rows, id r = id row ∧ p r = false

instance (p : α → Bool) : Decidable (Takes id row rows p) := inferInstanceAs (Decidable (_ ∧ _))

theorem filter_replaceRow_le_iff {p : α → Bool} {n : Nat} (h : (rows.map id).Nodup)
    (hn : (rows.filter p).length ≤ n) :
    ((replaceRow id row rows).filter p).length ≤ n ↔
      (Takes id row rows p → (rows.filter p).length < n) := by
  by_cases hrow : ∃ r ∈ rows, id r = id row
  · obtain ⟨r, hr, hid⟩ := hrow
    have hcount := length_filter_replaceRow (p := p) h hr hid
    have htakes : Takes id row rows p ↔ p row = true ∧ p r = false := by
      refine and_congr_right fun _ => ⟨?_, fun hp => ⟨r, hr, hid, hp⟩⟩
      rintro ⟨r', hr', hid', hp⟩
      rwa [eq_of_id_eq h hr hr' (hid.trans hid'.symm)]
    rw [htakes]
    cases hp : p r <;> cases hp' : p row <;> simp [hp, hp'] at hcount ⊢ <;> omega
  · rw [replaceRow_absent fun r hr hid => hrow ⟨r, hr, hid⟩]
    exact iff_of_true hn fun ⟨_, r, hr, hid, _⟩ => absurd ⟨r, hr, hid⟩ hrow

theorem filter_replaceRow_le {p : α → Bool} (h : (rows.map id).Nodup) :
    ((replaceRow id row rows).filter p).length ≤ (rows.filter p).length + 1 :=
  (filter_replaceRow_le_iff h (Nat.le_succ _)).mpr fun _ => Nat.lt_succ_self _

theorem filter_concat_le {p : α → Bool} : ((rows ++ [row]).filter p).length ≤ (rows.filter p).length + 1 := by
  rw [List.filter_append, List.length_append]
  exact Nat.add_le_add_left (List.length_filter_le p [row]) _

theorem filter_concat_le_iff {p : α → Bool} {n : Nat} (hn : (rows.filter p).length ≤ n) :
    ((rows ++ [row]).filter p).length ≤ n ↔ (p row = true → (rows.filter p).length < n) := by
  rw [List.filter_append, List.length_append]
  cases hp : p row <;> simp [hp] <;> omega

end ReplaceRow

/-- The row with a key, after a change of rows that keeps the keys. -/
theorem find?_map_of_id {α : Type} {id : α → Nat} {f : α → α} {rows : List α}
    (hf : ∀ r, id (f r) = id r) (n : Nat) :
    (rows.map f).find? (fun a => id a = n) = (rows.find? fun a => id a = n).map f := by
  rw [List.find?_map]
  congr 2
  funext r
  simp [hf]

/-! ## Unique ids -/

/-- The ids of a table are different and below the next id. -/
structure Keyed {α : Type} (id : α → Nat) (rows : List α) (n : Nat) : Prop where
  nodup : (rows.map id).Nodup
  lt : ∀ r ∈ rows, id r < n

namespace Keyed

variable {α : Type} {id : α → Nat} {rows : List α} {n n' : Nat}

theorem nil : Keyed id [] n := ⟨List.nodup_nil, fun _ h => absurd h List.not_mem_nil⟩

theorem mono (h : Keyed id rows n) (hn : n ≤ n') : Keyed id rows n' :=
  ⟨h.nodup, fun r hr => Nat.lt_of_lt_of_le (h.lt r hr) hn⟩

theorem map {f : α → α} (h : Keyed id rows n) (hf : ∀ r, id (f r) = id r) :
    Keyed id (rows.map f) n := by
  refine ⟨?_, fun r hr => ?_⟩
  · rw [List.map_map, show id ∘ f = id from funext hf]
    exact h.nodup
  · obtain ⟨r', hr', rfl⟩ := List.mem_map.mp hr
    rw [hf]
    exact h.lt r' hr'

theorem replaceRow {row : α} (h : Keyed id rows n) : Keyed id (replaceRow id row rows) n :=
  h.map fun r => by
    split
    · next hid => exact hid.symm
    · rfl

/-- New rows take the next ids in turn. -/
theorem append {new : List α} (h : Keyed id rows n)
    (hnew : new.map id = List.range' n new.length) :
    Keyed id (rows ++ new) (n + new.length) := by
  have hmem : ∀ r ∈ new, n ≤ id r ∧ id r < n + new.length := by
    intro r hr
    have hid : id r ∈ List.range' n new.length := by
      rw [← hnew]
      exact List.mem_map_of_mem hr
    rw [List.mem_range'_1] at hid
    exact hid
  refine ⟨?_, fun r hr => ?_⟩
  · rw [List.map_append, List.nodup_append]
    refine ⟨h.nodup, ?_, ?_⟩
    · rw [hnew]
      exact List.nodup_range'
    · rintro a ha b hb rfl
      obtain ⟨r, hr, rfl⟩ := List.mem_map.mp ha
      obtain ⟨r', hr', hid⟩ := List.mem_map.mp hb
      have hlt := h.lt r hr
      have hge := (hmem r' hr').1
      omega
  · rcases List.mem_append.mp hr with hr | hr
    · have hlt := h.lt r hr
      omega
    · exact (hmem r hr).2

theorem concat {row : α} (h : Keyed id rows n) (hrow : id row = n) :
    Keyed id (rows ++ [row]) (n + 1) := h.append (by simp [hrow])

theorem eq_of_id_eq (h : Keyed id rows n) {a b : α} (ha : a ∈ rows) (hb : b ∈ rows)
    (hid : id a = id b) : a = b := Rows.eq_of_id_eq h.nodup ha hb hid

/-- A row is found by a test that knows its key. -/
theorem find?_of_mem (h : Keyed id rows n) {a : α} (ha : a ∈ rows) {p : α → Bool} (hp : p a = true)
    (hkey : ∀ b, p b = true → id b = id a) : rows.find? p = some a := by
  cases hfind : rows.find? p with
  | none => exact absurd hp (by simpa using List.find?_eq_none.mp hfind a ha)
  | some b =>
    have hb := hkey b (List.find?_some hfind)
    rw [h.eq_of_id_eq (List.mem_of_find?_eq_some hfind) ha hb]

/-- The row with a key is found. -/
theorem find?_eq_some (h : Keyed id rows n) {a : α} {k : Nat} :
    (rows.find? fun r => id r = k) = some a ↔ a ∈ rows ∧ id a = k := by
  constructor
  · intro hfind
    exact ⟨List.mem_of_find?_eq_some hfind, by simpa using List.find?_some hfind⟩
  · rintro ⟨ha, hk⟩
    cases hfind : rows.find? fun r => id r = k with
    | none => exact absurd hk (by simpa using List.find?_eq_none.mp hfind a ha)
    | some b =>
      have hb : id b = k := by simpa using List.find?_some hfind
      rw [h.eq_of_id_eq ha (List.mem_of_find?_eq_some hfind) (hk.trans hb.symm)]

end Keyed

/-! ## Pages -/

/-- The first pages of a listing, one after the other, are its first rows. -/
theorem flatMap_pages {α : Type} (rows : List α) (limit n : Nat) :
    ((List.range n).flatMap fun k => (rows.drop (k * limit)).take limit) = rows.take (n * limit) := by
  induction n with
  | zero => simp
  | succ n ih =>
    rw [List.range_succ, List.flatMap_append, ih, List.flatMap_singleton, Nat.succ_mul, List.take_add]

theorem le_pages (total : Nat) {limit : Nat} (hlimit : 0 < limit) :
    total ≤ (total + limit - 1) / limit * limit := by
  have hlt := Nat.lt_div_mul_add hlimit (a := total + limit - 1)
  omega

/-- A page shows something exactly if it is one of the pages counted by the ceiling division. -/
theorem page_ne_nil_iff {α : Type} {rows : List α} {limit : Nat} (hlimit : 0 < limit) (k : Nat) :
    (rows.drop (k * limit)).take limit ≠ [] ↔ k < (rows.length + limit - 1) / limit := by
  have hlength : ((rows.drop (k * limit)).take limit).length = min limit (rows.length - k * limit) := by
    rw [List.length_take, List.length_drop]
  rw [← List.length_pos_iff, hlength, Nat.lt_iff_add_one_le, Nat.lt_iff_add_one_le,
    Nat.le_div_iff_mul_le hlimit, Nat.succ_mul]
  omega

/-- Each row is on a page, and the pages show rows only. -/
theorem exists_page_iff {α : Type} {rows : List α} {limit : Nat} (hlimit : 0 < limit) {a : α} :
    (∃ k, a ∈ (rows.drop (k * limit)).take limit) ↔ a ∈ rows := by
  constructor
  · rintro ⟨k, hk⟩
    exact List.mem_of_mem_drop (List.mem_of_mem_take hk)
  · intro ha
    have hall : rows.length ≤ rows.length * limit := Nat.le_mul_of_pos_right _ hlimit
    rw [← List.take_of_length_le hall, ← flatMap_pages] at ha
    obtain ⟨k, _, hk⟩ := List.mem_flatMap.mp ha
    exact ⟨k, hk⟩

/-! ## Sorted rows -/

section Sorted

variable {α : Type} {r : α → α → Prop} [DecidableRel r]

theorem filter_orderedInsert (htrans : ∀ a b c, r a b → r b c → r a c) (p : α → Bool) (a : α)
    {rows : List α} (hrows : rows.Pairwise r) :
    (rows.orderedInsert r a).filter p =
      if p a then (rows.filter p).orderedInsert r a else rows.filter p := by
  induction rows with
  | nil => cases hp : p a <;> simp [hp]
  | cons b rows ih =>
    obtain ⟨hb, hrows⟩ := List.pairwise_cons.mp hrows
    by_cases hab : r a b
    · rw [List.orderedInsert_cons_of_le _ _ hab, List.filter_cons]
      split
      · -- what is left of the rows still comes after `a`
        cases hfiltered : (b :: rows).filter p with
        | nil => rfl
        | cons x xs =>
          have hx : x ∈ b :: rows := List.mem_of_mem_filter (hfiltered ▸ List.mem_cons_self)
          have hax : r a x := by
            rcases List.mem_cons.mp hx with rfl | hx
            · exact hab
            · exact htrans a b x hab (hb x hx)
          exact (List.orderedInsert_cons_of_le _ _ hax).symm
      · rfl
    · rw [List.orderedInsert_of_not_le _ _ hab, List.filter_cons, List.filter_cons, ih hrows]
      cases hpb : p b
      · simp
      · cases hpa : p a
        · simp
        · simp [hab]

/-- Sorting is stable: the rows a test selects come in the same order, sorted before or after. -/
theorem filter_insertionSort (htotal : ∀ a b, r a b ∨ r b a) (htrans : ∀ a b c, r a b → r b c → r a c)
    (p : α → Bool) (rows : List α) :
    (rows.insertionSort r).filter p = (rows.filter p).insertionSort r := by
  have : Std.Total r := ⟨htotal⟩
  have : IsTrans α r := ⟨htrans⟩
  induction rows with
  | nil => rfl
  | cons a rows ih =>
    rw [List.insertionSort_cons, filter_orderedInsert htrans p a (List.pairwise_insertionSort r rows), ih,
      List.filter_cons]
    split
    · rw [List.insertionSort_cons]
    · rfl

end Sorted

/-! ## Tables that agree on some rows -/

section Agree

variable {α β : Type} {l l' : List α} {p q q' : α → Bool}

theorem filter_eq_filter_filter (h : ∀ a ∈ l, q a = true → p a = true) :
    l.filter q = (l.filter p).filter q := by
  rw [List.filter_filter]
  refine List.filter_congr fun a ha => ?_
  cases hqa : q a with
  | false => rfl
  | true =>
    rw [h a ha hqa]
    rfl

/-- Tables that agree on the rows of `p` agree on those of any `q` within `p`. -/
theorem filter_eq_of_filter_eq (h : l.filter p = l'.filter p) (hq : ∀ a ∈ l, q a = true → p a = true)
    (hq' : ∀ a ∈ l', q a = true → p a = true) : l.filter q = l'.filter q := by
  rw [filter_eq_filter_filter hq, filter_eq_filter_filter hq', h]

theorem find?_eq_of_filter_eq (h : l.filter p = l'.filter p)
    (hq : ∀ a ∈ l, q a = true → p a = true) (hq' : ∀ a ∈ l', q a = true → p a = true) :
    l.find? q = l'.find? q := by
  rw [← List.head?_filter, ← List.head?_filter, filter_eq_of_filter_eq h hq hq']

/-- Rows that look alike under `f` are selected together. -/
theorem filter_map_eq {f : α → β} (h : l.map f = l'.map f)
    (hq : ∀ a ∈ l, ∀ b ∈ l', f a = f b → q a = q' b) :
    (l.filter q).map f = (l'.filter q').map f := by
  induction l generalizing l' with
  | nil =>
    cases l' with
    | nil => rfl
    | cons b l' => cases h
  | cons a l ih =>
    cases l' with
    | nil => cases h
    | cons b l' =>
      simp only [List.map_cons, List.cons.injEq] at h
      have hrest := ih h.2 fun a' ha' b' hb' =>
        hq a' (List.mem_cons_of_mem _ ha') b' (List.mem_cons_of_mem _ hb')
      have hab := hq a List.mem_cons_self b List.mem_cons_self h.1
      cases hqb : q' b with
      | false => simp [hab, hqb, hrest]
      | true => simp [hab, hqb, hrest, h.1]

/-- The same for tables that look alike on the rows of `p` only. -/
theorem filter_map_eq_of_filter {f : α → β} (h : (l.filter p).map f = (l'.filter p).map f)
    (hq : ∀ a ∈ l, q a = true → p a = true) (hq' : ∀ a ∈ l', q' a = true → p a = true)
    (hqq' : ∀ a ∈ l, ∀ b ∈ l', p a = true → p b = true → f a = f b → q a = q' b) :
    (l.filter q).map f = (l'.filter q').map f := by
  rw [filter_eq_filter_filter hq, filter_eq_filter_filter hq']
  refine filter_map_eq h fun a ha b hb hab => ?_
  obtain ⟨ha, hpa⟩ := List.mem_filter.mp ha
  obtain ⟨hb, hpb⟩ := List.mem_filter.mp hb
  exact hqq' a ha b hb hpa hpb hab

/-- Replacing a row of `p` is seen in the rows of `p` alone. -/
theorem filter_replaceRow {id : α → Nat} {row : α}
    (hp : ∀ r ∈ l, id r = id row → p r = p row) :
    (replaceRow id row l).filter p = replaceRow id row (l.filter p) := by
  unfold replaceRow
  rw [List.filter_map]
  congr 1
  refine List.filter_congr fun r hr => ?_
  simp only [Function.comp_apply]
  split
  · next hid => exact (hp r hr hid).symm
  · rfl

theorem map_replaceRow_comm {f : α → β} {id : α → Nat} {id' : β → Nat} {row : α}
    (hid : ∀ r, id' (f r) = id r) :
    (replaceRow id row l).map f = replaceRow id' (f row) (l.map f) := by
  unfold replaceRow
  rw [List.map_map, List.map_map]
  refine List.map_congr_left fun r _ => ?_
  simp only [Function.comp_apply, hid]
  split <;> rfl

end Agree

/-! ## The rows a predicate selects, as they are shown -/

/-- The rows of `p`, shown by `f`. -/
def shown {α β : Type} (p : α → Bool) (f : α → β) (rows : List α) : List β := (rows.filter p).map f

section Shown

variable {α β : Type} {p : α → Bool} {f : α → β} {l l' : List α} {id : α → Nat}

theorem mem_shown {b : β} : b ∈ shown p f l ↔ ∃ a ∈ l, p a = true ∧ f a = b := by
  simp [shown, and_assoc]

theorem shown_append (h : ∀ a ∈ l', p a = false) : shown p f (l ++ l') = shown p f l := by
  have hnone : l'.filter p = [] := List.filter_eq_nil_iff.mpr fun a ha => by simp [h a ha]
  simp [shown, hnone]

theorem shown_map {g : α → α} (h : ∀ a ∈ l, g a = a ∨ p a = false ∧ p (g a) = false) :
    shown p f (l.map g) = shown p f l := by
  unfold shown
  induction l with
  | nil => rfl
  | cons a l ih =>
    have htail := ih fun b hb => h b (List.mem_cons_of_mem a hb)
    rcases h a List.mem_cons_self with heq | ⟨ha, hga⟩
    · rw [List.map_cons, heq, List.filter_cons, List.filter_cons]
      split
      · rw [List.map_cons, List.map_cons, htail]
      · exact htail
    · rw [List.map_cons, List.filter_cons_of_neg (by simp [hga]), List.filter_cons_of_neg (by simp [ha])]
      exact htail

theorem shown_filter {q : α → Bool} (h : ∀ a ∈ l, p a = true → q a = true) :
    shown p f (l.filter q) = shown p f l := by
  unfold shown
  rw [List.filter_filter]
  congr 1
  refine List.filter_congr fun a ha => ?_
  cases hp : p a with
  | true => simp [h a ha hp]
  | false => rfl

/-- A row of `l` that is replaced in `l'` by one that looks the same is not seen, when the two tables
show the same rows. -/
theorem shown_replaceRow {id' : β → Nat} {old row : α} (hid : ∀ a, id' (f a) = id a)
    (hkeyed : (l.map id).Nodup) (hkeyed' : (l'.map id).Nodup) (h : shown p f l' = shown p f l)
    (hold : old ∈ l) (hrow : id row = id old) (hp : p row = p old) (hf : p old = true → f row = f old) :
    shown p f (replaceRow id row l') = shown p f l := by
  rw [← h]
  -- a row shown in `l'` with the id of `old` is shown in `l` as `old` is
  have hsame : ∀ a ∈ l', id a = id row → p a = true → p old = true ∧ f a = f old := by
    intro a ha haid hpa
    obtain ⟨b, hb, hpb, hfb⟩ := mem_shown.mp (h ▸ mem_shown.mpr ⟨a, ha, hpa, rfl⟩)
    have hbid : id b = id old := by rw [← hid b, hfb, hid, haid, hrow]
    obtain rfl := eq_of_id_eq hkeyed hb hold hbid
    exact ⟨hpb, hfb.symm⟩
  have hpass : ∀ a ∈ l', id a = id row → p a = p old := by
    intro a ha haid
    cases hpold : p old with
    | false =>
      cases hpa : p a with
      | false => rfl
      | true => exact absurd (hsame a ha haid hpa).1 (by simp [hpold])
    | true =>
      obtain ⟨b, hb, hpb, hfb⟩ := mem_shown.mp (h.symm ▸ mem_shown.mpr ⟨old, hold, hpold, rfl⟩)
      have hbid : id b = id a := by rw [← hid b, hfb, hid, haid, hrow]
      rw [← eq_of_id_eq hkeyed' hb ha hbid]
      exact hpb
  unfold shown
  rw [filter_replaceRow fun a ha haid => (hpass a ha haid).trans hp.symm]
  refine map_replaceRow fun a ha haid => ?_
  obtain ⟨ha, hpa⟩ := List.mem_filter.mp ha
  obtain ⟨hpold, hfa⟩ := hsame a ha haid hpa
  exact hfa.trans (hf hpold).symm

end Shown

end Relay.Lib.Rows
