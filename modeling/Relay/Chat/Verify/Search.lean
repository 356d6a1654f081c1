import Relay.Chat.Verify.Media

/-!
# Search patterns

`searchMessages` and `searchGlobal` put the escaped query between two `%`. A pattern is read from the left:
an escaped text stands for itself (`like_escape`), and `%` skips any number of characters (`like_percent`).
So the pattern matches the bodies that contain the query (`search_matches_iff`).
-/

namespace Relay.Chat

open Relay.Lib

variable {c : Char} {p t : Text}

/-! ## Reading a pattern -/

theorem like_percent : like ('%' :: p) t = true ↔ ∃ u, u <:+ t ∧ like p u = true := by
  simp only [like, List.any_eq_true, List.mem_tails]

/-- A lone `%` matches what is left. -/
theorem like_rest (t : Text) : like ['%'] t = true := by
  rw [like_percent]
  exact ⟨[], List.nil_suffix, rfl⟩

theorem like_backslash : like ('\\' :: c :: p) t = true ↔ ∃ u, t = c :: u ∧ like p u = true := by
  cases t with
  | nil => simp [like]
  | cons d t =>
    simp only [like, Bool.and_eq_true, beq_iff_eq, List.cons.injEq]
    constructor
    · rintro ⟨rfl, h⟩
      exact ⟨t, ⟨rfl, rfl⟩, h⟩
    · rintro ⟨u, ⟨rfl, rfl⟩, h⟩
      exact ⟨rfl, h⟩

theorem like_cons (hc : isWild c = false) : like (c :: p) t = true ↔ ∃ u, t = c :: u ∧ like p u = true := by
  simp only [isWild, Bool.or_eq_false_iff, beq_eq_false_iff_ne] at hc
  obtain ⟨⟨hpercent, hscore⟩, hescape⟩ := hc
  cases t with
  | nil => simp [like, hescape]
  | cons d t =>
    have hread : like (c :: p) (d :: t) = (c == d && like p t) := by simp [like, hescape]
    rw [hread]
    simp only [Bool.and_eq_true, beq_iff_eq, List.cons.injEq]
    constructor
    · rintro ⟨rfl, h⟩
      exact ⟨t, ⟨rfl, rfl⟩, h⟩
    · rintro ⟨u, ⟨rfl, rfl⟩, h⟩
      exact ⟨rfl, h⟩

/-! ## Escaped texts -/

@[simp] theorem escapeIlikePattern_nil : escapeIlikePattern [] = [] := rfl

theorem escapeIlikePattern_cons (c : Char) (q : Text) :
    escapeIlikePattern (c :: q) = (if isWild c then ['\\', c] else [c]) ++ escapeIlikePattern q := by
  have hwild : isWild c = true ↔ c = '\\' ∨ c = '%' ∨ c = '_' := by
    simp only [isWild, Bool.or_eq_true, beq_iff_eq]
    tauto
  simp only [escapeIlikePattern, List.flatMap_cons, hwild]

/-- The three replacements: the backslashes first, so that those put before `%` and `_` stay single. -/
theorem escapeIlikePattern_eq (q : Text) : escapeIlikePattern q =
    Js.replaceAll '_' ['\\', '_'] (Js.replaceAll '%' ['\\', '%'] (Js.replaceAll '\\' ['\\', '\\'] q)) := by
  simp only [escapeIlikePattern, Js.replaceAll, List.flatMap_assoc]
  refine List.flatMap_congr fun c _ => ?_
  by_cases hescape : c = '\\'
  · subst hescape
    rfl
  by_cases hpercent : c = '%'
  · subst hpercent
    rfl
  by_cases hscore : c = '_'
  · subst hscore
    rfl
  simp [hescape, hpercent, hscore]

/-- An escaped text matches itself, character by character. -/
theorem like_escape (q : Text) : like (escapeIlikePattern q ++ p) t = true ↔ ∃ u, t = q ++ u ∧ like p u = true := by
  induction q generalizing t with
  | nil => simp
  | cons c q ih =>
    have hread : like (escapeIlikePattern (c :: q) ++ p) t = true ↔
        ∃ u, t = c :: u ∧ like (escapeIlikePattern q ++ p) u = true := by
      rw [escapeIlikePattern_cons, List.append_assoc]
      cases hc : isWild c with
      | true => exact like_backslash
      | false => exact like_cons hc
    rw [hread]
    constructor
    · rintro ⟨u, rfl, hu⟩
      obtain ⟨v, rfl, hv⟩ := ih.mp hu
      exact ⟨v, rfl, hv⟩
    · rintro ⟨v, rfl, hv⟩
      exact ⟨q ++ v, rfl, ih.mpr ⟨v, rfl, hv⟩⟩

/-- The pattern of a text between two `%` matches the texts that contain it. -/
theorem like_searchPattern (q t : Text) : like (searchPattern q) t = true ↔ q <:+: t := by
  have hpattern : searchPattern q = '%' :: (escapeIlikePattern q ++ ['%']) := rfl
  rw [hpattern, like_percent, List.infix_iff_prefix_suffix]
  constructor
  · rintro ⟨u, hu, hmatch⟩
    obtain ⟨v, rfl, _⟩ := (like_escape q).mp hmatch
    exact ⟨q ++ v, List.prefix_append q v, hu⟩
  · rintro ⟨u, ⟨v, rfl⟩, hu⟩
    exact ⟨q ++ v, hu, (like_escape q).mpr ⟨v, rfl, like_rest v⟩⟩

/-! ## Case folding -/

/-- The special characters are no letters, and letters are folded to letters. -/
theorem isWild_toLower (c : Char) : isWild c.toLower = isWild c := by
  have hplain : ∀ d : Char, 65 ≤ d.toNat → d.toNat ≠ 92 → d.toNat ≠ 95 → isWild d = false := by
    intro d hd hescape hscore
    simp only [isWild, Bool.or_eq_false_iff, beq_eq_false_iff_ne]
    refine ⟨⟨?_, ?_⟩, ?_⟩ <;> rintro rfl <;> simp at hd hescape hscore
  unfold Char.toLower
  split
  · next h =>
    have hlo : 65 ≤ c.toNat := h.1
    have hhi : c.toNat ≤ 90 := h.2
    have hsum : (c.val + ('a'.val - 'A'.val)).toNat = c.toNat + 32 := by
      have hshift : ('a'.val - 'A'.val).toNat = 32 := rfl
      have hval : c.val.toNat = c.toNat := rfl
      rw [UInt32.toNat_add, hshift, hval]
      omega
    rw [hplain c hlo (by omega) (by omega)]
    refine hplain _ ?_ (fun h => ?_) fun h => ?_
    · exact (show 65 ≤ c.toNat + 32 by omega).trans hsum.ge
    · have hfolded := hsum.symm.trans h
      omega
    · have hfolded := hsum.symm.trans h
      omega
  · rfl

/-- Case folding leaves the special characters alone and makes no new ones. -/
theorem toLower_searchPattern (q : Text) : Js.toLower (searchPattern q) = searchPattern (Js.toLower q) := by
  have hescape : Js.toLower (escapeIlikePattern q) = escapeIlikePattern (Js.toLower q) := by
    induction q with
    | nil => rfl
    | cons c q ih =>
      have hfold : Js.toLower (c :: q) = c.toLower :: Js.toLower q := rfl
      rw [hfold, escapeIlikePattern_cons, escapeIlikePattern_cons, isWild_toLower, ← ih]
      cases isWild c <;> simp [Js.toLower]
  unfold searchPattern
  rw [← hescape]
  simp [Js.toLower]

/-- The pattern is the query escaped by three replacements between two `%`. It matches the bodies that contain
the query, and under `ILIKE` those that contain it up to case. -/
theorem search_matches_iff (q b : Text) :
    searchPattern q = '%' :: Js.replaceAll '_' ['\\', '_'] (Js.replaceAll '%' ['\\', '%']
      (Js.replaceAll '\\' ['\\', '\\'] q)) ++ ['%'] ∧
    (like (searchPattern q) b = true ↔ q <:+: b) ∧
    (ilike b (searchPattern q) = true ↔ Js.toLower q <:+: Js.toLower b) := by
  refine ⟨?_, like_searchPattern q b, ?_⟩
  · rw [← escapeIlikePattern_eq]
    rfl
  · rw [ilike, toLower_searchPattern, like_searchPattern]

example : ilike "100% Sure_".toList (searchPattern "0% s".toList) = true ∧
    ilike "100 sure".toList (searchPattern "0% s".toList) = false := by decide

end Relay.Chat
