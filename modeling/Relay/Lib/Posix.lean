import Mathlib.Data.List.Infix

/-!
# POSIX paths

`path.posix` of Node on lists of characters: a path is cut at its slashes, and `normalize`, `join` and `resolve`
drop empty and `.` segments and let `..` take back the segment before it. An absolute path in normal form is the
list of the names on the way from `/` (`AbsolutePath`).
-/

namespace Relay.Lib.Posix

/-- The pieces between the slashes. -/
def segments (path : List Char) : List (List Char) := path.splitOn '/'

/-- A name that stands for itself. -/
def IsName (n : List Char) : Prop := n ≠ [] ∧ '/' ∉ n ∧ n ≠ ['.'] ∧ n ≠ ['.', '.']

instance (n : List Char) : Decidable (IsName n) := inferInstanceAs (Decidable (_ ∧ _ ∧ _ ∧ _))

/-- One segment of `normalizeString`, after the names so far; `above` says whether `..` may stay in front. -/
def push (above : Bool) (names : List (List Char)) (segment : List Char) : List (List Char) :=
  if segment = [] ∨ segment = ['.'] then names
  else if segment = ['.', '.'] then
    if names ≠ [] ∧ names.getLast? ≠ some ['.', '.'] then names.dropLast
    else if above then names ++ [segment] else names
  else names ++ [segment]

/-- The names that `normalizeString` leaves. -/
def resolved (above : Bool) (path : List Char) : List (List Char) := (segments path).foldl (push above) []

def separated (names : List (List Char)) : List Char := ['/'].intercalate names

def normalize (path : List Char) : List Char :=
  if path = [] then ['.']
  else
    let isAbsolute := path.head? = some '/'
    let trailing := if path.getLast? = some '/' then ['/'] else []
    let names := resolved (!isAbsolute) path
    if names = [] then if isAbsolute then ['/'] else '.' :: trailing
    else if isAbsolute then '/' :: separated names ++ trailing
    else separated names ++ trailing

/-- `join` of two paths; an empty one is left out. -/
def join (p q : List Char) : List Char :=
  if p = [] then normalize q else if q = [] then normalize p else normalize (p ++ '/' :: q)

/-- The last segment that is not empty. -/
def basename (path : List Char) : List Char := ((segments path).filter (· ≠ [])).getLast?.getD []

/-- From the last dot of the base name on, if something comes before it. -/
def extname (path : List Char) : List Char :=
  let base := basename path
  let after := base.reverse.takeWhile (· ≠ '.')
  let before := base.take (base.length - (after.length + 1))
  if before = [] ∨ base = ['.', '.'] then [] else '.' :: after.reverse

/-! ## Segments -/

section Segments

variable {above : Bool} {names : List (List Char)} {segment path p q : List Char}

theorem segments_ne_nil (path : List Char) : segments path ≠ [] := List.splitOn_ne_nil _ _

theorem segments_append (p q : List Char) : segments (p ++ '/' :: q) = segments p ++ segments q :=
  List.splitOn_append_cons_self p q

theorem slash_notMem (h : segment ∈ segments path) : '/' ∉ segment := by
  induction path generalizing segment with
  | nil =>
    rw [List.mem_singleton.mp h]
    exact List.not_mem_nil
  | cons c path ih =>
    unfold segments at h ih
    rw [List.splitOn_cons_eq_if_modifyHead] at h
    split at h
    · obtain rfl | h := List.mem_cons.mp h
      · exact List.not_mem_nil
      · exact ih h
    · next hc =>
      cases hpath : path.splitOn '/' with
      | nil => exact absurd hpath (List.splitOn_ne_nil _ _)
      | cons s ss =>
        rw [hpath] at h ih
        obtain rfl | h := List.mem_cons.mp h
        · rw [List.mem_cons, not_or]
          exact ⟨fun heq => hc (beq_iff_eq.mpr heq.symm), ih List.mem_cons_self⟩
        · exact ih (List.mem_cons_of_mem s h)

theorem segments_separated (hnames : names ≠ []) (h : ∀ n ∈ names, '/' ∉ n) : segments (separated names) = names :=
  List.splitOn_intercalate '/' h hnames

theorem infix_intercalate {sep l : List Char} {ls : List (List Char)} (h : l ∈ ls) : l <:+: sep.intercalate ls := by
  induction ls with
  | nil => exact absurd h List.not_mem_nil
  | cons a ls ih =>
    cases ls with
    | nil =>
      rw [List.mem_singleton.mp h, List.intercalate_singleton]
    | cons b ls =>
      rw [List.intercalate_cons_cons]
      obtain rfl | h := List.mem_cons.mp h
      · rw [List.append_assoc]
        exact (List.prefix_append l _).isInfix
      · exact (ih h).trans (List.suffix_append _ _).isInfix

theorem infix_of_mem_segments (h : segment ∈ segments path) : segment <:+: path := by
  have hpart : segment <:+: ['/'].intercalate (segments path) := infix_intercalate h
  unfold segments at hpart
  rwa [List.intercalate_splitOn] at hpart

theorem push_name (h : IsName segment) : push above names segment = names ++ [segment] := by
  unfold push
  rw [if_neg (by simp [h.1, h.2.2.1]), if_neg h.2.2.2]

/-- Without `..` in front of the rest, a segment is dropped or is a name. -/
theorem push_of_ne (h : segment ≠ ['.', '.']) (hslash : '/' ∉ segment) :
    push above names segment = names ∨ IsName segment ∧ push above names segment = names ++ [segment] := by
  by_cases hskip : segment = [] ∨ segment = ['.']
  · unfold push
    exact .inl (if_pos hskip)
  · rw [not_or] at hskip
    have hname : IsName segment := ⟨hskip.1, hslash, hskip.2, h⟩
    exact .inr ⟨hname, push_name hname⟩

theorem foldl_push_names (h : ∀ n ∈ names, IsName n) (front : List (List Char)) :
    names.foldl (push above) front = front ++ names := by
  induction names generalizing front with
  | nil => simp
  | cons n names ih =>
    rw [List.foldl_cons, push_name (h n List.mem_cons_self), ih fun m hm => h m (List.mem_cons_of_mem n hm)]
    simp

/-- Segments without `..` add names, and take none back. -/
theorem foldl_push_of_ne {ss : List (List Char)} (h : ∀ s ∈ ss, s ≠ ['.', '.'] ∧ '/' ∉ s)
    (front : List (List Char)) :
    ∃ below, ss.foldl (push above) front = front ++ below ∧ ∀ n ∈ below, IsName n := by
  induction ss generalizing front with
  | nil => exact ⟨[], by simp, by simp⟩
  | cons s ss ih =>
    obtain ⟨hs, hslash⟩ := h s List.mem_cons_self
    have hrest := ih fun t ht => h t (List.mem_cons_of_mem s ht)
    rw [List.foldl_cons]
    obtain heq | ⟨hname, heq⟩ : push above front s = front ∨ IsName s ∧ push above front s = front ++ [s] :=
      push_of_ne hs hslash
    · rw [heq]
      exact hrest front
    · rw [heq]
      obtain ⟨below, hbelow, hnames⟩ := hrest (front ++ [s])
      refine ⟨s :: below, by simp [hbelow], ?_⟩
      intro n hn
      obtain rfl | hn := List.mem_cons.mp hn
      · exact hname
      · exact hnames n hn

/-- `..` takes a name back, or does nothing. -/
theorem push_dots_subset (front : List (List Char)) : push false front ['.', '.'] ⊆ front := by
  unfold push
  rw [if_neg (by simp), if_pos rfl]
  split
  · exact List.dropLast_subset front
  · exact List.Subset.refl front

/-- The names of an absolute path are names. -/
theorem resolved_names (path : List Char) : ∀ n ∈ resolved false path, IsName n := by
  have hfold : ∀ (ss front : List (List Char)), (∀ s ∈ ss, '/' ∉ s) → (∀ n ∈ front, IsName n) →
      ∀ n ∈ ss.foldl (push false) front, IsName n := by
    intro ss
    induction ss with
    | nil => exact fun _ _ h => h
    | cons s ss ih =>
      intro front hss hfront
      refine ih _ (fun t ht => hss t (List.mem_cons_of_mem s ht)) ?_
      intro n hn
      by_cases hdots : s = ['.', '.']
      · rw [hdots] at hn
        exact hfront n (push_dots_subset front hn)
      · obtain heq | ⟨hname, heq⟩ : push false front s = front ∨ IsName s ∧ push false front s = front ++ [s] :=
          push_of_ne hdots (hss s List.mem_cons_self)
        · rw [heq] at hn
          exact hfront n hn
        · rw [heq] at hn
          obtain hn | hn := List.mem_append.mp hn
          · exact hfront n hn
          · rw [List.mem_singleton.mp hn]
            exact hname
  exact hfold _ [] (fun s hs => slash_notMem hs) (by simp)

end Segments

/-! ## Absolute paths -/

/-- An absolute path in normal form, by the names on the way from `/`. -/
structure AbsolutePath where
  names : List (List Char)
  isName : ∀ n ∈ names, IsName n

namespace AbsolutePath

def text (p : AbsolutePath) : List Char := '/' :: separated p.names

/-- `resolve(cwd, path)`. -/
def resolve (cwd : AbsolutePath) (path : List Char) : AbsolutePath where
  names := resolved false (if path.head? = some '/' then path else cwd.text ++ '/' :: path)
  isName := resolved_names _

variable {root : AbsolutePath} {path : List Char}

theorem segments_text (p : AbsolutePath) :
    segments p.text = if p.names = [] then [[], []] else [] :: p.names := by
  unfold text
  rw [show '/' :: separated p.names = [] ++ '/' :: separated p.names from rfl, segments_append]
  split
  · next h =>
    rw [h]
    rfl
  · next h =>
    rw [segments_separated h fun n hn => (p.isName n hn).2.1]
    rfl

/-- A path in normal form stands for its names. -/
theorem resolved_text (p : AbsolutePath) (above : Bool) (rest : List (List Char)) :
    (segments p.text ++ rest).foldl (push above) [] = rest.foldl (push above) p.names := by
  have hempty : push above [] [] = [] := rfl
  rw [segments_text]
  split
  · next h =>
    rw [h]
    simp [hempty]
  · simp only [List.cons_append, List.foldl_cons, hempty]
    rw [List.foldl_append, foldl_push_names p.isName, List.nil_append]

/-- The names on the way of a text that starts with a slash, whatever empty segments it has. -/
def namesOf (path : List Char) : List (List Char) := (segments path).filter (· ≠ [])

/-- The path is absolute, and is the root or lies strictly below it: its names are those of the root and others,
all of which stand for themselves. -/
def Within (root : AbsolutePath) (path : List Char) : Prop :=
  path.head? = some '/' ∧ ∃ below, namesOf path = root.names ++ below ∧ ∀ n ∈ below, IsName n

/-- A path with at most one slash at its end. -/
theorem namesOf_separated {names : List (List Char)} (h : ∀ n ∈ names, IsName n) {trailing : List Char}
    (ht : trailing = [] ∨ trailing = ['/']) : namesOf ('/' :: separated names ++ trailing) = names := by
  have hself : names.filter (fun n => decide (n ≠ [])) = names :=
    List.filter_eq_self.mpr fun n hn => decide_eq_true (h n hn).1
  unfold namesOf
  by_cases hnames : names = []
  · subst hnames
    obtain rfl | rfl := ht <;> decide
  · have hsegments : segments ('/' :: separated names) = [] :: names := by
      rw [show '/' :: separated names = [] ++ '/' :: separated names from rfl, segments_append,
        segments_separated hnames fun n hn => (h n hn).2.1]
      rfl
    obtain rfl | rfl := ht
    · rw [List.append_nil, hsegments]
      simpa using hself
    · rw [segments_append, hsegments]
      simpa [segments] using hself

/-- Joining a path in which no segment is `..` leads to the root or below it. -/
theorem within_join (hpath : path ≠ []) (hdots : ∀ s ∈ segments path, s ≠ ['.', '.']) :
    Within root (join root.text path) := by
  have hne : root.text ≠ [] := List.cons_ne_nil _ _
  have hhead : (root.text ++ '/' :: path).head? = some '/' := rfl
  have hresolved : ∃ below, resolved false (root.text ++ '/' :: path) = root.names ++ below ∧
      ∀ n ∈ below, IsName n := by
    unfold resolved
    rw [segments_append, resolved_text]
    exact foldl_push_of_ne (fun s hs => ⟨hdots s hs, slash_notMem hs⟩) _
  obtain ⟨below, hbelow, hnames⟩ := hresolved
  have hall : ∀ n ∈ root.names ++ below, IsName n := by
    intro n hn
    exact (List.mem_append.mp hn).elim (root.isName n) (hnames n)
  unfold join normalize
  simp only [if_neg hne, if_neg hpath, hhead, decide_true, Bool.not_true, hbelow, if_true]
  rw [if_neg (by simp)]
  split
  · next hnil =>
    refine ⟨rfl, below, ?_, hnames⟩
    rw [hnil]
    decide
  · refine ⟨rfl, below, ?_, hnames⟩
    refine namesOf_separated hall ?_
    split
    · exact .inr rfl
    · exact .inl rfl

end AbsolutePath

end Relay.Lib.Posix
