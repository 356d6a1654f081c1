import Mathlib.Data.List.DropRight
import Mathlib.Data.List.TakeWhile
import Relay.Lib.Js
import Relay.Lib.Percent

/-!
# URLs

`new URL(url).pathname` as the URL standard defines it, without a base. Only the path of a URL with a special
scheme is followed: what it takes for a valid authority, and the paths of all other URLs, are parameters
(`Platform`). What is appended to a URL that ends in a slash only adds to its path (`exists_front`).
-/

namespace Relay.Lib.Url

open Percent

/-- The parts of the parser that do not touch the path of a special URL. -/
structure Platform where
  acceptsAuthority : List Char → List Char → Bool
  otherPathname : List Char → Option (List Char)

def isControlOrSpace (c : Char) : Bool := c.toNat ≤ 0x20

def isTabOrNewline (c : Char) : Bool := c ∈ ['\t', '\n', '\r']

def isSlash (c : Char) : Bool := c ∈ ['/', '\\']

def endsPath (c : Char) : Bool := c ∈ ['?', '#']

def endsAuthority (c : Char) : Bool := isSlash c || endsPath c

/-- The characters that are percent-encoded in a path. -/
def inPathSet (c : Char) : Bool :=
  c.toNat ≤ 0x1f || 0x7e < c.toNat || c ∈ [' ', '"', '#', '<', '>', '?', '^', '\x60', '\x7b', '\x7d']

/-- What the parser drops before it starts. -/
def cleaned (url : List Char) : List Char :=
  ((url.dropWhile isControlOrSpace).rdropWhile isControlOrSpace).filter (!isTabOrNewline ·)

def isSchemeChar (c : Char) : Bool := c.isAlphanum || c ∈ ['+', '-', '.']

/-- The scheme in lower case, and what follows its colon. -/
def splitScheme (url : List Char) : Option (List Char × List Char) :=
  match url.dropWhile isSchemeChar with
  | ':' :: rest =>
    let scheme := url.takeWhile isSchemeChar
    if scheme.head?.any Char.isAlpha then some (scheme.map Char.toLower, rest) else none
  | _ => none

/-- The special schemes but `file`. -/
def isSpecial (scheme : List Char) : Bool :=
  (["http", "https", "ws", "wss", "ftp"].map String.toList).contains scheme

def isSingleDot (segment : List Char) : Bool :=
  ([".", "%2e"].map String.toList).contains (segment.map Char.toLower)

def isDoubleDot (segment : List Char) : Bool :=
  (["..", ".%2e", "%2e.", "%2e%2e"].map String.toList).contains (segment.map Char.toLower)

def isDots (segment : List Char) : Bool := isSingleDot segment || isDoubleDot segment

/-- A segment that a slash ends. -/
def step (front : List (List Char)) (segment : List Char) : List (List Char) :=
  if isDoubleDot segment then front.dropLast
  else if isSingleDot segment then front
  else front ++ [segment]

/-- The last segment of a path. -/
def finish (front : List (List Char)) (segment : List Char) : List (List Char) :=
  if isDoubleDot segment then front.dropLast ++ [[]]
  else if isSingleDot segment then front ++ [[]]
  else front ++ [segment]

/-- The path after all segments, from the path so far. -/
def walk : List (List Char) → List (List Char) → List (List Char)
  | front, [] => front
  | front, [segment] => finish front segment
  | front, segment :: next :: rest => walk (step front segment) (next :: rest)

/-- A backslash counts as a slash. -/
def slashed (path : List Char) : List Char := path.map fun c => if c = '\\' then '/' else c

def segments (path : List Char) : List (List Char) := (slashed path).splitOn '/'

/-- The path serializer. -/
def serialize (path : List (List Char)) : List Char := path.flatMap ('/' :: ·)

/-- The path state on what follows the authority: nothing, or a text that starts with a slash. -/
def pathOf (path : List Char) : List (List Char) :=
  walk [] (if path = [] then [[]] else (segments path).tail)

/-- The path of a URL with a special scheme, from what follows its colon. -/
def specialPathname (platform : Platform) (scheme rest : List Char) : Option (List Char) :=
  let rest := rest.dropWhile isSlash
  let authority := rest.takeWhile (!endsAuthority ·)
  if authority = [] ∨ platform.acceptsAuthority scheme authority = false then none
  else some (encode inPathSet (serialize (pathOf
    ((rest.dropWhile (!endsAuthority ·)).takeWhile (!endsPath ·)))))

/-- `new URL(url).pathname`, or none where the constructor throws. -/
def pathname (platform : Platform) (url : List Char) : Option (List Char) := do
  let (scheme, rest) ← splitScheme (cleaned url)
  if isSpecial scheme then specialPathname platform scheme rest
  else platform.otherPathname (cleaned url)

/-- The path without its first slash, decoded. -/
def decodedPath (platform : Platform) (url : List Char) : Option (List Char) := do
  let path ← pathname platform url
  decodeURIComponent (Js.stripStart ['/'] path)

/-- A URL with one of the special schemes, and with neither query nor fragment. -/
def IsPlace (url : List Char) : Prop :=
  (splitScheme (cleaned url)).any (isSpecial ·.1) = true ∧ '?' ∉ url ∧ '#' ∉ url

instance (url : List Char) : Decidable (IsPlace url) := inferInstanceAs (Decidable (_ ∧ _ ∧ _))

/-- A text that stays what it is in the path of a URL: nothing in it is decoded, dropped, ends the path or leads
elsewhere. -/
def IsPlain (s : List Char) : Prop :=
  (∀ c ∈ s, c ≠ '%' ∧ c ≠ '\\' ∧ isTabOrNewline c = false ∧ endsPath c = false) ∧
    (∀ c ∈ s.getLast?, isControlOrSpace c = false) ∧
    ∀ segment ∈ segments s, isDots segment = false

instance (s : List Char) : Decidable (IsPlain s) := inferInstanceAs (Decidable (_ ∧ _ ∧ _))

/-! ## What follows a slash -/

section Slash

variable {p : Char → Bool} {c : Char}

theorem takeWhile_append_cons (hc : p c = false) (s t : List Char) :
    (s ++ c :: t).takeWhile p = s.takeWhile p := by
  induction s with
  | nil => simp [hc]
  | cons a s ih =>
    rw [List.cons_append, List.takeWhile_cons, List.takeWhile_cons, ih]

theorem dropWhile_append_cons (hc : p c = false) (s t : List Char) :
    (s ++ c :: t).dropWhile p = s.dropWhile p ++ c :: t := by
  induction s with
  | nil => simp [hc]
  | cons a s ih =>
    rw [List.cons_append, List.dropWhile_cons, List.dropWhile_cons, ih]
    split <;> rfl

theorem rdropWhile_append_cons (hc : p c = false) (s t : List Char) :
    (s ++ c :: t).rdropWhile p = s ++ c :: t.rdropWhile p := by
  have hreverse : (s ++ c :: t).reverse = t.reverse ++ c :: s.reverse := by simp
  unfold List.rdropWhile
  rw [hreverse, dropWhile_append_cons hc]
  simp

end Slash

/-- What is left of the text after the last slash of a URL. -/
def cut (s : List Char) : List Char :=
  ((s.rdropWhile isControlOrSpace).filter (!isTabOrNewline ·)).takeWhile (!endsPath ·)

section Front

variable {platform : Platform} {r s x rest scheme path : List Char}

theorem cleaned_append (r s : List Char) :
    cleaned (r ++ '/' :: s) = (r.dropWhile isControlOrSpace).filter (!isTabOrNewline ·) ++
      '/' :: (s.rdropWhile isControlOrSpace).filter (!isTabOrNewline ·) := by
  unfold cleaned
  rw [dropWhile_append_cons (by decide), rdropWhile_append_cons (by decide), List.filter_append]
  rfl

theorem splitScheme_append (h : splitScheme (x ++ ['/']) = some (scheme, rest)) :
    ∃ start, start ⊆ x ∧ ∀ s, splitScheme (x ++ '/' :: s) = some (scheme, start ++ '/' :: s) := by
  unfold splitScheme at h ⊢
  simp only [takeWhile_append_cons (show isSchemeChar '/' = false by decide),
    dropWhile_append_cons (show isSchemeChar '/' = false by decide)] at h ⊢
  cases hx : x.dropWhile isSchemeChar with
  | nil =>
    rw [hx] at h
    cases h
  | cons a start =>
    rw [hx] at h
    have hsubset : a :: start ⊆ x := by
      rw [← hx]
      exact List.dropWhile_subset _
    by_cases ha : a = ':'
    · subst ha
      simp only [List.cons_append] at h
      split at h
      · next hletter =>
        refine ⟨start, fun c hc => hsubset (List.mem_cons_of_mem _ hc), ?_⟩
        intro s
        simp only [List.cons_append]
        rw [if_pos hletter, (Prod.mk.inj (Option.some.inj h)).1]
      · cases h
    · simp only [List.cons_append] at h
      split at h
      · next heq => exact absurd (List.cons.inj heq).1 ha
      · cases h

theorem segments_append (s t : List Char) : segments (s ++ '/' :: t) = segments s ++ segments t := by
  unfold segments slashed
  rw [List.map_append, List.map_cons, if_neg (by decide), List.splitOn_append_cons_self]

theorem segments_ne_nil (s : List Char) : segments s ≠ [] := List.splitOn_ne_nil _ _

/-- The segments before the last ones only set up the path they find. -/
theorem walk_append {ss ts : List (List Char)} (hts : ts ≠ []) (front : List (List Char)) :
    walk front (ss ++ ts) = walk (ss.foldl step front) ts := by
  induction ss generalizing front with
  | nil => rfl
  | cons s ss ih =>
    have hne : ss ++ ts ≠ [] := by simp [hts]
    obtain ⟨t, rest, hrest⟩ := List.exists_cons_of_ne_nil hne
    have hwalk : walk front (s :: (ss ++ ts)) = walk (step front s) (ss ++ ts) := by
      rw [hrest]
      rfl
    rw [List.cons_append, hwalk, ih, List.foldl_cons]

theorem takeWhile_of_notMem (hquery : '?' ∉ x) (hfragment : '#' ∉ x) (s : List Char) :
    (x ++ s).takeWhile (!endsPath ·) = x ++ s.takeWhile (!endsPath ·) := by
  refine List.takeWhile_append_of_pos ?_
  intro c hc
  have hne : c ≠ '?' ∧ c ≠ '#' := ⟨fun h => hquery (h ▸ hc), fun h => hfragment (h ▸ hc)⟩
  simp [endsPath, hne]

theorem specialPathname_append (hquery : '?' ∉ x) (hfragment : '#' ∉ x)
    (h : specialPathname platform scheme (x ++ ['/']) = some path) :
    ∃ front, ∀ s, specialPathname platform scheme (x ++ '/' :: s) =
      some (encode inPathSet (serialize (walk front (segments (s.takeWhile (!endsPath ·)))))) := by
  unfold specialPathname at h ⊢
  have hdrop : ∀ s, x.dropWhile isSlash ≠ [] →
      (x ++ '/' :: s).dropWhile isSlash = x.dropWhile isSlash ++ '/' :: s := by
    intro s hne
    rw [List.dropWhile_append, if_neg (by simpa using hne)]
  by_cases hnil : x.dropWhile isSlash = []
  · -- without an authority before the slash the URL is not accepted
    have hnone : (x ++ ['/']).dropWhile isSlash = [] := by
      rw [List.dropWhile_append, hnil]
      rfl
    simp only [hnone] at h
    cases h
  · have htake := takeWhile_append_cons (p := fun c => !endsAuthority c) (c := '/') (by decide)
    have hrest := dropWhile_append_cons (p := fun c => !endsAuthority c) (c := '/') (by decide)
    simp only [hdrop _ hnil, htake, hrest] at h ⊢
    have hsubset : (x.dropWhile isSlash).dropWhile (!endsAuthority ·) ⊆ x :=
      fun c hc => List.dropWhile_subset _ (List.dropWhile_subset _ hc)
    generalize (x.dropWhile isSlash).dropWhile (!endsAuthority ·) = y at h hsubset ⊢
    generalize (x.dropWhile isSlash).takeWhile (!endsAuthority ·) = authority at h ⊢
    split at h
    · cases h
    · next haccepts =>
      refine ⟨(segments y).tail.foldl step [], ?_⟩
      intro s
      have hpath : (y ++ '/' :: s).takeWhile (!endsPath ·) = y ++ '/' :: s.takeWhile (!endsPath ·) := by
        rw [takeWhile_of_notMem (fun hc => hquery (hsubset hc)) (fun hc => hfragment (hsubset hc)),
          List.takeWhile_cons_of_pos (by decide)]
      have hwalk : pathOf (y ++ '/' :: s.takeWhile (!endsPath ·)) =
          walk ((segments y).tail.foldl step []) (segments (s.takeWhile (!endsPath ·))) := by
        unfold pathOf
        rw [if_neg (by simp), segments_append, List.tail_append_of_ne_nil (segments_ne_nil y),
          walk_append (segments_ne_nil _)]
      rw [if_neg haccepts, hpath, hwalk]

/-- The path after a URL that ends in a slash: what comes before the slash is walked first. -/
theorem exists_front (hplace : IsPlace (r ++ ['/'])) (h : pathname platform (r ++ ['/']) = some path) :
    ∃ front, ∀ s, pathname platform (r ++ '/' :: s) =
      some (encode inPathSet (serialize (walk front (segments (cut s))))) := by
  obtain ⟨hspecial, hquery, hfragment⟩ := hplace
  rw [List.mem_append, not_or] at hquery hfragment
  have hsubset : (r.dropWhile isControlOrSpace).filter (!isTabOrNewline ·) ⊆ r :=
    fun c hc => List.dropWhile_subset _ (List.mem_of_mem_filter hc)
  unfold pathname at h ⊢
  rw [cleaned_append] at hspecial
  simp only [cleaned_append] at h ⊢
  generalize (r.dropWhile isControlOrSpace).filter (!isTabOrNewline ·) = x at h hspecial hsubset ⊢
  have hnil : (([] : List Char).rdropWhile isControlOrSpace).filter (!isTabOrNewline ·) = [] := rfl
  rw [hnil] at h hspecial
  cases hsplit : splitScheme (x ++ ['/']) with
  | none =>
    rw [hsplit] at hspecial
    cases hspecial
  | some split =>
    obtain ⟨scheme, rest⟩ := split
    obtain ⟨start, hstart, hsplits⟩ := splitScheme_append hsplit
    have hscheme : isSpecial scheme = true := by
      rw [hsplit] at hspecial
      exact hspecial
    simp only [hsplits, Option.bind_eq_bind, Option.bind_some, hscheme, if_true] at h ⊢
    obtain ⟨front, hfront⟩ := specialPathname_append
      (fun hc => hquery.1 (hsubset (hstart hc))) (fun hc => hfragment.1 (hsubset (hstart hc))) h
    exact ⟨front, fun s => hfront _⟩

end Front

/-! ## Sizes -/

section Sizes

variable {s : List Char} {front segs : List (List Char)}

/-- The number of bytes. -/
def size (s : List Char) : Nat := (bytes s).length

theorem size_append (s t : List Char) : size (s ++ t) = size s + size t := by
  unfold size
  rw [bytes_append, List.length_append]

theorem size_cons_pos (c : Char) (s : List Char) : size s < size (c :: s) := by
  have hpos := length_bytes_pos c
  unfold size
  rw [bytes_cons, List.length_append]
  omega

theorem serialize_append (ss ts : List (List Char)) : serialize (ss ++ ts) = serialize ss ++ serialize ts :=
  List.flatMap_append

theorem serialize_cons (s : List Char) (ss : List (List Char)) : serialize (s :: ss) = '/' :: s ++ serialize ss := rfl

theorem serialize_segments (s : List Char) : serialize (segments s) = '/' :: slashed s := by
  have hjoin : ∀ ss : List (List Char), ss ≠ [] → serialize ss = '/' :: ['/'].intercalate ss := by
    intro ss hss
    induction ss with
    | nil => exact absurd rfl hss
    | cons a ss ih =>
      cases ss with
      | nil => simp [serialize]
      | cons b ss =>
        rw [serialize_cons, ih (List.cons_ne_nil b ss), List.intercalate_cons_cons]
        simp
  rw [hjoin _ (segments_ne_nil s)]
  unfold segments
  rw [List.intercalate_splitOn]

theorem size_slashed (s : List Char) : size (slashed s) = size s := by
  induction s with
  | nil => rfl
  | cons c s ih =>
    unfold size slashed at ih ⊢
    rw [List.map_cons, bytes_cons, bytes_cons, List.length_append, List.length_append, ih]
    split
    · next hc =>
      rw [hc]
      rfl
    · rfl

theorem slashed_eq_self : slashed s = s ↔ '\\' ∉ s := by
  unfold slashed
  constructor
  · intro h hmem
    rw [← h, List.mem_map] at hmem
    obtain ⟨c, _, hc⟩ := hmem
    split at hc
    · cases hc
    · next hne => exact hne hc
  · intro h
    refine (List.map_congr_left ?_).trans (List.map_id s)
    intro c hc
    have hne : c ≠ '\\' := by
      rintro rfl
      exact h hc
    rw [if_neg hne]
    rfl

theorem cut_sublist (s : List Char) : (cut s).Sublist s :=
  ((List.takeWhile_sublist _).trans List.filter_sublist).trans (List.rdropWhile_prefix _ _).sublist

/-- Nothing is cut off a text that ends neither the path nor in a space. -/
theorem cut_eq_self :
    cut s = s ↔ (∀ c ∈ s, isTabOrNewline c = false ∧ endsPath c = false) ∧
      ∀ c ∈ s.getLast?, isControlOrSpace c = false := by
  have hlast : s.rdropWhile isControlOrSpace = s ↔ ∀ c ∈ s.getLast?, isControlOrSpace c = false := by
    rw [List.rdropWhile_eq_self_iff]
    constructor
    · intro h c hc
      obtain ⟨hne, rfl⟩ := List.mem_getLast?_eq_getLast hc
      simpa using h hne
    · intro h hne
      simpa using h _ (List.getLast?_eq_some_getLast hne)
  constructor
  · intro h
    have htaken : (cut s).Sublist ((s.rdropWhile isControlOrSpace).filter (!isTabOrNewline ·)) :=
      List.takeWhile_sublist _
    have hdropped : s.rdropWhile isControlOrSpace = s := by
      refine (List.rdropWhile_prefix _ s).sublist.antisymm ?_
      have hsub := htaken.trans List.filter_sublist
      rwa [h] at hsub
    rw [h, hdropped] at htaken
    have hfilter : s.filter (!isTabOrNewline ·) = s := List.filter_sublist.antisymm htaken
    have htake := h
    unfold cut at htake
    rw [hdropped, hfilter, List.takeWhile_eq_self_iff] at htake
    refine ⟨fun c hc => ?_, hlast.mp hdropped⟩
    have hkept := List.filter_eq_self.mp hfilter c hc
    have hpath := htake c hc
    simp only [Bool.not_eq_true'] at hkept hpath
    exact ⟨hkept, hpath⟩
  · intro ⟨hchars, hend⟩
    unfold cut
    rw [hlast.mpr hend, List.filter_eq_self.mpr fun c hc => by simp [(hchars c hc).1]]
    exact List.takeWhile_eq_self_iff.mpr fun c hc => by simp [(hchars c hc).2]

theorem size_dropLast_le (ss : List (List Char)) : size (serialize ss.dropLast) ≤ size (serialize ss) := by
  cases ss using List.reverseRecOn with
  | nil => exact Nat.le_refl _
  | append_singleton ss t =>
    rw [List.dropLast_concat, serialize_append, size_append]
    omega

theorem size_singleton (s : List Char) : size (serialize [s]) = 1 + size s := by
  have hslash : size ['/'] = 1 := rfl
  have hs : serialize [s] = ['/'] ++ s := by simp [serialize]
  rw [hs, size_append, hslash]

theorem step_of_plain (h : isDots s = false) (front : List (List Char)) :
    step front s = front ++ [s] ∧ finish front s = front ++ [s] := by
  unfold isDots at h
  rw [Bool.or_eq_false_iff] at h
  unfold step finish
  rw [h.1, h.2]
  exact ⟨rfl, rfl⟩

/-- A dot segment takes back what is at the end at most. -/
theorem step_of_dots (h : isDots s = true) (front acc : List (List Char)) (m : Nat) :
    ∃ m' acc', step (front.take m ++ acc) s = front.take m' ++ acc' ∧
      finish (front.take m ++ acc) s = front.take m' ++ (acc' ++ [[]]) ∧
      size (serialize acc') + 1 < size (serialize acc) + size (serialize [s]) := by
  have hsize : 1 < size (serialize [s]) := by
    cases s with
    | nil => cases h
    | cons c s =>
      have hpos := size_cons_pos c s
      rw [size_singleton]
      omega
  unfold step finish
  by_cases hdouble : isDoubleDot s = true
  · simp only [hdouble, if_true]
    by_cases hacc : acc = []
    · subst hacc
      refine ⟨min ((front.take m).length - 1) m, [], ?_, ?_, ?_⟩
      · rw [List.append_nil, List.append_nil, List.dropLast_eq_take, List.take_take]
      · rw [List.append_nil, List.dropLast_eq_take, List.take_take, List.nil_append]
      · have hnil : size (serialize []) = 0 := rfl
        omega
    · have hle := size_dropLast_le acc
      refine ⟨m, acc.dropLast, ?_, ?_, by omega⟩
      · rw [List.dropLast_append_of_ne_nil hacc]
      · rw [List.dropLast_append_of_ne_nil hacc, List.append_assoc]
  · have hsingle : isSingleDot s = true := by
      unfold isDots at h
      simpa [hdouble] using h
    simp only [hdouble, hsingle, if_true]
    exact ⟨m, acc, rfl, by simp, by omega⟩

/-- Without dot segments all segments are added. -/
theorem walk_of_plain (hsegs : ∀ s ∈ segs, isDots s = false) (front : List (List Char)) :
    walk front segs = front ++ segs := by
  induction segs generalizing front with
  | nil => exact (List.append_nil front).symm
  | cons s segs ih =>
    obtain ⟨hstep, hfinish⟩ := step_of_plain (hsegs s List.mem_cons_self) front
    cases segs with
    | nil => exact hfinish
    | cons t segs =>
      have hwalk : walk front (s :: t :: segs) = walk (step front s) (t :: segs) := rfl
      rw [hwalk, hstep, ih fun u hu => hsegs u (List.mem_cons_of_mem s hu)]
      simp

/-- With dot segments less than all segments is left after the part of the front that stays. -/
theorem walk_of_dots (hsegs : ¬ ∀ s ∈ segs, isDots s = false) (front acc : List (List Char)) (m : Nat) :
    ∃ m' rest, rest ≠ [] ∧ walk (front.take m ++ acc) segs = front.take m' ++ rest ∧
      size (serialize rest) < size (serialize acc) + size (serialize segs) := by
  induction segs generalizing acc m with
  | nil => exact absurd (by simp) hsegs
  | cons s segs ih =>
    have hsplit : size (serialize (s :: segs)) = size (serialize [s]) + size (serialize segs) := by
      rw [← size_append, ← serialize_append]
      rfl
    cases segs with
    | nil =>
      have hwalk : walk (front.take m ++ acc) [s] = finish (front.take m ++ acc) s := rfl
      have hs : isDots s = true := by simpa using hsegs
      obtain ⟨m', acc', _, hfinish, hlt⟩ := step_of_dots hs front acc m
      refine ⟨m', acc' ++ [[]], by simp, hwalk.trans hfinish, ?_⟩
      have hnil : size (serialize [[]]) = 1 := rfl
      rw [serialize_append, size_append]
      omega
    | cons t segs =>
      have hwalk : walk (front.take m ++ acc) (s :: t :: segs) =
        walk (step (front.take m ++ acc) s) (t :: segs) := rfl
      by_cases hs : isDots s = false
      · have hrest : ¬ ∀ u ∈ t :: segs, isDots u = false := by
          intro hrest
          refine hsegs fun u hu => ?_
          obtain rfl | hu := List.mem_cons.mp hu
          · exact hs
          · exact hrest u hu
        obtain ⟨m', rest, hne, heq, hlt⟩ := ih hrest (acc ++ [s]) m
        refine ⟨m', rest, hne, ?_, ?_⟩
        · rw [hwalk, (step_of_plain hs _).1, List.append_assoc, heq]
        · rw [serialize_append, size_append] at hlt
          omega
      · rw [Bool.not_eq_false] at hs
        obtain ⟨m', acc', hstep, _, hlt⟩ := step_of_dots hs front acc m
        by_cases hrest : ∀ u ∈ t :: segs, isDots u = false
        · refine ⟨m', acc' ++ t :: segs, by simp, ?_, ?_⟩
          · rw [hwalk, hstep, walk_of_plain hrest, List.append_assoc]
          · rw [serialize_append, size_append]
            omega
        · obtain ⟨m'', rest, hne, heq, hlt'⟩ := ih hrest acc' m'
          refine ⟨m'', rest, hne, ?_, ?_⟩
          · rw [hwalk, hstep, heq]
          · omega

theorem walk_ne_nil (front : List (List Char)) (hsegs : segs ≠ []) : walk front segs ≠ [] := by
  by_cases hdots : ∀ s ∈ segs, isDots s = false
  · rw [walk_of_plain hdots]
    exact List.append_ne_nil_of_right_ne_nil front hsegs
  · obtain ⟨m, rest, hne, hwalk, _⟩ := walk_of_dots hdots front [] front.length
    rw [List.take_length, List.append_nil] at hwalk
    rw [hwalk]
    exact List.append_ne_nil_of_right_ne_nil _ hne

end Sizes

/-! ## Paths below a place -/

section Below

variable {platform : Platform} {r s t b path : List Char} {front rest : List (List Char)} {bs : List UInt8}

/-- The path to a place: every segment with the slash that ends it. -/
def places (front : List (List Char)) : List Char := front.flatMap (· ++ ['/'])

theorem places_append (ss ts : List (List Char)) : places (ss ++ ts) = places ss ++ places ts :=
  List.flatMap_append

theorem tail_serialize_append (front : List (List Char)) (hrest : rest ≠ []) :
    (serialize (front ++ rest)).tail = places front ++ (serialize rest).tail := by
  induction front with
  | nil => rfl
  | cons a front ih =>
    have hslash : ∃ tail, serialize (front ++ rest) = '/' :: tail := by
      cases front with
      | nil =>
        obtain ⟨b, rest, rfl⟩ := List.exists_cons_of_ne_nil hrest
        exact ⟨_, rfl⟩
      | cons b front => exact ⟨_, rfl⟩
    obtain ⟨tail, htail⟩ := hslash
    rw [htail, List.tail_cons] at ih
    rw [List.cons_append, serialize_cons, htail, ih]
    simp [places]

theorem encode_slash (s t : List Char) :
    encode inPathSet (s ++ '/' :: t) = encode inPathSet s ++ '/' :: encode inPathSet t := by
  rw [encode_append]
  rfl

theorem decodedBytes_slash (s t : List Char) :
    decodedBytes (encode inPathSet (s ++ '/' :: t)) = (decodedBytes (encode inPathSet s)).bind fun bs =>
      (decodedBytes (encode inPathSet t)).map fun bt => bs ++ 0x2f :: bt := by
  rw [encode_slash, decodedBytes_append_cons (by decide) (by decide)]
  rfl

/-- What comes after a place is decoded by itself. -/
theorem decodedBytes_places (front : List (List Char)) (s : List Char) :
    decodedBytes (encode inPathSet (places front ++ s)) =
      (decodedBytes (encode inPathSet (places front))).bind fun bs =>
        (decodedBytes (encode inPathSet s)).map (bs ++ ·) := by
  cases front using List.reverseRecOn with
  | nil =>
    have hnil : decodedBytes (encode inPathSet (places [])) = some [] := rfl
    rw [hnil]
    simp [places]
  | append_singleton front a =>
    have hplaces : places (front ++ [a]) = (places front ++ a) ++ '/' :: [] := by
      rw [places_append]
      simp [places]
    have hnil : decodedBytes (encode inPathSet []) = some [] := rfl
    rw [hplaces, List.append_assoc, List.cons_append, List.nil_append, decodedBytes_slash, decodedBytes_slash, hnil]
    cases decodedBytes (encode inPathSet (places front ++ a)) with
    | none => rfl
    | some bs => cases decodedBytes (encode inPathSet s) <;> simp

/-- A place that is not the root has a slash. -/
theorem count_places_pos (hfront : front ≠ []) (h : decodedBytes (encode inPathSet (places front)) = some bs) :
    0 < bs.count 0x2f := by
  cases front using List.reverseRecOn with
  | nil => exact absurd rfl hfront
  | append_singleton front a =>
    have hplaces : places (front ++ [a]) = (places front ++ a) ++ '/' :: [] := by
      rw [places_append]
      simp [places]
    rw [hplaces, decodedBytes_slash] at h
    obtain ⟨before, _, h⟩ := Option.bind_eq_some_iff.mp h
    obtain ⟨after, _, rfl⟩ := Option.map_eq_some_iff.mp h
    rw [List.count_append, List.count_cons_self]
    omega

theorem decodedPath_eq {url : List Char} {ss : List (List Char)} (hss : ss ≠ [])
    (h : pathname platform url = some (encode inPathSet (serialize ss))) :
    decodedPath platform url = decodeURIComponent (encode inPathSet (serialize ss).tail) := by
  obtain ⟨a, ss, rfl⟩ := List.exists_cons_of_ne_nil hss
  have hencode : encode inPathSet (serialize (a :: ss)) = '/' :: encode inPathSet (serialize (a :: ss)).tail := rfl
  unfold decodedPath
  rw [h, hencode, Option.bind_eq_bind, Option.bind_some]
  unfold Js.stripStart
  rw [if_pos (by simp)]
  rfl

theorem decodedPath_of_pathname {url : List Char} (h : pathname platform url = some ('/' :: path)) (hpath : '%' ∉ path) :
    decodedPath platform url = some path := by
  unfold decodedPath
  rw [h, Option.bind_eq_bind, Option.bind_some]
  unfold Js.stripStart
  rw [if_pos (by simp)]
  exact decodeURIComponent_self.mpr hpath

/-- The path of a URL that ends in a slash, and those of all URLs that start with it. -/
theorem exists_places (hplace : IsPlace (r ++ ['/'])) (hb : decodedPath platform (r ++ ['/']) = some b) :
    ∃ front, decodedBytes (encode inPathSet (places front)) = some (bytes b) ∧
      ∀ s, pathname platform (r ++ '/' :: s) =
        some (encode inPathSet (serialize (walk front (segments (cut s))))) := by
  obtain ⟨path, hpath, _⟩ := Option.bind_eq_some_iff.mp hb
  obtain ⟨front, hfront⟩ := exists_front hplace hpath
  have hnil : walk front (segments (cut [])) = front ++ [[]] := walk_of_plain (by decide) front
  refine ⟨front, ?_, hfront⟩
  have hroot := hfront []
  rw [hnil] at hroot
  rw [decodedPath_eq (by simp) hroot, tail_serialize_append front (List.cons_ne_nil _ _),
    decodeURIComponent_eq_some] at hb
  have htail : (serialize [[]]).tail = [] := rfl
  rwa [htail, List.append_nil] at hb

/-- A plain text is found below the place it is appended to. -/
theorem decodedPath_of_plain (hplace : IsPlace (r ++ ['/'])) (hb : decodedPath platform (r ++ ['/']) = some b)
    (hs : IsPlain s) : decodedPath platform (r ++ '/' :: s) = some (b ++ s) := by
  obtain ⟨front, hfront, hpaths⟩ := exists_places hplace hb
  obtain ⟨hchars, hlast, hdots⟩ := hs
  have hcut : cut s = s := cut_eq_self.mpr ⟨fun c hc => (hchars c hc).2.2, hlast⟩
  have hslashed : slashed s = s := slashed_eq_self.mpr fun hc => (hchars _ hc).2.1 rfl
  have hpath := hpaths s
  rw [hcut, walk_of_plain hdots] at hpath
  rw [decodedPath_eq (by simp [segments_ne_nil]) hpath, tail_serialize_append front (segments_ne_nil s),
    serialize_segments, hslashed, List.tail_cons, decodeURIComponent_eq_some, decodedBytes_places, hfront,
    decodedBytes_encode _ fun hc => (hchars _ hc).1 rfl]
  simp

theorem size_serialize_tail (hrest : rest ≠ []) : size (serialize rest) = 1 + size (serialize rest).tail := by
  obtain ⟨a, rest, rfl⟩ := List.exists_cons_of_ne_nil hrest
  exact size_append ['/'] _

/-- Without dot segments the text is found below the place, shortened and decoded. -/
theorem decoded_of_kept (hfront : decodedBytes (encode inPathSet (places front)) = some (bytes b))
    (hdots : ∀ segment ∈ segments (cut s), isDots segment = false)
    (ht : decodeURIComponent (encode inPathSet (serialize (walk front (segments (cut s)))).tail) = some t) :
    ∃ u, t = b ++ u ∧ size u ≤ size s ∧ (u = s → IsPlain s) := by
  rw [walk_of_plain hdots, tail_serialize_append front (segments_ne_nil _), serialize_segments, List.tail_cons,
    decodeURIComponent_eq_some, decodedBytes_places, hfront, Option.bind_some, Option.map_eq_some_iff] at ht
  obtain ⟨bs, hbs, ht⟩ := ht
  obtain ⟨u, rfl, hu⟩ := bytes_eq_append ht.symm
  rw [← hu, ← decodeURIComponent_eq_some] at hbs
  obtain ⟨hle, heq⟩ := decodeURIComponent_encode (by decide) hbs
  have hcut : size (cut s) ≤ size s := length_bytes_le (cut_sublist s)
  have hslashed := size_slashed (cut s)
  unfold size at hcut hslashed
  refine ⟨u, rfl, ?_, ?_⟩
  · unfold size
    omega
  · rintro rfl
    -- nothing is lost, so no step has changed anything
    obtain ⟨hpercent, hself⟩ := heq (by omega)
    have hwhole : cut u = u := by
      refine eq_of_length_bytes (cut_sublist u) ?_
      have hlength := congrArg size hself
      unfold size at hlength
      omega
    rw [hwhole] at hdots hpercent hself
    obtain ⟨hchars, hlast⟩ := cut_eq_self.mp hwhole
    have hback := slashed_eq_self.mp hself.symm
    rw [← hself] at hpercent
    refine ⟨fun c hc => ⟨?_, ?_, hchars c hc⟩, hlast, hdots⟩
    · rintro rfl
      exact hpercent hc
    · rintro rfl
      exact hback hc

/-- With dot segments what is left after a part of the way to the place is shorter than the text. -/
theorem decoded_of_dots (hdots : ¬ ∀ segment ∈ segments (cut s), isDots segment = false)
    (ht : decodeURIComponent (encode inPathSet (serialize (walk front (segments (cut s)))).tail) = some t) :
    ∃ m before after, decodedBytes (encode inPathSet (places (front.take m))) = some before ∧
      bytes t = before ++ after ∧ after.length < size s := by
  obtain ⟨m, rest, hne, hwalk, hlt⟩ := walk_of_dots hdots front [] front.length
  rw [List.take_length, List.append_nil] at hwalk
  rw [hwalk, tail_serialize_append _ hne, decodeURIComponent_eq_some, decodedBytes_places,
    Option.bind_eq_some_iff] at ht
  obtain ⟨before, hbefore, ht⟩ := ht
  obtain ⟨after, hafter, ht⟩ := Option.map_eq_some_iff.mp ht
  refine ⟨m, before, after, hbefore, ht.symm, ?_⟩
  obtain ⟨hle, _⟩ := length_decodedBytes (by decide) hafter
  have hnil : size (serialize []) = 0 := rfl
  have hsegs : size (serialize (segments (cut s))) = 1 + size (cut s) := by
    rw [size_serialize_tail (segments_ne_nil _), serialize_segments, List.tail_cons, size_slashed]
  have hrest := size_serialize_tail hne
  have hcut : size (cut s) ≤ size s := length_bytes_le (cut_sublist s)
  unfold size at *
  omega

/-- What is found below a place is the text itself only if the text is plain. Where the text leads out of the
place, less of it is left, or the place was more than one step below the root. -/
theorem decodedPath_cases (hplace : IsPlace (r ++ ['/'])) (hb : decodedPath platform (r ++ ['/']) = some b)
    (ht : decodedPath platform (r ++ '/' :: s) = some t) :
    (∃ u, t = b ++ u ∧ size u ≤ size s ∧ (u = s → IsPlain s)) ∨ size t < size s ∨ 2 ≤ b.count '/' := by
  obtain ⟨front, hfront, hpaths⟩ := exists_places hplace hb
  rw [decodedPath_eq (walk_ne_nil front (segments_ne_nil _)) (hpaths s)] at ht
  by_cases hdots : ∀ segment ∈ segments (cut s), isDots segment = false
  · exact .inl (decoded_of_kept hfront hdots ht)
  · obtain ⟨m, before, after, hbefore, ht, hshort⟩ := decoded_of_dots hdots ht
    have hsplit : places front = places (front.take m) ++ places (front.drop m) := by
      rw [← places_append, List.take_append_drop]
    rw [hsplit, decodedBytes_places, hbefore, Option.bind_some, Option.map_eq_some_iff] at hfront
    obtain ⟨dropped, hdropped, hfront⟩ := hfront
    by_cases hall : front.drop m = []
    · rw [hall] at hdropped
      have hempty : dropped = [] := (Option.some.inj hdropped).symm
      rw [hempty, List.append_nil] at hfront
      rw [hfront] at ht
      obtain ⟨u, rfl, hu⟩ := bytes_eq_append ht
      rw [← hu] at hshort
      refine .inl ⟨u, rfl, Nat.le_of_lt hshort, ?_⟩
      rintro rfl
      exact absurd hshort (Nat.lt_irrefl _)
    · by_cases hnone : front.take m = []
      · rw [hnone] at hbefore
        have hempty : before = [] := (Option.some.inj hbefore).symm
        rw [hempty, List.nil_append] at ht
        rw [← ht] at hshort
        exact .inr (.inl hshort)
      · have hfirst := count_places_pos hnone hbefore
        have hsecond := count_places_pos hall hdropped
        refine .inr (.inr ?_)
        rw [← count_slash, ← hfront, List.count_append]
        omega

end Below

end Relay.Lib.Url
