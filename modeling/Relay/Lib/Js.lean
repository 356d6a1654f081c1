import Mathlib.Algebra.GroupWithZero.Nat
import Mathlib.Data.List.DropRight
import Mathlib.Data.List.Perm.Subperm

/-!
# String methods of JavaScript on lists of characters

`[...new Set(xs)]` is `xs.eraseDups`. `replaceFirst` is `String.replace` with a string pattern, `trim` is
`String.trim`, and what regular expressions do has a function for each kind of pattern. Only what is the same for
code points and UTF-16 code units is used.
-/

namespace Relay.Lib.Js

/-- A property of the characters of a text is decided for these, not for all characters there are. -/
instance decidableForallMem {P : Char → Prop} [DecidablePred P] (s : List Char) : Decidable (∀ c ∈ s, P c) :=
  List.decidableBAll P s

instance decidableForallMemOption {P : Char → Prop} [DecidablePred P] (c : Option Char) : Decidable (∀ d ∈ c, P d) :=
  Option.decidableForallMem c

/-- The characters `\s` matches and `trim` removes. -/
def isSpace (c : Char) : Bool :=
  c ∈ ['\t', '\n', '\x0b', '\x0c', '\r', ' ', '\u00a0', '\u1680', '\u2000', '\u2001', '\u2002',
    '\u2003', '\u2004', '\u2005', '\u2006', '\u2007', '\u2008', '\u2009', '\u200a', '\u2028',
    '\u2029', '\u202f', '\u205f', '\u3000', '\ufeff']

/-- `s.replace(pat, rep)`: the first occurrence only. -/
def replaceFirst (pat rep : List Char) : List Char → List Char
  | [] => if pat = [] then rep else []
  | c :: cs =>
    if pat.isPrefixOf (c :: cs) then rep ++ (c :: cs).drop pat.length
    else c :: replaceFirst pat rep cs

/-- `s.replace(/c/g, rep)` for a single character. -/
def replaceAll (c : Char) (rep s : List Char) : List Char := s.flatMap fun d => if d = c then rep else [d]

/-- What `replaceText` does after the next `skip` characters, which are part of an occurrence. -/
def replaceFrom (pat rep : List Char) : Nat → List Char → List Char
  | _, [] => []
  | skip + 1, _ :: cs => replaceFrom pat rep skip cs
  | 0, c :: cs =>
    if pat <+: c :: cs then rep ++ replaceFrom pat rep (pat.length - 1) cs
    else c :: replaceFrom pat rep 0 cs

/-- `s.replace(/pat/g, rep)` for a text `pat`: all occurrences from the left on, none of which overlap. -/
def replaceText (pat rep s : List Char) : List Char := replaceFrom pat rep 0 s

/-- `s.replace(/[..]+/g, rep)`: every run of characters of the class. -/
def replaceRuns (p : Char → Bool) (rep : List Char) : List Char → List Char
  | [] => []
  | c :: cs =>
    if p c = false then c :: replaceRuns p rep cs
    else if cs.head?.any p then replaceRuns p rep cs
    else rep ++ replaceRuns p rep cs

/-- `s.replace(/^pat/, '')`. -/
def stripStart (pat s : List Char) : List Char := if pat <+: s then s.drop pat.length else s

/-- `s.replace(/pat$/, '')`. -/
def stripEnd (pat s : List Char) : List Char := if pat <:+ s then s.take (s.length - pat.length) else s

def trim (s : List Char) : List Char :=
  ((s.dropWhile isSpace).reverse.dropWhile isSpace).reverse

/-- The match of `(\S+)\s+(\S+)`: the first two words. -/
def firstTwoWords (s : List Char) : Option (List Char × List Char) :=
  let s := s.dropWhile isSpace
  let first := s.takeWhile fun c => !isSpace c
  let rest := (s.dropWhile fun c => !isSpace c).dropWhile isSpace
  let second := rest.takeWhile fun c => !isSpace c
  if first = [] ∨ second = [] then none else some (first, second)

def toLower (s : List Char) : List Char := s.map Char.toLower

/-- `toLowerCase`, of which only what it does to texts of ASCII characters is fixed. -/
structure LowerCase where
  apply : List Char → List Char
  ascii : ∀ s, (∀ c ∈ s, c.toNat < 128) → apply s = toLower s

instance : CoeFun LowerCase fun _ => List Char → List Char := ⟨LowerCase.apply⟩

/-- `s.length`: characters beyond the basic plane count twice. -/
def length (s : List Char) : Nat := (s.map fun c => if 0x10000 ≤ c.toNat then 2 else 1).sum

/-- A trimmed text does not start with a space. -/
theorem dropWhile_trim (s : List Char) : (trim s).dropWhile isSpace = trim s := by
  have hleads : trim s <+: s.dropWhile isSpace := by
    unfold trim
    have h := List.dropWhile_suffix (l := (s.dropWhile isSpace).reverse) isSpace
    simpa using List.reverse_prefix.mpr h
  cases ht : trim s with
  | nil => rfl
  | cons c cs =>
    rw [ht] at hleads
    obtain ⟨rest, hrest⟩ := hleads
    have hc : isSpace c = false := by
      have h := List.head?_dropWhile_not isSpace s
      rw [← hrest] at h
      simpa using h
    rw [List.dropWhile_cons_of_neg (by simp [hc])]

theorem trim_trim (s : List Char) : trim (trim s) = trim s := by
  have hend : (trim s).reverse.dropWhile isSpace = (trim s).reverse := by
    unfold trim
    rw [List.reverse_reverse]
    exact List.dropWhile_idempotent _ _
  change (((trim s).dropWhile isSpace).reverse.dropWhile isSpace).reverse = trim s
  rw [dropWhile_trim, hend, List.reverse_reverse]

/-! ## Runs -/

section Runs

variable {p : Char → Bool} {rep s t : List Char} {c : Char}

theorem replaceRuns_cons_of_neg (h : p c = false) : replaceRuns p rep (c :: s) = c :: replaceRuns p rep s := by
  simp [replaceRuns, h]

/-- No run goes on where one of the two characters is outside the class. -/
theorem replaceRuns_append (h : (∀ c ∈ s.getLast?, p c = false) ∨ ∀ c ∈ t.head?, p c = false) :
    replaceRuns p rep (s ++ t) = replaceRuns p rep s ++ replaceRuns p rep t := by
  induction s with
  | nil => rfl
  | cons c s ih =>
    rw [List.cons_append]
    cases s with
    | nil =>
      cases hc : p c with
      | false => rw [List.nil_append, replaceRuns_cons_of_neg hc, replaceRuns_cons_of_neg hc]; rfl
      | true =>
        have hhead : t.head?.any p = false := by
          cases t with
          | nil => rfl
          | cons d t => simpa [hc] using h
        simp [replaceRuns, hc, hhead]
    | cons d s =>
      have hrest := ih (h.imp_left fun h c hc => h c (by simpa using hc))
      rw [List.cons_append] at hrest ⊢
      by_cases hc : p c = false
      · rw [replaceRuns_cons_of_neg hc, hrest, replaceRuns_cons_of_neg hc]
        rfl
      · cases hd : p d <;> simp [replaceRuns, hc, hd] at hrest ⊢ <;> exact hrest

theorem replaceRuns_of_neg (h : ∀ c ∈ s, p c = false) : replaceRuns p rep s = s := by
  induction s with
  | nil => rfl
  | cons c s ih =>
    rw [replaceRuns_cons_of_neg (h c List.mem_cons_self), ih fun d hd => h d (List.mem_cons_of_mem c hd)]

theorem replaceRuns_cons_of_pos (h : p c = true) :
    replaceRuns p rep (c :: s) = if s.head?.any p then replaceRuns p rep s else rep ++ replaceRuns p rep s := by
  simp [replaceRuns, h]

theorem mem_of_mem_replaceRuns (h : c ∈ replaceRuns p rep s) : c ∈ s ∧ p c = false ∨ c ∈ rep := by
  induction s with
  | nil => exact absurd h List.not_mem_nil
  | cons d s ih =>
    have hrest : c ∈ replaceRuns p rep s → c ∈ d :: s ∧ p c = false ∨ c ∈ rep :=
      fun h => (ih h).imp_left fun h => ⟨List.mem_cons_of_mem d h.1, h.2⟩
    cases hd : p d with
    | false =>
      rw [replaceRuns_cons_of_neg hd, List.mem_cons] at h
      obtain rfl | h := h
      · exact .inl ⟨List.mem_cons_self, hd⟩
      · exact hrest h
    | true =>
      rw [replaceRuns_cons_of_pos hd] at h
      split at h
      · exact hrest h
      · exact (List.mem_append.mp h).elim .inr hrest

/-- A run leaves the replacement. -/
theorem subset_replaceRuns (hc : c ∈ s) (h : p c = true) : rep ⊆ replaceRuns p rep s := by
  induction s generalizing c with
  | nil => exact absurd hc List.not_mem_nil
  | cons d s ih =>
    cases hd : p d with
    | false =>
      have hmem : c ∈ s := by
        obtain rfl | hc := List.mem_cons.mp hc
        · rw [h] at hd
          cases hd
        · exact hc
      rw [replaceRuns_cons_of_neg hd]
      exact fun r hr => List.mem_cons_of_mem d (ih hmem h hr)
    | true =>
      rw [replaceRuns_cons_of_pos hd]
      cases s with
      | nil => exact List.subset_append_left rep _
      | cons e s =>
        split
        · next hnext => exact ih List.mem_cons_self hnext
        · exact List.subset_append_left rep _

/-- The text without the characters of the class at its ends. -/
def strip (p : Char → Bool) (s : List Char) : List Char := (s.dropWhile p).rdropWhile p

theorem strip_eq (p : Char → Bool) (s : List Char) : ∃ front back, s = front ++ (strip p s ++ back) ∧
    (∀ c ∈ front, p c = true) ∧ (∀ c ∈ back, p c = true) ∧ (∀ c ∈ (strip p s).head?, p c = false) ∧
    ∀ c ∈ (strip p s).getLast?, p c = false := by
  refine ⟨s.takeWhile p, (s.dropWhile p).rtakeWhile p, ?_, fun c hc => List.mem_takeWhile_imp hc,
    fun c hc => List.mem_rtakeWhile_imp hc, ?_, ?_⟩
  · unfold strip
    rw [List.rdropWhile_append_rtakeWhile, List.takeWhile_append_dropWhile]
  · intro c hc
    obtain ⟨back, hback⟩ := List.rdropWhile_prefix p (s.dropWhile p)
    have hhead := List.head?_dropWhile_not p s
    unfold strip at hc
    rw [← hback, List.head?_append, Option.mem_def.mp hc] at hhead
    simpa using hhead
  · intro c hc
    obtain ⟨hne, rfl⟩ := List.mem_getLast?_eq_getLast hc
    have hnot := List.rdropWhile_last_not p (s.dropWhile p) hne
    rw [Bool.not_eq_true] at hnot
    exact hnot

/-- What is left in the middle decides. -/
theorem strip_of_eq {front back : List Char} (hfront : ∀ c ∈ front, p c = true) (hback : ∀ c ∈ back, p c = true)
    (hhead : ∀ c ∈ s.head?, p c = false) (hlast : ∀ c ∈ s.getLast?, p c = false) :
    strip p (front ++ (s ++ back)) = s := by
  unfold strip
  rw [List.dropWhile_append_of_pos hfront]
  cases s with
  | nil =>
    rw [List.nil_append, List.dropWhile_eq_nil_iff.mpr hback]
    rfl
  | cons c s =>
    rw [List.cons_append, List.dropWhile_cons_of_neg (by simpa using hhead c rfl)]
    unfold List.rdropWhile
    rw [← List.cons_append, List.reverse_append, List.dropWhile_append_of_pos (by simpa using hback)]
    have hdrop : (c :: s).rdropWhile p = c :: s :=
      List.rdropWhile_eq_self_iff.mpr fun hne => by simpa using hlast _ (List.getLast?_eq_some_getLast hne)
    exact hdrop

/-- Stripping the replacement off is stripping off the runs and the character itself. -/
theorem strip_replaceRuns (x : Char) (s : List Char) :
    strip (· = x) (replaceRuns p [x] s) = replaceRuns p [x] (strip (fun c => p c || c = x) s) := by
  obtain ⟨front, back, hs, hfront, hback, hhead, hlast⟩ := strip_eq (fun c => p c || c = x) s
  generalize strip (fun c => p c || c = x) s = middle at hs hhead hlast ⊢
  have hout : ∀ c, (p c || c = x) = false → p c = false ∧ c ≠ x := by
    intro c hc
    simpa using hc
  have hends : ∀ run : List Char, (∀ c ∈ run, (p c || c = x) = true) →
      ∀ c ∈ replaceRuns p [x] run, decide (c = x) = true := by
    intro run hrun c hc
    obtain ⟨hmem, hneg⟩ | hmem := mem_of_mem_replaceRuns hc
    · have hjunk := hrun c hmem
      rw [hneg] at hjunk
      simpa using hjunk
    · simpa using hmem
  rw [hs]
  by_cases hmiddle : middle = []
  · have hall : ∀ c ∈ front ++ back, (p c || c = x) = true := by
      intro c hc
      exact (List.mem_append.mp hc).elim (hfront c) (hback c)
    subst hmiddle
    rw [List.nil_append]
    have hstrip : strip (· = x) (replaceRuns p [x] (front ++ back) ++ ([] ++ [])) = [] :=
      strip_of_eq (hends _ hall) (by simp) (by simp) (by simp)
    simpa [replaceRuns] using hstrip
  · have hfirst : ∀ c ∈ (middle ++ back).head?, p c = false := by
      intro c hc
      rw [List.head?_append_of_ne_nil _ hmiddle] at hc
      exact (hout c (hhead c hc)).1
    have hsecond : ∀ c ∈ middle.getLast?, p c = false := fun c hc => (hout c (hlast c hc)).1
    rw [replaceRuns_append (.inr hfirst), replaceRuns_append (.inl hsecond)]
    refine strip_of_eq (hends front hfront) (hends back hback) ?_ ?_
    · intro c hc
      obtain ⟨d, rest, rfl⟩ := List.exists_cons_of_ne_nil hmiddle
      obtain ⟨hd, hne⟩ := hout d (hhead d rfl)
      rw [replaceRuns_cons_of_neg hd] at hc
      obtain rfl : d = c := by simpa using hc
      simpa using hne
    · intro c hc
      cases middle using List.reverseRecOn with
      | nil => exact absurd rfl hmiddle
      | append_singleton rest d =>
        obtain ⟨hd, hne⟩ := hout d (hlast d (by simp))
        rw [replaceRuns_append (.inr (by simpa using hd)), replaceRuns_cons_of_neg hd] at hc
        obtain rfl : d = c := by simpa [replaceRuns] using hc
        simpa using hne


end Runs

/-! ## Occurrences -/

section Occurrences

variable {pat rep s t u : List Char} {c : Char}

theorem replaceFrom_eq_drop (n : Nat) (s : List Char) :
    replaceFrom pat rep n s = replaceFrom pat rep 0 (s.drop n) := by
  induction s generalizing n with
  | nil => cases n <;> rfl
  | cons c s ih =>
    cases n with
    | zero => rfl
    | succ n => exact ih n

theorem replaceText_append (hpat : pat ≠ []) (t : List Char) :
    replaceText pat rep (pat ++ t) = rep ++ replaceText pat rep t := by
  obtain ⟨c, name, rfl⟩ := List.exists_cons_of_ne_nil hpat
  have hprefix : c :: name <+: c :: (name ++ t) := List.prefix_append (c :: name) t
  unfold replaceText
  rw [List.cons_append, replaceFrom, if_pos hprefix, replaceFrom_eq_drop]
  simp

theorem replaceText_cons (h : ¬ pat <+: c :: t) : replaceText pat rep (c :: t) = c :: replaceText pat rep t := by
  unfold replaceText
  rw [replaceFrom, if_neg h]

/-- Induction along the occurrences. -/
theorem replaceText_induction {motive : List Char → Prop} (hpat : pat ≠ []) (nil : motive [])
    (hit : ∀ t, motive t → motive (pat ++ t))
    (miss : ∀ c t, ¬ pat <+: c :: t → motive t → motive (c :: t)) (s : List Char) : motive s := by
  induction hn : s.length using Nat.strongRecOn generalizing s with
  | ind n ih =>
    cases s with
    | nil => exact nil
    | cons c s =>
      by_cases h : pat <+: c :: s
      · obtain ⟨t, ht⟩ := h
        have hpos := List.length_pos_iff.mpr hpat
        have hlength := congrArg List.length ht
        rw [List.length_append] at hlength
        rw [← ht]
        exact hit t (ih t.length (by omega) t rfl)
      · have hlt : s.length < n := by
          rw [← hn]
          simp
        exact miss c s h (ih s.length hlt s rfl)

/-- A shorter text in the place of an occurrence makes the whole shorter. -/
theorem length_replaceText (h : rep.length < pat.length) (s : List Char) :
    (replaceText pat rep s).length ≤ s.length ∧
      (s.length ≤ (replaceText pat rep s).length → ¬ pat <:+: s ∧ replaceText pat rep s = s) := by
  have hpat : pat ≠ [] := by
    rintro rfl
    cases h
  induction s using replaceText_induction hpat with
  | nil =>
    refine ⟨Nat.le_refl 0, fun _ => ⟨?_, rfl⟩⟩
    rw [List.infix_nil]
    exact hpat
  | hit t ih =>
    obtain ⟨hle, _⟩ := ih
    rw [replaceText_append hpat, List.length_append, List.length_append]
    exact ⟨by omega, fun hge => by omega⟩
  | miss c t hnot ih =>
    obtain ⟨hle, heq⟩ := ih
    rw [replaceText_cons hnot, List.length_cons, List.length_cons]
    refine ⟨by omega, fun hge => ?_⟩
    obtain ⟨hpart, hself⟩ := heq (by omega)
    rw [List.infix_cons_iff, not_or]
    exact ⟨⟨hnot, hpart⟩, by rw [hself]⟩

theorem replaceText_of_absent (h : ¬ pat <:+: s) : replaceText pat rep s = s := by
  induction s with
  | nil => rfl
  | cons c s ih =>
    rw [List.infix_cons_iff, not_or] at h
    rw [replaceText_cons h.1, ih h.2]

/-- Characters that do not start an occurrence stay. -/
theorem replaceText_append_of_notMem {name : List Char} (h : c ∉ u) (t : List Char) :
    replaceText (c :: name) rep (u ++ t) = u ++ replaceText (c :: name) rep t := by
  induction u with
  | nil => rfl
  | cons d u ih =>
    rw [List.mem_cons, not_or] at h
    have hnot : ¬ c :: name <+: d :: (u ++ t) := by
      rw [List.cons_prefix_cons]
      exact fun hc => h.1 hc.1
    rw [List.cons_append, replaceText_cons hnot, ih h.2]
    rfl

end Occurrences

theorem length_trim_le (s : List Char) : (trim s).length ≤ s.length := by
  unfold trim
  rw [List.length_reverse]
  refine Nat.le_trans (List.dropWhile_sublist _).length_le ?_
  rw [List.length_reverse]
  exact (List.dropWhile_sublist _).length_le

/-! ## Sets -/

section Sets

variable {α : Type} [BEq α] [LawfulBEq α]

theorem nodup_eraseDups (as : List α) : as.eraseDups.Nodup := by
  match as with
  | [] => exact List.nodup_nil
  | a :: as =>
    rw [List.eraseDups_cons, List.nodup_cons]
    have hlt : (as.filter fun b => !b == a).length < as.length + 1 :=
      Nat.lt_succ_of_le (List.length_filter_le _ as)
    refine ⟨fun ha => ?_, nodup_eraseDups _⟩
    have hmem := List.mem_filter.mp (List.mem_eraseDups.mp ha)
    simp at hmem
termination_by as.length

theorem length_eraseDups_le (as : List α) : as.eraseDups.length ≤ as.length :=
  ((nodup_eraseDups as).subperm fun _ ha => List.mem_eraseDups.mp ha).length_le

theorem eraseDups_of_nodup {as : List α} (h : as.Nodup) : as.eraseDups = as := by
  induction as with
  | nil => rfl
  | cons a as ih =>
    obtain ⟨ha, has⟩ := List.nodup_cons.mp h
    have hfilter : (as.filter fun b => !b == a) = as :=
      List.filter_eq_self.mpr fun b hb => by
        have hne : b ≠ a := fun heq => ha (heq ▸ hb)
        simpa using hne
    rw [List.eraseDups_cons, hfilter, ih has]

end Sets

end Relay.Lib.Js
