import Relay.Gateway.S3Storage

/-!
# The user's segment of a storage path

`storageUserName` and the copy of it in `S3Storage.upload` agree. What they return is short and has no separator,
but the dots of a name that consists of one or two of them stay: such a name is `.` or `..` in the path.
-/

namespace Relay.Gateway.Storage

open Relay.Lib

/-- A segment that can stand in every path and leads down by one. -/
def SafeSegment (segment : Text) : Prop :=
  1 ≤ segment.length ∧ segment.length ≤ 48 ∧ (∀ c ∈ segment, isSegmentChar c = true) ∧
    segment ≠ ['.'] ∧ segment ≠ ['.', '.']

instance (segment : Text) : Decidable (SafeSegment segment) := inferInstanceAs (Decidable (_ ∧ _ ∧ _ ∧ _ ∧ _))

/-- What is before the first `@` of the lower-cased name, without the characters at its ends that are or become
dashes. -/
def innerName (toLowerCase : Text → Text) (raw : Option Text) : Text :=
  Js.strip (fun c => !isSegmentChar c || c = '-')
    ((toLowerCase (Js.trim (raw.getD "user".toList))).takeWhile (· ≠ '@'))

/-- The name is nothing but one dot or two. -/
def OnlyDots (toLowerCase : Text → Text) (raw : Option Text) : Prop :=
  innerName toLowerCase raw = ['.'] ∨ innerName toLowerCase raw = ['.', '.']

instance (toLowerCase : Text → Text) (raw : Option Text) : Decidable (OnlyDots toLowerCase raw) :=
  inferInstanceAs (Decidable (_ ∨ _))

variable {toLowerCase : Text → Text} {raw : Option Text} {s : Text} {c : Char}

/-! ## Dots -/

/-- Dots are left exactly where nothing was replaced. -/
theorem replaceRuns_eq_iff {dots : Text} (h : ∀ c ∈ dots, c = '.') :
    Js.replaceRuns (!isSegmentChar ·) ['-'] s = dots ↔ s = dots := by
  constructor
  · intro heq
    have hsame : Js.replaceRuns (!isSegmentChar ·) ['-'] s = s := by
      refine Js.replaceRuns_of_neg fun c hc => ?_
      by_contra hjunk
      have hdash : ['-'] ⊆ Js.replaceRuns (!isSegmentChar ·) ['-'] s :=
        Js.subset_replaceRuns hc (by simpa using hjunk)
      rw [heq] at hdash
      have hdot := h '-' (hdash List.mem_cons_self)
      revert hdot
      decide
    rw [← hsame, heq]
  · rintro rfl
    refine Js.replaceRuns_of_neg fun c hc => ?_
    rw [h c hc]
    decide

theorem storageUserName_eq (toLowerCase : Text → Text) (raw : Option Text) :
    let base := (Js.replaceRuns (!isSegmentChar ·) ['-'] (innerName toLowerCase raw)).take 48
    storageUserName toLowerCase raw = if base = [] then "user".toList else base := by
  unfold storageUserName innerName
  rw [← Js.strip_replaceRuns]
  rfl

theorem isSegmentChar_of_mem (h : c ∈ Js.replaceRuns (!isSegmentChar ·) ['-'] s) : isSegmentChar c = true := by
  obtain ⟨_, hneg⟩ | hdash := Js.mem_of_mem_replaceRuns h
  · simpa using hneg
  · rw [List.mem_singleton.mp hdash]
    decide

/-- Cutting off does not make a text of one or two characters. -/
theorem take_eq_iff {dots : Text} (h : dots.length < 48) : s.take 48 = dots ↔ s = dots := by
  constructor
  · intro heq
    have hlength := congrArg List.length heq
    rw [List.length_take] at hlength
    rw [List.take_of_length_le (by omega)] at heq
    exact heq
  · rintro rfl
    exact List.take_of_length_le (Nat.le_of_lt h)

/-- What is returned is a safe segment, unless the name is only dots. -/
theorem safeSegment_iff (toLowerCase : Text → Text) (raw : Option Text) :
    SafeSegment (storageUserName toLowerCase raw) ↔ ¬ OnlyDots toLowerCase raw := by
  have hone : ∀ c ∈ ['.'], c = '.' := by simp
  have htwo : ∀ c ∈ ['.', '.'], c = '.' := by simp
  rw [storageUserName_eq]
  have hdots : ∀ dots : Text, (∀ c ∈ dots, c = '.') → dots.length < 48 →
      ((Js.replaceRuns (!isSegmentChar ·) ['-'] (innerName toLowerCase raw)).take 48 = dots ↔
        innerName toLowerCase raw = dots) :=
    fun dots hall hlength => (take_eq_iff hlength).trans (replaceRuns_eq_iff hall)
  unfold OnlyDots
  rw [← hdots _ hone (by decide), ← hdots _ htwo (by decide)]
  generalize hbase : (Js.replaceRuns (!isSegmentChar ·) ['-'] (innerName toLowerCase raw)).take 48 = base
  by_cases hnil : base = []
  · rw [if_pos hnil, hnil]
    decide
  · rw [if_neg hnil]
    have hlength : base.length ≤ 48 := by
      rw [← hbase]
      exact List.length_take_le 48 _
    have hchars : ∀ c ∈ base, isSegmentChar c = true := by
      intro c hc
      rw [← hbase] at hc
      exact isSegmentChar_of_mem (List.mem_of_mem_take hc)
    unfold SafeSegment
    rw [not_or]
    exact ⟨fun h => h.2.2.2, fun h => ⟨List.length_pos_iff.mpr hnil, hlength, hchars, h⟩⟩

/-! ## The copy -/

/-- An empty name is the name `user` to the copy, and becomes it at the end of the other. -/
theorem userOf_eq (lower : Js.LowerCase) (raw : Option Text) :
    S3Storage.userOf lower raw = storageUserName lower raw := by
  by_cases hraw : raw = some []
  · have hempty : lower (Js.trim []) = [] := lower.ascii [] (by simp)
    have huser : lower (Js.trim "user".toList) = "user".toList := (lower.ascii _ (by decide)).trans (by decide)
    have hnone : S3Storage.truthy (some []) = none := rfl
    rw [hraw]
    unfold S3Storage.userOf storageUserName
    rw [hnone, Option.getD_none, Option.getD_some, hempty, huser]
    decide
  · have htruthy : S3Storage.truthy raw = raw := by
      cases raw with
      | none => rfl
      | some text =>
        have hne : text ≠ [] := fun h => hraw (congrArg some h)
        unfold S3Storage.truthy
        rw [Option.filter_some, if_pos (by simpa using hne)]
    unfold S3Storage.userOf storageUserName
    rw [htruthy]
    rfl

/-- For every text, and for none: both copies return the same. It is a safe segment if and only if the name is not
only dots. -/
theorem storageUserName_safe_iff (lower : Js.LowerCase) (raw : Option Text) :
    storageUserName lower raw = S3Storage.userOf lower raw ∧ SafeSegment (storageUserName lower raw) ↔
      ¬ OnlyDots lower raw := by
  rw [and_iff_right (userOf_eq lower raw).symm]
  exact safeSegment_iff lower raw

/-- ASCII lower case is one of the lower cases. -/
def asciiLower : Js.LowerCase := ⟨Js.toLower, fun _ _ => rfl⟩

/-- A mail address with two dots before the `@`. -/
theorem storageUserName_safe_fails :
    ¬ ∀ (lower : Js.LowerCase) (raw : Text), storageUserName lower (some raw) = S3Storage.userOf lower (some raw) ∧
      SafeSegment (storageUserName lower (some raw)) := by
  intro h
  have hsafe := (h asciiLower "..@example.org".toList).2
  revert hsafe
  decide

end Relay.Gateway.Storage
