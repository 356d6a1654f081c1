import Mathlib.Data.List.Basic

/-!
# Percent coding

A character is written as the bytes of its UTF-8 form, each as `%` with two hexadecimal digits; decoding reads
the bytes of a text, those written so and those of all other characters, as UTF-8. Decoding gives a text back in
which some characters other than `%` were encoded, and never gives back one that has a `%` of its own.
-/

namespace Relay.Lib.Percent

/-- The UTF-8 form of a text. -/
def bytes (s : List Char) : List UInt8 := s.flatMap String.utf8EncodeChar

/-- The text whose UTF-8 form the bytes are. -/
def ofBytes (bs : List UInt8) : Option (List Char) := bs.toByteArray.utf8Decode?.map Array.toList

def hexDigit (n : Nat) : Char := "0123456789ABCDEF".toList.getD n '0'

/-- The value of a hexadecimal digit, of either case. -/
def hexValue (c : Char) : Option Nat :=
  if c.isDigit then some (c.toNat - '0'.toNat)
  else if 'A' ≤ c ∧ c ≤ 'F' then some (c.toNat - 'A'.toNat + 10)
  else if 'a' ≤ c ∧ c ≤ 'f' then some (c.toNat - 'a'.toNat + 10)
  else none

def encodeByte (b : UInt8) : List Char := ['%', hexDigit (b.toNat / 16), hexDigit (b.toNat % 16)]

/-- The text with the characters that `set` selects encoded. -/
def encode (set : Char → Bool) (s : List Char) : List Char :=
  s.flatMap fun c => if set c then (String.utf8EncodeChar c).flatMap encodeByte else [c]

/-- The bytes a text stands for; none where two digits do not follow a `%`. -/
def decodedBytes : List Char → Option (List UInt8)
  | [] => some []
  | c :: cs =>
    if c = '%' then
      match cs with
      | a :: b :: rest => do
        let high ← hexValue a
        let low ← hexValue b
        return UInt8.ofNat (16 * high + low) :: (← decodedBytes rest)
      | _ => none
    else (decodedBytes cs).map (String.utf8EncodeChar c ++ ·)

/-- `decodeURIComponent`. -/
def decodeURIComponent (s : List Char) : Option (List Char) := (decodedBytes s).bind ofBytes

/-! ## Bytes -/

section Bytes

variable {s t : List Char} {bs : List UInt8}

@[simp] theorem bytes_nil : bytes [] = [] := rfl

@[simp] theorem bytes_append (s t : List Char) : bytes (s ++ t) = bytes s ++ bytes t := List.flatMap_append

theorem bytes_cons (c : Char) (s : List Char) : bytes (c :: s) = String.utf8EncodeChar c ++ bytes s := rfl

/-- Bytes are the form of one text at most. -/
theorem ofBytes_eq_some : ofBytes bs = some s ↔ bs = bytes s := by
  unfold ofBytes
  rw [Option.map_eq_some_iff]
  constructor
  · rintro ⟨chars, hchars, rfl⟩
    have hvalid : bs.toByteArray.utf8Decode?.isSome = true := by
      rw [hchars]
      rfl
    have hencode := ByteArray.utf8Encode_get_utf8Decode? (b := bs.toByteArray) (h := hvalid)
    simp only [hchars, Option.get_some] at hencode
    unfold List.utf8Encode at hencode
    exact (List.toByteArray_inj.mp hencode).symm
  · rintro rfl
    refine ⟨s.toArray, ?_, rfl⟩
    have hdecode := List.utf8Decode?_utf8Encode (l := s)
    unfold List.utf8Encode at hdecode
    exact hdecode

theorem bytes_injective (h : bytes s = bytes t) : s = t := by
  have hs : ofBytes (bytes s) = some s := ofBytes_eq_some.mpr rfl
  have ht : ofBytes (bytes s) = some t := ofBytes_eq_some.mpr h
  rw [hs] at ht
  exact Option.some.inj ht

theorem length_bytes_pos (c : Char) : 0 < (String.utf8EncodeChar c).length := by
  rw [String.length_utf8EncodeChar]
  exact c.utf8Size_pos

/-- A part has fewer bytes, unless it is the whole. -/
theorem length_bytes_le (h : s.Sublist t) : (bytes s).length ≤ (bytes t).length := by
  induction h with
  | slnil => exact Nat.le_refl _
  | cons c _ ih =>
    rw [bytes_cons, List.length_append]
    omega
  | cons_cons c _ ih =>
    rw [bytes_cons, bytes_cons, List.length_append, List.length_append]
    omega

theorem eq_of_length_bytes (h : s.Sublist t) (hlength : (bytes t).length ≤ (bytes s).length) : s = t := by
  induction h with
  | slnil => rfl
  | @cons s t c h ih =>
    have hle := length_bytes_le h
    have hpos := length_bytes_pos c
    rw [bytes_cons, List.length_append] at hlength
    omega
  | @cons_cons s t c h ih =>
    rw [bytes_cons, bytes_cons, List.length_append, List.length_append] at hlength
    rw [ih (by omega)]

/-- No character's form starts that of another. -/
theorem utf8EncodeChar_inj {c d : Char} {cs ds : List UInt8}
    (h : String.utf8EncodeChar c ++ cs = String.utf8EncodeChar d ++ ds) : c = d := by
  have hc := ByteArray.utf8DecodeChar?_utf8EncodeChar_append (b := cs.toByteArray) (c := c)
  have hd := ByteArray.utf8DecodeChar?_utf8EncodeChar_append (b := ds.toByteArray) (c := d)
  rw [← List.toByteArray_append] at hc hd
  rw [h, hd] at hc
  exact (Option.some.inj hc).symm

/-- What starts with the form of a text is the form of a text that starts with it. -/
theorem bytes_eq_append (h : bytes s = bytes t ++ bs) : ∃ u, s = t ++ u ∧ bytes u = bs := by
  induction t generalizing s with
  | nil => exact ⟨s, rfl, h⟩
  | cons c t ih =>
    cases s with
    | nil =>
      have hpos := length_bytes_pos c
      have hlength := congrArg List.length h
      rw [bytes_cons, List.length_append, List.length_append, bytes_nil, List.length_nil] at hlength
      omega
    | cons d s =>
      rw [bytes_cons, bytes_cons, List.append_assoc] at h
      obtain rfl := utf8EncodeChar_inj h
      obtain ⟨u, rfl, hu⟩ := ih (List.append_cancel_left h)
      exact ⟨u, rfl, hu⟩

/-- The byte of a slash stands for a slash. -/
theorem eq_slash_of_mem {c : Char} (h : (0x2f : UInt8) ∈ String.utf8EncodeChar c) : c = '/' := by
  obtain ⟨i, hi, hbyte⟩ := List.getElem_of_mem h
  -- a byte below 0x80 is no continuation byte
  have hindex : (String.utf8EncodeChar c)[i].IsUTF8FirstByte ↔ i = 0 :=
    UInt8.isUTF8FirstByte_getElem_utf8EncodeChar
  have hfirst : i = 0 := by
    rw [← hindex, hbyte]
    decide
  subst hfirst
  have hform : String.utf8EncodeChar c ++ [] =
      String.utf8EncodeChar '/' ++ (String.utf8EncodeChar c).tail := by
    rw [List.append_nil]
    cases heq : String.utf8EncodeChar c with
    | nil => exact absurd heq String.utf8EncodeChar_ne_nil
    | cons b bs =>
      simp only [heq, List.getElem_cons_zero] at hbyte
      rw [hbyte]
      rfl
  exact utf8EncodeChar_inj hform

theorem count_slash (s : List Char) : (bytes s).count 0x2f = s.count '/' := by
  induction s with
  | nil => rfl
  | cons c s ih =>
    rw [bytes_cons, List.count_append, ih, List.count_cons]
    by_cases hc : c = '/'
    · subst hc
      have hone : (String.utf8EncodeChar '/').count 0x2f = 1 := by decide
      rw [hone, if_pos (beq_self_eq_true '/')]
      omega
    · have hzero : (String.utf8EncodeChar c).count 0x2f = 0 :=
        List.count_eq_zero.mpr fun h => hc (eq_slash_of_mem h)
      rw [hzero, if_neg (by simpa using hc)]
      omega

end Bytes

/-! ## Decoding -/

section Decoding

variable {set : Char → Bool} {s t : List Char} {bs : List UInt8}

theorem hexValue_hexDigit {n : Nat} (h : n < 16) : hexValue (hexDigit n) = some n := by
  have hall : ∀ n < 16, hexValue (hexDigit n) = some n := by decide
  exact hall n h

theorem decodedBytes_encodeByte (b : UInt8) (s : List Char) :
    decodedBytes (encodeByte b ++ s) = (decodedBytes s).map (b :: ·) := by
  have hlt : b.toNat < 256 := UInt8.toNat_lt b
  have hhigh := hexValue_hexDigit (show b.toNat / 16 < 16 by omega)
  have hlow := hexValue_hexDigit (show b.toNat % 16 < 16 by omega)
  have hbyte : UInt8.ofNat (16 * (b.toNat / 16) + b.toNat % 16) = b := by
    rw [Nat.div_add_mod, UInt8.ofNat_toNat]
  simp only [encodeByte, List.cons_append, List.nil_append, decodedBytes, if_true, hhigh, hlow,
    Option.bind_eq_bind, Option.bind_some, hbyte]
  cases decodedBytes s <;> rfl

theorem decodedBytes_encodeBytes (bs : List UInt8) (s : List Char) :
    decodedBytes (bs.flatMap encodeByte ++ s) = (decodedBytes s).map (bs ++ ·) := by
  induction bs with
  | nil => simp
  | cons b bs ih =>
    rw [List.flatMap_cons, List.append_assoc, decodedBytes_encodeByte, ih, Option.map_map]
    rfl

theorem decodedBytes_cons_of_ne {c : Char} (h : c ≠ '%') (s : List Char) :
    decodedBytes (c :: s) = (decodedBytes s).map (String.utf8EncodeChar c ++ ·) := by
  cases s with
  | nil => simp [decodedBytes, h]
  | cons a s => cases s <;> simp [decodedBytes, h]

theorem decodedBytes_percent (a b : Char) (s : List Char) :
    decodedBytes ('%' :: a :: b :: s) = (hexValue a).bind fun high => (hexValue b).bind fun low =>
      (decodedBytes s).map (UInt8.ofNat (16 * high + low) :: ·) := by
  simp only [decodedBytes, if_true, Option.bind_eq_bind]
  cases decodedBytes s <;> rfl

/-- A character that is no digit ends a text that can be decoded by itself. -/
theorem decodedBytes_append_cons {c : Char} (hc : c ≠ '%') (hhex : hexValue c = none) (s t : List Char) :
    decodedBytes (s ++ c :: t) = (decodedBytes s).bind fun bs =>
      (decodedBytes t).map fun bt => bs ++ (String.utf8EncodeChar c ++ bt) := by
  induction hn : s.length using Nat.strongRecOn generalizing s with
  | ind n ih =>
    cases s with
    | nil =>
      rw [List.nil_append, decodedBytes_cons_of_ne hc]
      rfl
    | cons a s =>
      by_cases ha : a = '%'
      · subst ha
        cases s with
        | nil =>
          cases t with
          | nil => rfl
          | cons b t =>
            rw [List.singleton_append, decodedBytes_percent, hhex]
            rfl
        | cons a s =>
          cases s with
          | nil =>
            rw [List.cons_append, List.singleton_append, decodedBytes_percent, hhex]
            cases hexValue a <;> rfl
          | cons b s =>
            have hlt : s.length < n := by
              rw [← hn]
              simp
              omega
            simp only [List.cons_append, decodedBytes_percent, ih s.length hlt s rfl]
            cases hexValue a with
            | none => rfl
            | some high =>
              cases hexValue b with
              | none => rfl
              | some low =>
                cases decodedBytes s with
                | none => rfl
                | some bs => cases decodedBytes t <;> rfl
      · have hlt : s.length < n := by
          rw [← hn]
          simp
        rw [List.cons_append, decodedBytes_cons_of_ne ha, decodedBytes_cons_of_ne ha, ih s.length hlt s rfl]
        cases decodedBytes s with
        | none => rfl
        | some bs => cases decodedBytes t <;> simp

variable (set) in
/-- A text without `%` is given back. -/
theorem decodedBytes_encode (h : '%' ∉ s) : decodedBytes (encode set s) = some (bytes s) := by
  induction s with
  | nil => rfl
  | cons c s ih =>
    rw [List.mem_cons, not_or] at h
    have hrest := ih h.2
    unfold encode at hrest ⊢
    rw [List.flatMap_cons]
    split
    · rw [decodedBytes_encodeBytes, hrest]
      rfl
    · rw [List.singleton_append, decodedBytes_cons_of_ne (Ne.symm h.1), hrest]
      rfl

theorem hexValue_percent : hexValue '%' = none := by decide

theorem encode_cons (c : Char) (s : List Char) :
    encode set (c :: s) = (if set c then (String.utf8EncodeChar c).flatMap encodeByte else [c]) ++ encode set s := rfl

/-- What comes before an encoded character cannot need it for a digit. -/
theorem encode_cons_head {c : Char} (hc : set c = true) (s : List Char) :
    ∃ a rest, encode set (c :: s) = '%' :: a :: rest := by
  rw [encode_cons, if_pos hc]
  cases hbytes : String.utf8EncodeChar c with
  | nil => exact absurd hbytes String.utf8EncodeChar_ne_nil
  | cons b bs => exact ⟨_, _, rfl⟩

/-- A `%` of the text is read with the next two characters. -/
theorem decodedBytes_encode_percent (hset : set '%' = false) (h : decodedBytes (encode set ('%' :: s)) = some bs) :
    ∃ a b rest byte bt, s = a :: b :: rest ∧ decodedBytes (encode set rest) = some bt ∧ bs = byte :: bt := by
  rw [encode_cons, hset, if_neg Bool.false_ne_true, List.singleton_append] at h
  cases s with
  | nil => cases h
  | cons a s =>
    by_cases ha : set a = true
    · obtain ⟨b, rest, heq⟩ := encode_cons_head ha s
      rw [heq, decodedBytes_percent, hexValue_percent] at h
      cases h
    · rw [encode_cons, if_neg ha, List.singleton_append] at h
      cases s with
      | nil => cases h
      | cons b s =>
        by_cases hb : set b = true
        · obtain ⟨d, rest, heq⟩ := encode_cons_head hb s
          rw [heq, decodedBytes_percent, hexValue_percent] at h
          obtain ⟨_, _, h⟩ := Option.bind_eq_some_iff.mp h
          cases h
        · rw [encode_cons, if_neg hb, List.singleton_append, decodedBytes_percent] at h
          obtain ⟨high, _, h⟩ := Option.bind_eq_some_iff.mp h
          obtain ⟨low, _, h⟩ := Option.bind_eq_some_iff.mp h
          obtain ⟨bt, hbt, rfl⟩ := Option.map_eq_some_iff.mp h
          exact ⟨a, b, s, _, bt, rfl, hbt, rfl⟩

/-- What a text is decoded to has fewer bytes, unless there is no `%` in it. -/
theorem length_decodedBytes (hset : set '%' = false) (h : decodedBytes (encode set s) = some bs) :
    bs.length ≤ (bytes s).length ∧ ((bytes s).length ≤ bs.length → '%' ∉ s) := by
  induction hn : s.length using Nat.strongRecOn generalizing s bs with
  | ind n ih =>
    cases s with
    | nil =>
      cases h
      exact ⟨Nat.le_refl 0, fun _ => List.not_mem_nil⟩
    | cons c s =>
      have hlt : s.length < n := by
        rw [← hn]
        simp
      by_cases hc : c = '%'
      · subst hc
        obtain ⟨a, b, rest, byte, bt, rfl, hbt, rfl⟩ := decodedBytes_encode_percent hset h
        have hlt' : rest.length < n := by
          simp only [List.length_cons] at hlt
          omega
        obtain ⟨hle, _⟩ := ih rest.length hlt' hbt rfl
        have ha := length_bytes_pos a
        have hb := length_bytes_pos b
        have hp := length_bytes_pos '%'
        simp only [bytes_cons, List.length_append, List.length_cons]
        exact ⟨by omega, fun hlength => by omega⟩
      · have hsplit : ∃ bt, decodedBytes (encode set s) = some bt ∧ bs = String.utf8EncodeChar c ++ bt := by
          rw [encode_cons] at h
          split at h
          · rw [decodedBytes_encodeBytes] at h
            obtain ⟨bt, hbt, rfl⟩ := Option.map_eq_some_iff.mp h
            exact ⟨bt, hbt, rfl⟩
          · rw [List.singleton_append, decodedBytes_cons_of_ne hc] at h
            obtain ⟨bt, hbt, rfl⟩ := Option.map_eq_some_iff.mp h
            exact ⟨bt, hbt, rfl⟩
        obtain ⟨bt, hbt, rfl⟩ := hsplit
        obtain ⟨hle, heq⟩ := ih s.length hlt hbt rfl
        rw [bytes_cons, List.length_append, List.length_append]
        refine ⟨by omega, fun hlength => ?_⟩
        rw [List.mem_cons, not_or]
        exact ⟨Ne.symm hc, heq (by omega)⟩

theorem encode_append (set : Char → Bool) (s t : List Char) : encode set (s ++ t) = encode set s ++ encode set t :=
  List.flatMap_append

/-- Where no character is encoded. -/
theorem encode_none (s : List Char) : encode (fun _ => false) s = s := by
  unfold encode
  simp

theorem decodeURIComponent_eq_some : decodeURIComponent s = some t ↔ decodedBytes s = some (bytes t) := by
  unfold decodeURIComponent
  rw [Option.bind_eq_some_iff]
  constructor
  · rintro ⟨bs, hbs, hof⟩
    rw [hbs, ofBytes_eq_some.mp hof]
  · intro h
    exact ⟨_, h, ofBytes_eq_some.mpr rfl⟩

/-- What is decoded has fewer bytes, unless nothing was. -/
theorem decodeURIComponent_encode (hset : set '%' = false) (h : decodeURIComponent (encode set s) = some t) :
    (bytes t).length ≤ (bytes s).length ∧ ((bytes s).length ≤ (bytes t).length → '%' ∉ s ∧ t = s) := by
  rw [decodeURIComponent_eq_some] at h
  obtain ⟨hle, heq⟩ := length_decodedBytes hset h
  refine ⟨hle, fun hlength => ?_⟩
  have hpercent := heq hlength
  rw [decodedBytes_encode set hpercent] at h
  exact ⟨hpercent, (bytes_injective (Option.some.inj h)).symm⟩

/-- A text is given back exactly when it has no `%`. -/
theorem decodeURIComponent_self : decodeURIComponent s = some s ↔ '%' ∉ s := by
  constructor
  · intro h
    rw [← encode_none s] at h
    obtain ⟨_, heq⟩ := decodeURIComponent_encode rfl (h.trans (congrArg some (encode_none s)))
    exact (heq (Nat.le_refl _)).1
  · intro h
    have hdecode := decodedBytes_encode (fun _ => false) h
    rw [encode_none] at hdecode
    exact decodeURIComponent_eq_some.mpr hdecode

end Decoding

end Relay.Lib.Percent
