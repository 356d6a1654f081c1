import Mathlib.Logic.Basic

/-!
# Identifiers shared by the services

Every row and every call gets its identifier from a UUID generator, so an identifier the services
made is an opaque number here. A user id also reaches the services as text (from the token, from a
list of members in a request), and both services compare that text.
-/

namespace Relay

abbrev Text := List Char

instance : LawfulBEq Text := List.instLawfulBEq

abbrev ConversationId := Nat
abbrev CallId := Nat
abbrev MessageId := Nat

/-- Microseconds since the epoch, the resolution of `timestamptz`. -/
abbrev Time := Nat

/-- A time as a JavaScript `Date` has it: whole milliseconds. -/
def jsDate (t : Time) : Time := t / 1000 * 1000

theorem jsDate_mono {a b : Time} (h : a ≤ b) : jsDate a ≤ jsDate b :=
  Nat.mul_le_mul_right _ (Nat.div_le_div_right h)

/-- A number of milliseconds. -/
def ms (n : Nat) : Time := n * 1000

/-- The characters of a UUID in text form. -/
def uuidChar (c : Char) : Bool := c ∈ "0123456789abcdefABCDEF-".toList

/-- A user id as a request spells it. -/
structure UserId where
  text : Text
  uuid : text.all uuidChar = true
deriving DecidableEq

namespace UserId

theorem toLower_uuidChar {c : Char} (h : uuidChar c = true) : uuidChar c.toLower = true := by
  have hall : ("0123456789abcdefABCDEF-".toList.all fun c => uuidChar c.toLower) = true := by
    decide
  exact List.all_eq_true.mp hall c (by simpa [uuidChar] using h)

theorem eq_of_text {u v : UserId} (h : u.text = v.text) : u = v := by
  cases u
  cases v
  cases h
  rfl

/-- The database keeps a UUID by value: spellings that differ in case only are one user to it. -/
def canon (u : UserId) : UserId where
  text := u.text.map Char.toLower
  uuid := by
    rw [List.all_map, List.all_eq_true]
    intro c hc
    exact toLower_uuidChar (List.all_eq_true.mp u.uuid c hc)

theorem toLower_toLower {c : Char} (h : uuidChar c = true) : c.toLower.toLower = c.toLower := by
  have hall : ("0123456789abcdefABCDEF-".toList.all fun c =>
      c.toLower.toLower == c.toLower) = true := by
    decide
  exact beq_iff_eq.mp (List.all_eq_true.mp hall c (by simpa [uuidChar] using h))

@[simp] theorem canon_canon (u : UserId) : u.canon.canon = u.canon := by
  apply eq_of_text
  simp only [canon, List.map_map]
  exact List.map_congr_left fun c hc => toLower_toLower (List.all_eq_true.mp u.uuid c hc)

end UserId

end Relay
