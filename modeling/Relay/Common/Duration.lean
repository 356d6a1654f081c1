import Relay.Common.Ids

/-!
# Durations in the configuration

Texts such as `15m` and `7d`. The source reads the digits into a double; here they are a number.
-/

namespace Relay

/-- The units `s`, `m`, `h` and `d` in milliseconds. -/
def unitMs : Char → Option Nat
  | 's' => some 1000
  | 'm' => some 60000
  | 'h' => some 3600000
  | 'd' => some 86400000
  | _ => none

/-- The value of decimal digits. -/
def digitsValue (ds : Text) : Nat := ds.foldl (fun n d => 10 * n + (d.toNat - '0'.toNat)) 0

/-- The match of `^(\d+)([smhd])$`: the amount and the unit in milliseconds. -/
def parseAmount (expiresIn : Text) : Option (Nat × Nat) := do
  let unit ← expiresIn.getLast?
  let digits := expiresIn.dropLast
  if digits = [] ∨ !digits.all Char.isDigit then none
  return (digitsValue digits, ← unitMs unit)

def parseDurationMs (expiresIn : Text) : Nat :=
  match parseAmount expiresIn with
  | none => 7 * 86400000
  | some (amount, unit) => amount * unit

/-- The units in seconds. -/
def unitSeconds : Char → Option Nat
  | 's' => some 1
  | 'm' => some 60
  | 'h' => some 3600
  | 'd' => some 86400
  | _ => none

/-- `parsed.amount * (SECONDS[parsed.unit] ?? 60)`; the unit is the last character. -/
def parseDurationSeconds (expiresIn : Text) : Nat :=
  match parseAmount expiresIn with
  | none => 24 * 60 * 60
  | some (amount, _) => amount * ((expiresIn.getLast?.bind unitSeconds).getD 60)

theorem unitMs_eq (c : Char) : unitMs c = (unitSeconds c).map (· * 1000) := by
  unfold unitMs unitSeconds
  split <;> rfl

/-- A text that is parsed is the same time in both units. -/
theorem parseAmount_seconds {expiresIn : Text} {amount unit : Nat} (h : parseAmount expiresIn = some (amount, unit)) :
    amount * unit = parseDurationSeconds expiresIn * 1000 := by
  unfold parseDurationSeconds
  rw [h]
  unfold parseAmount at h
  cases hlast : expiresIn.getLast? with
  | none => simp [hlast] at h
  | some c =>
    cases hunit : unitSeconds c with
    | none => simp [hlast, unitMs_eq, hunit] at h
    | some n =>
      simp only [hlast, unitMs_eq, hunit, Option.bind_eq_bind, Option.bind_some, Option.map_some] at h
      split at h
      · simp at h
      · simp only [Option.pure_def, Option.some.injEq, Prod.mk.injEq] at h
        simp only [Option.bind_some, hunit, Option.getD_some, ← h.2]
        exact (Nat.mul_assoc _ _ _).symm

example : parseDurationMs "15m".toList = 900000 ∧ parseDurationMs "1 day".toList = 604800000 := by
  decide

end Relay
