import Mathlib.Data.List.Basic

/-!
# The in-flight limiter

A counter of slots and the callers that wait for one, in the order they came. `α` is what a waiting
caller leaves behind: the `resolve` of its promise.
-/

namespace Relay

structure InflightLimiter (α : Type) where
  max : Nat
  active : Nat
  waiters : List α
deriving DecidableEq

namespace InflightLimiter

variable {α : Type}

def new (max : Nat) : InflightLimiter α := ⟨max, 0, []⟩

/-- Whether the promise is resolved at once; if not, `resolve` waits. -/
def acquire (resolve : α) (l : InflightLimiter α) : Bool × InflightLimiter α :=
  if l.active < l.max then (true, { l with active := l.active + 1 })
  else (false, { l with waiters := l.waiters ++ [resolve] })

/-- The waiter whose promise is resolved. It takes the slot over, so the counter stays. -/
def release (l : InflightLimiter α) : Option α × InflightLimiter α :=
  match l.waiters with
  | next :: rest => (some next, { l with waiters := rest })
  | [] => (none, { l with active := l.active - 1 })

def size (l : InflightLimiter α) : Nat := l.active

def queued (l : InflightLimiter α) : Nat := l.waiters.length

/-- There is a slot, and nobody waits for one; or all slots are taken. -/
theorem acquire_cases (resolve : α) (l : InflightLimiter α) :
    l.active < l.max ∧ l.acquire resolve = (true, { l with active := l.active + 1 }) ∨
    l.max ≤ l.active ∧
      l.acquire resolve = (false, { l with waiters := l.waiters ++ [resolve] }) := by
  unfold acquire
  by_cases h : l.active < l.max
  · exact .inl ⟨h, if_pos h⟩
  · exact .inr ⟨Nat.le_of_not_lt h, if_neg h⟩

theorem release_cases (l : InflightLimiter α) :
    (∃ next rest, l.waiters = next :: rest ∧
      l.release = (some next, { l with waiters := rest })) ∨
    l.waiters = [] ∧ l.release = (none, { l with active := l.active - 1 }) := by
  unfold release
  cases h : l.waiters with
  | nil => exact .inr ⟨rfl, rfl⟩
  | cons next rest => exact .inl ⟨next, rest, rfl, rfl⟩

end InflightLimiter

end Relay
