import Relay.Lib.Runs
import Relay.Common.InflightLimiter

/-!
# The calls the gateway sends

`MicroserviceProxy.send` takes a slot, makes the call and gives the slot back however the call ends. Each
`send` is numbered by its turn at `acquire`. A send can settle once it has a slot and only then, so an
event that settles another one is none.

The limiter keeps no record of who holds a slot; `granted` and `released` are that record.
-/

namespace Relay.Gateway.MicroserviceProxy

open Relay.Lib

/-- How the awaited call ends: with an answer, with the timeout of the pipe, or with an error. -/
inductive Outcome where
  | answered | timedOut | failed
deriving DecidableEq

structure State where
  limiter : InflightLimiter Nat
  /-- How many sends have called `acquire`. -/
  calls : Nat
  /-- The sends that were given a slot, in that order. -/
  granted : List Nat
  released : List Nat
deriving DecidableEq

def State.start (max : Nat) : State := ⟨.new max, 0, [], []⟩

inductive Event where
  | send
  | settle (i : Nat) (o : Outcome)
deriving DecidableEq

/-- The sends that hold a slot. -/
def State.held (s : State) : List Nat := s.granted.filter fun i => i ∉ s.released

/-- `await this.limiter.acquire()`. -/
def State.acquire (s : State) : State :=
  let r := s.limiter.acquire s.calls
  { s with
    limiter := r.2
    calls := s.calls + 1
    granted := if r.1 then s.granted ++ [s.calls] else s.granted }

/-- The `finally` of a send. -/
def State.release (i : Nat) (s : State) : State :=
  let r := s.limiter.release
  { s with
    limiter := r.2
    granted := s.granted ++ r.1.toList
    released := s.released ++ [i] }

def step : Event → State → State
  | .send, s => s.acquire
  | .settle i _, s => if i ∈ s.held then s.release i else s

end Relay.Gateway.MicroserviceProxy
