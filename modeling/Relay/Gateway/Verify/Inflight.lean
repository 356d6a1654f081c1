import Mathlib.Data.List.Perm.Basic
import Mathlib.Data.List.Nodup
import Mathlib.Data.List.Range
import Relay.Gateway.MicroserviceProxy

/-!
# Slots of the in-flight limiter

A slot goes from the send that gives it back to the first one that waits, and the counter does not move.
`Slots` ties the counter, the queue and the sends that hold a slot to each other. The sends are granted
in the order of their calls: at any time those that were granted, followed by those that wait, are all
sends in this order.
-/

namespace Relay.Gateway.MicroserviceProxy

open Relay.Lib

structure Slots (max : Nat) (s : State) : Prop where
  capacity : s.limiter.max = max
  /-- Granted, then waiting: every send once, in the order of the calls. -/
  lined : s.granted ++ s.limiter.waiters = List.range s.calls
  released : s.released.Nodup
  answers : ∀ i ∈ s.released, i ∈ s.granted
  counted : s.limiter.active + s.released.length = s.granted.length
  within : s.limiter.active ≤ max
  full : s.limiter.waiters ≠ [] → s.limiter.active = max

theorem mem_held {s : State} {i : Nat} : i ∈ s.held ↔ i ∈ s.granted ∧ i ∉ s.released := by
  simp [State.held]

namespace Slots

variable {max : Nat} {s : State}

theorem start (max : Nat) : Slots max (State.start max) where
  capacity := rfl
  lined := rfl
  released := List.nodup_nil
  answers := fun _ hi => absurd hi List.not_mem_nil
  counted := rfl
  within := Nat.zero_le max
  full := fun h => absurd rfl h

theorem granted_nodup (h : Slots max s) : s.granted.Nodup := by
  have hall : (s.granted ++ s.limiter.waiters).Nodup := h.lined ▸ List.nodup_range
  exact (List.nodup_append.mp hall).1

/-- The counter counts the sends that hold a slot. -/
theorem held_length (h : Slots max s) : s.held.length = s.limiter.size := by
  have hperm : (s.held ++ s.released).Perm s.granted := by
    refine (List.perm_ext_iff_of_nodup ?_ h.granted_nodup).mpr fun i => ?_
    · refine List.nodup_append.mpr ⟨h.granted_nodup.filter _, h.released, ?_⟩
      rintro i hi j hj rfl
      exact (mem_held.mp hi).2 hj
    · rw [List.mem_append, mem_held]
      by_cases hi : i ∈ s.released
      · simp [hi, h.answers i hi]
      · simp [hi]
  have hlength := hperm.length_eq
  rw [List.length_append, ← h.counted] at hlength
  unfold InflightLimiter.size
  omega

theorem acquire (h : Slots max s) : Slots max s.acquire := by
  have hrange : List.range (s.calls + 1) = s.granted ++ s.limiter.waiters ++ [s.calls] := by
    rw [List.range_succ, h.lined]
  obtain ⟨hlt, heq⟩ | ⟨hle, heq⟩ := s.limiter.acquire_cases s.calls
  · -- nobody waits while there is a slot
    have hnone : s.limiter.waiters = [] := by
      by_contra hne
      have := h.full hne
      have := h.capacity
      omega
    refine ⟨?_, ?_, h.released, ?_, ?_, ?_, ?_⟩ <;>
      simp only [State.acquire, heq, if_true]
    · exact h.capacity
    · rw [hrange, hnone]
      simp
    · intro i hi
      exact List.mem_append_left _ (h.answers i hi)
    · have := h.counted
      simp only [List.length_append, List.length_singleton]
      omega
    · have := h.capacity
      omega
    · exact fun hne => absurd hnone hne
  · have hfull : s.limiter.active = max := by
      have := h.capacity
      have := h.within
      omega
    refine ⟨?_, ?_, h.released, ?_, ?_, ?_, ?_⟩ <;>
      simp only [State.acquire, heq, Bool.false_eq_true, if_false]
    · exact h.capacity
    · rw [hrange, List.append_assoc]
    · exact h.answers
    · exact h.counted
    · exact h.within
    · exact fun _ => hfull

theorem release (h : Slots max s) {i : Nat} (hi : i ∈ s.held) : Slots max (s.release i) := by
  obtain ⟨hgranted, hopen⟩ := mem_held.mp hi
  have hpos : 0 < s.limiter.active := by
    have hlength := h.held_length
    have := List.length_pos_of_mem hi
    unfold InflightLimiter.size at hlength
    omega
  have hnodup : (s.released ++ [i]).Nodup := by
    rw [List.nodup_append]
    refine ⟨h.released, List.nodup_singleton i, ?_⟩
    rintro j hj k hk rfl
    exact hopen (List.mem_singleton.mp hk ▸ hj)
  have hanswers : ∀ j ∈ s.released ++ [i], j ∈ s.granted := by
    intro j hj
    rcases List.mem_append.mp hj with hj | hj
    · exact h.answers j hj
    · exact List.mem_singleton.mp hj ▸ hgranted
  have hcounted := h.counted
  obtain ⟨next, rest, hw, heq⟩ | ⟨hw, heq⟩ := s.limiter.release_cases
  · -- the slot changes hands
    have hfull := h.full (by rw [hw]; exact List.cons_ne_nil next rest)
    refine ⟨?_, ?_, hnodup, ?_, ?_, ?_, ?_⟩ <;>
      simp only [State.release, heq, Option.toList_some]
    · exact h.capacity
    · rw [List.append_assoc, List.singleton_append, ← hw, h.lined]
    · exact fun j hj => List.mem_append_left _ (hanswers j hj)
    · simp only [List.length_append, List.length_singleton]
      omega
    · exact h.within
    · exact fun _ => hfull
  · refine ⟨?_, ?_, hnodup, ?_, ?_, ?_, ?_⟩ <;>
      simp only [State.release, heq, Option.toList_none, List.append_nil]
    · exact h.capacity
    · exact h.lined
    · exact hanswers
    · simp only [List.length_append, List.length_singleton]
      omega
    · have := h.within
      omega
    · exact fun hne => absurd hw hne

theorem step (h : Slots max s) (e : Event) : Slots max (step e s) := by
  cases e with
  | send => exact h.acquire
  | settle i o =>
    simp only [MicroserviceProxy.step]
    split
    · next hi => exact h.release hi
    · exact h

/-- Throughout every run. -/
theorem run (max : Nat) (es : List Event) :
    Slots max (Runs.final MicroserviceProxy.step es (State.start max)) :=
  (Runs.Always.of_step (fun _ e h => h.step e) (start max)).final

/-- Where every slot has been given back, every send has had one. -/
theorem idle (h : Slots max s) (hmax : 1 ≤ max) (hall : ∀ i ∈ s.granted, i ∈ s.released) :
    s.limiter.active = 0 ∧ s.limiter.waiters = [] := by
  have hheld : s.held = [] := by
    refine List.filter_eq_nil_iff.mpr fun i hi => ?_
    simp [hall i hi]
  have hactive : s.limiter.active = 0 := by
    have hlength := h.held_length
    rw [hheld] at hlength
    exact hlength.symm
  refine ⟨hactive, ?_⟩
  by_contra hne
  have := h.full hne
  omega

end Slots

/-- In every state of every run the counter is the number of sends that hold a slot and at most the
capacity, sends wait only while all slots are taken, they are granted in the order of their calls and
once each, and when all slots have been given back none is taken and nobody waits. -/
theorem slots_held {max : Nat} (hmax : 1 ≤ max) (es : List Event) :
    let s := Runs.final step es (State.start max)
    s.held.length = s.limiter.size ∧ s.limiter.size ≤ max ∧
      (0 < s.limiter.queued → s.limiter.size = max) ∧
      s.granted ++ s.limiter.waiters = List.range s.calls ∧
      ((∀ i ∈ s.granted, i ∈ s.released) →
        s.limiter.size = 0 ∧ s.limiter.queued = 0 ∧ s.granted = List.range s.calls) := by
  intro s
  have h : Slots max s := Slots.run max es
  refine ⟨h.held_length, h.within, ?_, h.lined, ?_⟩
  · intro hq
    exact h.full (List.ne_nil_of_length_pos hq)
  · intro hall
    obtain ⟨hactive, hw⟩ := h.idle hmax hall
    refine ⟨hactive, ?_, ?_⟩
    · unfold InflightLimiter.queued
      rw [hw, List.length_nil]
    · rw [← h.lined, hw, List.append_nil]

/-- Two sends with one slot: the second is given the slot of the first. -/
theorem slots_held_two :
    let s := Runs.final step [.send, .send, .settle 0 .timedOut] (State.start 1)
    s.granted = [0, 1] ∧ s.held.length = s.limiter.size ∧ s.limiter.size ≤ 1 := by
  have h := slots_held (Nat.le_refl 1) [.send, .send, .settle 0 .timedOut]
  exact ⟨by decide, h.1, h.2.1⟩

end Relay.Gateway.MicroserviceProxy
