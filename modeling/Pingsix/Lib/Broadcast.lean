import Mathlib.Algebra.Ring.Nat
import Mathlib.Data.Nat.Basic

/-!
# Broadcast channels

A bounded channel with one receiver. A send never waits: with no receiver the
value is dropped, and with a full queue the oldest value is, which the receiver
is told before it gets the next one.
-/

universe u

/-- The values a receiver has still to take, and how many it has missed. -/
structure Receiver (α : Type u) where
  pending : List α := []
  skipped : Nat := 0

structure Broadcast (α : Type u) where
  capacity : Nat
  receiver : Option (Receiver α) := none

inductive Received (α : Type u) where
  | value (a : α)
  | lagged (skipped : Nat)

variable {α : Type u}

namespace Receiver

/-- One more value; what no longer fits is missed. -/
def push (capacity : Nat) (r : Receiver α) (a : α) : Receiver α :=
  if capacity < r.pending.length + 1 then { pending := (r.pending ++ [a]).tail, skipped := r.skipped + 1 }
  else { r with pending := r.pending ++ [a] }

/-- Missed values are reported before the next one is taken. -/
def take (r : Receiver α) : Option (Received α × Receiver α) :=
  if r.skipped ≠ 0 then some (.lagged r.skipped, { r with skipped := 0 })
  else
    match r.pending with
    | [] => none
    | a :: rest => some (.value a, { r with pending := rest })

/-- Nothing is left to take. -/
def Drained (r : Receiver α) : Prop := r.pending = [] ∧ r.skipped = 0

/-- The value is still to come, or may have been missed. -/
def Expects (r : Receiver α) (a : α) : Prop := a ∈ r.pending ∨ r.skipped ≠ 0

theorem mem_push {capacity : Nat} {r : Receiver α} {a b : α} (h : b ∈ (r.push capacity a).pending) :
    b ∈ r.pending ∨ b = a := by
  unfold push at h
  split at h
  · have := List.mem_of_mem_tail h
    simpa using this
  · simpa using h

theorem expects_push {capacity : Nat} {r : Receiver α} {a b : α} (h : r.Expects b ∨ b = a) :
    (r.push capacity a).Expects b := by
  unfold push Expects
  by_cases hc : capacity < r.pending.length + 1
  · rw [if_pos hc]
    exact .inr (Nat.succ_ne_zero _)
  · rw [if_neg hc]
    cases h with
    | inl h =>
      cases h with
      | inl hm => exact .inl (List.mem_append_left _ hm)
      | inr hs => exact .inr hs
    | inr h => exact .inl (by simp [h])

theorem not_expects_of_drained {r : Receiver α} (h : r.Drained) (a : α) : ¬ r.Expects a := by
  unfold Expects
  rw [h.1, h.2]
  simp

/-- Taking ends with a report of missed values, or with the oldest value. -/
theorem take_cases {r r' : Receiver α} {x : Received α} (h : r.take = some (x, r')) :
    (x = .lagged r.skipped ∧ r.skipped ≠ 0 ∧ r' = { r with skipped := 0 }) ∨
      ∃ a rest, x = .value a ∧ r.skipped = 0 ∧ r.pending = a :: rest ∧ r' = { r with pending := rest } := by
  unfold take at h
  by_cases hs : r.skipped ≠ 0
  · rw [if_pos hs] at h
    cases h
    exact .inl ⟨rfl, hs, rfl⟩
  · rw [if_neg hs] at h
    cases hp : r.pending with
    | nil => simp [hp] at h
    | cons a rest =>
      rw [hp] at h
      cases h
      exact .inr ⟨a, rest, rfl, by simpa using hs, rfl, rfl⟩

end Receiver

namespace Broadcast

/-- The least power of two that is not smaller. -/
def roundUp (capacity : Nat) : Nat := if capacity ≤ 1 then 1 else 2 ^ ((capacity - 1).log2 + 1)

/-- The capacity is rounded up to a power of two. -/
def channel (capacity : Nat) : Broadcast α := { capacity := roundUp capacity }

def subscribe (c : Broadcast α) : Broadcast α := { c with receiver := some {} }

def close (c : Broadcast α) : Broadcast α := { c with receiver := none }

def send (c : Broadcast α) (a : α) : Broadcast α := { c with receiver := c.receiver.map (·.push c.capacity a) }

def recv (c : Broadcast α) : Option (Received α × Broadcast α) :=
  (c.receiver.bind (·.take)).map fun x => (x.1, { c with receiver := some x.2 })

@[simp] theorem send_receiver (c : Broadcast α) (a : α) :
    (c.send a).receiver = c.receiver.map (·.push c.capacity a) := rfl

theorem recv_eq_some {c c' : Broadcast α} {x : Received α} :
    c.recv = some (x, c') ↔
      ∃ r r', c.receiver = some r ∧ r.take = some (x, r') ∧ c' = { c with receiver := some r' } := by
  unfold recv
  cases c.receiver with
  | none => simp
  | some r =>
    simp only [Option.bind_some, Option.map_eq_some_iff, Prod.exists, Prod.mk.injEq, Option.some.injEq]
    constructor
    · rintro ⟨y, r', ht, rfl, rfl⟩
      exact ⟨r, r', rfl, ht, rfl⟩
    · rintro ⟨_, r', rfl, ht, rfl⟩
      exact ⟨x, r', ht, rfl, rfl⟩

end Broadcast
