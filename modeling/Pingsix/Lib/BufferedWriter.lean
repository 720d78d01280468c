import Mathlib.Algebra.Order.Group.Multiset
import Mathlib.Algebra.Ring.Nat

/-!
# Buffered writers

A writer with a bounded buffer over a destination that may fail. A write that
does not fit flushes first, and one as large as the buffer goes past it. What is
still in the buffer when the writer is dropped is gone.
-/

universe u

/-- The bytes of an item that have not been written out yet, its last one among them. -/
structure Unflushed (α : Type u) where
  item : α
  bytes : Nat
  pos : 0 < bytes

abbrev WriteBuffer (α : Type u) := List (Unflushed α)

/-- What becomes of a write: it ends in the buffer, or at the destination but for so many bytes that are buffered, or
it fails there, or the flush before it fails when so many items were out. -/
inductive WriteOutcome where
  | buffered
  | direct (tail : Nat)
  | flushFailed (flushed : Nat)
  | writeFailed
  deriving DecidableEq, Repr

/-- The items that were out when the flush of a write failed. -/
def WriteOutcome.flushed : WriteOutcome → Option Nat
  | flushFailed flushed => some flushed
  | _ => none

variable {α : Type u}

namespace WriteBuffer

def items (b : WriteBuffer α) : List α := b.map (·.item)

def size (b : WriteBuffer α) : Nat := (b.map (·.bytes)).sum

@[simp] theorem items_nil : items ([] : WriteBuffer α) = [] := rfl

@[simp] theorem items_append (b b' : WriteBuffer α) : items (b ++ b') = items b ++ items b' := List.map_append

theorem items_eq_nil {b : WriteBuffer α} : items b = [] ↔ b = [] := List.map_eq_nil_iff

theorem items_take_drop (b : WriteBuffer α) (n : Nat) : items (b.take n) ++ items (b.drop n) = items b := by
  rw [← items_append, List.take_append_drop]

theorem eq_nil_of_size {b : WriteBuffer α} (h : b.size = 0) : b = [] := by
  cases b with
  | nil => rfl
  | cons p b =>
    have hpos := p.pos
    simp only [size, List.map_cons, List.sum_cons] at h
    omega

/-- The bytes of an item that are buffered, if any. -/
def remainder (item : α) (bytes : Nat) : WriteBuffer α := if pos : 0 < bytes then [⟨item, bytes, pos⟩] else []

end WriteBuffer

/-- What an operation came to: the items whose last byte it brought out, and the buffer it left. -/
structure Written (α : Type u) where
  out : List α
  buffer : WriteBuffer α
  failed : Bool

def Written.items (w : Written α) : Multiset α := w.out + w.buffer.items

namespace WriteBuffer

/-- A flush that fails has brought so many items out. -/
def flush (b : WriteBuffer α) : Option Nat → Written α
  | none => { out := b.items, buffer := [], failed := false }
  | some flushed => { out := items (b.take flushed), buffer := b.drop flushed, failed := true }

def writeAll (capacity : Nat) (b : WriteBuffer α) (piece : Unflushed α) (outcome : WriteOutcome) : Option (Written α) :=
  let overflows := capacity < b.size + piece.bytes
  let out := if overflows then b.items else []
  let buffer := if overflows then [] else b
  match outcome with
  | .buffered => if piece.bytes < capacity then some { out, buffer := buffer ++ [piece], failed := false } else none
  | .direct tail =>
    if tail < capacity ∧ capacity ≤ piece.bytes then
      some
        { out := out ++ if tail = 0 then [piece.item] else []
          buffer := buffer ++ remainder piece.item tail
          failed := false }
    else none
  | .flushFailed flushed => if overflows ∧ flushed < b.length then some (b.flush (some flushed)) else none
  | .writeFailed => if capacity ≤ piece.bytes then some { out, buffer, failed := true } else none

/-- A flush keeps every item, out or in the buffer. -/
theorem flush_items (b : WriteBuffer α) (o : Option Nat) : (b.flush o).items = b.items := by
  cases o with
  | none => exact add_zero _
  | some flushed => exact congrArg _ (items_take_drop b flushed)

theorem flush_failed (b : WriteBuffer α) (o : Option Nat) : (b.flush o).failed = o.isSome := by
  cases o <;> rfl

theorem flush_buffer_eq_nil {b : WriteBuffer α} {o : Option Nat} :
    (b.flush o).buffer = [] ↔ ∀ flushed, o = some flushed → b.length ≤ flushed := by
  cases o with
  | none => simp [flush]
  | some flushed => simp [flush]

/-- What stands before a write once it has room. -/
theorem room_items (b : WriteBuffer α) (overflows : Prop) [Decidable overflows] :
    ((if overflows then b.items else [] : List α) : Multiset α) + items (if overflows then [] else b) = b.items := by
  by_cases h : overflows
  · simp [h]
  · simp [h]

/-- An item that went to the destination is out or has a remainder. -/
theorem tail_items (item : α) (tail : Nat) :
    ((if tail = 0 then [item] else [] : List α) : Multiset α) + items (remainder item tail) = {item} := by
  by_cases h : tail = 0
  · simp [h, remainder]
  · simp [h, remainder, Nat.pos_of_ne_zero h, items]

/-- A write that does not fail keeps its item and every item before it; one that fails keeps those before it. -/
theorem writeAll_items {capacity : Nat} {b : WriteBuffer α} {piece : Unflushed α} {outcome : WriteOutcome}
    {w : Written α} (h : writeAll capacity b piece outcome = some w) :
    w.items = b.items + if w.failed then 0 else {piece.item} := by
  have hroom := room_items b (capacity < b.size + piece.bytes)
  unfold writeAll at h
  cases outcome with
  | buffered =>
    obtain ⟨-, h⟩ := Option.ite_none_right_eq_some.mp h
    cases h
    rw [← hroom, Written.items, items_append, ← Multiset.coe_add, ← add_assoc]
    rfl
  | direct tail =>
    obtain ⟨-, h⟩ := Option.ite_none_right_eq_some.mp h
    cases h
    rw [← hroom, Written.items, items_append, ← Multiset.coe_add, ← Multiset.coe_add, add_add_add_comm, tail_items]
    rfl
  | flushFailed flushed =>
    obtain ⟨-, h⟩ := Option.ite_none_right_eq_some.mp h
    cases h
    exact (flush_items b _).trans (add_zero _).symm
  | writeFailed =>
    obtain ⟨-, h⟩ := Option.ite_none_right_eq_some.mp h
    cases h
    exact hroom.trans (add_zero _).symm

theorem writeAll_flushed {capacity : Nat} {b : WriteBuffer α} {piece : Unflushed α} {outcome : WriteOutcome}
    {w : Written α} (h : writeAll capacity b piece outcome = some w) (hok : w.failed = false) :
    outcome.flushed = none := by
  cases outcome with
  | flushFailed flushed =>
    obtain ⟨-, h⟩ := Option.ite_none_right_eq_some.mp h
    cases h
    cases hok
  | _ => rfl

/-- A write that fails leaves nothing in the buffer unless its flush fails. -/
theorem writeAll_buffer_eq_nil {capacity : Nat} {b : WriteBuffer α} {piece : Unflushed α} {outcome : WriteOutcome}
    {w : Written α} (h : writeAll capacity b piece outcome = some w) (hfailed : w.failed = true) :
    w.buffer = [] ↔ ∀ flushed, outcome.flushed = some flushed → b.length ≤ flushed := by
  unfold writeAll at h
  cases outcome with
  | flushFailed flushed =>
    obtain ⟨-, h⟩ := Option.ite_none_right_eq_some.mp h
    cases h
    simp [flush, WriteOutcome.flushed]
  | writeFailed =>
    obtain ⟨hdirect, h⟩ := Option.ite_none_right_eq_some.mp h
    cases h
    refine iff_of_true ?_ nofun
    show (if capacity < b.size + piece.bytes then [] else b) = []
    by_cases hover : capacity < b.size + piece.bytes
    · exact if_pos hover
    · rw [if_neg hover]
      have hpos := piece.pos
      exact eq_nil_of_size (by omega)
  | buffered | direct tail =>
    obtain ⟨-, h⟩ := Option.ite_none_right_eq_some.mp h
    cases h
    cases hfailed

end WriteBuffer
