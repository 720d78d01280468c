import Mathlib.Data.List.Basic

/-!
# Bit sets

Sets of small numbers as 64-bit words: a number's bit stands in the word of its
quotient by 64, at the place of its remainder.
-/

namespace Bitset

/-- As many words as `len` bits need, all clear. -/
def zeros (len : Nat) : List (BitVec 64) := List.replicate ((len + 63) / 64) 0

def marked (words : List (BitVec 64)) (i : Nat) : Bool :=
  words[i / 64]?.getD 0 &&& (1#64 <<< (i % 64)) ≠ 0

def mark (words : List (BitVec 64)) (i : Nat) : List (BitVec 64) :=
  words.set (i / 64) (words[i / 64]?.getD 0 ||| (1#64 <<< (i % 64)))

/-- The words hold exactly the bits of the list, among those below `len`. -/
structure Holds (len : Nat) (words : List (BitVec 64)) (indices : List Nat) : Prop where
  length : words.length = (len + 63) / 64
  marked : ∀ i < len, marked words i = true ↔ i ∈ indices

theorem and_twoPow_ne_zero {word : BitVec 64} {i : Nat} (hi : i < 64) :
    word &&& BitVec.twoPow 64 i ≠ 0 ↔ word.getLsbD i = true := by
  have hne : BitVec.twoPow 64 i ≠ 0 := fun he => by
    have := congrArg (·.getLsbD i) he
    simp [hi] at this
  rw [BitVec.and_twoPow]
  by_cases h : word.getLsbD i = true
  · rw [if_pos h]
    exact ⟨fun _ => h, fun _ => hne⟩
  · rw [if_neg h]
    exact ⟨fun hn => absurd rfl hn, fun hb => absurd hb h⟩

theorem marked_iff_getLsbD {words : List (BitVec 64)} {i : Nat} :
    marked words i = true ↔ (words[i / 64]?.getD 0).getLsbD (i % 64) = true := by
  unfold marked
  rw [decide_eq_true_iff, ← BitVec.twoPow_eq]
  exact and_twoPow_ne_zero (Nat.mod_lt _ (by decide))

theorem marked_mark {words : List (BitVec 64)} {i j : Nat} (hi : i / 64 < words.length) :
    marked (mark words i) j = true ↔ j = i ∨ marked words j = true := by
  rw [marked_iff_getLsbD, marked_iff_getLsbD, mark]
  by_cases hw : i / 64 = j / 64
  · rw [← hw, List.getElem?_set_self hi, Option.getD_some, BitVec.getLsbD_or, ← BitVec.twoPow_eq]
    have hlt : i % 64 < 64 := Nat.mod_lt _ (by decide)
    have hsame : i % 64 = j % 64 ↔ j = i := by omega
    rw [Bool.or_eq_true, BitVec.getLsbD_twoPow, Bool.and_eq_true, decide_eq_true_eq, decide_eq_true_eq, hsame, or_comm]
    exact or_congr_left (and_iff_right hlt)
  · rw [List.getElem?_set_ne hw]
    have hne : j ≠ i := fun he => hw (by rw [he])
    simp [hne]

theorem holds_zeros (len : Nat) : Holds len (zeros len) [] where
  length := List.length_replicate
  marked i hi := by
    rw [marked_iff_getLsbD, zeros, List.getElem?_replicate]
    split <;> simp

theorem Holds.mark {len : Nat} {words : List (BitVec 64)} {indices : List Nat} (h : Holds len words indices) {i : Nat}
    (hi : i < len) : Holds len (mark words i) (i :: indices) where
  length := by rw [Bitset.mark, List.length_set, h.length]
  marked j hj := by
    rw [marked_mark (by rw [h.length]; omega), List.mem_cons, h.marked j hj]

/-- Words for at least one bit are not empty. -/
theorem Holds.ne_nil {len : Nat} {words : List (BitVec 64)} {indices : List Nat} (h : Holds len words indices)
    (hlen : 0 < len) : words ≠ [] := by
  intro hn
  have := h.length
  rw [hn, List.length_nil] at this
  omega

end Bitset
