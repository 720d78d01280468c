import Mathlib.Algebra.Order.Field.Basic
import Mathlib.Tactic.Linarith
import Mathlib.Tactic.Ring

/-!
# Levels that drain

Events that each raise a level by one, while between them it drains at most at
a constant rate. When the level stays within a capacity, a span of time holds
no more events than one, the capacity and what drains in the span.
-/

universe u

namespace LeakyBucket

variable {K : Type u} [Field K] [LinearOrder K] [IsStrictOrderedRing K]

/-- The level after an event at its time. -/
structure Mark (K : Type u) where
  time : K
  level : K

/-- The second event raises what the first has left of its level by one. -/
def Raises (rate : K) (a b : Mark K) : Prop := a.time ≤ b.time ∧ a.level - rate * (b.time - a.time) + 1 ≤ b.level

/-- After the events that follow one, the level has risen by their number less what drained. -/
theorem exists_level_ge {rate : K} : ∀ {l : List (Mark K)} {a : Mark K}, (a :: l).Pairwise (Raises rate) →
    ∃ z ∈ a :: l, a.level - rate * (z.time - a.time) + l.length ≤ z.level
  | [], a, _ => ⟨a, List.mem_singleton.mpr rfl, by simp⟩
  | b :: l, a, h => by
    obtain ⟨ha, hrest⟩ := List.pairwise_cons.mp h
    obtain ⟨z, hz, hlevel⟩ := exists_level_ge hrest
    refine ⟨z, List.mem_cons_of_mem _ hz, ?_⟩
    have hraise := (ha b List.mem_cons_self).2
    have hdrain : rate * (z.time - a.time) = rate * (b.time - a.time) + rate * (z.time - b.time) := by ring
    rw [List.length_cons, Nat.cast_add, Nat.cast_one]
    linarith

/-- A span holds at most one event more than the capacity and what drains in it. -/
theorem length_le {rate capacity start span : K} (hrate : 0 ≤ rate) (hcapacity : 0 ≤ capacity) (hspan : 0 ≤ span)
    {l : List (Mark K)} (hraises : l.Pairwise (Raises rate)) (hlevel : ∀ a ∈ l, 0 ≤ a.level ∧ a.level ≤ capacity)
    (hwithin : ∀ a ∈ l, start ≤ a.time ∧ a.time ≤ start + span) : (l.length : K) ≤ 1 + capacity + rate * span := by
  cases l with
  | nil =>
    have := mul_nonneg hrate hspan
    rw [List.length_nil, Nat.cast_zero]
    linarith
  | cons a l =>
    obtain ⟨z, hz, hrise⟩ := exists_level_ge hraises
    have ha := hlevel a List.mem_cons_self
    have hz' := hlevel z hz
    have htime : z.time - a.time ≤ span := by
      have := (hwithin a List.mem_cons_self).1
      have := (hwithin z hz).2
      linarith
    have hdrained := mul_le_mul_of_nonneg_left htime hrate
    rw [List.length_cons, Nat.cast_add, Nat.cast_one]
    linarith

end LeakyBucket
