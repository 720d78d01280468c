import Mathlib.Algebra.Order.BigOperators.Group.List
import Mathlib.Algebra.Order.Ring.Nat
import Mathlib.Data.List.Induction

/-!
# Sums over the elements of a list

How a sum changes with one element, and counts as sums.
-/

namespace Sums

variable {α : Type}

theorem sum_map_set (f : α → Nat) {a : α} (b : α) {l : List α} {i : Nat} (h : l[i]? = some a) :
    ((l.set i b).map f).sum + f a = (l.map f).sum + f b := by
  induction l generalizing i with
  | nil => simp at h
  | cons x l ih =>
    cases i with
    | zero =>
      simp only [List.getElem?_cons_zero, Option.some.injEq] at h
      simp only [List.set_cons_zero, List.map_cons, List.sum_cons, h]
      omega
    | succ i =>
      simp only [List.getElem?_cons_succ] at h
      have := ih h
      simp only [List.set_cons_succ, List.map_cons, List.sum_cons]
      omega

theorem le_sum_map (f : α → Nat) {a : α} {l : List α} (h : a ∈ l) : f a ≤ (l.map f).sum :=
  List.single_le_sum (by simp) _ (List.mem_map_of_mem h)

theorem sum_map_le {f g : α → Nat} {l : List α} (h : ∀ a ∈ l, f a ≤ g a) : (l.map f).sum ≤ (l.map g).sum :=
  List.sum_le_sum h

theorem sum_map_eq_zero {f : α → Nat} {l : List α} (h : ∀ a ∈ l, f a = 0) : (l.map f).sum = 0 := by
  induction l with
  | nil => rfl
  | cons x l ih =>
    simp only [List.map_cons, List.sum_cons, h x List.mem_cons_self]
    have := ih fun a ha => h a (List.mem_cons_of_mem _ ha)
    omega

theorem countP_le_sum_map {p : α → Bool} {f : α → Nat} {l : List α} (h : ∀ a ∈ l, p a = true → 0 < f a) :
    l.countP p ≤ (l.map f).sum := by
  induction l with
  | nil => simp
  | cons x l ih =>
    have hl := ih fun a ha => h a (List.mem_cons_of_mem _ ha)
    rw [List.countP_cons, List.map_cons, List.sum_cons]
    by_cases hx : p x = true
    · have := h x List.mem_cons_self hx
      rw [if_pos hx]
      omega
    · rw [if_neg hx]
      omega

/-- The last element that is counted. -/
theorem exists_last {p : α → Bool} {l : List α} (h : 0 < l.countP p) :
    ∃ front a back, l = front ++ a :: back ∧ p a = true ∧ l.countP p = front.countP p + 1 := by
  induction l using List.reverseRecOn with
  | nil => simp at h
  | append_singleton l x ih =>
    rw [List.countP_append] at h ⊢
    by_cases hx : p x = true
    · exact ⟨l, x, [], rfl, hx, by simp [hx]⟩
    · have hz : [x].countP p = 0 := by simp [hx]
      rw [hz] at h ⊢
      obtain ⟨front, a, back, rfl, ha, hc⟩ := ih h
      exact ⟨front, a, back ++ [x], by simp, ha, hc⟩

end Sums
