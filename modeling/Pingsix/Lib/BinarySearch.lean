import Mathlib.Data.List.Basic

/-!
# Binary search

Whether an ordered list has an element that compares equal, found by halving.
-/

namespace BinarySearch

variable {α : Type}

/-- `cmp` says on which side of the wanted element each element lies: first the lesser, then the equal ones. -/
def Ordered (cmp : α → Ordering) (l : List α) : Prop :=
  l.Pairwise fun a b => (cmp b = .lt → cmp a = .lt) ∧ (cmp a = .gt → cmp b = .gt)

/-- Halve the list at most `fuel` times. -/
def searchWithin (cmp : α → Ordering) : Nat → List α → Bool
  | 0, _ => false
  | fuel + 1, l =>
    match l.drop (l.length / 2) with
    | [] => false
    | x :: right =>
      match cmp x with
      | .eq => true
      | .lt => searchWithin cmp fuel right
      | .gt => searchWithin cmp fuel (l.take (l.length / 2))

def search (cmp : α → Ordering) (l : List α) : Bool := searchWithin cmp l.length l

theorem exists_mem_append_cons {p : α → Prop} {l r : List α} {x : α} :
    (∃ a ∈ l ++ x :: r, p a) ↔ (∃ a ∈ l, p a) ∨ p x ∨ ∃ a ∈ r, p a := by
  simp only [List.mem_append, List.mem_cons, or_and_right, exists_or, exists_eq_left]

theorem searchWithin_iff {cmp : α → Ordering} : ∀ {fuel : Nat} {l : List α}, l.length ≤ fuel → Ordered cmp l →
    (searchWithin cmp fuel l = true ↔ ∃ a ∈ l, cmp a = .eq)
  | 0, l, hf, _ => by
    rw [List.length_eq_zero_iff.mp (Nat.le_zero.mp hf)]
    simp [searchWithin]
  | fuel + 1, l, hf, ho => by
    unfold searchWithin
    cases hd : l.drop (l.length / 2) with
    | nil =>
      have hl : l = [] := by
        have := List.drop_eq_nil_iff.mp hd
        exact List.length_eq_zero_iff.mp (by omega)
      simp [hl]
    | cons x right =>
      have hsplit : l = l.take (l.length / 2) ++ x :: right := by rw [← hd, List.take_append_drop]
      have hlen : right.length + 1 ≤ l.length := by
        have := congrArg List.length hsplit
        simp only [List.length_append, List.length_cons] at this
        omega
      have hhalf : (l.take (l.length / 2)).length ≤ fuel := by
        rw [List.length_take]
        omega
      have hrest : right.length ≤ fuel := by omega
      have hp : Ordered cmp (l.take (l.length / 2) ++ x :: right) := hsplit ▸ ho
      obtain ⟨hleft, hright, hcross⟩ := List.pairwise_append.mp hp
      have hx := List.pairwise_cons.mp hright
      conv_rhs => rw [hsplit]
      rw [exists_mem_append_cons]
      cases hc : cmp x with
      | eq => simp [hc]
      | lt =>
        have hno : ¬∃ a ∈ l.take (l.length / 2), cmp a = .eq := fun ⟨a, ha, he⟩ => by
          have := (hcross a ha x (by simp)).1 hc
          rw [he] at this
          cases this
        simp only [hc, searchWithin_iff hrest hx.2, hno, false_or, reduceCtorEq]
      | gt =>
        have hno : ¬∃ a ∈ right, cmp a = .eq := fun ⟨a, ha, he⟩ => by
          have := (hx.1 a ha).2 hc
          rw [he] at this
          cases this
        simp only [hc, searchWithin_iff hhalf hleft, hno, or_false, reduceCtorEq]

theorem search_iff {cmp : α → Ordering} {l : List α} (h : Ordered cmp l) :
    search cmp l = true ↔ ∃ a ∈ l, cmp a = .eq :=
  searchWithin_iff (Nat.le_refl _) h

end BinarySearch
