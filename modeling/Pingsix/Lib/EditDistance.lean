import Mathlib.Order.Lattice

/-!
# Edit distance

The least number of single edits that take one list to another, and the
recursion that computes it.
-/

namespace EditDistance

variable {α : Type}

/-! ## Edits -/

/-- One element removed, added or replaced. -/
inductive Edit : List α → List α → Prop
  | remove (p s : List α) (x : α) : Edit (p ++ x :: s) (p ++ s)
  | add (p s : List α) (x : α) : Edit (p ++ s) (p ++ x :: s)
  | replace (p s : List α) (x y : α) : Edit (p ++ x :: s) (p ++ y :: s)

/-- So many edits, one after the other. -/
inductive Edits : Nat → List α → List α → Prop
  | refl (as : List α) : Edits 0 as as
  | step {n : Nat} {as bs cs : List α} (e : Edit as bs) (es : Edits n bs cs) : Edits (n + 1) as cs

/-- No fewer edits do. -/
def IsDistance (as bs : List α) (n : Nat) : Prop := Edits n as bs ∧ ∀ m, Edits m as bs → n ≤ m

variable {as bs cs : List α} {n m : Nat}

theorem IsDistance.unique (h : IsDistance as bs n) (h' : IsDistance as bs m) : n = m :=
  Nat.le_antisymm (h.2 m h'.1) (h'.2 n h.1)

theorem Edit.cons (z : α) (h : Edit as bs) : Edit (z :: as) (z :: bs) := by
  cases h with
  | remove p s x => exact .remove (z :: p) s x
  | add p s x => exact .add (z :: p) s x
  | replace p s x y => exact .replace (z :: p) s x y

theorem Edits.cons (z : α) (h : Edits n as bs) : Edits n (z :: as) (z :: bs) := by
  induction h with
  | refl as => exact .refl _
  | step e es ih => exact .step (e.cons z) ih

theorem Edit.reverse (h : Edit as bs) : Edit as.reverse bs.reverse := by
  cases h with
  | remove p s x => simpa using Edit.remove s.reverse p.reverse x
  | add p s x => simpa using Edit.add s.reverse p.reverse x
  | replace p s x y => simpa using Edit.replace s.reverse p.reverse x y

theorem Edits.reverse (h : Edits n as bs) : Edits n as.reverse bs.reverse := by
  induction h with
  | refl as => exact .refl _
  | step e es ih => exact .step e.reverse ih

theorem IsDistance.reverse (h : IsDistance as bs n) : IsDistance as.reverse bs.reverse n := by
  refine ⟨h.1.reverse, fun m hm => h.2 m ?_⟩
  simpa using hm.reverse

theorem Edit.length_le (h : Edit as bs) : as.length ≤ bs.length + 1 ∧ bs.length ≤ as.length + 1 := by
  cases h with
  | remove p s x => simp; omega
  | add p s x => simp; omega
  | replace p s x y => simp

/-- The lengths are no further apart than the lists. -/
theorem Edits.length_le (h : Edits n as bs) : as.length ≤ bs.length + n ∧ bs.length ≤ as.length + n := by
  induction h with
  | refl as => exact ⟨Nat.le_refl _, Nat.le_refl _⟩
  | step e es ih =>
    obtain ⟨h1, h2⟩ := e.length_le
    omega

theorem edits_add_all : ∀ bs : List α, Edits bs.length [] bs
  | [] => .refl []
  | b :: bs => .step (.add [] [] b) ((edits_add_all bs).cons b)

theorem edits_remove_all : ∀ as : List α, Edits as.length as []
  | [] => .refl []
  | a :: as => .step (.remove [] as a) (edits_remove_all as)

/-! ## The distance -/

variable [DecidableEq α]

/-- The distance by the first elements: one of them is removed or added, or the two are matched. -/
def dist : List α → List α → Nat
  | [], bs => bs.length
  | a :: as, [] => (a :: as).length
  | a :: as, b :: bs =>
    min (min (dist as (b :: bs) + 1) (dist (a :: as) bs + 1)) (dist as bs + if a = b then 0 else 1)
termination_by as bs => as.length + bs.length

@[simp] theorem dist_nil_left (bs : List α) : dist [] bs = bs.length := by rw [dist]

@[simp] theorem dist_nil_right (as : List α) : dist as [] = as.length := by
  cases as with
  | nil => rw [dist]
  | cons a as => rw [dist]

theorem dist_cons_cons (a b : α) (as bs : List α) : dist (a :: as) (b :: bs) =
    min (min (dist as (b :: bs) + 1) (dist (a :: as) bs + 1)) (dist as bs + if a = b then 0 else 1) := by rw [dist]

theorem cost_le (a b : α) : (if a = b then 0 else 1) ≤ 1 := by
  split <;> omega

theorem dist_cons_left_le (x : α) (as bs : List α) : dist (x :: as) bs ≤ dist as bs + 1 := by
  cases bs with
  | nil => simp
  | cons b bs =>
    rw [dist_cons_cons]
    omega

theorem dist_cons_right_le (y : α) (as bs : List α) : dist as (y :: bs) ≤ dist as bs + 1 := by
  cases as with
  | nil => simp
  | cons a as =>
    rw [dist_cons_cons]
    omega

theorem dist_le_cons_left (x : α) (as bs : List α) : dist as bs ≤ dist (x :: as) bs + 1 := by
  induction bs with
  | nil => simp; omega
  | cons b bs ih =>
    have h := dist_cons_right_le b as bs
    rw [dist_cons_cons]
    omega

theorem dist_replace_le (x y : α) (as bs : List α) : dist (x :: as) bs ≤ dist (y :: as) bs + 1 := by
  induction bs with
  | nil => simp
  | cons b bs ih =>
    have h := cost_le x b
    rw [dist_cons_cons, dist_cons_cons]
    omega

/-- What holds of two lists holds of them behind one more element. -/
theorem dist_cons_le (z : α) (h : ∀ cs, dist as cs ≤ dist bs cs + 1) (cs : List α) :
    dist (z :: as) cs ≤ dist (z :: bs) cs + 1 := by
  induction cs with
  | nil =>
    have h := h []
    simp only [dist_nil_right, List.length_cons] at h ⊢
    omega
  | cons c cs ih =>
    have h1 := h (c :: cs)
    have h2 := h cs
    rw [dist_cons_cons, dist_cons_cons]
    omega

theorem dist_append_le (h : ∀ cs, dist as cs ≤ dist bs cs + 1) : ∀ p cs : List α,
    dist (p ++ as) cs ≤ dist (p ++ bs) cs + 1
  | [] => h
  | z :: p => dist_cons_le z (dist_append_le h p)

theorem Edit.dist_le (h : Edit as bs) (cs : List α) : dist as cs ≤ dist bs cs + 1 := by
  cases h with
  | remove p s x => exact dist_append_le (dist_cons_left_le x s) p cs
  | add p s x => exact dist_append_le (dist_le_cons_left x s) p cs
  | replace p s x y => exact dist_append_le (dist_replace_le x y s) p cs

theorem dist_self (as : List α) : dist as as = 0 := by
  induction as with
  | nil => simp
  | cons a as ih =>
    rw [dist_cons_cons, ih, if_pos rfl]
    omega

theorem Edits.dist_le (h : Edits n as bs) : dist as bs ≤ n := by
  induction h with
  | refl as => exact Nat.le_of_eq (dist_self as)
  | step e es ih => exact (e.dist_le _).trans (Nat.succ_le_succ ih)

theorem edits_dist (as bs : List α) : Edits (dist as bs) as bs := by
  induction as, bs using dist.induct with
  | case1 bs =>
    rw [dist_nil_left]
    exact edits_add_all bs
  | case2 a as =>
    rw [dist_nil_right]
    exact edits_remove_all (a :: as)
  | case3 a as b bs hremove hadd hmatch =>
    have hmin : dist (a :: as) (b :: bs) = dist as (b :: bs) + 1 ∨ dist (a :: as) (b :: bs) = dist (a :: as) bs + 1 ∨
        dist (a :: as) (b :: bs) = dist as bs + if a = b then 0 else 1 := by
      rw [dist_cons_cons]
      omega
    obtain h | h | h := hmin
    · rw [h]
      exact .step (.remove [] as a) hremove
    · rw [h]
      exact .step (.add [] (a :: as) b) (hadd.cons b)
    · rw [h]
      by_cases he : a = b
      · subst he
        rw [if_pos rfl]
        exact hmatch.cons a
      · rw [if_neg he]
        exact .step (.replace [] as a b) (hmatch.cons b)

/-- The recursion gives the least number of edits. -/
theorem isDistance_dist (as bs : List α) : IsDistance as bs (dist as bs) :=
  ⟨edits_dist as bs, fun _ h => h.dist_le⟩

/-! ## Rows of the table -/

/-- The distances of a list to another one, and to that with more and more of the rest before it. -/
def row (as : List α) : List α → List α → List Nat
  | bs, [] => [dist as bs]
  | bs, b :: rest => dist as bs :: row as (b :: bs) rest

theorem row_eq_cons (as bs rest : List α) : row as bs rest = dist as bs :: (row as bs rest).tail := by
  cases rest <;> rfl

theorem row_nil : ∀ bs rest : List α, row [] bs rest = List.range' bs.length (rest.length + 1)
  | bs, [] => by simp [row]
  | bs, b :: rest => by
    rw [row, row_nil (b :: bs) rest, List.length_cons, dist_nil_left]
    exact List.range'_succ.symm

theorem getElem?_row (as : List α) : ∀ bs rest : List α, (row as bs rest)[rest.length]? = some (dist as (rest.reverse ++ bs))
  | bs, [] => rfl
  | bs, b :: rest => by
    rw [row, List.length_cons, List.getElem?_cons_succ, getElem?_row as (b :: bs) rest, List.reverse_cons,
      List.append_assoc, List.singleton_append]

end EditDistance
