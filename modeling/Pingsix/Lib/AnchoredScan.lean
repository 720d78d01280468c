import Pingsix.Lib.Segments

/-!
# Replacements behind a mark

A scan from the left that replaces the matches of a pattern that stand right
behind a mark. A pattern that cannot match a mark is applied to the beginning
of each segment between marks.
-/

namespace AnchoredScan

variable {α : Type}

/-- How many elements a pattern matches at the beginning of a text. -/
abbrev Pattern (α : Type) := List α → Option Nat

/-- The scan, with the elements of the last match that are still to be skipped. -/
def replaceFrom [DecidableEq α] (mark : α) (pattern : Pattern α) (value : List α) : Nat → List α → List α
  | _, [] => []
  | skip + 1, _ :: xs => replaceFrom mark pattern value skip xs
  | 0, x :: xs =>
    if x = mark then
      match pattern xs with
      | some n => mark :: value ++ replaceFrom mark pattern value n xs
      | none => x :: replaceFrom mark pattern value 0 xs
    else x :: replaceFrom mark pattern value 0 xs

/-- All matches behind a mark, without overlaps. -/
def replaceAll [DecidableEq α] (mark : α) (pattern : Pattern α) (value xs : List α) : List α := replaceFrom mark pattern value 0 xs

/-! ## Segments -/

open Delimited (join join_cons)

/-- The pattern on one segment. -/
def pass (pattern : Pattern α) (value segment : List α) : List α :=
  match pattern segment with
  | some n => value ++ segment.drop n
  | none => segment

/-- The pattern looks no further than the next mark and matches no more than there is. -/
structure Within (mark : α) (pattern : Pattern α) : Prop where
  congr : ∀ segment rest, mark ∉ segment → (∀ x ∈ rest.head?, x = mark) → pattern (segment ++ rest) = pattern segment
  length : ∀ segment n, pattern segment = some n → n ≤ segment.length

section
variable {mark : α} {pattern : Pattern α} {value : List α}

theorem head?_flatMap (segments : List (List α)) : ∀ x ∈ (segments.flatMap (mark :: ·)).head?, x = mark := by
  intro x hx
  cases segments with
  | nil => cases hx
  | cons segment segments =>
    cases hx
    rfl

theorem pass_of_some {segment : List α} {n : Nat} (h : pattern segment = some n) :
    pass pattern value segment = value ++ segment.drop n := by
  unfold pass
  rw [h]

theorem pass_of_none {segment : List α} (h : pattern segment = none) : pass pattern value segment = segment := by
  unfold pass
  rw [h]

theorem replaceFrom_append [DecidableEq α] : ∀ (n : Nat) (xs rest : List α), n ≤ xs.length →
    replaceFrom mark pattern value n (xs ++ rest) = replaceFrom mark pattern value 0 (xs.drop n ++ rest)
  | 0, xs, rest, _ => rfl
  | n + 1, [], rest, h => absurd h (Nat.not_succ_le_zero n)
  | n + 1, x :: xs, rest, h => by
    rw [List.cons_append, replaceFrom, List.drop_succ_cons]
    exact replaceFrom_append n xs rest (Nat.le_of_succ_le_succ h)

/-- Without a mark nothing is replaced. -/
theorem replaceFrom_of_not_mem [DecidableEq α] {xs : List α} (hxs : mark ∉ xs) (rest : List α) :
    replaceFrom mark pattern value 0 (xs ++ rest) = xs ++ replaceFrom mark pattern value 0 rest := by
  induction xs with
  | nil => rfl
  | cons x xs ih =>
    rw [List.mem_cons, not_or] at hxs
    rw [List.cons_append, replaceFrom, if_neg (Ne.symm hxs.1), ih hxs.2]
    rfl

theorem not_mem_drop {segment : List α} (h : mark ∉ segment) (n : Nat) : mark ∉ segment.drop n :=
  fun hm => h (List.mem_of_mem_drop hm)

theorem replaceFrom_segment [DecidableEq α] (hw : Within mark pattern) {segment : List α} (hs : mark ∉ segment) {rest : List α}
    (hr : ∀ x ∈ rest.head?, x = mark) :
    replaceFrom mark pattern value 0 (mark :: segment ++ rest) =
      mark :: pass pattern value segment ++ replaceFrom mark pattern value 0 rest := by
  rw [List.cons_append, replaceFrom, if_pos rfl, hw.congr segment rest hs hr]
  cases hp : pattern segment with
  | none =>
    simp only
    rw [pass_of_none hp, replaceFrom_of_not_mem hs]
    rfl
  | some n =>
    simp only
    rw [pass_of_some hp, replaceFrom_append n segment rest (hw.length segment n hp),
      replaceFrom_of_not_mem (not_mem_drop hs n)]
    simp

/-- The scan is the pattern on every segment. -/
theorem replaceAll_join [DecidableEq α] (hw : Within mark pattern) {head : List α} (hh : mark ∉ head) {segments : List (List α)}
    (hs : ∀ segment ∈ segments, mark ∉ segment) :
    replaceAll mark pattern value (join mark (head :: segments)) =
      join mark (head :: segments.map (pass pattern value)) := by
  unfold replaceAll
  rw [join_cons, join_cons, replaceFrom_of_not_mem hh]
  congr 1
  induction segments with
  | nil => rfl
  | cons segment segments ih =>
    rw [List.flatMap_cons, List.map_cons, List.flatMap_cons, replaceFrom_segment hw (hs segment (by simp)) (head?_flatMap segments),
      ih fun s hm => hs s (List.mem_cons_of_mem _ hm)]

theorem not_mem_pass (hv : mark ∉ value) {segment : List α} (hs : mark ∉ segment) : mark ∉ pass pattern value segment := by
  unfold pass
  cases pattern segment with
  | none => exact hs
  | some n => exact fun hm => (List.mem_append.mp hm).elim hv fun hd => hs (List.mem_of_mem_drop hd)

end

/-! ## Patterns -/

/-- At least so many elements of a class, and as many as there are. -/
def atLeast (n : Nat) (cls : α → Bool) : Pattern α := fun xs =>
  if n ≤ (xs.takeWhile cls).length then some (xs.takeWhile cls).length else none

/-- One element of each class. -/
def inTurn (classes : List (α → Bool)) : Pattern α := fun xs =>
  if classes.length ≤ xs.length ∧ (classes.zip xs).all fun p => p.1 p.2 then some classes.length else none

theorem takeWhile_append_of_head {p : α → Bool} {xs rest : List α} (hr : ∀ x ∈ rest.head?, p x = false) :
    (xs ++ rest).takeWhile p = xs.takeWhile p := by
  induction xs with
  | nil =>
    cases rest with
    | nil => rfl
    | cons x rest => simp [hr x rfl]
  | cons x xs ih =>
    rw [List.cons_append, List.takeWhile_cons, List.takeWhile_cons, ih]

theorem atLeast_within {mark : α} {cls : α → Bool} (hm : cls mark = false) (n : Nat) :
    Within mark (atLeast n cls) where
  congr segment rest _ hr := by
    unfold atLeast
    rw [takeWhile_append_of_head fun x hx => by rw [hr x hx, hm]]
  length segment k h := by
    unfold atLeast at h
    rw [Option.ite_none_right_eq_some, Option.some.injEq] at h
    rw [← h.2]
    exact (List.takeWhile_sublist _).length_le

/-- A mark would have to match one of the classes. -/
theorem zip_all_append {mark : α} : ∀ {classes : List (α → Bool)} {segment rest : List α},
    (∀ c ∈ classes, c mark = false) → (∀ x ∈ rest.head?, x = mark) →
      ((classes.length ≤ (segment ++ rest).length ∧ (classes.zip (segment ++ rest)).all (fun p => p.1 p.2) = true) ↔
        (classes.length ≤ segment.length ∧ (classes.zip segment).all (fun p => p.1 p.2) = true))
  | [], _, _, _, _ => by simp
  | c :: classes, [], rest, hc, hr => by
    cases rest with
    | nil => simp
    | cons x rest =>
      rw [hr x rfl]
      simp [hc c List.mem_cons_self]
  | c :: classes, x :: segment, rest, hc, hr => by
    have ih := @zip_all_append mark classes segment rest (fun d hd => hc d (List.mem_cons_of_mem _ hd)) hr
    simp only [List.cons_append, List.length_cons, Nat.add_le_add_iff_right, List.zip_cons_cons, List.all_cons,
      Bool.and_eq_true]
    rw [and_left_comm, ih, and_left_comm]

theorem inTurn_within {mark : α} {classes : List (α → Bool)} (hc : ∀ c ∈ classes, c mark = false) :
    Within mark (inTurn classes) where
  congr segment rest _ hr := by
    unfold inTurn
    exact if_congr (zip_all_append hc hr) rfl rfl
  length segment n h := by
    unfold inTurn at h
    rw [Option.ite_none_right_eq_some, Option.some.injEq] at h
    rw [← h.2]
    exact h.1.1

end AnchoredScan
