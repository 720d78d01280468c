/-!
# Numbered places

Things on numbered places, moved up by one from the highest place on: how far the
move has come, where each thing stands then, and what has been put over.
-/

namespace Shelf

variable {α : Type}

/-- The thing at a place is put on the next one, over what stands there. -/
def moveUp (i : Nat) (s : Nat → Option α) (k : Nat) : Option α :=
  if (s i).isSome = true then
    if k = i + 1 then s i else if k = i then none else s k
  else s k

/-- The places once everything from `j` to below `n` has been moved. -/
def lifted (j n : Nat) (s : Nat → Option α) (k : Nat) : Option α :=
  if k < j then s k
  else if n < k then s k
  else if k = n then if j < n then (s (n - 1)).or (s n) else s n
  else if k = j then none
  else s (k - 1)

/-- Where the thing of a place then stands. -/
def raised (j n k : Nat) : Nat := if k < j then k else if k < n then k + 1 else k

/-- What is on the places up to `n` is still there, in the same order, but for what is lost. -/
def Retains (n : Nat) (lost : Nat → Prop) (s s' : Nat → Option α) : Prop :=
  ∃ place : Nat → Nat,
    (∀ k ≤ n, ¬lost k → (s k).isSome = true → place k ≤ n ∧ s' (place k) = s k) ∧
    ∀ k k', k < k' → k' ≤ n → ¬lost k → ¬lost k' → (s k).isSome = true → (s k').isSome = true → place k < place k'

section
variable {i j n k : Nat} {s s' s'' : Nat → Option α}

theorem moveUp_none (h : s i = none) : moveUp i s k = s k := by
  unfold moveUp
  rw [h]
  rfl

theorem lifted_self (n : Nat) (s : Nat → Option α) : lifted n n s k = s k := by
  unfold lifted
  split
  · rfl
  · split
    · rfl
    · split
      · next hk => rw [if_neg (Nat.lt_irrefl n), hk]
      · omega

/-- One more thing is moved. -/
theorem moveUp_lifted (h : i < n) : moveUp i (lifted (i + 1) n s) k = lifted i n s k := by
  have hi : lifted (i + 1) n s i = s i := by
    unfold lifted
    rw [if_pos (Nat.lt_succ_self i)]
  unfold moveUp
  rw [hi]
  by_cases hsome : (s i).isSome = true
  · rw [if_pos hsome]
    obtain ⟨c, hc⟩ := Option.isSome_iff_exists.mp hsome
    by_cases hnext : k = i + 1
    · subst hnext
      rw [if_pos rfl]
      unfold lifted
      rw [if_neg (by omega), if_neg (by omega)]
      by_cases hn : i + 1 = n
      · rw [if_pos hn, if_pos h, show n - 1 = i by omega, hc]
        rfl
      · rw [if_neg hn, if_neg (by omega), Nat.add_sub_cancel]
    · by_cases hk : k = i
      · subst hk
        simp [lifted, Nat.ne_of_lt h, show ¬n < k by omega]
      · simp only [if_neg hnext, if_neg hk, lifted]
        grind
  · rw [if_neg hsome]
    rw [Option.not_isSome_iff_eq_none] at hsome
    unfold lifted
    grind

theorem lifted_congr (h : ∀ k ≤ n, s k = s' k) (hk : k ≤ n) : lifted j n s k = lifted j n s' k := by
  unfold lifted
  rw [h k hk, h n (Nat.le_refl n), h (n - 1) (Nat.sub_le n 1), h (k - 1) (by omega)]

/-- When the places below the highest but one are as they were, nothing stands just below the highest. -/
theorem lifted_below (hj : j < n) (h : ∀ k, k + 1 < n → lifted j n s k = s k) : lifted j n s (n - 1) = none := by
  have hnone : ∀ d, j + d + 1 < n → s (j + d) = none := by
    intro d
    induction d with
    | zero =>
      intro hd
      rw [← h (j + 0) hd]
      simp [lifted, show ¬n < j by omega, show ¬j = n by omega]
    | succ d ih =>
      intro hd
      rw [← h (j + (d + 1)) hd]
      unfold lifted
      rw [if_neg (by omega), if_neg (by omega), if_neg (by omega), if_neg (by omega)]
      exact ih (by omega)
  unfold lifted
  rw [if_neg (by omega), if_neg (by omega), if_neg (by omega)]
  by_cases hlast : n - 1 = j
  · rw [if_pos hlast]
  · rw [if_neg hlast, show n - 1 - 1 = j + (n - 2 - j) by omega]
    exact hnone _ (by omega)

theorem raised_le (hk : k ≤ n) : raised j n k ≤ n := by
  unfold raised
  split
  · exact hk
  · split
    · omega
    · exact hk

/-- Only what stands at `n` may be put over, and only by what stood below it. -/
theorem lifted_raised (hk : k ≤ n) (hlost : ¬(k = n ∧ j < n ∧ (s (n - 1)).isSome = true)) (hs : (s k).isSome = true) :
    lifted j n s (raised j n k) = s k := by
  by_cases hj : k < j
  · simp [raised, lifted, hj]
  · by_cases hn : k < n
    · have hraised : raised j n k = k + 1 := by
        unfold raised
        rw [if_neg hj, if_pos hn]
      obtain ⟨c, hc⟩ := Option.isSome_iff_exists.mp hs
      rw [hraised]
      unfold lifted
      rw [if_neg (by omega), if_neg (by omega)]
      by_cases hlast : k + 1 = n
      · subst hlast
        rw [if_pos rfl, if_pos (by omega), Nat.add_sub_cancel, hc]
        rfl
      · rw [if_neg hlast, if_neg (by omega), Nat.add_sub_cancel]
    · have hkn : k = n := by omega
      have hraised : raised j n k = k := by
        unfold raised
        rw [if_neg hj, if_neg hn]
      rw [hraised]
      subst hkn
      unfold lifted
      rw [if_neg hj, if_neg hn, if_pos rfl]
      by_cases hjk : j < k
      · have hnone : s (k - 1) = none := by
          rw [← Option.not_isSome_iff_eq_none]
          exact fun h => hlost ⟨rfl, hjk, h⟩
        rw [if_pos hjk, hnone]
        rfl
      · rw [if_neg hjk]

theorem raised_lt {k' : Nat} (hlt : k < k') (hk' : k' ≤ n) (hlost : ¬(k' = n ∧ j < n ∧ (s (n - 1)).isSome = true))
    (hs : (s k).isSome = true) : raised j n k < raised j n k' := by
  by_cases hlast : k' = n ∧ j < n ∧ k = n - 1
  · obtain ⟨hn, hj, hk⟩ := hlast
    exact absurd ⟨hn, hj, hk ▸ hs⟩ hlost
  · unfold raised
    grind

theorem retains_lifted (j n : Nat) (s : Nat → Option α) :
    Retains n (fun k => k = n ∧ j < n ∧ (s (n - 1)).isSome = true) s (lifted j n s) := by
  refine ⟨raised j n, fun k hk hlost hs => ?_, fun k k' hlt hk' _ hlost hs _ => ?_⟩
  · exact ⟨raised_le hk, lifted_raised hk hlost hs⟩
  · exact raised_lt hlt hk' hlost hs

theorem Retains.mono {lost lost' : Nat → Prop} (h : Retains n lost s s') (hlost : ∀ k ≤ n, lost k → lost' k) :
    Retains n lost' s s' := by
  obtain ⟨place, hplace, hmono⟩ := h
  refine ⟨place, fun k hk hl hs => ?_, fun k k' hlt hk' hl hl' hs hs' => ?_⟩
  · exact hplace k hk (fun h => hl (hlost k hk h)) hs
  · exact hmono k k' hlt hk' (fun h => hl (hlost k (by omega) h)) (fun h => hl' (hlost k' hk' h)) hs hs'

theorem Retains.congr {lost : Nat → Prop} (h : Retains n lost s s') (hs' : ∀ k ≤ n, s'' k = s' k) : Retains n lost s s'' := by
  obtain ⟨place, hplace, hmono⟩ := h
  refine ⟨place, fun k hk hl hs => ?_, hmono⟩
  obtain ⟨hle, heq⟩ := hplace k hk hl hs
  exact ⟨hle, (hs' _ hle).trans heq⟩

/-- A second move, of all things, after one that stopped at `j`. -/
theorem retains_twice {lost : Nat → Prop} (hlost : ∀ k ≤ n, ¬lost k → (s k).isSome = true → ¬(k = n ∧ j < n ∧ (s (n - 1)).isSome = true) ∧
    ¬(raised j n k = n ∧ 0 < n ∧ (lifted j n s (n - 1)).isSome = true)) :
    Retains n lost s (lifted 0 n (lifted j n s)) := by
  refine ⟨fun k => raised 0 n (raised j n k), fun k hk hl hs => ?_, fun k k' hlt hk' hl hl' hs hs' => ?_⟩
  · obtain ⟨hfirst, hsecond⟩ := hlost k hk hl hs
    have h := lifted_raised hk hfirst hs
    refine ⟨raised_le (raised_le hk), ?_⟩
    rw [lifted_raised (raised_le hk) hsecond (by rw [h]; exact hs), h]
  · obtain ⟨hfirst, _⟩ := hlost k (by omega) hl hs
    obtain ⟨hfirst', hsecond'⟩ := hlost k' hk' hl' hs'
    have h := lifted_raised (by omega) hfirst hs
    apply raised_lt (raised_lt hlt hk' hfirst' hs) (raised_le hk') hsecond'
    rw [h]
    exact hs

end

end Shelf
