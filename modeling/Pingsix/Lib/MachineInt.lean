import Mathlib.Algebra.Ring.Nat

/-!
# Machine integers

Results of unsigned arithmetic at a width: an error where a build checks for
overflow, the remainder where it does not, and the greatest number where the
code asks for saturation. Their decimal text is written without zeros in front
and read more leniently.
-/

inductive Overflow where
  | overflow
  deriving DecidableEq, Repr

inductive Arithmetic where
  | checked
  | wrapping
  deriving DecidableEq, Repr

def u64Max : Nat := 2 ^ 64 - 1

def saturatingAdd (a b : Nat) : Nat := min (a + b) u64Max

/-- A result as a number of so many bits. -/
def Arithmetic.fit (arithmetic : Arithmetic) (bits n : Nat) : Except Overflow Nat :=
  if n < 2 ^ bits then .ok n
  else
    match arithmetic with
    | .checked => .error .overflow
    | .wrapping => .ok (n % 2 ^ bits)

theorem Arithmetic.fit_of_lt {arithmetic : Arithmetic} {bits n : Nat} (h : n < 2 ^ bits) :
    arithmetic.fit bits n = .ok n := if_pos h

theorem Arithmetic.fit_wrapping_le (bits n : Nat) : ∃ m, Arithmetic.wrapping.fit bits n = .ok m ∧ m ≤ n := by
  unfold Arithmetic.fit
  by_cases h : n < 2 ^ bits
  · rw [if_pos h]
    exact ⟨n, rfl, Nat.le_refl n⟩
  · rw [if_neg h]
    exact ⟨n % 2 ^ bits, rfl, Nat.mod_le n _⟩

theorem Arithmetic.fit_checked_overflow {bits n : Nat} (h : 2 ^ bits ≤ n) :
    Arithmetic.checked.fit bits n = .error .overflow := by
  unfold Arithmetic.fit
  rw [if_neg (Nat.not_lt.mpr h)]

/-- What fits with checks is the result, and the same without them. -/
theorem Arithmetic.fit_checked_eq_ok {bits n m : Nat} (h : Arithmetic.checked.fit bits n = .ok m) :
    m = n ∧ ∀ arithmetic : Arithmetic, arithmetic.fit bits n = .ok n := by
  unfold Arithmetic.fit at h
  by_cases hlt : n < 2 ^ bits
  · rw [if_pos hlt] at h
    cases h
    exact ⟨rfl, fun _ => Arithmetic.fit_of_lt hlt⟩
  · rw [if_neg hlt] at h
    cases h

/-! ## Decimal text -/

namespace Decimal

/-- An unsigned number of so many bits, as the standard parser reads it: after a plus sign, if there is one. -/
def parse (bits : Nat) (s : String) : Option Nat :=
  let digits := match s.toList with
    | '+' :: cs => cs
    | cs => cs
  if digits ≠ [] ∧ digits.all Char.isDigit = true ∧ Nat.ofDigitChars 10 digits 0 < 2 ^ bits then
    some (Nat.ofDigitChars 10 digits 0)
  else none

theorem repr_injective {m n : Nat} (h : m.repr = n.repr) : m = n := by
  have hdigits : Nat.toDigits 10 m = Nat.toDigits 10 n := by
    rw [← Nat.toList_repr, ← Nat.toList_repr, h]
  rw [← @Nat.ofDigitChars_ten_toDigits m, ← @Nat.ofDigitChars_ten_toDigits n, hdigits]

theorem isDigit_of_mem_repr {n : Nat} {c : Char} (h : c ∈ n.repr.toList) : c.isDigit = true :=
  Nat.isDigit_of_mem_toDigits (by decide) (by decide) (Nat.toList_repr ▸ h)

theorem parse_repr {bits n : Nat} (h : n < 2 ^ bits) : parse bits n.repr = some n := by
  have hdigit : ∀ c ∈ n.repr.toList, c.isDigit = true := fun c hc => isDigit_of_mem_repr hc
  have hchars : n.repr.toList = Nat.toDigits 10 n := Nat.toList_repr
  have hread : (match n.repr.toList with | '+' :: cs => cs | cs => cs) = n.repr.toList := by
    split
    · next cs hcs => exact absurd (hdigit '+' (hcs ▸ List.mem_cons_self)) (by decide)
    · rfl
  unfold parse
  simp only [hread]
  rw [hchars] at hdigit ⊢
  rw [Nat.ofDigitChars_ten_toDigits, if_pos ⟨Nat.toDigits_ne_nil, List.all_eq_true.mpr hdigit, h⟩]

end Decimal
