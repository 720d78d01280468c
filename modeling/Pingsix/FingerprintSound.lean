import Pingsix.Fingerprint
import Pingsix.Lib.MachineInt

/-!
# What a fingerprint tells apart

The bytes a fingerprint hashes name one document, up to the order of members
and no further: integers and doubles by their text, so that the two zeros are
two numbers.
-/

namespace Pingsix

/-! ## Texts of numbers -/

theorem mem_int_repr {n : Int} {c : Char} (h : c ∈ n.repr.toList) : c = '-' ∨ c.isDigit = true := by
  rw [Int.repr_eq_if] at h
  split at h
  · exact .inr (Decimal.isDigit_of_mem_repr h)
  · rw [String.toList_append] at h
    cases List.mem_append.mp h with
    | inl h => exact .inl (List.mem_singleton.mp h)
    | inr h => exact .inr (Decimal.isDigit_of_mem_repr h)

/-- A text that starts with a digit has no sign. -/
theorem minus_not_head (n : Nat) (s t : String) : n.repr ++ s ≠ "-" ++ t := by
  intro h
  have hlist := congrArg String.toList h
  rw [String.toList_append, String.toList_append, Nat.toList_repr] at hlist
  cases hd : Nat.toDigits 10 n with
  | nil => exact absurd hd Nat.toDigits_ne_nil
  | cons c cs =>
    rw [hd] at hlist
    have hc : c = '-' := (List.cons.inj hlist).1
    have hdigit := @Nat.isDigit_of_mem_toDigits 10 n c (by decide) (by decide) (hd ▸ List.mem_cons_self)
    rw [hc] at hdigit
    exact absurd hdigit (by decide)

theorem repr_ne_minus (n : Nat) (t : String) : n.repr ≠ "-" ++ t := by
  intro h
  exact minus_not_head n "" t (by rw [String.append_empty, h])

theorem int_repr_injective {m n : Int} (h : m.repr = n.repr) : m = n := by
  rw [Int.repr_eq_if, Int.repr_eq_if] at h
  by_cases hm : 0 ≤ m <;> by_cases hn : 0 ≤ n
  · rw [if_pos hm, if_pos hn] at h
    have := Decimal.repr_injective h
    omega
  · rw [if_pos hm, if_neg hn] at h
    exact absurd h (repr_ne_minus _ _)
  · rw [if_neg hm, if_pos hn] at h
    exact absurd h.symm (repr_ne_minus _ _)
  · rw [if_neg hm, if_neg hn] at h
    have := Decimal.repr_injective ((String.append_right_inj _).mp h)
    omega

namespace SerdeNumber

/-- The text of a double is never that of an integer. -/
theorem format_ne_repr (ryu : Ryu) (value : FiniteDouble) (n : Int) : ryu.format value ≠ n.repr := by
  intro h
  cases ryu.fractional value with
  | inl hdot =>
    cases mem_int_repr (h ▸ hdot) with
    | inl he => exact absurd he (by decide)
    | inr hd => exact absurd hd (by decide)
  | inr hexp =>
    cases mem_int_repr (h ▸ hexp) with
    | inl he => exact absurd he (by decide)
    | inr hd => exact absurd hd (by decide)

theorem toString_injective (ryu : Ryu) : Function.Injective (SerdeNumber.toString ryu) := by
  intro a b h
  cases a with
  | integer m =>
    cases b with
    | integer n => rw [int_repr_injective h]
    | float value => exact absurd h.symm (format_ne_repr ryu value m)
  | float value =>
    cases b with
    | integer n => exact absurd h (format_ne_repr ryu value n)
    | float other => rw [ryu.injective h]

end SerdeNumber

/-! ## The bytes of documents -/

/-- Two texts with one hash. -/
def Collision (hash : List UInt8 → UInt64) (s t : List UInt8) : Prop := s ≠ t ∧ hash s = hash t

/-- The bytes of two values are equal exactly for the same value up to the order of members, whatever follows them
says where they end, and values with one hash are the same or collide. -/
theorem hash_canonical_json_unambiguous (ryu : Ryu) (v w : JsonValue) :
    (hashCanonicalJson ryu v.document = hashCanonicalJson ryu w.document ↔ v.document.Same Eq w.document) ∧
    (∀ r s : List UInt8, hashCanonicalJson ryu v.document ++ r = hashCanonicalJson ryu w.document ++ s →
      v.document.Same Eq w.document ∧ r = s) ∧
    ∀ hash : List UInt8 → UInt64, hash (hashCanonicalJson ryu v.document) = hash (hashCanonicalJson ryu w.document) →
      v.document.Same Eq w.document ∨
        Collision hash (hashCanonicalJson ryu v.document) (hashCanonicalJson ryu w.document) := by
  have hinj := SerdeNumber.toString_injective ryu
  have hiff := Document.encode_eq_iff hinj v.fits w.fits
  refine ⟨hiff, fun r s h => Document.encode_append_inj hinj _ _ r s v.fits w.fits h, ?_⟩
  intro hash h
  by_cases he : hashCanonicalJson ryu v.document = hashCanonicalJson ryu w.document
  · exact .inl (hiff.mp he)
  · exact .inr ⟨he, h⟩

/-! ## The two zeros -/

/-- A printer that writes the bits below the sign as a whole number of ones. -/
def plainFormat (value : FiniteDouble) : String :=
  (if value.bits.toNat < 2 ^ 63 then "" else "-") ++ ((value.bits.toNat % 2 ^ 63).repr ++ ".0")

theorem plainFormat_injective : Function.Injective plainFormat := by
  intro a b h
  have hbits : a.bits.toNat = b.bits.toNat := by
    have ha := a.bits.toNat_lt
    have hb := b.bits.toNat_lt
    unfold plainFormat at h
    by_cases hna : a.bits.toNat < 2 ^ 63 <;> by_cases hnb : b.bits.toNat < 2 ^ 63
    · rw [if_pos hna, if_pos hnb] at h
      have := Decimal.repr_injective ((String.append_left_inj _).mp ((String.append_right_inj _).mp h))
      omega
    · rw [if_pos hna, if_neg hnb, String.empty_append] at h
      exact absurd h (minus_not_head _ _ _)
    · rw [if_neg hna, if_pos hnb, String.empty_append] at h
      exact absurd h.symm (minus_not_head _ _ _)
    · rw [if_neg hna, if_neg hnb] at h
      have := Decimal.repr_injective ((String.append_left_inj _).mp ((String.append_right_inj _).mp h))
      omega
  obtain ⟨bits, finite⟩ := a
  obtain ⟨bits', finite'⟩ := b
  cases UInt64.toNat_inj.mp hbits
  rfl

def plainRyu : Ryu where
  format := plainFormat
  injective := plainFormat_injective
  fractional value := .inl (by
    unfold plainFormat
    rw [String.toList_append, String.toList_append]
    exact List.mem_append_right _ (List.mem_append_right _ (by decide)))

def zero : JsonValue := ⟨.num (.float ⟨0, by decide⟩), trivial⟩

def negativeZero : JsonValue := ⟨.num (.float ⟨0x8000000000000000, by decide⟩), trivial⟩

/-- The two zeros are equal numbers with different bytes. -/
theorem zeros_hashed_apart : zero.document.Same SerdeNumber.Equal negativeZero.document ∧
    hashCanonicalJson plainRyu zero.document ≠ hashCanonicalJson plainRyu negativeZero.document ∧
    ∀ ryu, hashCanonicalJson ryu zero.document ≠ hashCanonicalJson ryu negativeZero.document := by
  have hne : ∀ ryu, hashCanonicalJson ryu zero.document ≠ hashCanonicalJson ryu negativeZero.document := by
    intro ryu h
    have hsame := (Document.encode_eq_iff (SerdeNumber.toString_injective ryu) zero.fits negativeZero.fits).mp h
    have hbits := congrArg FiniteDouble.bits (SerdeNumber.float.inj hsame)
    exact absurd hbits (by decide)
  exact ⟨.inr ⟨by decide, by decide⟩, hne plainRyu, hne⟩

end Pingsix
