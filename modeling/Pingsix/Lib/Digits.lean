import Mathlib.Data.Nat.Digits.Lemmas

/-!
# Positional numerals

Digits in any base, of a fixed width and the most significant first: the number
they stand for, multiplication with carries, and the order of equally wide
numerals, which is that of their numbers.
-/

namespace Digits

/-- Multiply and add, from the least significant digit on: the new digits, and what is carried off the last. -/
def scale (base factor : Nat) : List Nat → Nat → List Nat × Nat
  | [], carry => ([], carry)
  | digit :: rest, carry =>
    let value := digit * factor + carry
    let scaled := scale base factor rest (value / base)
    (value % base :: scaled.1, scaled.2)

/-- The number that digits stand for, the most significant first. -/
def number (base : Nat) (digits : List Nat) : Nat := Nat.ofDigits base digits.reverse

/-- The digits of a number, in so many places. -/
structure Numeral (base width n : Nat) (digits : List Nat) : Prop where
  length : digits.length = width
  lt : ∀ d ∈ digits, d < base
  value : number base digits = n

section
variable {base factor : Nat}

/-! ## Multiplication -/

@[simp] theorem length_scale (digits : List Nat) (carry : Nat) :
    (scale base factor digits carry).1.length = digits.length := by
  induction digits generalizing carry with
  | nil => rfl
  | cons d rest ih => simp [scale, ih]

theorem scale_lt (hbase : 0 < base) (digits : List Nat) (carry : Nat) : ∀ d ∈ (scale base factor digits carry).1, d < base := by
  induction digits generalizing carry with
  | nil => exact nofun
  | cons d rest ih => exact List.forall_mem_cons.mpr ⟨Nat.mod_lt _ hbase, ih _⟩

/-- Nothing is lost: what does not fit the digits is what is carried off. -/
theorem ofDigits_scale (base factor : Nat) (digits : List Nat) (carry : Nat) :
    Nat.ofDigits base (scale base factor digits carry).1 + base ^ digits.length * (scale base factor digits carry).2 =
      Nat.ofDigits base digits * factor + carry := by
  induction digits generalizing carry with
  | nil => simp [scale]
  | cons d rest ih =>
    have hrest := ih ((d * factor + carry) / base)
    have hdigit := Nat.mod_add_div (d * factor + carry) base
    simp only [scale, Nat.ofDigits_cons, List.length_cons, Nat.pow_succ']
    calc (d * factor + carry) % base + base * Nat.ofDigits base (scale base factor rest ((d * factor + carry) / base)).1 +
          base * base ^ rest.length * (scale base factor rest ((d * factor + carry) / base)).2
        = (d * factor + carry) % base + base * (Nat.ofDigits base (scale base factor rest ((d * factor + carry) / base)).1 +
            base ^ rest.length * (scale base factor rest ((d * factor + carry) / base)).2) := by ring
      _ = (d * factor + carry) % base + base * (Nat.ofDigits base rest * factor + (d * factor + carry) / base) := by
        rw [hrest]
      _ = ((d * factor + carry) % base + base * ((d * factor + carry) / base)) + base * Nat.ofDigits base rest * factor := by
        ring
      _ = (d + base * Nat.ofDigits base rest) * factor + carry := by
        rw [hdigit]
        ring

/-- A result that fits is written exactly, with nothing carried off. -/
theorem numeral_scale (hbase : 0 < base) {width n : Nat} {digits : List Nat} (h : Numeral base width n digits) {carry : Nat}
    (hfits : n * factor + carry < base ^ width) : (scale base factor digits.reverse carry).2 = 0 ∧
      Numeral base width (n * factor + carry) (scale base factor digits.reverse carry).1.reverse := by
  have hvalue : Nat.ofDigits base digits.reverse = n := h.value
  have hscale := ofDigits_scale base factor digits.reverse carry
  rw [hvalue, List.length_reverse, h.length] at hscale
  have hcarry : (scale base factor digits.reverse carry).2 = 0 := by
    by_contra hne
    have hle : base ^ width * 1 ≤ base ^ width * (scale base factor digits.reverse carry).2 :=
      Nat.mul_le_mul_left _ (Nat.pos_of_ne_zero hne)
    omega
  rw [hcarry, Nat.mul_zero, Nat.add_zero] at hscale
  constructor
  · exact hcarry
  · constructor
    · rw [List.length_reverse, length_scale, List.length_reverse, h.length]
    · intro d hd
      exact scale_lt hbase _ _ d (List.mem_reverse.mp hd)
    · unfold number
      rw [List.reverse_reverse, hscale]

/-- The digits of a multiple, without leading zeros: what is carried off comes on top. -/
theorem digits_scale (hbase : 1 < base) (hfactor : 0 < factor) (n carry : Nat) :
    Nat.digits base (n * factor + carry) = (scale base factor (Nat.digits base n) carry).1 ++
      Nat.digits base (scale base factor (Nat.digits base n) carry).2 := by
  induction n using Nat.strongRecOn generalizing carry with
  | ind n ih =>
    by_cases hn : n = 0
    · subst hn
      rw [Nat.digits_zero, Nat.zero_mul, Nat.zero_add]
      rfl
    · have hpos : 0 < n := Nat.pos_of_ne_zero hn
      have hmul : 0 < n * factor := Nat.mul_pos hpos hfactor
      have hrest := ih (n / base) (Nat.div_lt_self hpos hbase) ((n % base * factor + carry) / base)
      have hsplit : n * factor + carry = (n % base * factor + carry) % base +
          base * (n / base * factor + (n % base * factor + carry) / base) := by
        have hn' := Nat.mod_add_div n base
        have hv := Nat.mod_add_div (n % base * factor + carry) base
        calc n * factor + carry = (n % base + base * (n / base)) * factor + carry := by rw [hn']
          _ = (n % base * factor + carry) + base * (n / base * factor) := by ring
          _ = ((n % base * factor + carry) % base + base * ((n % base * factor + carry) / base)) +
              base * (n / base * factor) := by rw [hv]
          _ = _ := by ring
      rw [Nat.digits_def' hbase hpos, hsplit, Nat.digits_add base hbase _ _ (Nat.mod_lt _ (by omega))]
      · rw [hrest]
        rfl
      · by_contra hzero
        rw [not_or, not_not, not_not] at hzero
        rw [hzero.1, hzero.2] at hsplit
        omega

/-! ## Numbers -/

theorem number_append (base : Nat) (left right : List Nat) :
    number base (left ++ right) = number base left * base ^ right.length + number base right := by
  unfold number
  rw [List.reverse_append, Nat.ofDigits_append, List.length_reverse, Nat.mul_comm, Nat.add_comm]

theorem number_cons (d : Nat) (digits : List Nat) : number base (d :: digits) = d * base ^ digits.length + number base digits := by
  have h := number_append base [d] digits
  have hd : number base [d] = d := Nat.ofDigits_singleton
  rwa [hd] at h

theorem number_lt (hbase : 1 < base) {digits : List Nat} (h : ∀ d ∈ digits, d < base) :
    number base digits < base ^ digits.length := by
  rw [← List.length_reverse]
  exact Nat.ofDigits_lt_base_pow_length hbase fun d hd => h d (List.mem_reverse.mp hd)

theorem numeral_zero (base : Nat) (hbase : 0 < base) (width : Nat) : Numeral base width 0 (List.replicate width 0) := by
  constructor
  · exact List.length_replicate
  · intro d hd
    rwa [List.eq_of_mem_replicate hd]
  · unfold number
    rw [List.reverse_replicate]
    induction width with
    | zero => rfl
    | succ width ih =>
      rw [List.replicate_succ, Nat.ofDigits_cons, ih]
      rfl

/-- The shortest digits of a number, filled up with zeros. -/
theorem numeral_leftpad (base : Nat) (hbase : 1 < base) {width n : Nat} (h : n < base ^ width) :
    Numeral base width n (List.leftpad width 0 (Nat.digits base n).reverse) := by
  have hlen : (Nat.digits base n).length ≤ width := (Nat.digits_length_le_iff hbase n).mpr h
  have hzero := numeral_zero base (Nat.zero_lt_of_lt hbase) (width - (Nat.digits base n).reverse.length)
  unfold List.leftpad
  constructor
  · rw [List.length_append, List.length_replicate, List.length_reverse]
    omega
  · intro d hd
    cases List.mem_append.mp hd with
    | inl hd => exact hzero.lt d hd
    | inr hd => exact Nat.digits_lt_base hbase (List.mem_reverse.mp hd)
  · rw [number_append, hzero.value, Nat.zero_mul, Nat.zero_add]
    unfold number
    rw [List.reverse_reverse, Nat.ofDigits_digits]

/-- There is one numeral of a width for each number. -/
theorem Numeral.unique (hbase : 1 < base) {width n : Nat} {digits digits' : List Nat} (h : Numeral base width n digits)
    (h' : Numeral base width n digits') : digits = digits' := by
  have hreverse : digits.reverse = digits'.reverse := by
    apply Nat.ofDigits_inj_of_len_eq hbase
    · rw [List.length_reverse, List.length_reverse, h.length, h'.length]
    · exact fun d hd => h.lt d (List.mem_reverse.mp hd)
    · exact fun d hd => h'.lt d (List.mem_reverse.mp hd)
    · exact h.value.trans h'.value.symm
  exact List.reverse_inj.mp hreverse

/-! ## Order -/

theorem mul_add_lt_iff {p a a' r r' : Nat} (hr : r < p) (hr' : r' < p) :
    a * p + r < a' * p + r' ↔ a < a' ∨ a = a' ∧ r < r' := by
  rcases Nat.lt_trichotomy a a' with h | rfl | h
  · have hp : (a + 1) * p ≤ a' * p := Nat.mul_le_mul_right p h
    rw [Nat.succ_mul] at hp
    simp only [h, true_or, iff_true]
    omega
  · simp
  · have hp : (a' + 1) * p ≤ a * p := Nat.mul_le_mul_right p h
    rw [Nat.succ_mul] at hp
    simp only [Nat.not_lt.mpr (Nat.le_of_lt h), Nat.ne_of_gt h, false_and, or_self, iff_false]
    omega

/-- Equally wide numerals are ordered as text like the numbers, in any writing that keeps the order of the digits. -/
theorem map_lt_map_iff {α : Type} [LT α] {f : Nat → α} (hbase : 1 < base)
    (hlt : ∀ i < base, ∀ j < base, (f i < f j ↔ i < j)) (heq : ∀ i < base, ∀ j < base, (f i = f j ↔ i = j))
    {left right : List Nat} (hlen : left.length = right.length) (hleft : ∀ d ∈ left, d < base)
    (hright : ∀ d ∈ right, d < base) : left.map f < right.map f ↔ number base left < number base right := by
  induction left generalizing right with
  | nil =>
    cases right with
    | nil => simp
    | cons d right => cases hlen
  | cons d left ih =>
    cases right with
    | nil => cases hlen
    | cons d' right =>
      obtain ⟨hd, hleft⟩ := List.forall_mem_cons.mp hleft
      obtain ⟨hd', hright⟩ := List.forall_mem_cons.mp hright
      have hlen : left.length = right.length := Nat.succ.inj hlen
      have hl := number_lt hbase hleft
      have hr := number_lt hbase hright
      rw [← hlen] at hr
      rw [List.map_cons, List.map_cons, List.cons_lt_cons_iff, hlt d hd d' hd', heq d hd d' hd', ih hlen hleft hright,
        number_cons, number_cons, ← hlen, mul_add_lt_iff hl hr]

end

end Digits
