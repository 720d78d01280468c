import Pingsix.Lib.Net

/-!
# The texts of address literals

What characters an address literal is made of, and decimal numbers read back.
-/

namespace Net

/-! ## Digits -/

theorem digitValue_digitChar {d : Nat} (h : d < 10) : digitValue 10 d.digitChar = some d := by
  have hall : ∀ d < 10, digitValue 10 d.digitChar = some d := by decide
  exact hall d h

theorem digitsValue_append (radix : Nat) (ds es : List Char) :
    digitsValue radix (ds ++ es) = es.foldl (fun n c => n * radix + (digitValue radix c).getD 0) (digitsValue radix ds) :=
  List.foldl_append

/-- A number is the value of its digits. -/
theorem digitsValue_toDigits (n : Nat) : digitsValue 10 (Nat.toDigits 10 n) = n := by
  induction n using Nat.strongRecOn with
  | ind n ih =>
    rw [Nat.toDigits_eq_if (by decide)]
    by_cases hn : n < 10
    · rw [if_pos hn]
      show 0 * 10 + (digitValue 10 n.digitChar).getD 0 = n
      rw [digitValue_digitChar hn]
      exact Nat.zero_add n
    · rw [if_neg hn, digitsValue_append, ih (n / 10) (by omega)]
      show n / 10 * 10 + (digitValue 10 (n % 10).digitChar).getD 0 = n
      rw [digitValue_digitChar (Nat.mod_lt n (by decide))]
      exact Nat.div_add_mod' n 10

theorem isAlphanum_of_isDigit {radix : Nat} {c : Char} (h : isDigit radix c = true) : c.isAlphanum = true := by
  unfold isDigit digitValue at h
  by_cases hdec : '0' ≤ c ∧ c ≤ '9'
  · have hd : c.isDigit = true := Char.isDigit_iff_toNat.mpr ⟨hdec.1, hdec.2⟩
    exact Bool.or_eq_true_iff.mpr (.inr hd)
  · by_cases hlow : 'a' ≤ c ∧ c ≤ 'z'
    · have hl : c.isLower = true := Bool.and_eq_true_iff.mpr ⟨decide_eq_true hlow.1, decide_eq_true hlow.2⟩
      exact Bool.or_eq_true_iff.mpr (.inl (Bool.or_eq_true_iff.mpr (.inr hl)))
    · by_cases hup : 'A' ≤ c ∧ c ≤ 'Z'
      · have hu : c.isUpper = true := decide_eq_true hup
        exact Bool.or_eq_true_iff.mpr (.inl (Bool.or_eq_true_iff.mpr (.inl hu)))
      · simp [hdec, hlow, hup] at h

/-! ## What a reader consumes -/

def AddressChar (c : Char) : Prop := c.isAlphanum = true ∨ c = '.' ∨ c = ':'

/-- The rest of a text after characters of addresses. -/
def Reads (s rest : List Char) : Prop := ∃ front, s = front ++ rest ∧ ∀ c ∈ front, AddressChar c

theorem Reads.refl (s : List Char) : Reads s s := ⟨[], rfl, by simp⟩

theorem Reads.trans {s rest rest' : List Char} (h : Reads s rest) (h' : Reads rest rest') : Reads s rest' := by
  obtain ⟨front, rfl, hfront⟩ := h
  obtain ⟨back, rfl, hback⟩ := h'
  refine ⟨front ++ back, by rw [List.append_assoc], fun c hc => ?_⟩
  exact (List.mem_append.mp hc).elim (hfront c) (hback c)

theorem Reads.all {s : List Char} (h : Reads s []) : ∀ c ∈ s, AddressChar c := by
  obtain ⟨front, rfl, hfront⟩ := h
  rwa [List.append_nil]

theorem reads_readGivenChar {c : Char} (hc : AddressChar c) : ∀ {s rest : List Char}, readGivenChar c s = some rest →
    Reads s rest
  | [], _, h => by cases h
  | x :: xs, rest, h => by
    simp only [readGivenChar] at h
    by_cases hx : x = c
    · rw [if_pos hx] at h
      cases h
      exact ⟨[x], rfl, fun d hd => by cases List.mem_singleton.mp hd; exact hx ▸ hc⟩
    · rw [if_neg hx] at h
      cases h

theorem reads_readNumber {radix maxDigits bound n : Nat} {zeros : Bool} {s rest : List Char}
    (h : readNumber radix maxDigits bound zeros s = some (n, rest)) : Reads s rest := by
  have htake : ∀ l : List Char, l.drop (l.takeWhile (isDigit radix)).length = l.dropWhile (isDigit radix) := fun l => by
    induction l with
    | nil => rfl
    | cons c l ih =>
      by_cases hc : isDigit radix c = true
      · simpa [hc] using ih
      · simp [hc]
  have hrest : rest = s.drop (s.takeWhile (isDigit radix)).length := by
    unfold readNumber at h
    simp only at h
    split at h
    · cases h
    · split at h
      · cases h
      · split at h
        · cases h
        · cases h
          rfl
  refine ⟨s.takeWhile (isDigit radix), ?_, fun c hc => .inl (isAlphanum_of_isDigit (List.mem_takeWhile_imp hc))⟩
  rw [hrest, htake, List.takeWhile_append_dropWhile]

theorem reads_readSeparator {i : Nat} {s rest : List Char} (h : readSeparator i s = some rest) : Reads s rest := by
  unfold readSeparator at h
  by_cases hi : i = 0
  · rw [if_pos hi] at h
    cases h
    exact .refl s
  · rw [if_neg hi] at h
    exact reads_readGivenChar (.inr (.inr rfl)) h

theorem reads_readOctets : ∀ {n : Nat} {dot : Bool} {s rest : List Char} {octets : List Nat},
    readOctets n dot s = some (octets, rest) → Reads s rest
  | 0, _, s, rest, octets, h => by
    cases h
    exact .refl s
  | n + 1, dot, s, rest, octets, h => by
    have hoctets : ∀ s₁, ((readNumber 10 3 256 false s₁).bind fun o =>
        (readOctets n true o.2).bind fun os => some (o.1 :: os.1, os.2)) = some (octets, rest) → Reads s₁ rest := by
      intro s₁ h
      obtain ⟨⟨o, s₂⟩, hnumber, h⟩ := Option.bind_eq_some_iff.mp h
      obtain ⟨⟨os, s₃⟩, hrest, h⟩ := Option.bind_eq_some_iff.mp h
      cases h
      exact (reads_readNumber hnumber).trans (reads_readOctets hrest)
    rw [readOctets] at h
    cases dot with
    | false => exact hoctets s h
    | true =>
      rw [if_pos rfl] at h
      obtain ⟨s₁, hdot, h⟩ := Option.bind_eq_some_iff.mp h
      exact (reads_readGivenChar (.inr (.inl rfl)) hdot).trans (hoctets s₁ h)

theorem reads_readGroups : ∀ (limit i : Nat) (s : List Char), Reads s (readGroups limit i s).2.2
  | 0, _, s => .refl s
  | limit + 1, i, s => by
    unfold readGroups
    simp only
    split
    · rename_i a b c d s' hipv4
      by_cases hlimit : 0 < limit
      · rw [if_pos hlimit] at hipv4
        obtain ⟨s₁, hsep, hread⟩ := Option.bind_eq_some_iff.mp hipv4
        exact (reads_readSeparator hsep).trans (reads_readOctets hread)
      · rw [if_neg hlimit] at hipv4
        cases hipv4
    · cases hgroup : (readSeparator i s).bind (readNumber 16 4 65536 true) with
      | none => exact .refl s
      | some group =>
        obtain ⟨g, s'⟩ := group
        obtain ⟨s₁, hsep, hread⟩ := Option.bind_eq_some_iff.mp hgroup
        exact (reads_readSeparator hsep).trans ((reads_readNumber hread).trans (reads_readGroups limit (i + 1) s'))

theorem reads_readIpv6 {s rest : List Char} {groups : List Nat} (h : readIpv6 s = some (groups, rest)) : Reads s rest := by
  have hhead := reads_readGroups 8 0 s
  unfold readIpv6 at h
  simp only at h
  split at h
  · cases h
    exact hhead
  · split at h
    · cases h
    · obtain ⟨s₁, hfirst, h⟩ := Option.bind_eq_some_iff.mp h
      obtain ⟨s₂, hsecond, h⟩ := Option.bind_eq_some_iff.mp h
      cases h
      have hcolon : AddressChar ':' := .inr (.inr rfl)
      exact hhead.trans ((reads_readGivenChar hcolon hfirst).trans
        ((reads_readGivenChar hcolon hsecond).trans (reads_readGroups _ 0 s₂)))

theorem addressChar_of_parseIpv4 {s : List Char} (h : (parseIpv4 s).isSome) : ∀ c ∈ s, AddressChar c := by
  unfold parseIpv4 at h
  split at h
  · rename_i octets hread
    exact (reads_readOctets hread).all
  · cases h

theorem addressChar_of_parseIpv6 {s : List Char} (h : (parseIpv6 s).isSome) : ∀ c ∈ s, AddressChar c := by
  unfold parseIpv6 at h
  split at h
  · rename_i groups hread
    exact (reads_readIpv6 hread).all
  · cases h

end Net
