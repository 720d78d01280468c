import Pingsix.Lib.Utf8

/-!
# Percent encoding

Bytes written as `%` with two hexadecimal digits, and read back. Text that holds
such escapes already is encoded around them: nothing is encoded twice, and what
is read from it stays the same.
-/

namespace PercentEncoding

def hexDigit (n : Nat) : UInt8 := if n < 10 then .ofNat (48 + n) else .ofNat (55 + n)

def hexValue (b : UInt8) : Option Nat :=
  if 48 ≤ b.toNat ∧ b.toNat ≤ 57 then some (b.toNat - 48)
  else if 65 ≤ b.toNat ∧ b.toNat ≤ 70 then some (b.toNat - 55)
  else if 97 ≤ b.toNat ∧ b.toNat ≤ 102 then some (b.toNat - 87)
  else none

/-- The byte that the next two digits write. -/
def escaped : List UInt8 → Option UInt8
  | h :: l :: _ =>
    match hexValue h, hexValue l with
    | some high, some low => some (.ofNat (high * 16 + low))
    | _, _ => none
  | _ => none

def encodeByte (b : UInt8) : List UInt8 := [37, hexDigit (b.toNat / 16), hexDigit (b.toNat % 16)]

/-- A `%` without two digits stands for itself; `skip` digits of the last escape are left. -/
def decodeFrom : (skip : Nat) → List UInt8 → List UInt8
  | _, [] => []
  | skip + 1, _ :: rest => decodeFrom skip rest
  | 0, b :: rest =>
    if b = 37 then
      match escaped rest with
      | some c => c :: decodeFrom 2 rest
      | none => b :: decodeFrom 0 rest
    else b :: decodeFrom 0 rest

def decode (bytes : List UInt8) : List UInt8 := decodeFrom 0 bytes

/-- Encode what is neither kept nor an escape; `skip` digits of the last escape are left. -/
def encodeFrom (keep : UInt8 → Bool) : (skip : Nat) → List UInt8 → List UInt8
  | _, [] => []
  | skip + 1, b :: rest => b :: encodeFrom keep skip rest
  | 0, b :: rest =>
    if keep b then b :: encodeFrom keep 0 rest
    else if b = 37 ∧ (escaped rest).isSome then b :: encodeFrom keep 2 rest
    else encodeByte b ++ encodeFrom keep 0 rest

def encode (keep : UInt8 → Bool) (bytes : List UInt8) : List UInt8 := encodeFrom keep 0 bytes

/-! ## Reading what was written -/

theorem hexValue_hexDigit {n : Nat} (h : n < 16) : hexValue (hexDigit n) = some n := by
  have all : ∀ n : Fin 16, hexValue (hexDigit n) = some n.1 := by decide
  exact all ⟨n, h⟩

theorem escaped_hexDigits (b : UInt8) (rest : List UInt8) :
    escaped (hexDigit (b.toNat / 16) :: hexDigit (b.toNat % 16) :: rest) = some b := by
  have hb := b.toNat_lt
  have hhigh : hexValue (hexDigit (b.toNat / 16)) = some (b.toNat / 16) := hexValue_hexDigit (by omega)
  have hlow : hexValue (hexDigit (b.toNat % 16)) = some (b.toNat % 16) := hexValue_hexDigit (by omega)
  unfold escaped
  simp only [hhigh, hlow]
  rw [show b.toNat / 16 * 16 + b.toNat % 16 = b.toNat by omega, UInt8.ofNat_toNat]

theorem decode_cons {b : UInt8} (h : b ≠ 37) (rest : List UInt8) : decode (b :: rest) = b :: decode rest := by
  unfold decode
  rw [decodeFrom, if_neg h]

theorem decode_encodeByte (b : UInt8) (rest : List UInt8) : decode (encodeByte b ++ rest) = b :: decode rest := by
  show decodeFrom 0 (37 :: hexDigit (b.toNat / 16) :: hexDigit (b.toNat % 16) :: rest) = _
  rw [decodeFrom, if_pos rfl, escaped_hexDigits]
  rfl

section
variable {keep : UInt8 → Bool}

theorem digits_of_escaped {P : UInt8 → Prop} (hdigit : ∀ b, (hexValue b).isSome = true → P b) {rest : List UInt8}
    (h : (escaped rest).isSome = true) : ∀ b ∈ rest.take 2, P b := by
  match rest, h with
  | high :: low :: rest, h =>
    cases hh : hexValue high with
    | none => simp [escaped, hh] at h
    | some x =>
      cases hl : hexValue low with
      | none => simp [escaped, hh, hl] at h
      | some y =>
        exact List.forall_mem_cons.mpr ⟨hdigit _ (by rw [hh]; rfl), List.forall_mem_cons.mpr ⟨hdigit _ (by rw [hl]; rfl), nofun⟩⟩

/-- The two digits of an escape are copied. -/
theorem escaped_encodeFrom {rest : List UInt8} (h : (escaped rest).isSome = true) :
    escaped (encodeFrom keep 2 rest) = escaped rest := by
  match rest, h with
  | _ :: _ :: _, _ => rfl

theorem decodeFrom_encodeFrom (hkeep : keep 37 = false) (bytes : List UInt8) (skip : Nat) :
    decodeFrom skip (encodeFrom keep skip bytes) = decodeFrom skip bytes := by
  induction bytes generalizing skip with
  | nil => rfl
  | cons b rest ih =>
    cases skip with
    | succ skip => exact ih skip
    | zero =>
      rw [encodeFrom]
      by_cases hk : keep b = true
      · have hb : b ≠ 37 := by
          rintro rfl
          rw [hkeep] at hk
          cases hk
        rw [if_pos hk, decodeFrom, decodeFrom, if_neg hb, if_neg hb, ih]
      · rw [if_neg hk]
        by_cases he : b = 37 ∧ (escaped rest).isSome = true
        · obtain ⟨hb, hsome⟩ := he
          obtain ⟨c, hc⟩ := Option.isSome_iff_exists.mp hsome
          rw [if_pos ⟨hb, hsome⟩, decodeFrom, decodeFrom, if_pos hb, if_pos hb, escaped_encodeFrom hsome, hc]
          exact congrArg _ (ih 2)
        · rw [if_neg he]
          refine (decode_encodeByte b _).trans ?_
          have hrest : decode (encodeFrom keep 0 rest) = decode rest := ih 0
          rw [hrest, decodeFrom]
          by_cases hb : b = 37
          · have hnone : escaped rest = none := by
              rw [← Option.not_isSome_iff_eq_none]
              exact fun hsome => he ⟨hb, hsome⟩
            rw [if_pos hb, hnone]
            rfl
          · rw [if_neg hb]
            rfl

/-- The encoded text stands for the same bytes. -/
theorem decode_encode (hkeep : keep 37 = false) (bytes : List UInt8) : decode (encode keep bytes) = decode bytes :=
  decodeFrom_encodeFrom hkeep bytes 0

theorem encodeFrom_encodeFrom (hkeep : keep 37 = false) (bytes : List UInt8) (skip : Nat) :
    encodeFrom keep skip (encodeFrom keep skip bytes) = encodeFrom keep skip bytes := by
  induction bytes generalizing skip with
  | nil => rfl
  | cons b rest ih =>
    cases skip with
    | succ skip => exact congrArg (b :: ·) (ih skip)
    | zero =>
      rw [encodeFrom]
      by_cases hk : keep b = true
      · rw [if_pos hk, encodeFrom, if_pos hk, ih]
      · rw [if_neg hk]
        by_cases he : b = 37 ∧ (escaped rest).isSome = true
        · have he' : b = 37 ∧ (escaped (encodeFrom keep 2 rest)).isSome = true := by
            rw [escaped_encodeFrom he.2]
            exact he
          rw [if_pos he, encodeFrom, if_neg hk, if_pos he', ih]
        · have hpercent : ¬keep 37 = true := by
            rw [hkeep]
            exact Bool.false_ne_true
          rw [if_neg he]
          show encodeFrom keep 0 (37 :: hexDigit (b.toNat / 16) :: hexDigit (b.toNat % 16) :: encodeFrom keep 0 rest) = _
          rw [encodeFrom, if_neg hpercent, if_pos ⟨rfl, by rw [escaped_hexDigits]; rfl⟩]
          show 37 :: hexDigit (b.toNat / 16) :: hexDigit (b.toNat % 16) :: encodeFrom keep 0 (encodeFrom keep 0 rest) = _
          rw [ih]
          rfl

/-- Nothing is left to encode. -/
theorem encode_encode (hkeep : keep 37 = false) (bytes : List UInt8) : encode keep (encode keep bytes) = encode keep bytes :=
  encodeFrom_encodeFrom hkeep bytes 0

/-- What is written is kept, a `%` or a digit of an escape. -/
theorem forall_mem_encodeFrom {P : UInt8 → Prop} (hkeep : ∀ b, keep b = true → P b) (hpercent : P 37)
    (hdigit : ∀ b, (hexValue b).isSome = true → P b) (bytes : List UInt8) (skip : Nat) (hskip : ∀ b ∈ bytes.take skip, P b) :
    ∀ b ∈ encodeFrom keep skip bytes, P b := by
  induction bytes generalizing skip with
  | nil => exact nofun
  | cons b rest ih =>
    cases skip with
    | succ skip =>
      obtain ⟨hb, hrest⟩ := List.forall_mem_cons.mp hskip
      exact List.forall_mem_cons.mpr ⟨hb, ih skip hrest⟩
    | zero =>
      have hnone : ∀ b ∈ rest.take 0, P b := nofun
      rw [encodeFrom]
      by_cases hk : keep b = true
      · rw [if_pos hk]
        exact List.forall_mem_cons.mpr ⟨hkeep b hk, ih 0 hnone⟩
      · rw [if_neg hk]
        by_cases he : b = 37 ∧ (escaped rest).isSome = true
        · rw [if_pos he]
          refine List.forall_mem_cons.mpr ⟨he.1 ▸ hpercent, ih 2 ?_⟩
          exact digits_of_escaped hdigit he.2
        · have hb := b.toNat_lt
          rw [if_neg he]
          refine List.forall_mem_append.mpr ⟨?_, ih 0 hnone⟩
          have hone : ∀ n, n < 16 → P (hexDigit n) := fun n hn => hdigit _ (by rw [hexValue_hexDigit hn]; rfl)
          exact List.forall_mem_cons.mpr ⟨hpercent, List.forall_mem_cons.mpr ⟨hone _ (by omega),
            List.forall_mem_cons.mpr ⟨hone _ (by omega), nofun⟩⟩⟩

/-- Text of kept bytes and of escapes. -/
inductive Encoded (keep : UInt8 → Bool) : List UInt8 → Prop
  | nil : Encoded keep []
  | kept {b : UInt8} {rest : List UInt8} : keep b = true → Encoded keep rest → Encoded keep (b :: rest)
  | escape {h l : UInt8} {rest : List UInt8} : (hexValue h).isSome = true → (hexValue l).isSome = true →
      Encoded keep rest → Encoded keep (37 :: h :: l :: rest)

theorem encoded_encode (keep : UInt8 → Bool) (bytes : List UInt8) : Encoded keep (encode keep bytes) := by
  unfold encode
  induction hn : bytes.length using Nat.strongRecOn generalizing bytes with
  | ind n ih =>
    cases bytes with
    | nil => exact .nil
    | cons b rest =>
      have hrest : Encoded keep (encodeFrom keep 0 rest) := ih rest.length (by simp [← hn]) rest rfl
      rw [encodeFrom]
      by_cases hk : keep b = true
      · rw [if_pos hk]
        exact .kept hk hrest
      · rw [if_neg hk]
        by_cases he : b = 37 ∧ (escaped rest).isSome = true
        · obtain ⟨rfl, hsome⟩ := he
          rw [if_pos ⟨rfl, hsome⟩]
          match rest, hsome with
          | high :: low :: rest, hsome =>
            have hdigits := digits_of_escaped (P := fun b => (hexValue b).isSome = true) (fun _ hb => hb) hsome
            obtain ⟨hhigh, hlow⟩ := List.forall_mem_cons.mp hdigits
            refine .escape hhigh (hlow low List.mem_cons_self) (ih rest.length ?_ rest rfl)
            rw [← hn, List.length_cons, List.length_cons, List.length_cons]
            omega
        · have hb := b.toNat_lt
          rw [if_neg he]
          exact .escape (by rw [hexValue_hexDigit (by omega)]; rfl) (by rw [hexValue_hexDigit (by omega)]; rfl) hrest

end

end PercentEncoding
