import Mathlib.Data.List.Basic
import Mathlib.Data.Nat.Basic

/-!
# Base64

The standard alphabet with padding: three bytes are four digits, and what was
encoded is decoded again.
-/

namespace Base64

def alphabet : List Char := "ABCDEFGHIJKLMNOPQRSTUVWXYZabcdefghijklmnopqrstuvwxyz0123456789+/".toList

def digit (n : Nat) : Char := alphabet.getD n '='

def value (c : Char) : Option Nat := alphabet.idxOf? c

set_option maxRecDepth 10000 in
theorem value_digit {n : Nat} (h : n < 64) : value (digit n) = some n := by
  have all : ∀ n : Fin 64, value (digit n) = some n.1 := by decide
  exact all ⟨n, h⟩

set_option maxRecDepth 10000 in
theorem digit_ne_pad {n : Nat} (h : n < 64) : digit n ≠ '=' := by
  have all : ∀ n : Fin 64, digit n ≠ '=' := by decide
  exact all ⟨n, h⟩

/-! ## Bytes and digits -/

def encodeBytes : List UInt8 → List Char
  | [] => []
  | [a] => [digit (a.toNat / 4), digit (a.toNat % 4 * 16), '=', '=']
  | [a, b] =>
    [digit (a.toNat / 4), digit (a.toNat % 4 * 16 + b.toNat / 16), digit (b.toNat % 16 * 4), '=']
  | a :: b :: c :: rest =>
    digit (a.toNat / 4) :: digit (a.toNat % 4 * 16 + b.toNat / 16) ::
      digit (b.toNat % 16 * 4 + c.toNat / 64) :: digit (c.toNat % 64) :: encodeBytes rest

/-- Padding stands only at the end, and the bits it cuts off are zero. -/
def decodeChars : List Char → Option (List UInt8)
  | [] => some []
  | w :: x :: y :: z :: rest => do
    let w ← value w
    let x ← value x
    if z = '=' ∧ rest = [] then
      if y = '=' then
        if x % 16 = 0 then some [.ofNat (w * 4 + x / 16)] else none
      else
        let y ← value y
        if y % 4 = 0 then some [.ofNat (w * 4 + x / 16), .ofNat (x % 16 * 16 + y / 4)] else none
    else
      let y ← value y
      let z ← value z
      let rest ← decodeChars rest
      return .ofNat (w * 4 + x / 16) :: .ofNat (x % 16 * 16 + y / 4) :: .ofNat (y % 4 * 64 + z) :: rest
  | _ => none

theorem ofNat_eq {n : Nat} {a : UInt8} (h : n = a.toNat) : UInt8.ofNat n = a := by
  rw [h, UInt8.ofNat_toNat]

theorem decodeChars_encodeBytes : ∀ l, decodeChars (encodeBytes l) = some l
  | [] => rfl
  | [a] => by
    have ha := a.toNat_lt
    simp only [encodeBytes, decodeChars, value_digit (show a.toNat / 4 < 64 by omega),
      value_digit (show a.toNat % 4 * 16 < 64 by omega), Option.bind_eq_bind, Option.bind_some, and_self, if_true,
      show a.toNat % 4 * 16 % 16 = 0 by omega]
    rw [ofNat_eq (a := a) (by omega)]
  | [a, b] => by
    have ha := a.toNat_lt
    have hb := b.toNat_lt
    simp only [encodeBytes, decodeChars, value_digit (show a.toNat / 4 < 64 by omega),
      value_digit (show a.toNat % 4 * 16 + b.toNat / 16 < 64 by omega),
      value_digit (show b.toNat % 16 * 4 < 64 by omega), digit_ne_pad (show b.toNat % 16 * 4 < 64 by omega),
      Option.bind_eq_bind, Option.bind_some, and_self, if_true, if_false, show b.toNat % 16 * 4 % 4 = 0 by omega]
    rw [ofNat_eq (a := a) (by omega), ofNat_eq (a := b) (by omega)]
  | a :: b :: c :: rest => by
    have ha := a.toNat_lt
    have hb := b.toNat_lt
    have hc := c.toNat_lt
    simp only [encodeBytes, decodeChars, value_digit (show a.toNat / 4 < 64 by omega),
      value_digit (show a.toNat % 4 * 16 + b.toNat / 16 < 64 by omega),
      value_digit (show b.toNat % 16 * 4 + c.toNat / 64 < 64 by omega),
      value_digit (show c.toNat % 64 < 64 by omega), digit_ne_pad (show c.toNat % 64 < 64 by omega),
      Option.bind_eq_bind, Option.bind_some, false_and, if_false, decodeChars_encodeBytes rest]
    rw [ofNat_eq (a := a) (by omega), ofNat_eq (a := b) (by omega), ofNat_eq (a := c) (by omega)]
    rfl

theorem decodeChars_length : ∀ {cs : List Char} {l : List UInt8}, decodeChars cs = some l → l.length ≤ cs.length
  | [], l, h => by cases h; exact Nat.le_refl _
  | [_], l, h => by cases h
  | [_, _], l, h => by cases h
  | [_, _, _], l, h => by cases h
  | w :: x :: y :: z :: rest, l, h => by
    unfold decodeChars at h
    simp only [Option.bind_eq_bind, Option.bind_eq_some_iff] at h
    obtain ⟨w', -, x', -, h⟩ := h
    split at h
    · split at h
      · split at h
        · cases h; simp
        · cases h
      · simp only [Option.bind_eq_some_iff] at h
        obtain ⟨y', -, h⟩ := h
        split at h
        · cases h; simp
        · cases h
    · simp only [Option.bind_eq_some_iff] at h
      obtain ⟨y', -, z', -, l', hl, h⟩ := h
      cases h
      have := decodeChars_length hl
      simp only [List.length_cons]
      omega

/-! ## Byte arrays and strings -/

def encode (bytes : ByteArray) : String := String.ofList (encodeBytes bytes.data.toList)

def decode (s : String) : Option ByteArray := (decodeChars s.toList).map fun l => ⟨l.toArray⟩

theorem decode_encode (bytes : ByteArray) : decode (encode bytes) = some bytes := by
  simp [decode, encode, decodeChars_encodeBytes]

theorem decode_size {s : String} {bytes : ByteArray} (h : decode s = some bytes) : bytes.size ≤ s.length := by
  unfold decode at h
  rw [Option.map_eq_some_iff] at h
  obtain ⟨l, hl, rfl⟩ := h
  have := decodeChars_length hl
  rw [String.length_toList] at this
  simpa [ByteArray.size] using this

end Base64
