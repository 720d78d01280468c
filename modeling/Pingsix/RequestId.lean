import Pingsix.Lib.Digits
import Pingsix.Lib.MachineInt

/-!
# Request ids

The ids in KSUID form: the seconds since an epoch of their own and sixteen random
bytes, 160 bits in 27 digits of base 62. What the clock shows and the random
bytes are parameters. Arithmetic on `u16` is an error where a build checks for
overflow, and so is an index past the alphabet in every build.
-/

namespace Pingsix

namespace RequestId

/-- Values 0-9, 10-35, 36-61. -/
def ksuidAlphabet : List UInt8 := "0123456789ABCDEFGHIJKLMNOPQRSTUVWXYZabcdefghijklmnopqrstuvwxyz".toUTF8.data.toList

def ksuidEncodedLength : Nat := 27

/-- 2014-05-13T16:53:20Z -/
def ksuidEpochSecs : Nat := 1400000000

inductive Panic where
  | overflow
  | indexOutOfBounds
  | invalidDigit
  deriving DecidableEq, Repr

/-- A `u16` result. -/
def u16 (arithmetic : Arithmetic) (n : Nat) : Except Panic Nat := (arithmetic.fit 16 n).mapError fun _ => .overflow

/-- One inner loop over digits of the base, the least significant first. -/
def carryThrough (arithmetic : Arithmetic) (base factor : Nat) : List Nat → Nat → Except Panic (List Nat × Nat)
  | [], carry => .ok ([], carry)
  | digit :: rest, carry => do
    let product ← u16 arithmetic (digit * factor)
    let value ← u16 arithmetic (product + carry)
    let (rest, carry) ← carryThrough arithmetic base factor rest (value / base)
    return (value % base % 2 ^ 8 :: rest, carry)

/-- The digits with one more byte, and the carry that the loop drops. -/
def pushByte (arithmetic : Arithmetic) (digits : List Nat) (byte : Nat) : Except Panic (List Nat × Nat) := do
  let (digits, carry) ← carryThrough arithmetic 62 256 digits.reverse byte
  return (digits.reverse, carry)

def pushBytes (arithmetic : Arithmetic) (digits : List Nat) (bytes : List Nat) : Except Panic (List Nat) :=
  bytes.foldlM (fun digits byte => (·.1) <$> pushByte arithmetic digits byte) digits

def timestampBytes (timestamp : UInt32) : List Nat :=
  [timestamp.toNat / 2 ^ 24, timestamp.toNat / 2 ^ 16 % 2 ^ 8, timestamp.toNat / 2 ^ 8 % 2 ^ 8, timestamp.toNat % 2 ^ 8]

/-- The timestamp, big-endian, and the random bytes. -/
def ksuidPayload (timestamp : UInt32) (random : Vector UInt8 16) : List Nat :=
  timestampBytes timestamp ++ random.toList.map UInt8.toNat

def ksuidChar (digit : Nat) : Except Panic Char :=
  match ksuidAlphabet[digit]? with
  | some c => .ok (Char.ofNat c.toNat)
  | none => .error .indexOutOfBounds

def encodeKsuid (arithmetic : Arithmetic) (timestamp : UInt32) (random : Vector UInt8 16) : Except Panic String := do
  let digits ← pushBytes arithmetic (List.replicate ksuidEncodedLength 0) (ksuidPayload timestamp random)
  let chars ← digits.mapM ksuidChar
  return String.ofList chars

def ksuidTimestamp (unixSecs : UInt64) : UInt32 := .ofNat (min (unixSecs.toNat - ksuidEpochSecs) (2 ^ 32 - 1))

def getKsuid (arithmetic : Arithmetic) (unixSecs : UInt64) (random : Vector UInt8 16) : Except Panic String :=
  encodeKsuid arithmetic (ksuidTimestamp unixSecs) random

/-! ## Decoding, as the tests do it -/

/-- The value of a character, which is cut to a byte first. -/
def digitOf (ch : Char) : Except Panic Nat :=
  match ksuidAlphabet.findIdx? (·.toNat = ch.toNat % 2 ^ 8) with
  | some digit => .ok digit
  | none => .error .invalidDigit

/-- One more character for a number in bytes, the least significant first. -/
def pushChar (arithmetic : Arithmetic) (number : List Nat) (ch : Char) : Except Panic (List Nat) := do
  let digit ← digitOf ch
  let (number, carry) ← carryThrough arithmetic 256 62 number digit
  return number ++ Nat.digits 256 carry

def base62Decode (arithmetic : Arithmetic) (encoded : String) : Except Panic (List Nat) := do
  let number ← encoded.toList.foldlM (pushChar arithmetic) []
  return List.leftpad 20 0 number.reverse

end RequestId

end Pingsix
