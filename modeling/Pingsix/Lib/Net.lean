import Pingsix.Lib.Text

/-!
# Address literals

Textual IPv4 and IPv6 addresses, read the way the standard parser reads them:
each reader consumes a prefix and an address is the whole text.
-/

namespace Net

def digitValue (radix : Nat) (c : Char) : Option Nat :=
  let n :=
    if '0' ≤ c ∧ c ≤ '9' then c.toNat - '0'.toNat
    else if 'a' ≤ c ∧ c ≤ 'z' then c.toNat - 'a'.toNat + 10
    else if 'A' ≤ c ∧ c ≤ 'Z' then c.toNat - 'A'.toNat + 10
    else radix
  if n < radix then some n else none

def isDigit (radix : Nat) (c : Char) : Bool := (digitValue radix c).isSome

def digitsValue (radix : Nat) (ds : List Char) : Nat :=
  ds.foldl (fun n c => n * radix + (digitValue radix c).getD 0) 0

/-- A number of at most `maxDigits` digits below `bound`. -/
def readNumber (radix maxDigits bound : Nat) (allowZeroPrefix : Bool) (s : List Char) : Option (Nat × List Char) :=
  let ds := s.takeWhile (isDigit radix)
  if ds = [] ∨ maxDigits < ds.length then none
  else if !allowZeroPrefix ∧ ds.head? = some '0' ∧ 1 < ds.length then none
  else if bound ≤ digitsValue radix ds then none
  else some (digitsValue radix ds, s.drop ds.length)

def readGivenChar (c : Char) : List Char → Option (List Char)
  | x :: xs => if x = c then some xs else none
  | [] => none

/-- Before the group with index `i`, a separator unless it is the first. -/
def readSeparator (i : Nat) (s : List Char) : Option (List Char) :=
  if i = 0 then some s else readGivenChar ':' s

def readOctets : Nat → Bool → List Char → Option (List Nat × List Char)
  | 0, _, s => some ([], s)
  | n + 1, dot, s => do
    let s ← if dot then readGivenChar '.' s else some s
    let (o, s) ← readNumber 10 3 256 false s
    let (os, s) ← readOctets n true s
    return (o :: os, s)

def readIpv4 (s : List Char) : Option (List Nat × List Char) := readOctets 4 false s

/-- Up to `limit` more groups from index `i` on, and whether they end in an embedded IPv4 address. -/
def readGroups : (limit i : Nat) → List Char → List Nat × Bool × List Char
  | 0, _, s => ([], false, s)
  | limit + 1, i, s =>
    let ipv4 := if 0 < limit then (readSeparator i s).bind readIpv4 else none
    match ipv4 with
    | some ([a, b, c, d], s) => ([a * 256 + b, c * 256 + d], true, s)
    | _ =>
      match (readSeparator i s).bind (readNumber 16 4 65536 true) with
      | none => ([], false, s)
      | some (g, s) =>
        let (gs, v4, s) := readGroups limit (i + 1) s
        (g :: gs, v4, s)

def readIpv6 (s : List Char) : Option (List Nat × List Char) :=
  let (head, headIpv4, s) := readGroups 8 0 s
  if head.length = 8 then some (head, s)
  else if headIpv4 then none
  else do
    let s ← readGivenChar ':' s
    let s ← readGivenChar ':' s
    let (tail, _, s) := readGroups (7 - head.length) 0 s
    return (head ++ List.replicate (8 - head.length - tail.length) 0 ++ tail, s)

def parseIpv4 (s : List Char) : Option (List Nat) :=
  match readIpv4 s with
  | some (octets, []) => if s.length ≤ 15 then some octets else none
  | _ => none

def parseIpv6 (s : List Char) : Option (List Nat) :=
  match readIpv6 s with
  | some (groups, []) => some groups
  | _ => none

example : parseIpv6 "2001:db8::1.2.3.4".toList = some [8193, 3512, 0, 0, 0, 0, 258, 772] := by decide

end Net
