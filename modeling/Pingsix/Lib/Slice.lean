import Pingsix.Lib.Utf8

/-!
# Slices at byte positions

Cutting a text at a byte position. A cut beyond the end or inside a character
has no result: a program that attempts one panics.
-/

namespace Text

def byteLength (cs : List Char) : Nat := (cs.map Char.utf8Size).sum

def cutChars : Nat → List Char → Option (List Char × List Char)
  | 0, cs => some ([], cs)
  | _ + 1, [] => none
  | i + 1, c :: cs =>
    if c.utf8Size ≤ i + 1 then (cutChars (i + 1 - c.utf8Size) cs).map fun p => (c :: p.1, p.2) else none

def sliceTo (s : String) (i : Nat) : Option String := (cutChars i s.toList).map fun p => String.ofList p.1

def sliceFrom (s : String) (i : Nat) : Option String := (cutChars i s.toList).map fun p => String.ofList p.2

def byteAt (s : String) (i : Nat) : Option UInt8 := s.toUTF8.data[i]?

/-- A character starts at the position or the text ends there. -/
def IsCharBoundary (s : String) (i : Nat) : Prop := (cutChars i s.toList).isSome = true

instance (s : String) (i : Nat) : Decidable (IsCharBoundary s i) := inferInstanceAs (Decidable (_ = true))

/-! ## Lengths -/

@[simp] theorem byteLength_nil : byteLength [] = 0 := rfl

@[simp] theorem byteLength_cons (c : Char) (cs : List Char) : byteLength (c :: cs) = c.utf8Size + byteLength cs := by
  simp [byteLength]

@[simp] theorem byteLength_append (cs ds : List Char) : byteLength (cs ++ ds) = byteLength cs + byteLength ds := by
  simp [byteLength]

theorem byteLength_eq_zero {cs : List Char} (h : byteLength cs = 0) : cs = [] := by
  cases cs with
  | nil => rfl
  | cons c cs =>
    have hpos := c.utf8Size_pos
    rw [byteLength_cons] at h
    omega

theorem length_encode (cs : List Char) : (cs.flatMap String.utf8EncodeChar).length = byteLength cs := by
  induction cs with
  | nil => rfl
  | cons c cs ih => rw [List.flatMap_cons, List.length_append, ih, byteLength_cons, String.length_utf8EncodeChar]

theorem utf8ByteSize_eq (s : String) : s.utf8ByteSize = byteLength s.toList := by
  rw [← length_encode, ← Utf8.toUTF8_toList, Array.length_toList]
  rfl

/-! ## Cuts -/

theorem cutChars_append (a b : List Char) : cutChars (byteLength a) (a ++ b) = some (a, b) := by
  induction a with
  | nil => cases b <;> rfl
  | cons c a ih =>
    obtain ⟨n, hn⟩ : ∃ n, c.utf8Size + byteLength a = n + 1 := ⟨c.utf8Size + byteLength a - 1, by
      have hpos := c.utf8Size_pos
      omega⟩
    rw [byteLength_cons, hn, List.cons_append, cutChars, if_pos (by omega), ← hn, Nat.add_sub_cancel_left, ih]
    rfl

theorem cutChars_eq_some {i : Nat} {cs a b : List Char} :
    cutChars i cs = some (a, b) ↔ cs = a ++ b ∧ byteLength a = i := by
  constructor
  · intro h
    induction cs generalizing i a with
    | nil =>
      cases i with
      | zero =>
        cases h
        exact ⟨rfl, rfl⟩
      | succ i => cases h
    | cons c cs ih =>
      cases i with
      | zero =>
        cases h
        exact ⟨rfl, rfl⟩
      | succ i =>
        rw [cutChars] at h
        split at h
        · rename_i hle
          obtain ⟨⟨a', b'⟩, hc, he⟩ := Option.map_eq_some_iff.mp h
          cases he
          obtain ⟨rfl, hl⟩ := ih hc
          exact ⟨rfl, by rw [byteLength_cons, hl, Nat.add_sub_cancel' hle]⟩
        · cases h
  · rintro ⟨rfl, rfl⟩
    exact cutChars_append a b

theorem isCharBoundary_iff {s : String} {i : Nat} :
    IsCharBoundary s i ↔ ∃ a b, s.toList = a ++ b ∧ byteLength a = i := by
  unfold IsCharBoundary
  rw [Option.isSome_iff_exists]
  constructor
  · rintro ⟨⟨a, b⟩, h⟩
    exact ⟨a, b, cutChars_eq_some.mp h⟩
  · rintro ⟨a, b, h⟩
    exact ⟨(a, b), cutChars_eq_some.mpr h⟩

theorem sliceFrom_eq_none {s : String} {i : Nat} : sliceFrom s i = none ↔ ¬IsCharBoundary s i := by
  unfold sliceFrom IsCharBoundary
  cases cutChars i s.toList <;> simp

theorem sliceTo_eq_none {s : String} {i : Nat} : sliceTo s i = none ↔ ¬IsCharBoundary s i := by
  unfold sliceTo IsCharBoundary
  cases cutChars i s.toList <;> simp

theorem sliceFrom_append {s : String} {a b : List Char} (h : s.toList = a ++ b) :
    sliceFrom s (byteLength a) = some (String.ofList b) := by
  rw [sliceFrom, h, cutChars_append]
  rfl

theorem sliceTo_append {s : String} {a b : List Char} (h : s.toList = a ++ b) :
    sliceTo s (byteLength a) = some (String.ofList a) := by
  rw [sliceTo, h, cutChars_append]
  rfl

/-! ## Bytes -/

theorem byteAt_eq (s : String) (i : Nat) : byteAt s i = (s.toList.flatMap String.utf8EncodeChar)[i]? := by
  rw [byteAt, ← Utf8.toUTF8_toList, Array.getElem?_toList]

/-- The last byte a character is written as is an ASCII byte for that ASCII character only. -/
theorem getLast?_encode {c d : Char} (hd : d.toNat < 0x80) :
    (String.utf8EncodeChar c).getLast? = some (UInt8.ofNat d.toNat) ↔ c = d := by
  have hne : ∀ n, n % 0x40 + 0x80 ≠ d.toNat := fun n => by omega
  have hbyte : ∀ n, n < 256 → (UInt8.ofNat n = UInt8.ofNat d.toNat ↔ n = d.toNat) := by
    intro n hn
    constructor
    · intro h
      have := congrArg UInt8.toNat h
      rwa [Utf8.toNat_ofNat hn, Utf8.toNat_ofNat (by omega)] at this
    · rintro rfl
      rfl
  have hlast : ∀ n, UInt8.ofNat (n % 0x40 + 0x80) ≠ UInt8.ofNat d.toNat := fun n h =>
    hne n ((hbyte _ (by omega)).mp h)
  have hcd : c = d ↔ c.toNat = d.toNat := ⟨fun h => h ▸ rfl, fun h => Char.ext (UInt32.toNat_inj.mp h)⟩
  rw [hcd]
  unfold String.utf8EncodeChar
  simp only [show c.val.toNat = c.toNat from rfl]
  generalize c.toNat = v
  split
  · rw [List.getLast?_singleton, Option.some_inj]
    exact hbyte v (by omega)
  -- the last byte of a longer character is a continuation byte
  have htail : ∀ bs : List UInt8, ¬v ≤ 0x7f →
      ((bs ++ [UInt8.ofNat (v % 0x40 + 0x80)]).getLast? = some (UInt8.ofNat d.toNat) ↔ v = d.toNat) := by
    intro bs hv
    rw [List.getLast?_concat, Option.some_inj]
    exact ⟨fun h => absurd h (hlast v), fun h => absurd (h ▸ hd) (by omega)⟩
  split
  · exact htail [_] (by omega)
  split
  · exact htail [_, _] (by omega)
  · exact htail [_, _, _] (by omega)

/-- The byte in front of a boundary shows whether the character there is a given ASCII one. -/
theorem byteAt_last {s : String} {a b : List Char} {c d : Char} (h : s.toList = (a ++ [c]) ++ b)
    (hd : d.toNat < 0x80) : byteAt s (byteLength (a ++ [c]) - 1) = some (UInt8.ofNat d.toNat) ↔ c = d := by
  have hne : String.utf8EncodeChar c ≠ [] := by
    intro he
    have hpos := c.utf8Size_pos
    rw [← String.length_utf8EncodeChar, he] at hpos
    exact Nat.lt_irrefl _ hpos
  rw [byteAt_eq, h, List.flatMap_append, List.flatMap_append, List.flatMap_singleton, ← getLast?_encode hd,
    List.getLast?_eq_getElem?, byteLength_append, ← length_encode a]
  have hlen : byteLength [c] = (String.utf8EncodeChar c).length := by simp [String.length_utf8EncodeChar]
  have hpos := List.length_pos_iff.mpr hne
  rw [hlen, List.getElem?_append_left (by simp only [List.length_append]; omega), List.getElem?_append_right (by omega)]
  rw [show (a.flatMap String.utf8EncodeChar).length + (String.utf8EncodeChar c).length - 1 -
    (a.flatMap String.utf8EncodeChar).length = (String.utf8EncodeChar c).length - 1 by omega]

theorem byteAt_ne_none {s : String} {i : Nat} (h : i < s.utf8ByteSize) : byteAt s i ≠ none := by
  rw [utf8ByteSize_eq, ← length_encode] at h
  rw [byteAt_eq, List.getElem?_eq_getElem h]
  exact Option.some_ne_none _

theorem extract_sliceTo {s head : String} {i : Nat} (h : sliceTo s i = some head) :
    s.toUTF8.extract 0 i = head.toUTF8 := by
  obtain ⟨⟨a, b⟩, hc, rfl⟩ := Option.map_eq_some_iff.mp h
  obtain ⟨hs, rfl⟩ := cutChars_eq_some.mp hc
  apply ByteArray.ext
  apply Array.toList_inj.mp
  rw [Utf8.toUTF8_toList, String.toList_ofList, ByteArray.data_extract, Array.toList_extract, Utf8.toUTF8_toList, hs,
    List.flatMap_append, List.extract_eq_take_drop, List.drop_zero, Nat.sub_zero, ← length_encode a, List.take_left]

end Text
