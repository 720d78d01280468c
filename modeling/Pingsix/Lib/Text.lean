import Mathlib.Algebra.Ring.Nat
import Mathlib.Data.List.TakeWhile

/-!
# String slices

Prefix stripping, splitting at a separator and trimming, on the characters of
a string, each with the equation that inverts it.
-/

namespace Text

/-! ## Characters -/

def splitOnceChars (c : Char) : List Char → Option (List Char × List Char)
  | [] => none
  | x :: xs => if x = c then some ([], xs) else (splitOnceChars c xs).map fun p => (x :: p.1, p.2)

/-- What follows the last `c`, or everything when there is no `c`. -/
def lastSegmentChars (c : Char) (l : List Char) : List Char :=
  (l.reverse.takeWhile (· ≠ c)).reverse

/-- The pieces between the occurrences of `c`. -/
def splitChars (c : Char) : List Char → List (List Char)
  | [] => [[]]
  | x :: xs =>
    if x = c then [] :: splitChars c xs
    else
      match splitChars c xs with
      | [] => [[x]]
      | piece :: pieces => (x :: piece) :: pieces

def containsChars (pattern : List Char) : List Char → Bool
  | [] => pattern.isEmpty
  | c :: cs => pattern.isPrefixOf (c :: cs) || containsChars pattern cs

theorem bounds_of_isAlpha {c : Char} (h : c.isAlpha = true) : 65 ≤ c.toNat ∧ c.toNat ≤ 122 := by
  obtain hupper | hlower := Bool.or_eq_true_iff.mp h
  · obtain ⟨hlow, hhigh⟩ := of_decide_eq_true hupper
    exact ⟨UInt32.le_iff_toNat_le.mp hlow, (UInt32.le_iff_toNat_le.mp hhigh).trans (by decide)⟩
  · obtain ⟨hlow, hhigh⟩ := Bool.and_eq_true_iff.mp hlower
    exact ⟨Nat.le_trans (by decide) (UInt32.le_iff_toNat_le.mp (of_decide_eq_true hlow)),
      UInt32.le_iff_toNat_le.mp (of_decide_eq_true hhigh)⟩

theorem bounds_of_isAlphanum {c : Char} (h : c.isAlphanum = true) : 48 ≤ c.toNat ∧ c.toNat ≤ 122 := by
  obtain halpha | hdigit := Bool.or_eq_true_iff.mp h
  · exact ⟨Nat.le_trans (by decide) (bounds_of_isAlpha halpha).1, (bounds_of_isAlpha halpha).2⟩
  · obtain ⟨hlow, hhigh⟩ := Bool.and_eq_true_iff.mp hdigit
    exact ⟨UInt32.le_iff_toNat_le.mp (of_decide_eq_true hlow),
      (UInt32.le_iff_toNat_le.mp (of_decide_eq_true hhigh)).trans (by decide)⟩

theorem splitOnceChars_eq_some {c : Char} : ∀ {l a b : List Char},
    splitOnceChars c l = some (a, b) ↔ l = a ++ c :: b ∧ c ∉ a
  | [], a, b => by simp [splitOnceChars]
  | x :: xs, a, b => by
    by_cases hx : x = c
    · subst hx
      simp only [splitOnceChars, if_true, Option.some.injEq, Prod.mk.injEq]
      constructor
      · rintro ⟨rfl, rfl⟩; simp
      · rintro ⟨h, hn⟩
        cases a with
        | nil => simpa using h
        | cons y a => simp only [List.cons_append, List.cons.injEq] at h; simp [h.1] at hn
    · simp only [splitOnceChars, hx, if_false, Option.map_eq_some_iff]
      constructor
      · rintro ⟨⟨a', b'⟩, hs, he⟩
        simp only [Prod.mk.injEq] at he
        obtain ⟨rfl, rfl⟩ := he
        obtain ⟨rfl, hn⟩ := splitOnceChars_eq_some.mp hs
        exact ⟨rfl, by simp [hn, Ne.symm hx]⟩
      · rintro ⟨h, hn⟩
        cases a with
        | nil => simp only [List.nil_append, List.cons.injEq] at h; exact absurd h.1 hx
        | cons y a =>
          simp only [List.cons_append, List.cons.injEq] at h
          obtain ⟨rfl, rfl⟩ := h
          exact ⟨(a, b), splitOnceChars_eq_some.mpr ⟨rfl, fun hm => hn (by simp [hm])⟩, rfl⟩

theorem lastSegmentChars_append {c : Char} (a : List Char) {b : List Char} (hb : c ∉ b) :
    lastSegmentChars c (a ++ c :: b) = b := by
  have hr : ∀ x ∈ b.reverse, decide (x ≠ c) = true := by
    intro x hx
    have : x ≠ c := fun e => hb (e ▸ List.mem_reverse.mp hx)
    simpa using this
  unfold lastSegmentChars
  rw [List.reverse_append, List.reverse_cons, List.append_assoc, List.takeWhile_append_of_pos hr]
  simp

/-! ## Strings -/

def startsWith (s p : String) : Bool := p.toList.isPrefixOf s.toList

def stripPrefix (s p : String) : Option String :=
  if startsWith s p then some (String.ofList (s.toList.drop p.toList.length)) else none

def splitOnce (s : String) (c : Char) : Option (String × String) :=
  (splitOnceChars c s.toList).map fun p => (String.ofList p.1, String.ofList p.2)

def lastSegment (s : String) (c : Char) : String := String.ofList (lastSegmentChars c s.toList)

def trimStartMatches (s : String) (c : Char) : String := String.ofList (s.toList.dropWhile (· = c))

def trimEndMatches (s : String) (c : Char) : String :=
  String.ofList (s.toList.reverse.dropWhile (· = c)).reverse

/-- The characters with the Unicode property `White_Space`. -/
def isWhitespace (c : Char) : Bool :=
  let n := c.toNat
  (9 ≤ n && n ≤ 13) || [0x20, 0x85, 0xA0, 0x1680, 0x2028, 0x2029, 0x202F, 0x205F, 0x3000].contains n ||
    (0x2000 ≤ n && n ≤ 0x200A)

/-- Without the white space at both ends. -/
def trim (s : String) : String :=
  String.ofList (((s.toList.dropWhile isWhitespace).reverse.dropWhile isWhitespace).reverse)

def toAsciiLowercase (s : String) : String := String.ofList (s.toList.map Char.toLower)

def replaceChar (s : String) (c d : Char) : String := String.ofList (s.toList.map fun x => if x = c then d else x)

/-- The pattern occurs somewhere in the text. -/
def contains (s pattern : String) : Bool := containsChars pattern.toList s.toList

def containsChar (s : String) (c : Char) : Bool := s.toList.contains c

theorem startsWith_iff {s p : String} : startsWith s p = true ↔ ∃ r, s = p ++ r := by
  unfold startsWith
  rw [List.isPrefixOf_iff_prefix]
  constructor
  · rintro ⟨t, ht⟩
    exact ⟨String.ofList t, String.toList_inj.mp (by rw [String.toList_append, String.toList_ofList, ht])⟩
  · rintro ⟨r, rfl⟩
    exact ⟨r.toList, by rw [String.toList_append]⟩

theorem stripPrefix_eq_some {s p r : String} : stripPrefix s p = some r ↔ s = p ++ r := by
  unfold stripPrefix
  constructor
  · intro h
    split at h
    · rename_i hp
      obtain ⟨r', rfl⟩ := startsWith_iff.mp hp
      simp only [String.toList_append, List.drop_left, String.ofList_toList, Option.some.injEq] at h
      rw [h]
    · cases h
  · rintro rfl
    rw [if_pos (startsWith_iff.mpr ⟨r, rfl⟩)]
    simp

theorem splitOnce_eq_some {s a b : String} {c : Char} :
    splitOnce s c = some (a, b) ↔ s = a ++ String.singleton c ++ b ∧ c ∉ a.toList := by
  unfold splitOnce
  rw [Option.map_eq_some_iff]
  constructor
  · rintro ⟨⟨a', b'⟩, hs, he⟩
    simp only [Prod.mk.injEq] at he
    obtain ⟨rfl, rfl⟩ := he
    obtain ⟨hl, hn⟩ := splitOnceChars_eq_some.mp hs
    refine ⟨String.toList_inj.mp ?_, by simpa using hn⟩
    simp [hl]
  · rintro ⟨rfl, hn⟩
    refine ⟨(a.toList, b.toList), splitOnceChars_eq_some.mpr ⟨?_, hn⟩, by simp⟩
    simp

theorem lastSegment_append {a b : String} {c : Char} (hb : c ∉ b.toList) :
    lastSegment (a ++ String.singleton c ++ b) c = b := by
  unfold lastSegment
  apply String.toList_inj.mp
  simpa using lastSegmentChars_append a.toList hb

theorem containsChar_iff {s : String} {c : Char} : containsChar s c = true ↔ c ∈ s.toList := by
  simp [containsChar]

end Text
