import Mathlib.Algebra.Ring.Nat

/-!
# Decoding byte strings

Strict and lossy UTF-8 decoding. Both agree on well-formed input; on ill-formed
input the lossy decoder writes one replacement character for each maximal
ill-formed piece.
-/

/-- One equality test for byte strings, whatever else is imported. -/
instance (priority := high) decidableEqByteArray : DecidableEq ByteArray := ByteArray.instDecidableEq

namespace Utf8

/-- Where strict decoding stopped, and how long the ill-formed piece is (`none`: cut off by the end). -/
structure Error where
  validUpTo : Nat
  errorLen : Option Nat
  deriving DecidableEq, Repr

def Error.display (e : Error) : String :=
  match e.errorLen with
  | some n => s!"invalid utf-8 sequence of {n} bytes from index {e.validUpTo}"
  | none => s!"incomplete utf-8 byte sequence from index {e.validUpTo}"

/-- A lead byte: continuation bytes owed, its payload bits, and the bounds on the first of them. -/
def lead (b : UInt8) : Option (Nat × Nat × UInt8 × UInt8) :=
  if b < 0x80 then some (0, b.toNat, 0x80, 0xBF)
  else if b < 0xC2 then none
  else if b < 0xE0 then some (1, b.toNat - 0xC0, 0x80, 0xBF)
  else if b < 0xF0 then
    some (2, b.toNat - 0xE0, if b = 0xE0 then 0xA0 else 0x80, if b = 0xED then 0x9F else 0xBF)
  else if b < 0xF5 then
    some (3, b.toNat - 0xF0, if b = 0xF0 then 0x90 else 0x80, if b = 0xF4 then 0x8F else 0xBF)
  else none

/-- What reading the continuation bytes gives. -/
inductive Tails where
  | complete (code : Nat)
  | illFormed
  | cutOff
  deriving DecidableEq, Repr

/-- Read `n` continuation bytes; also returns how many were taken and what is left. -/
def tails : Nat → UInt8 → UInt8 → Nat → List UInt8 → Tails × Nat × List UInt8
  | 0, _, _, code, bs => (.complete code, 0, bs)
  | _ + 1, _, _, _, [] => (.cutOff, 0, [])
  | n + 1, lo, hi, code, b :: bs =>
    if lo ≤ b ∧ b ≤ hi then
      let r := tails n 0x80 0xBF (code * 64 + (b.toNat - 0x80)) bs
      (r.1, r.2.1 + 1, r.2.2)
    else (.illFormed, 0, b :: bs)

/-- One piece from the front: a character, or an ill-formed piece; the bytes taken; the rest. -/
def piece (b : UInt8) (bs : List UInt8) : Tails × Nat × List UInt8 :=
  match lead b with
  | none => (.illFormed, 1, bs)
  | some (n, code, lo, hi) => let r := tails n lo hi code bs; (r.1, r.2.1 + 1, r.2.2)

def firstError : Nat → Nat → List UInt8 → Option Error
  | 0, _, _ => none
  | _ + 1, _, [] => none
  | fuel + 1, pos, b :: bs =>
    match piece b bs with
    | (.complete _, n, rest) => firstError fuel (pos + n) rest
    | (.illFormed, n, _) => some ⟨pos, some n⟩
    | (.cutOff, _, _) => some ⟨pos, none⟩

def lossyChars : Nat → List UInt8 → List Char
  | 0, _ => []
  | _ + 1, [] => []
  | fuel + 1, b :: bs =>
    match piece b bs with
    | (.complete code, _, rest) => Char.ofNat code :: lossyChars fuel rest
    | (_, _, rest) => Char.ofNat 0xFFFD :: lossyChars fuel rest

def fromUtf8 (bytes : ByteArray) : Except Error String :=
  match String.fromUTF8? bytes with
  | some s => .ok s
  | none => .error ((firstError bytes.size 0 bytes.data.toList).getD ⟨0, none⟩)

def fromUtf8Lossy (bytes : ByteArray) : String :=
  match String.fromUTF8? bytes with
  | some s => s
  | none => String.ofList (lossyChars bytes.size bytes.data.toList)

theorem fromUTF8?_eq_some {bytes : ByteArray} {s : String} :
    String.fromUTF8? bytes = some s ↔ bytes = s.toUTF8 := by
  unfold String.fromUTF8?
  constructor
  · intro h
    split at h
    · cases h; rfl
    · cases h
  · rintro rfl
    exact dif_pos s.isValidUTF8

theorem fromUtf8_eq_ok {bytes : ByteArray} {s : String} : fromUtf8 bytes = .ok s ↔ bytes = s.toUTF8 := by
  unfold fromUtf8
  rw [← fromUTF8?_eq_some]
  cases String.fromUTF8? bytes <;> simp

@[simp] theorem fromUtf8_toUTF8 (s : String) : fromUtf8 s.toUTF8 = .ok s := fromUtf8_eq_ok.mpr rfl

theorem fromUtf8Lossy_of_ok {bytes : ByteArray} {s : String} (h : fromUtf8 bytes = .ok s) :
    fromUtf8Lossy bytes = s := by
  have := fromUTF8?_eq_some.mpr (fromUtf8_eq_ok.mp h)
  simp [fromUtf8Lossy, this]

example : fromUtf8Lossy ⟨#[0x61, 0xE2, 0x82, 0x62]⟩ = "a\uFFFDb" := by decide

/-! ## What a lossy decoding shows -/

theorem tails_cons {n code : Nat} {lo hi b : UInt8} {bs rest : List UInt8} {t : Tails} {m : Nat}
    (h : lo ≤ b ∧ b ≤ hi)
    (ht : tails n 0x80 0xBF (code * 64 + (b.toNat - 0x80)) bs = (t, m, rest)) : tails (n + 1) lo hi code (b :: bs) = (t, m + 1, rest) := by
  rw [tails, if_pos h, ht]

theorem lead_one {b : UInt8} (h : b.toNat < 0x80) : lead b = some (0, b.toNat, 0x80, 0xBF) := by
  rw [lead, if_pos (UInt8.lt_iff_toNat_lt.mpr h)]

theorem lead_two {b : UInt8} (h : 0xC2 ≤ b.toNat ∧ b.toNat < 0xE0) :
    lead b = some (1, b.toNat - 0xC0, 0x80, 0xBF) := by
  have h₁ : ¬ b < 0x80 := fun hb => by have : b.toNat < 128 := UInt8.lt_iff_toNat_lt.mp hb; omega
  have h₂ : ¬ b < 0xC2 := fun hb => by have : b.toNat < 0xC2 := UInt8.lt_iff_toNat_lt.mp hb; omega
  rw [lead, if_neg h₁, if_neg h₂, if_pos (UInt8.lt_iff_toNat_lt.mpr h.2)]

theorem lead_three {b : UInt8} (h : 0xE0 ≤ b.toNat ∧ b.toNat < 0xF0) : lead b =
    some (2, b.toNat - 0xE0, if b = 0xE0 then 0xA0 else 0x80, if b = 0xED then 0x9F else 0xBF) := by
  have h₁ : ¬ b < 0x80 := fun hb => by have : b.toNat < 128 := UInt8.lt_iff_toNat_lt.mp hb; omega
  have h₂ : ¬ b < 0xC2 := fun hb => by have : b.toNat < 0xC2 := UInt8.lt_iff_toNat_lt.mp hb; omega
  have h₃ : ¬ b < 0xE0 := fun hb => by have : b.toNat < 0xE0 := UInt8.lt_iff_toNat_lt.mp hb; omega
  rw [lead, if_neg h₁, if_neg h₂, if_neg h₃, if_pos (UInt8.lt_iff_toNat_lt.mpr h.2)]

theorem lead_four {b : UInt8} (h : 0xF0 ≤ b.toNat ∧ b.toNat < 0xF5) : lead b =
    some (3, b.toNat - 0xF0, if b = 0xF0 then 0x90 else 0x80, if b = 0xF4 then 0x8F else 0xBF) := by
  have h₁ : ¬ b < 0x80 := fun hb => by have : b.toNat < 128 := UInt8.lt_iff_toNat_lt.mp hb; omega
  have h₂ : ¬ b < 0xC2 := fun hb => by have : b.toNat < 0xC2 := UInt8.lt_iff_toNat_lt.mp hb; omega
  have h₃ : ¬ b < 0xE0 := fun hb => by have : b.toNat < 0xE0 := UInt8.lt_iff_toNat_lt.mp hb; omega
  have h₄ : ¬ b < 0xF0 := fun hb => by have : b.toNat < 0xF0 := UInt8.lt_iff_toNat_lt.mp hb; omega
  rw [lead, if_neg h₁, if_neg h₂, if_neg h₃, if_neg h₄, if_pos (UInt8.lt_iff_toNat_lt.mpr h.2)]

theorem tail_ok {n : Nat} (h : n < 64) :
    (0x80 : UInt8) ≤ UInt8.ofNat (n + 0x80) ∧ UInt8.ofNat (n + 0x80) ≤ 0xBF := by
  have := UInt8.toNat_ofNat_of_lt' (show n + 0x80 < 256 by omega)
  rw [UInt8.le_iff_toNat_le, UInt8.le_iff_toNat_le, this]
  exact ⟨show 128 ≤ _ by omega, show _ ≤ 191 by omega⟩

theorem toNat_ofNat {n : Nat} (h : n < 256) : (UInt8.ofNat n).toNat = n := UInt8.toNat_ofNat_of_lt' h

/-- The first continuation byte lies within the bounds its lead byte sets. -/
theorem bounds_ok {b t k₁ k₂ l₁ l₂ : UInt8} (h : 0x80 ≤ t.toNat ∧ t.toNat ≤ 0xBF)
    (hlo : b.toNat = k₁.toNat → l₁.toNat ≤ t.toNat) (hhi : b.toNat = k₂.toNat → t.toNat ≤ l₂.toNat) :
    (if b = k₁ then l₁ else 0x80) ≤ t ∧ t ≤ (if b = k₂ then l₂ else 0xBF) := by
  constructor
  · split
    · exact UInt8.le_iff_toNat_le.mpr (hlo (by rw [‹b = k₁›]))
    · exact UInt8.le_iff_toNat_le.mpr h.1
  · split
    · exact UInt8.le_iff_toNat_le.mpr (hhi (by rw [‹b = k₂›]))
    · exact UInt8.le_iff_toNat_le.mpr h.2

theorem ofNat_ne_zero {n : Nat} (h : 0 < n ∧ n < 256) : (0 : UInt8) ≠ UInt8.ofNat n := fun he => by
  have := congrArg UInt8.toNat he
  rw [toNat_ofNat h.2] at this
  exact absurd this.symm (Nat.pos_iff_ne_zero.mp h.1)

theorem zero_not_mem_utf8EncodeChar {c : Char} (h : c.toNat ≠ 0) : 0 ∉ String.utf8EncodeChar c := by
  unfold String.utf8EncodeChar
  simp only [show c.val.toNat = c.toNat from rfl]
  generalize c.toNat = v at h
  split
  · exact fun hm => ofNat_ne_zero (by omega) (List.mem_singleton.mp hm)
  split
  · simp only [List.mem_cons, List.not_mem_nil, or_false, not_or]
    exact ⟨ofNat_ne_zero (by omega), ofNat_ne_zero (by omega)⟩
  split
  · simp only [List.mem_cons, List.not_mem_nil, or_false, not_or]
    exact ⟨ofNat_ne_zero (by omega), ofNat_ne_zero (by omega), ofNat_ne_zero (by omega)⟩
  · simp only [List.mem_cons, List.not_mem_nil, or_false, not_or]
    exact ⟨ofNat_ne_zero (by omega), ofNat_ne_zero (by omega), ofNat_ne_zero (by omega), ofNat_ne_zero (by omega)⟩

/-- Reading from the front the bytes a character is written as gives that character back. -/
theorem piece_encode (c : Char) (rest : List UInt8) : ∃ b bs n,
    String.utf8EncodeChar c = b :: bs ∧ piece b (bs ++ rest) = (.complete c.toNat, n, rest) := by
  have hv : c.toNat < 0xD800 ∨ 0xDFFF < c.toNat ∧ c.toNat < 0x110000 := c.valid
  unfold String.utf8EncodeChar
  simp only [show c.val.toNat = c.toNat from rfl]
  generalize c.toNat = v at hv
  split
  · refine ⟨_, _, 1, rfl, ?_⟩
    have h₁ := toNat_ofNat (show v < 256 by omega)
    rw [piece, lead_one (by omega), h₁]
    rfl
  split
  · refine ⟨_, _, 2, rfl, ?_⟩
    have h₁ := toNat_ofNat (show v / 64 % 32 + 0xC0 < 256 by omega)
    have h₂ := toNat_ofNat (show v % 64 + 0x80 < 256 by omega)
    have hcode : (v / 64 % 32 + 0xC0 - 0xC0) * 64 + (v % 64 + 0x80 - 0x80) = v := by omega
    rw [piece, lead_two (by omega)]
    simp only [List.cons_append, List.nil_append]
    rw [tails_cons (tail_ok (by omega)) (by rw [tails])]
    simp only [h₁, h₂, hcode]
  split
  · refine ⟨_, _, 3, rfl, ?_⟩
    have h₁ := toNat_ofNat (show v / 4096 % 16 + 0xE0 < 256 by omega)
    have h₂ := toNat_ofNat (show v / 64 % 64 + 0x80 < 256 by omega)
    have h₃ := toNat_ofNat (show v % 64 + 0x80 < 256 by omega)
    have hcode : ((v / 4096 % 16 + 0xE0 - 0xE0) * 64 + (v / 64 % 64 + 0x80 - 0x80)) * 64 +
        (v % 64 + 0x80 - 0x80) = v := by omega
    rw [piece, lead_three (by omega)]
    simp only [List.cons_append, List.nil_append]
    rw [tails_cons ?_ (tails_cons (tail_ok (by omega)) (by rw [tails]))]
    · simp only [h₁, h₂, h₃, hcode]
    · apply bounds_ok
      · omega
      · rw [h₁, h₂]
        show _ = 0xE0 → 0xA0 ≤ _
        omega
      · rw [h₁, h₂]
        show _ = 0xED → _ ≤ 0x9F
        omega
  · refine ⟨_, _, 4, rfl, ?_⟩
    have h₁ := toNat_ofNat (show v / 262144 % 8 + 0xF0 < 256 by omega)
    have h₂ := toNat_ofNat (show v / 4096 % 64 + 0x80 < 256 by omega)
    have h₃ := toNat_ofNat (show v / 64 % 64 + 0x80 < 256 by omega)
    have h₄ := toNat_ofNat (show v % 64 + 0x80 < 256 by omega)
    have hcode : (((v / 262144 % 8 + 0xF0 - 0xF0) * 64 + (v / 4096 % 64 + 0x80 - 0x80)) * 64 +
        (v / 64 % 64 + 0x80 - 0x80)) * 64 + (v % 64 + 0x80 - 0x80) = v := by omega
    rw [piece, lead_four (by omega)]
    simp only [List.cons_append, List.nil_append]
    rw [tails_cons ?_ (tails_cons (tail_ok (by omega)) (tails_cons (tail_ok (by omega)) (by rw [tails])))]
    · simp only [h₁, h₂, h₃, h₄, hcode]
    · apply bounds_ok
      · omega
      · rw [h₁, h₂]
        show _ = 0xF0 → 0x90 ≤ _
        omega
      · rw [h₁, h₂]
        show _ = 0xF4 → _ ≤ 0x8F
        omega

theorem le_of_tails : ∀ {n code c m : Nat} {lo hi : UInt8} {bs rest : List UInt8},
    tails (n + 1) lo hi code bs = (.complete c, m, rest) → (code * 64 + (lo.toNat - 0x80)) * 64 ^ n ≤ c
  | n, code, c, m, lo, hi, [], rest, h => by cases h
  | n, code, c, m, lo, hi, b :: bs, rest, h => by
    rw [tails] at h
    split at h
    · rename_i hb
      have hlo : lo.toNat ≤ b.toNat := UInt8.le_iff_toNat_le.mp hb.1
      obtain ⟨hc, -⟩ := Prod.mk.inj h
      cases n with
      | zero =>
        have hc : code * 64 + (b.toNat - 0x80) = c := Tails.complete.inj hc
        rw [Nat.pow_zero, Nat.mul_one, ← hc]
        omega
      | succ n =>
        have := le_of_tails (Prod.ext hc rfl)
        refine Nat.le_trans ?_ this
        rw [Nat.pow_succ', ← Nat.mul_assoc]
        refine Nat.mul_le_mul_right _ ?_
        omega
    · cases h

/-- A piece that reads as a character below 128 is that one byte. -/
theorem piece_ascii {b : UInt8} {bs rest : List UInt8} {code n : Nat} (hp : piece b bs = (.complete code, n, rest))
    (hc : code < 0x80) : b.toNat = code ∧ rest = bs := by
  unfold piece at hp
  by_cases h₁ : b.toNat < 0x80
  · rw [lead_one h₁] at hp
    cases hp
    exact ⟨rfl, rfl⟩
  by_cases h₂ : b.toNat < 0xC2
  · have hl : lead b = none := by
      rw [lead, if_neg fun h => h₁ (UInt8.lt_iff_toNat_lt.mp h), if_pos (UInt8.lt_iff_toNat_lt.mpr h₂)]
    rw [hl] at hp
    cases hp
  by_cases h₃ : b.toNat < 0xE0
  · rw [lead_two (by omega)] at hp
    have := le_of_tails (Prod.ext (Prod.mk.inj hp).1 rfl)
    have h80 : (0x80 : UInt8).toNat = 128 := rfl
    omega
  by_cases h₄ : b.toNat < 0xF0
  · rw [lead_three (by omega)] at hp
    have := le_of_tails (Prod.ext (Prod.mk.inj hp).1 rfl)
    split at this
    · have h : (0xA0 : UInt8).toNat = 160 := rfl
      omega
    · rename_i hb
      have : b.toNat ≠ 0xE0 := fun h => hb (UInt8.toNat_inj.mp h)
      omega
  by_cases h₅ : b.toNat < 0xF5
  · rw [lead_four (by omega)] at hp
    have := le_of_tails (Prod.ext (Prod.mk.inj hp).1 rfl)
    split at this
    · have h : (0x90 : UInt8).toNat = 144 := rfl
      omega
    · rename_i hb
      have : b.toNat ≠ 0xF0 := fun h => hb (UInt8.toNat_inj.mp h)
      omega
  · have hl : lead b = none := by
      rw [lead, if_neg fun h => h₁ (UInt8.lt_iff_toNat_lt.mp h), if_neg fun h => h₂ (UInt8.lt_iff_toNat_lt.mp h),
        if_neg fun h => h₃ (UInt8.lt_iff_toNat_lt.mp h), if_neg fun h => h₄ (UInt8.lt_iff_toNat_lt.mp h),
        if_neg fun h => h₅ (UInt8.lt_iff_toNat_lt.mp h)]
    rw [hl] at hp
    cases hp

/-- Lossy decoding keeps a well-formed prefix. -/
theorem lossyChars_encode : ∀ (l : List Char) (rest : List UInt8) (fuel : Nat),
    (l.flatMap String.utf8EncodeChar ++ rest).length ≤ fuel →
    ∃ fuel', rest.length ≤ fuel' ∧
      lossyChars fuel (l.flatMap String.utf8EncodeChar ++ rest) = l ++ lossyChars fuel' rest
  | [], rest, fuel, h => ⟨fuel, h, rfl⟩
  | c :: l, rest, fuel, h => by
    obtain ⟨b, bs, n, hc, hp⟩ := piece_encode c (l.flatMap String.utf8EncodeChar ++ rest)
    rw [List.flatMap_cons, hc, List.append_assoc, List.cons_append] at h ⊢
    cases fuel with
    | zero => simp at h
    | succ fuel =>
      rw [lossyChars, hp]
      have hl : (l.flatMap String.utf8EncodeChar ++ rest).length ≤ fuel := by
        simp only [List.length_cons, List.length_append] at h ⊢
        omega
      obtain ⟨fuel', hf, he⟩ := lossyChars_encode l rest fuel hl
      exact ⟨fuel', hf, by simp [he]⟩

/-- A lossy decoding that shows only ASCII characters other than NUL replaced nothing. -/
theorem lossyChars_ascii : ∀ (l : List Char) (bs : List UInt8) (fuel : Nat), bs.length ≤ fuel →
    (∀ c ∈ l, 0 < c.toNat ∧ c.toNat < 0x80) → lossyChars fuel bs = l → bs = l.map fun c => UInt8.ofNat c.toNat
  | l, [], fuel, _, _, h => by
    cases fuel <;> (cases h; rfl)
  | l, b :: bs, 0, hf, _, _ => by simp at hf
  | l, b :: bs, fuel + 1, hf, hl, h => by
    rw [lossyChars] at h
    have hne : ∀ cs, Char.ofNat 0xFFFD :: cs ≠ l := by
      rintro cs rfl
      exact absurd (hl _ List.mem_cons_self).2 (by decide)
    split at h
    · rename_i code n rest hp
      cases l with
      | nil => cases h
      | cons c l =>
        obtain ⟨hc, hr⟩ := List.cons.inj h
        obtain ⟨h0, h1⟩ := hl c List.mem_cons_self
        have hcode : code = c.toNat := by
          by_cases hv : code.isValidChar
          · rw [← hc, Char.ofNat, dif_pos hv]
            rfl
          · rw [← hc, Char.ofNat, dif_neg hv] at h0
            exact absurd h0 (by decide)
        obtain ⟨hb, rfl⟩ := piece_ascii hp (hcode ▸ h1)
        rw [List.map_cons, ← lossyChars_ascii l rest fuel (by simpa using hf)
          (fun c hc => hl c (List.mem_cons_of_mem _ hc)) hr, ← hcode, ← hb, UInt8.ofNat_toNat]
    · exact absurd h (hne _)

theorem encode_ascii : ∀ {l : List Char}, (∀ c ∈ l, 0 < c.toNat ∧ c.toNat < 0x80) →
    l.flatMap String.utf8EncodeChar = l.map fun c => UInt8.ofNat c.toNat
  | [], _ => rfl
  | c :: l, h => by
    have hc : c.val.toNat ≤ 0x7f := Nat.le_of_lt_succ (h c List.mem_cons_self).2
    rw [List.flatMap_cons, List.map_cons, encode_ascii fun c' hc' => h c' (List.mem_cons_of_mem _ hc')]
    simp only [String.utf8EncodeChar, hc, if_true]
    rfl

/-- The bytes of ASCII characters, read one by one, are the characters. -/
theorem decode_ascii {l : List Char} (h : ∀ c ∈ l, c.toNat < 0x80) :
    (l.map fun c => UInt8.ofNat c.toNat).map (fun b => Char.ofNat b.toNat) = l := by
  rw [List.map_map]
  refine (List.map_congr_left fun c hc => ?_).trans (List.map_id l)
  have hlt : c.toNat < 256 := by
    have := h c hc
    omega
  show Char.ofNat (UInt8.ofNat c.toNat).toNat = c
  rw [UInt8.toNat_ofNat_of_lt' hlt, Char.ofNat_toNat]

theorem toUTF8_toList (s : String) : s.toUTF8.data.toList = s.toList.flatMap String.utf8EncodeChar := by
  have h : s.toList.utf8Encode = s.toUTF8 := by simp
  rw [← h, List.utf8Encode]
  simp

/-- The text of ASCII bytes has these bytes. -/
theorem toUTF8_of_ascii {bytes : List UInt8} (h : ∀ b ∈ bytes, 0 < b.toNat ∧ b.toNat < 0x80) :
    (String.ofList (bytes.map fun b => Char.ofNat b.toNat)).toUTF8.data.toList = bytes := by
  have hchar : ∀ b ∈ bytes, (Char.ofNat b.toNat).toNat = b.toNat := fun b hb => by
    have hvalid : b.toNat.isValidChar := .inl (by have := h b hb; omega)
    unfold Char.ofNat
    rw [dif_pos hvalid]
    rfl
  have hascii : ∀ c ∈ bytes.map (fun b => Char.ofNat b.toNat), 0 < c.toNat ∧ c.toNat < 0x80 := by
    intro c hc
    obtain ⟨b, hb, rfl⟩ := List.mem_map.mp hc
    rw [hchar b hb]
    exact h b hb
  rw [toUTF8_toList, String.toList_ofList, encode_ascii hascii, List.map_map]
  refine (List.map_congr_left fun b hb => ?_).trans (List.map_id _)
  show UInt8.ofNat (Char.ofNat b.toNat).toNat = b
  rw [hchar b hb, UInt8.ofNat_toNat]

theorem encode_inj {l l' : List Char} (h : l.flatMap String.utf8EncodeChar = l'.flatMap String.utf8EncodeChar) :
    l = l' := by
  have hb : (String.ofList l).toUTF8.data.toList = (String.ofList l').toUTF8.data.toList := by
    rw [toUTF8_toList, toUTF8_toList, String.toList_ofList, String.toList_ofList, h]
  have hs := String.toByteArray_inj.mp (ByteArray.ext (Array.toList_inj.mp hb))
  rw [← String.toList_ofList (l := l), hs, String.toList_ofList]

theorem length_le_utf8ByteSize (s : String) : s.length ≤ s.utf8ByteSize := by
  have hsize : s.utf8ByteSize = (s.toList.flatMap String.utf8EncodeChar).length := by
    rw [← toUTF8_toList, Array.length_toList]
    rfl
  rw [hsize, ← String.length_toList]
  generalize s.toList = l
  induction l with
  | nil => simp
  | cons c l ih =>
    have := c.utf8Size_pos
    simp only [List.flatMap_cons, List.length_append, List.length_cons, String.length_utf8EncodeChar]
    omega

/-- A key that decodes lossily to a well-formed prefix and an ASCII rest was replaced nowhere. -/
theorem fromUtf8Lossy_ascii {p g : String} {bytes : ByteArray} (hp : p.toUTF8.data.toList <+: bytes.data.toList)
    (hg : ∀ c ∈ g.toList, 0 < c.toNat ∧ c.toNat < 0x80) (h : fromUtf8Lossy bytes = p ++ g) :
    bytes = (p ++ g).toUTF8 := by
  unfold fromUtf8Lossy at h
  cases hs : String.fromUTF8? bytes with
  | some s =>
    rw [hs] at h
    rw [fromUTF8?_eq_some.mp hs, show s = p ++ g from h]
  | none =>
    rw [hs] at h
    obtain ⟨rest, hr⟩ := hp
    have hl := congrArg String.toList h
    rw [String.toList_ofList, String.toList_append, ← hr, toUTF8_toList] at hl
    obtain ⟨fuel', hf, he⟩ := lossyChars_encode p.toList rest bytes.size (by
      rw [← toUTF8_toList, hr]
      exact Nat.le_refl _)
    rw [he] at hl
    have hrest := lossyChars_ascii g.toList rest fuel' hf hg (List.append_cancel_left hl)
    have hb : bytes.data.toList = (p ++ g).toUTF8.data.toList := by
      rw [← hr, hrest, toUTF8_toList, toUTF8_toList, String.toList_append, List.flatMap_append, encode_ascii hg]
    exact ByteArray.ext (Array.toList_inj.mp hb)

end Utf8
