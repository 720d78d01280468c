import Pingsix.Lib.PercentEncoding
import Pingsix.Lib.Segments

/-!
# Form-urlencoded texts

The pairs of names and values of a text as `application/x-www-form-urlencoded`
writes them, and back. What is written holds no `&` and no `=` but the ones
between its parts, and is read as the pairs it was written from.
-/

namespace FormUrlencoded

/-- Letters, digits and `*-._`, which stand for themselves. -/
def IsPlain (b : UInt8) : Prop :=
  (48 ≤ b.toNat ∧ b.toNat ≤ 57) ∨ (65 ≤ b.toNat ∧ b.toNat ≤ 90) ∨ (97 ≤ b.toNat ∧ b.toNat ≤ 122) ∨
    b.toNat = 42 ∨ b.toNat = 45 ∨ b.toNat = 46 ∨ b.toNat = 95

instance (b : UInt8) : Decidable (IsPlain b) := inferInstanceAs (Decidable (_ ∨ _))

def encodeByte (b : UInt8) : List UInt8 := if b = 32 then [43] else if IsPlain b then [b] else PercentEncoding.encodeByte b

def encode (bytes : List UInt8) : List UInt8 := bytes.flatMap encodeByte

/-- A `+` is a blank. -/
def decode (bytes : List UInt8) : List UInt8 := PercentEncoding.decode (bytes.map fun b => if b = 43 then 32 else b)

/-! ## Bytes -/

theorem isPlain_hexDigit {n : Nat} (h : n < 16) : IsPlain (PercentEncoding.hexDigit n) := by
  have all : ∀ n : Fin 16, IsPlain (PercentEncoding.hexDigit n) := by decide
  exact all ⟨n, h⟩

theorem IsPlain.bounds {b : UInt8} (h : IsPlain b) :
    0 < b.toNat ∧ b.toNat < 0x80 ∧ b.toNat ≠ 37 ∧ b.toNat ≠ 38 ∧ b.toNat ≠ 43 ∧ b.toNat ≠ 61 := by
  unfold IsPlain at h
  omega

theorem IsPlain.ne {b c : UInt8} (h : IsPlain b) (hc : c = 37 ∨ c = 43) : b ≠ c := by
  have hb := h.bounds
  rintro rfl
  cases hc with
  | inl hc => exact hb.2.2.1 (congrArg UInt8.toNat hc)
  | inr hc => exact hb.2.2.2.2.1 (congrArg UInt8.toNat hc)

theorem decode_cons {b : UInt8} (h : IsPlain b) (rest : List UInt8) : decode (b :: rest) = b :: decode rest := by
  unfold decode
  rw [List.map_cons, if_neg (h.ne (.inr rfl)), PercentEncoding.decode_cons (h.ne (.inl rfl))]

theorem decode_encodeByte (b : UInt8) (rest : List UInt8) : decode (encodeByte b ++ rest) = b :: decode rest := by
  unfold encodeByte
  by_cases hblank : b = 32
  · rw [if_pos hblank, hblank]
    rfl
  · rw [if_neg hblank]
    by_cases hplain : IsPlain b
    · rw [if_pos hplain]
      exact decode_cons hplain rest
    · have hb := b.toNat_lt
      have hdigit : ∀ n, n < 16 → PercentEncoding.hexDigit n ≠ 43 := fun n hn => (isPlain_hexDigit hn).ne (.inr rfl)
      have hbytes : (PercentEncoding.encodeByte b).map (fun b => if b = 43 then 32 else b) =
          PercentEncoding.encodeByte b := by
        simp only [PercentEncoding.encodeByte, List.map_cons, List.map_nil]
        rw [if_neg (by decide), if_neg (hdigit _ (by omega)), if_neg (hdigit _ (by omega))]
      unfold decode
      rw [if_neg hplain, List.map_append, hbytes, PercentEncoding.decode_encodeByte]

theorem decode_encode (bytes : List UInt8) : decode (encode bytes) = bytes := by
  induction bytes with
  | nil => rfl
  | cons b bytes ih =>
    unfold encode at ih ⊢
    rw [List.flatMap_cons, decode_encodeByte, ih]

/-- What is written for a byte: characters other than the separators. -/
theorem mem_encode {bytes : List UInt8} {c : UInt8} (h : c ∈ encode bytes) :
    0 < c.toNat ∧ c.toNat < 0x80 ∧ c.toNat ≠ 38 ∧ c.toNat ≠ 61 := by
  have hplain : ∀ {c : UInt8}, IsPlain c → 0 < c.toNat ∧ c.toNat < 0x80 ∧ c.toNat ≠ 38 ∧ c.toNat ≠ 61 := by
    intro c hc
    obtain ⟨hpos, hlt, -, hamp, -, heq⟩ := hc.bounds
    exact ⟨hpos, hlt, hamp, heq⟩
  obtain ⟨b, -, hb⟩ := List.mem_flatMap.mp h
  unfold encodeByte at hb
  split at hb
  · cases List.mem_singleton.mp hb
    decide
  · split at hb
    · rename_i hp
      cases List.mem_singleton.mp hb
      exact hplain hp
    · have hlt := b.toNat_lt
      cases hb with
      | head => decide
      | tail _ hb =>
        cases hb with
        | head => exact hplain (isPlain_hexDigit (by omega))
        | tail _ hb =>
          cases List.mem_singleton.mp hb
          exact hplain (isPlain_hexDigit (by omega))

/-! ## Names and values -/

def encodeText (s : String) : List Char := (encode s.toUTF8.data.toList).map fun b => Char.ofNat b.toNat

def decodeText (cs : List Char) : String := Utf8.fromUtf8Lossy ⟨(decode (String.ofList cs).toUTF8.data.toList).toArray⟩

theorem mem_encodeText {s : String} {c : Char} (h : c ∈ encodeText s) : c ≠ '&' ∧ c ≠ '=' := by
  obtain ⟨b, hb, rfl⟩ := List.mem_map.mp h
  obtain ⟨-, hlt, hamp, heq⟩ := mem_encode hb
  have hn : (Char.ofNat b.toNat).toNat = b.toNat := by
    have hvalid : b.toNat.isValidChar := .inl (by omega)
    unfold Char.ofNat
    rw [dif_pos hvalid]
    rfl
  refine ⟨fun he => hamp ?_, fun he => heq ?_⟩
  · rw [← hn, he]
    rfl
  · rw [← hn, he]
    rfl

theorem decodeText_encodeText (s : String) : decodeText (encodeText s) = s := by
  have hbytes : (String.ofList (encodeText s)).toUTF8.data.toList = encode s.toUTF8.data.toList :=
    Utf8.toUTF8_of_ascii fun _ hb => ⟨(mem_encode hb).1, (mem_encode hb).2.1⟩
  unfold decodeText
  rw [hbytes, decode_encode]
  exact Utf8.fromUtf8Lossy_of_ok (Utf8.fromUtf8_toUTF8 s)

/-! ## Pairs -/

def pairChars (pair : String × String) : List Char := encodeText pair.1 ++ '=' :: encodeText pair.2

def serialize (pairs : List (String × String)) : String := String.ofList (Delimited.join '&' (pairs.map pairChars))

def parsePiece (piece : List Char) : String × String :=
  match Text.splitOnceChars '=' piece with
  | some (name, value) => (decodeText name, decodeText value)
  | none => (decodeText piece, "")

def parse (s : String) : List (String × String) := ((Text.splitChars '&' s.toList).filter (· ≠ [])).map parsePiece

theorem parsePiece_pairChars (pair : String × String) : parsePiece (pairChars pair) = pair := by
  have hsplit : Text.splitOnceChars '=' (pairChars pair) = some (encodeText pair.1, encodeText pair.2) :=
    Text.splitOnceChars_eq_some.mpr ⟨rfl, fun h => (mem_encodeText h).2 rfl⟩
  unfold parsePiece
  rw [hsplit]
  show (decodeText (encodeText pair.1), decodeText (encodeText pair.2)) = pair
  rw [decodeText_encodeText, decodeText_encodeText]

theorem amp_not_mem_pairChars (pair : String × String) : '&' ∉ pairChars pair := by
  intro h
  cases List.mem_append.mp h with
  | inl h => exact (mem_encodeText h).1 rfl
  | inr h =>
    cases h with
    | tail _ h => exact (mem_encodeText h).1 rfl

theorem parse_serialize (pairs : List (String × String)) : parse (serialize pairs) = pairs := by
  unfold parse serialize
  rw [String.toList_ofList]
  cases pairs with
  | nil => rfl
  | cons pair pairs =>
    have hfilter : ((pair :: pairs).map pairChars).filter (· ≠ []) = (pair :: pairs).map pairChars := by
      refine List.filter_eq_self.mpr fun piece h => ?_
      obtain ⟨p, -, rfl⟩ := List.mem_map.mp h
      simp [pairChars]
    have hpieces : ∀ piece ∈ (pair :: pairs).map pairChars, '&' ∉ piece := by
      intro piece h
      obtain ⟨p, -, rfl⟩ := List.mem_map.mp h
      exact amp_not_mem_pairChars p
    rw [Text.splitChars_join (by simp) hpieces, hfilter, List.map_map]
    exact (List.map_congr_left fun p _ => parsePiece_pairChars p).trans (List.map_id _)

end FormUrlencoded
