import Pingsix.RequestId
import Pingsix.Lib.Except

/-!
# Soundness of request ids

The 27 characters of an id are the 160 bits of its payload, exactly: they are
read back, differ when the payloads do, and sort by time.
-/

namespace Pingsix

namespace RequestId

variable (arithmetic : Arithmetic)

/-! ## The loops over digits -/

/-- No result leaves 16 bits while the digits and the carry are in range. -/
theorem carryThrough_eq {base factor : Nat} (hbase : 0 < base) (hbyte : base ≤ 2 ^ 8) (hfits : base * factor ≤ 2 ^ 16)
    {digits : List Nat} (hdigits : ∀ d ∈ digits, d < base) {carry : Nat} (hcarry : carry < factor) :
    carryThrough arithmetic base factor digits carry = .ok (Digits.scale base factor digits carry) := by
  induction digits generalizing carry with
  | nil => rfl
  | cons d rest ih =>
    obtain ⟨hd, hrest⟩ := List.forall_mem_cons.mp hdigits
    have hmul : (d + 1) * factor ≤ base * factor := Nat.mul_le_mul_right factor hd
    rw [Nat.succ_mul] at hmul
    have hnext : (d * factor + carry) / base < factor := by
      rw [Nat.div_lt_iff_lt_mul hbase, Nat.mul_comm factor]
      omega
    have hmod : (d * factor + carry) % base % 2 ^ 8 = (d * factor + carry) % base :=
      Nat.mod_eq_of_lt (Nat.lt_of_lt_of_le (Nat.mod_lt _ hbase) hbyte)
    have hproduct : u16 arithmetic (d * factor) = .ok (d * factor) := by
      unfold u16
      rw [Arithmetic.fit_of_lt (by omega)]
      rfl
    have hvalue : u16 arithmetic (d * factor + carry) = .ok (d * factor + carry) := by
      unfold u16
      rw [Arithmetic.fit_of_lt (by omega)]
      rfl
    unfold carryThrough
    rw [hproduct]
    show (u16 arithmetic (d * factor + carry) >>= _) = _
    rw [hvalue]
    show (carryThrough arithmetic base factor rest _ >>= _) = _
    rw [ih hrest hnext]
    show Except.ok (_ % base % 2 ^ 8 :: _, _) = _
    rw [hmod]
    rfl

/-- One byte is taken in without a carry off the top digit. -/
theorem pushByte_numeral {width n byte : Nat} {digits : List Nat} (h : Digits.Numeral 62 width n digits) (hbyte : byte < 256)
    (hfits : n * 256 + byte < 62 ^ width) : ∃ digits', pushByte arithmetic digits byte = .ok (digits', 0) ∧
      Digits.Numeral 62 width (n * 256 + byte) digits' := by
  obtain ⟨hcarry, hnumeral⟩ := Digits.numeral_scale (by decide) h hfits
  refine ⟨_, ?_, hnumeral⟩
  unfold pushByte
  rw [carryThrough_eq arithmetic (by decide) (by decide) (by decide) (fun d hd => h.lt d (List.mem_reverse.mp hd)) hbyte, ← hcarry]
  rfl

/-- The bytes so far, in digits. -/
theorem pushBytes_numeral {width n : Nat} {digits bytes : List Nat} (h : Digits.Numeral 62 width n digits)
    (hbytes : ∀ b ∈ bytes, b < 256) (hfits : n * 256 ^ bytes.length + Digits.number 256 bytes < 62 ^ width) :
    ∃ digits', pushBytes arithmetic digits bytes = .ok digits' ∧
      Digits.Numeral 62 width (n * 256 ^ bytes.length + Digits.number 256 bytes) digits' := by
  induction bytes generalizing n digits with
  | nil => exact ⟨digits, rfl, by simpa [Digits.number] using h⟩
  | cons b rest ih =>
    obtain ⟨hb, hrest⟩ := List.forall_mem_cons.mp hbytes
    have hvalue : n * 256 ^ (b :: rest).length + Digits.number 256 (b :: rest) =
        (n * 256 + b) * 256 ^ rest.length + Digits.number 256 rest := by
      rw [Digits.number_cons, List.length_cons, Nat.pow_succ']
      ring
    rw [hvalue] at hfits ⊢
    have hpos : 0 < 256 ^ rest.length := Nat.pow_pos (by decide)
    have hle : (n * 256 + b) * 1 ≤ (n * 256 + b) * 256 ^ rest.length := Nat.mul_le_mul_left _ hpos
    obtain ⟨digits', hpush, hnumeral⟩ := pushByte_numeral arithmetic h hb (by omega)
    obtain ⟨digits'', hrun, hresult⟩ := ih hnumeral hrest hfits
    refine ⟨digits'', ?_, hresult⟩
    unfold pushBytes at hrun ⊢
    rw [List.foldlM_cons, hpush]
    exact hrun

/-! ## The alphabet -/

def charOf (digit : Nat) : Char := Char.ofNat ((ksuidAlphabet[digit]?).getD 0).toNat

theorem ksuidChar_eq {digit : Nat} (h : digit < 62) : ksuidChar digit = .ok (charOf digit) := by
  have all : ∀ d : Fin 62, ksuidChar d = .ok (charOf d) := by decide +kernel
  exact all ⟨digit, h⟩

theorem digitOf_charOf {digit : Nat} (h : digit < 62) : digitOf (charOf digit) = .ok digit := by
  have all : ∀ d : Fin 62, digitOf (charOf d) = .ok d.1 := by decide +kernel
  exact all ⟨digit, h⟩

/-- The characters ascend with their values. -/
theorem charOf_lt_iff (i : Nat) (hi : i < 62) (j : Nat) (hj : j < 62) : charOf i < charOf j ↔ i < j := by
  have all : ∀ i j : Fin 62, charOf i < charOf j ↔ i.1 < j.1 := by decide +kernel
  exact all ⟨i, hi⟩ ⟨j, hj⟩

theorem charOf_inj (i : Nat) (hi : i < 62) (j : Nat) (hj : j < 62) : charOf i = charOf j ↔ i = j := by
  constructor
  · intro h
    have hdigit := digitOf_charOf hi
    rw [h, digitOf_charOf hj] at hdigit
    cases hdigit
    rfl
  · exact congrArg charOf

theorem mapM_ksuidChar {digits : List Nat} (h : ∀ d ∈ digits, d < 62) :
    digits.mapM ksuidChar = .ok (digits.map charOf) := by
  induction digits with
  | nil => rfl
  | cons d rest ih =>
    obtain ⟨hd, hrest⟩ := List.forall_mem_cons.mp h
    rw [List.mapM_cons, ksuidChar_eq hd, ih hrest]
    rfl

/-! ## Decoding -/

theorem pushChar_charOf {digit : Nat} (h : digit < 62) (n : Nat) :
    pushChar arithmetic (Nat.digits 256 n) (charOf digit) = .ok (Nat.digits 256 (n * 62 + digit)) := by
  have hbytes : ∀ d ∈ Nat.digits 256 n, d < 256 := fun d hd => Nat.digits_lt_base (by decide) hd
  unfold pushChar
  rw [digitOf_charOf h, Digits.digits_scale (by decide) (by decide)]
  show (carryThrough arithmetic 256 62 (Nat.digits 256 n) digit >>= _) = _
  rw [carryThrough_eq arithmetic (by decide) (by decide) (by decide) hbytes h]
  rfl

theorem decode_charOf {digits : List Nat} (h : ∀ d ∈ digits, d < 62) (n : Nat) :
    (digits.map charOf).foldlM (pushChar arithmetic) (Nat.digits 256 n) =
      .ok (Nat.digits 256 (n * 62 ^ digits.length + Digits.number 62 digits)) := by
  induction digits generalizing n with
  | nil => simp [Digits.number, pure, Except.pure]
  | cons d rest ih =>
    obtain ⟨hd, hrest⟩ := List.forall_mem_cons.mp h
    have hvalue : n * 62 ^ (d :: rest).length + Digits.number 62 (d :: rest) =
        (n * 62 + d) * 62 ^ rest.length + Digits.number 62 rest := by
      rw [Digits.number_cons, List.length_cons, Nat.pow_succ']
      ring
    rw [List.map_cons, List.foldlM_cons, pushChar_charOf arithmetic hd, hvalue]
    exact ih hrest _

/-! ## Payloads -/

def bytesNumber (random : Vector UInt8 16) : Nat := Digits.number 256 (random.toList.map UInt8.toNat)

/-- The 160 bits of an id, as a number. -/
def ksuidValue (timestamp : UInt32) (random : Vector UInt8 16) : Nat := timestamp.toNat * 2 ^ 128 + bytesNumber random

theorem byte_lt (random : Vector UInt8 16) : ∀ b ∈ random.toList.map UInt8.toNat, b < 256 := by
  intro b hb
  obtain ⟨byte, _, rfl⟩ := List.mem_map.mp hb
  exact byte.toNat_lt

theorem length_random (random : Vector UInt8 16) : (random.toList.map UInt8.toNat).length = 16 := by
  rw [List.length_map, Vector.length_toList]

theorem bytesNumber_lt (random : Vector UInt8 16) : bytesNumber random < 2 ^ 128 := by
  have h := Digits.number_lt (by decide) (byte_lt random)
  rwa [length_random] at h

theorem numeral_timestamp (timestamp : UInt32) : Digits.Numeral 256 4 timestamp.toNat (timestampBytes timestamp) := by
  have ht := timestamp.toNat_lt
  constructor
  · rfl
  · intro b hb
    simp only [timestampBytes, List.mem_cons, List.not_mem_nil, or_false] at hb
    omega
  · simp only [timestampBytes, Digits.number_cons, List.length_cons, List.length_nil]
    rw [show Digits.number 256 [] = 0 from rfl]
    omega

theorem numeral_payload (timestamp : UInt32) (random : Vector UInt8 16) :
    Digits.Numeral 256 20 (ksuidValue timestamp random) (ksuidPayload timestamp random) := by
  have ht := numeral_timestamp timestamp
  constructor
  · rw [ksuidPayload, List.length_append, ht.length, length_random]
  · exact List.forall_mem_append.mpr ⟨ht.lt, byte_lt random⟩
  · rw [ksuidPayload, Digits.number_append, ht.value, length_random]
    rfl

theorem ksuidValue_lt (timestamp : UInt32) (random : Vector UInt8 16) : ksuidValue timestamp random < 256 ^ 20 := by
  have h := numeral_payload timestamp random
  rw [← h.value, ← h.length]
  exact Digits.number_lt (by decide) h.lt

theorem payload_room (timestamp : UInt32) (random : Vector UInt8 16) : ksuidValue timestamp random < 62 ^ 27 := by
  have hroom : 256 ^ 20 ≤ 62 ^ 27 := by decide
  exact Nat.lt_of_lt_of_le (ksuidValue_lt timestamp random) hroom

theorem bytesNumber_lt_iff (random random' : Vector UInt8 16) :
    bytesNumber random < bytesNumber random' ↔ random.toList < random'.toList := by
  have hlt : ∀ i < 256, ∀ j < 256, (UInt8.ofNat i < UInt8.ofNat j ↔ i < j) := by
    intro i hi j hj
    rw [UInt8.lt_iff_toNat_lt, UInt8.toNat_ofNat_of_lt' hi, UInt8.toNat_ofNat_of_lt' hj]
  have heq : ∀ i < 256, ∀ j < 256, (UInt8.ofNat i = UInt8.ofNat j ↔ i = j) := by
    intro i hi j hj
    rw [← UInt8.toNat_inj, UInt8.toNat_ofNat_of_lt' hi, UInt8.toNat_ofNat_of_lt' hj]
  have hmap : ∀ v : Vector UInt8 16, (v.toList.map UInt8.toNat).map UInt8.ofNat = v.toList := by
    intro v
    rw [List.map_map]
    exact List.map_id'' (fun b => UInt8.ofNat_toNat) v.toList
  have h := Digits.map_lt_map_iff (by decide) hlt heq ((length_random random).trans (length_random random').symm)
    (byte_lt random) (byte_lt random')
  rw [hmap, hmap] at h
  exact h.symm

theorem bytesNumber_inj {random random' : Vector UInt8 16} (h : bytesNumber random = bytesNumber random') : random = random' := by
  have hnumeral : Digits.Numeral 256 16 (bytesNumber random') (random.toList.map UInt8.toNat) :=
    ⟨length_random random, byte_lt random, h⟩
  have hbytes := hnumeral.unique (by decide) ⟨length_random random', byte_lt random', rfl⟩
  have hinj : Function.Injective UInt8.toNat := fun a b hab => UInt8.toNat_inj.mp hab
  exact Vector.toList_inj.mp (List.map_injective_iff.mpr hinj hbytes)

/-! ## Ids -/

/-- An id is the payload in base 62, reached without a panic and without a carry off the top digit, and read back. -/
structure Exact (arithmetic : Arithmetic) (timestamp : UInt32) (random : Vector UInt8 16) (id : String) : Prop where
  encoded : encodeKsuid arithmetic timestamp random = .ok id
  digits : ∃ digits, Digits.Numeral 62 27 (ksuidValue timestamp random) digits ∧ digits.mapM ksuidChar = .ok id.toList
  carries : ∀ before byte after, ksuidPayload timestamp random = before ++ byte :: after →
    ∃ digits digits', pushBytes arithmetic (List.replicate 27 0) before = .ok digits ∧
      pushByte arithmetic digits byte = .ok (digits', 0)
  decoded : base62Decode arithmetic id = .ok (ksuidPayload timestamp random)

/-- The text of an id. -/
def ksuidText (timestamp : UInt32) (random : Vector UInt8 16) : String :=
  String.ofList ((List.leftpad 27 0 (Nat.digits 62 (ksuidValue timestamp random)).reverse).map charOf)

theorem numeral_digits (timestamp : UInt32) (random : Vector UInt8 16) : Digits.Numeral 62 27 (ksuidValue timestamp random)
    (List.leftpad 27 0 (Nat.digits 62 (ksuidValue timestamp random)).reverse) :=
  Digits.numeral_leftpad 62 (by decide) (payload_room timestamp random)

theorem pushBytes_payload (timestamp : UInt32) (random : Vector UInt8 16) :
    pushBytes arithmetic (List.replicate 27 0) (ksuidPayload timestamp random) =
      .ok (List.leftpad 27 0 (Nat.digits 62 (ksuidValue timestamp random)).reverse) := by
  have hpayload := numeral_payload timestamp random
  have hzero := Digits.numeral_zero 62 (by decide) 27
  have hroom := payload_room timestamp random
  have hvalue : 0 * 256 ^ (ksuidPayload timestamp random).length + Digits.number 256 (ksuidPayload timestamp random) =
      ksuidValue timestamp random := by
    rw [hpayload.value, Nat.zero_mul, Nat.zero_add]
  rw [← hvalue] at hroom
  obtain ⟨digits, hrun, hnumeral⟩ := pushBytes_numeral arithmetic hzero hpayload.lt hroom
  rw [hvalue] at hnumeral
  rw [hrun, hnumeral.unique (by decide) (numeral_digits timestamp random)]

theorem encodeKsuid_eq (timestamp : UInt32) (random : Vector UInt8 16) :
    encodeKsuid arithmetic timestamp random = .ok (ksuidText timestamp random) := by
  have hdigits := (numeral_digits timestamp random).lt
  have hpush := pushBytes_payload arithmetic timestamp random
  unfold ksuidText
  generalize List.leftpad 27 0 (Nat.digits 62 (ksuidValue timestamp random)).reverse = digits at hdigits hpush
  unfold encodeKsuid
  apply Except.bind_eq_ok.mpr
  refine ⟨digits, hpush, ?_⟩
  apply Except.bind_eq_ok.mpr
  exact ⟨_, mapM_ksuidChar hdigits, rfl⟩

/-- Each byte is taken in without a carry off the top. -/
theorem carries_zero (timestamp : UInt32) (random : Vector UInt8 16) {before after : List Nat} {byte : Nat}
    (hsplit : ksuidPayload timestamp random = before ++ byte :: after) :
    ∃ digits digits', pushBytes arithmetic (List.replicate 27 0) before = .ok digits ∧
      pushByte arithmetic digits byte = .ok (digits', 0) := by
  have hzero := Digits.numeral_zero 62 (by decide) 27
  have hlt := (numeral_payload timestamp random).lt
  have hroom := payload_room timestamp random
  rw [← (numeral_payload timestamp random).value] at hroom
  rw [hsplit] at hlt hroom
  obtain ⟨hbefore, hrest⟩ := List.forall_mem_append.mp hlt
  obtain ⟨hbyte, hafter⟩ := List.forall_mem_cons.mp hrest
  have hnumber : Digits.number 256 (before ++ byte :: after) =
      (Digits.number 256 before * 256 + byte) * 256 ^ after.length + Digits.number 256 after := by
    rw [Digits.number_append, Digits.number_cons, List.length_cons, Nat.pow_succ']
    ring
  rw [hnumber] at hroom
  have hpos : 0 < 256 ^ after.length := Nat.pow_pos (by decide)
  have hle : (Digits.number 256 before * 256 + byte) * 1 ≤ (Digits.number 256 before * 256 + byte) * 256 ^ after.length :=
    Nat.mul_le_mul_left _ hpos
  obtain ⟨digits, hrun, hnumeral⟩ := pushBytes_numeral arithmetic hzero hbefore (by omega)
  rw [Nat.zero_mul, Nat.zero_add] at hnumeral
  obtain ⟨digits', hpush, _⟩ := pushByte_numeral arithmetic hnumeral hbyte (by omega)
  exact ⟨digits, digits', hrun, hpush⟩

theorem base62Decode_ksuidText (timestamp : UInt32) (random : Vector UInt8 16) :
    base62Decode arithmetic (ksuidText timestamp random) = .ok (ksuidPayload timestamp random) := by
  have hdigits := numeral_digits timestamp random
  have hrun := decode_charOf arithmetic hdigits.lt 0
  rw [Nat.zero_mul, Nat.zero_add, hdigits.value, Nat.digits_zero] at hrun
  unfold base62Decode ksuidText
  rw [String.toList_ofList, hrun]
  have hpad := Digits.numeral_leftpad 256 (by decide) (ksuidValue_lt timestamp random)
  exact congrArg Except.ok (hpad.unique (by decide) (numeral_payload timestamp random))

theorem exact_ksuidText (arithmetic : Arithmetic) (timestamp : UInt32) (random : Vector UInt8 16) :
    Exact arithmetic timestamp random (ksuidText timestamp random) := by
  have hdigits := numeral_digits timestamp random
  constructor
  · exact encodeKsuid_eq arithmetic timestamp random
  · refine ⟨_, hdigits, ?_⟩
    rw [mapM_ksuidChar hdigits.lt, ksuidText, String.toList_ofList]
  · intro before byte after hsplit
    exact carries_zero arithmetic timestamp random hsplit
  · exact base62Decode_ksuidText arithmetic timestamp random

theorem ksuidText_lt_iff (timestamp timestamp' : UInt32) (random random' : Vector UInt8 16) :
    ksuidText timestamp random < ksuidText timestamp' random' ↔
      timestamp < timestamp' ∨ timestamp = timestamp' ∧ random.toList < random'.toList := by
  have hdigits := numeral_digits timestamp random
  have hdigits' := numeral_digits timestamp' random'
  have hlen := hdigits.length.trans hdigits'.length.symm
  rw [ksuidText, ksuidText, String.lt_iff, String.toList_ofList, String.toList_ofList,
    Digits.map_lt_map_iff (by decide) charOf_lt_iff charOf_inj hlen hdigits.lt hdigits'.lt, hdigits.value, hdigits'.value]
  unfold ksuidValue
  rw [Digits.mul_add_lt_iff (bytesNumber_lt random) (bytesNumber_lt random'), bytesNumber_lt_iff, UInt32.toNat_inj,
    UInt32.lt_iff_toNat_lt]

theorem ksuidText_inj (timestamp timestamp' : UInt32) (random random' : Vector UInt8 16) :
    ksuidText timestamp random = ksuidText timestamp' random' ↔ timestamp = timestamp' ∧ random = random' := by
  constructor
  · intro h
    have hdecoded := (exact_ksuidText .checked timestamp random).decoded
    rw [h, (exact_ksuidText .checked timestamp' random').decoded] at hdecoded
    have hvalue : ksuidValue timestamp' random' = ksuidValue timestamp random := by
      rw [← (numeral_payload timestamp' random').value, Except.ok.inj hdecoded, (numeral_payload timestamp random).value]
    have hr := bytesNumber_lt random
    have hr' := bytesNumber_lt random'
    unfold ksuidValue at hvalue
    constructor
    · exact UInt32.toNat_inj.mp (by omega)
    · exact bytesNumber_inj (by omega)
  · rintro ⟨rfl, rfl⟩
    rfl

/-- Ids are their timestamps and random bytes in base 62, exactly, differ when these do, and sort by them. -/
theorem ksuid_exact : ∃ text : UInt32 → Vector UInt8 16 → String,
    (∀ arithmetic timestamp random, Exact arithmetic timestamp random (text timestamp random)) ∧
      ∀ timestamp timestamp' random random',
        (text timestamp random = text timestamp' random' ↔ timestamp = timestamp' ∧ random = random') ∧
          (text timestamp random < text timestamp' random' ↔
            timestamp < timestamp' ∨ timestamp = timestamp' ∧ random.toList < random'.toList) := by
  refine ⟨ksuidText, exact_ksuidText, fun timestamp timestamp' random random' => ?_⟩
  exact ⟨ksuidText_inj timestamp timestamp' random random', ksuidText_lt_iff timestamp timestamp' random random'⟩

/-! ## Ids by the clock -/

theorem ksuidTimestamp_lt {secs secs' : UInt64} (h : secs < secs') (hepoch : ksuidEpochSecs < secs'.toNat)
    (hlast : secs.toNat < ksuidEpochSecs + (2 ^ 32 - 1)) : ksuidTimestamp secs < ksuidTimestamp secs' := by
  have hsecs := UInt64.lt_iff_toNat_lt.mp h
  have hlt : min (secs.toNat - ksuidEpochSecs) (2 ^ 32 - 1) < 2 ^ 32 := by omega
  have hlt' : min (secs'.toNat - ksuidEpochSecs) (2 ^ 32 - 1) < 2 ^ 32 := by omega
  rw [UInt32.lt_iff_toNat_lt, ksuidTimestamp, ksuidTimestamp, UInt32.toNat_ofNat_of_lt' hlt,
    UInt32.toNat_ofNat_of_lt' hlt']
  omega

/-- From the epoch until the timestamps are used up, an id of a later second sorts later. -/
theorem getKsuid_lt {secs secs' : UInt64} (h : secs < secs') (hepoch : ksuidEpochSecs < secs'.toNat)
    (hlast : secs.toNat < ksuidEpochSecs + (2 ^ 32 - 1)) (random random' : Vector UInt8 16) :
    ∃ id id', getKsuid arithmetic secs random = .ok id ∧ getKsuid arithmetic secs' random' = .ok id' ∧ id < id' := by
  refine ⟨_, _, encodeKsuid_eq arithmetic _ random, encodeKsuid_eq arithmetic _ random', ?_⟩
  rw [ksuidText_lt_iff]
  exact .inl (ksuidTimestamp_lt h hepoch hlast)

end RequestId

end Pingsix
