import Pingsix.Encryption
import Pingsix.Lib.Base64

/-!
# Round trips through the keyring

What one keyring stores for a plaintext, a later keyring that still holds the
active key reads back. The look at the prefix decides on both sides, so the
plaintexts that carry the ciphertext prefix are the ones that do not come back.
-/

namespace Pingsix

/-! ## The cipher and its encoding -/

/-- What AES-256-GCM and the encoding document: opening inverts sealing under
the same key, a sealed text is 16 bytes longer than what it seals, and an
encoded text decodes to what was encoded and is not shorter. -/
structure Crypto.Lawful (c : Crypto) : Prop where
  opens : ∀ {key nonce plaintext ciphertext : ByteArray},
    c.aeadEncrypt key nonce plaintext = .ok ciphertext → c.aeadDecrypt key nonce ciphertext = some plaintext
  tag : ∀ {key nonce plaintext ciphertext : ByteArray},
    c.aeadDecrypt key nonce ciphertext = some plaintext → ciphertext.size = plaintext.size + 16
  decodes : ∀ bytes : ByteArray, c.base64Decode (c.base64Encode bytes) = .ok bytes
  shrinks : ∀ {s : String} {bytes : ByteArray}, c.base64Decode s = .ok bytes → bytes.size ≤ s.utf8ByteSize

/-- No other key of the ring opens what is sealed under this one. -/
def Crypto.Authentic (c : Crypto) (keys : List ByteArray) (key nonce plaintext : ByteArray) : Prop :=
  ∀ ciphertext, c.aeadEncrypt key nonce plaintext = .ok ciphertext →
    ∀ other ∈ keys, other ≠ key → c.aeadDecrypt other nonce ciphertext = none

namespace Keyring

variable {c : Crypto}

theorem isCiphertext_envelope (payload : String) : isCiphertext (envelopeV1Prefix ++ payload) = true := by
  have h : envelopeV1Prefix = ciphertextPrefix ++ "v1$" := by decide
  rw [isCiphertext, Text.startsWith_iff, h]
  exact ⟨"v1$" ++ payload, String.append_assoc⟩

theorem decryptWithAny_sealed {keys : List ByteArray} {key nonce plaintext ciphertext : ByteArray} (hk : key ∈ keys)
    (ho : c.aeadDecrypt key nonce ciphertext = some plaintext)
    (ha : ∀ other ∈ keys, other ≠ key → c.aeadDecrypt other nonce ciphertext = none) :
    decryptWithAny c nonce ciphertext keys = some plaintext := by
  induction keys with
  | nil => simp at hk
  | cons k keys ih =>
    by_cases h : k = key
    · simp [decryptWithAny, h, ho]
    · have hk' : key ∈ keys := by simpa [Ne.symm h] using hk
      have := ih hk' fun other hother => ha other (by simp [hother])
      simpa [decryptWithAny, ha k (by simp) h] using this

theorem extract_packed {nonce ciphertext : ByteArray} (hn : nonce.size = 12) :
    (nonce ++ ciphertext).extract 0 12 = nonce ∧
      (nonce ++ ciphertext).extract 12 (nonce ++ ciphertext).size = ciphertext := by
  constructor
  · rw [← hn, ByteArray.extract_append_eq_left rfl]
  · rw [← hn, ByteArray.extract_append_eq_right rfl ByteArray.size_append]

/-- The value of an envelope is what its packed bytes open to. -/
theorem decrypt_envelope {kr : Keyring} {payload : String} {packed : ByteArray}
    (hd : c.base64Decode payload = .ok packed) (hs : ¬ packed.size < 12 + 16) :
    kr.decrypt c (envelopeV1Prefix ++ payload) =
      match decryptWithAny c (packed.extract 0 12) (packed.extract 12 packed.size) kr.keys with
      | none => .error (.configuration "Failed to decrypt value with any configured keyring key")
      | some plaintext =>
        match Utf8.fromUtf8 plaintext with
        | .error e => .error (.configuration s!"Decrypted value is not valid UTF-8: {e.display}")
        | .ok s => .ok s := by
  have hp : Text.stripPrefix (envelopeV1Prefix ++ payload) envelopeV1Prefix = some payload :=
    Text.stripPrefix_eq_some.mpr rfl
  unfold decrypt
  rw [isCiphertext_envelope, Bool.not_true, if_neg Bool.false_ne_true, hp]
  dsimp only
  rw [hd]
  exact if_neg hs

theorem decrypt_encrypt (hc : c.Lawful) {kr later : Keyring} {nonce : ByteArray} {plaintext stored : String}
    (hk : kr.primary ∈ later.keys) (hn : nonce.size = 12)
    (ha : c.Authentic later.keys kr.primary nonce plaintext.toUTF8) (hp : isCiphertext plaintext = false)
    (hs : kr.encrypt c nonce plaintext = .ok stored) : later.decrypt c stored = .ok plaintext := by
  unfold encrypt at hs
  rw [if_neg (by simp [hp])] at hs
  cases he : c.aeadEncrypt kr.primary nonce plaintext.toUTF8 with
  | error e => rw [he] at hs; cases hs
  | ok ciphertext =>
    rw [he] at hs
    cases hs
    have ho := hc.opens he
    have hsize : (nonce ++ ciphertext).size = 12 + (plaintext.toUTF8.size + 16) := by
      rw [ByteArray.size_append, hn, hc.tag ho]
    rw [decrypt_envelope (hc.decodes _) (by omega), (extract_packed hn).1, (extract_packed hn).2,
      decryptWithAny_sealed hk ho (ha _ he)]
    simp only [show Utf8.fromUtf8 plaintext.toUTF8 = .ok plaintext from Utf8.fromUtf8_eq_ok.mpr rfl]

/-- A value is longer than anything its envelope opens to. -/
theorem decrypt_ne_self (hc : c.Lawful) (kr : Keyring) {value : String} (hv : isCiphertext value = true) :
    kr.decrypt c value ≠ .ok value := by
  intro h
  unfold decrypt at h
  rw [if_neg (by simp [hv])] at h
  cases hp : Text.stripPrefix value envelopeV1Prefix with
  | none => simp [hp] at h
  | some payload =>
    cases hd : c.base64Decode payload with
    | error e => simp [hp, hd] at h
    | ok packed =>
      by_cases hs : packed.size < 12 + 16
      · simp [hp, hd, hs] at h
      · cases hw : decryptWithAny c (packed.extract 0 12) (packed.extract 12 packed.size) kr.keys with
        | none => simp [hp, hd, hs, hw] at h
        | some plaintext =>
          obtain ⟨key, -, hkey⟩ := List.exists_of_findSome?_eq_some hw
          have htag := hc.tag hkey
          have hshort := hc.shrinks hd
          have hvalue : value.utf8ByteSize = envelopeV1Prefix.utf8ByteSize + payload.utf8ByteSize := by
            rw [Text.stripPrefix_eq_some.mp hp, String.utf8ByteSize_append]
          cases hu : Utf8.fromUtf8 plaintext with
          | error e => simp [hp, hd, hs, hw, hu] at h
          | ok s =>
            have hself : s = value := by simpa [hp, hd, hs, hw, hu] using h
            have hbytes : plaintext.size = value.utf8ByteSize := by
              rw [Utf8.fromUtf8_eq_ok.mp hu, hself]
              rfl
            have hprefix : envelopeV1Prefix.utf8ByteSize = 16 := by decide
            rw [ByteArray.size_extract] at htag
            omega

theorem isCiphertext_of_encrypt {kr : Keyring} {nonce : ByteArray} {plaintext stored : String}
    (hs : kr.encrypt c nonce plaintext = .ok stored) : isCiphertext stored = true := by
  unfold encrypt at hs
  split at hs
  · next hp => cases hs; exact hp
  · split at hs
    · cases hs
    · cases hs; exact isCiphertext_envelope _

/-- Ciphertext stays as it is. -/
theorem encrypt_encrypt {kr other : Keyring} {nonce : ByteArray} {plaintext stored : String}
    (hs : kr.encrypt c nonce plaintext = .ok stored) (again : ByteArray) :
    other.encrypt c again stored = .ok stored := by
  simp [encrypt, isCiphertext_of_encrypt hs]

end Keyring

namespace KeyringService

/-- A plaintext comes back through a later keyring exactly when it does not carry the ciphertext prefix. -/
theorem round_trip_iff {c : Crypto} (hc : c.Lawful) {kr later : Keyring} {nonce : ByteArray}
    {plaintext stored : String} (hk : kr.primary ∈ later.keys) (hn : nonce.size = 12)
    (ha : c.Authentic later.keys kr.primary nonce plaintext.toUTF8)
    (hs : KeyringService.encrypt c ⟨some kr⟩ nonce plaintext = .ok stored) :
    (KeyringService.decrypt c ⟨some later⟩ stored = .ok plaintext ∧
        ∀ (other : Keyring) (again : ByteArray), KeyringService.encrypt c ⟨some other⟩ again stored = .ok stored) ↔
      isCiphertext plaintext = false := by
  have hs' : kr.encrypt c nonce plaintext = .ok stored := hs
  constructor
  · intro h
    by_contra hp
    rw [Bool.not_eq_false] at hp
    have hstored : stored = plaintext := by simpa [Keyring.encrypt, hp] using hs'.symm
    rw [hstored] at h
    exact Keyring.decrypt_ne_self hc later hp h.1
  · intro hp
    exact ⟨Keyring.decrypt_encrypt hc hk hn ha hp hs', fun other again => Keyring.encrypt_encrypt hs' again⟩

/-! ## A sealed sample -/

def zeroKey : ByteArray := ⟨Array.replicate 32 0⟩

def zeroNonce : ByteArray := ⟨Array.replicate 12 0⟩

def sealedSample : ByteArray :=
  ⟨#[189, 148, 35, 79, 40, 20, 243, 23, 16, 37, 81, 69, 233, 185, 173, 187, 249, 1, 11, 109, 130, 23]⟩

/-- The cipher at one key, nonce and plaintext. -/
def sampleCrypto : Crypto where
  deriveKey _ := .error "Argon2 is not available"
  aeadEncrypt key nonce plaintext :=
    if key = zeroKey ∧ nonce = zeroNonce ∧ plaintext = "s3cret".toUTF8 then .ok sealedSample else .error "aead::Error"
  aeadDecrypt key nonce ciphertext :=
    if key = zeroKey ∧ nonce = zeroNonce ∧ ciphertext = sealedSample then some "s3cret".toUTF8 else none
  base64Encode := Base64.encode
  base64Decode s :=
    match Base64.decode s with
    | some bytes => .ok bytes
    | none => .error "Invalid input"

theorem sampleCrypto_lawful : sampleCrypto.Lawful where
  opens h := by
    simp only [sampleCrypto] at h ⊢
    split at h
    · next hp => cases h; simp [hp]
    · cases h
  tag h := by
    simp only [sampleCrypto] at h
    split at h
    · next hp => cases h; rw [hp.2.2]; decide
    · cases h
  decodes bytes := by simp [sampleCrypto, Base64.decode_encode]
  shrinks {s bytes} h := by
    simp only [sampleCrypto] at h
    split at h
    · next hd =>
      cases h
      exact (Base64.decode_size hd).trans (Utf8.length_le_utf8ByteSize s)
    · cases h

def sampleKeyring : Keyring := ⟨[zeroKey], by simp⟩

/-- A new key in front of the old one. -/
def rotatedKeyring : Keyring := ⟨[⟨Array.replicate 32 1⟩, zeroKey], by simp⟩

theorem round_trip_sample :
    KeyringService.decrypt sampleCrypto ⟨some rotatedKeyring⟩
      "$pingsix-enc:v1$AAAAAAAAAAAAAAAAvZQjTygU8xcQJVFF6bmtu/kBC22CFw==" = .ok "s3cret" := by
  have hs : KeyringService.encrypt sampleCrypto ⟨some sampleKeyring⟩ zeroNonce "s3cret" =
      .ok "$pingsix-enc:v1$AAAAAAAAAAAAAAAAvZQjTygU8xcQJVFF6bmtu/kBC22CFw==" := by rfl
  have ha : sampleCrypto.Authentic rotatedKeyring.keys sampleKeyring.primary zeroNonce "s3cret".toUTF8 := by
    intro ciphertext _ other _ hother
    exact if_neg fun h => hother h.1
  have hk : sampleKeyring.primary ∈ rotatedKeyring.keys := by
    simp [Keyring.primary, sampleKeyring, rotatedKeyring]
  exact ((round_trip_iff sampleCrypto_lawful hk (by decide) ha hs).mpr (by decide)).1

/-- A password that begins like an envelope is stored as it is, and cannot be read back. -/
theorem prefixed_plaintext_lost :
    sampleCrypto.Lawful ∧ sampleKeyring.primary ∈ sampleKeyring.keys ∧ zeroNonce.size = 12 ∧
      sampleCrypto.Authentic sampleKeyring.keys sampleKeyring.primary zeroNonce "$pingsix-enc:pw".toUTF8 ∧
      KeyringService.encrypt sampleCrypto ⟨some sampleKeyring⟩ zeroNonce "$pingsix-enc:pw" = .ok "$pingsix-enc:pw" ∧
      KeyringService.decrypt sampleCrypto ⟨some sampleKeyring⟩ "$pingsix-enc:pw" ≠ .ok "$pingsix-enc:pw" := by
  have ha : sampleCrypto.Authentic sampleKeyring.keys sampleKeyring.primary zeroNonce "$pingsix-enc:pw".toUTF8 := by
    intro ciphertext _ other _ hother
    exact if_neg fun h => hother h.1
  exact ⟨sampleCrypto_lawful, by simp [Keyring.primary, sampleKeyring], by decide, ha, by rfl,
    Keyring.decrypt_ne_self sampleCrypto_lawful sampleKeyring (by decide)⟩

end KeyringService

end Pingsix
