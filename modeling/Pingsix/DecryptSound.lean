import Pingsix.EncryptionSound
import Pingsix.Slicing

/-!
# Soundness of decryption

Where the slice of a decryption falls inside a character, and what the
decryption ends with where it does not.
-/

namespace Pingsix

/-! ## Envelopes -/

/-- A version 1 envelope around a nonce and a ciphertext. -/
def IsEnvelope (c : Crypto) (value : String) (nonce ciphertext : ByteArray) : Prop :=
  ∃ payload packed, value = envelopeV1Prefix ++ payload ∧ c.base64Decode payload = .ok packed ∧
    12 + 16 ≤ packed.size ∧ nonce = packed.extract 0 12 ∧ ciphertext = packed.extract 12 packed.size

/-- An envelope that some key of the keyring opens to the text. -/
def Opens (c : Crypto) (s : KeyringService) (value plaintext : String) : Prop :=
  ∃ kr nonce ciphertext, s.keyring = some kr ∧ IsEnvelope c value nonce ciphertext ∧
    ∃ key ∈ kr.keys, c.aeadDecrypt key nonce ciphertext = some plaintext.toUTF8

/-- A result without a panic: the value itself when it is no envelope, and otherwise an error or the opened text. -/
def Decrypts (c : Crypto) (s : KeyringService) (value : String) : Option (ProxyResult String) → Prop
  | none => False
  | some (.ok plaintext) => if isCiphertext value then Opens c s value plaintext else plaintext = value
  | some (.error _) => isCiphertext value = true

variable {c : Crypto}

namespace Keyring

/-- Where no slice panics, the decryption is the one that quotes what it can of the value. -/
theorem decryptSlicing_eq_some {kr : Keyring} {value : String} {r : ProxyResult String}
    (h : kr.decryptSlicing c value = some r) : r = kr.decrypt c value := by
  unfold decryptSlicing at h
  unfold decrypt
  by_cases hp : (!isCiphertext value) = true
  · rw [if_pos hp] at h ⊢
    exact (Option.some.inj h).symm
  · rw [if_neg hp] at h ⊢
    cases hv : Text.stripPrefix value envelopeV1Prefix with
    | none =>
      simp only [hv] at h ⊢
      obtain ⟨head, hs, rfl⟩ := Option.map_eq_some_iff.mp h
      rw [Text.extract_sliceTo hs, Utf8.fromUtf8Lossy_of_ok (Utf8.fromUtf8_eq_ok.mpr rfl)]
    | some payload =>
      simp only [hv] at h ⊢
      cases hd : c.base64Decode payload with
      | error e =>
        simp only [hd] at h ⊢
        exact (Option.some.inj h).symm
      | ok packed =>
        simp only [hd] at h ⊢
        by_cases hsize : packed.size < 12 + 16
        · rw [if_pos hsize] at h ⊢
          exact (Option.some.inj h).symm
        · rw [if_neg hsize] at h ⊢
          cases ho : decryptWithAny c (packed.extract 0 12) (packed.extract 12 packed.size) kr.keys with
          | none =>
            simp only [ho] at h ⊢
            exact (Option.some.inj h).symm
          | some plaintext =>
            simp only [ho] at h ⊢
            cases hu : Utf8.fromUtf8 plaintext with
            | error e =>
              simp only [hu] at h ⊢
              exact (Option.some.inj h).symm
            | ok s =>
              simp only [hu] at h ⊢
              exact (Option.some.inj h).symm

/-- It panics where the quoted start of a value of an unknown version ends inside a character. -/
theorem decryptSlicing_eq_none {kr : Keyring} {value : String} :
    kr.decryptSlicing c value = none ↔ isCiphertext value = true ∧ Text.startsWith value envelopeV1Prefix = false ∧
      ¬Text.IsCharBoundary value (min value.utf8ByteSize 24) := by
  unfold decryptSlicing
  cases hv : isCiphertext value with
  | false => simp
  | true =>
    cases hp : Text.startsWith value envelopeV1Prefix with
    | false =>
      have hnone : Text.stripPrefix value envelopeV1Prefix = none := if_neg (by simp [hp])
      simp only [hnone, Bool.not_true, Bool.false_eq_true, if_false, Option.map_eq_none_iff, true_and]
      exact Text.sliceTo_eq_none
    | true =>
      obtain ⟨payload, rfl⟩ := Text.startsWith_iff.mp hp
      simp only [Text.stripPrefix_eq_some.mpr rfl, Bool.not_true, Bool.false_eq_true, if_false, true_and]
      -- the payload is cut only after its length is checked
      refine iff_of_false ?_ fun h => Bool.noConfusion h.1
      split
      · exact Option.some_ne_none _
      · split
        · exact Option.some_ne_none _
        · split
          · exact Option.some_ne_none _
          · split <;> exact Option.some_ne_none _

theorem isEnvelope_of_decrypt {kr : Keyring} {value plaintext : String} (hv : isCiphertext value = true)
    (h : kr.decrypt c value = .ok plaintext) : Opens c ⟨some kr⟩ value plaintext := by
  unfold decrypt at h
  rw [if_neg (by simp [hv])] at h
  split at h
  · cases h
  · rename_i payload hp
    split at h
    · cases h
    · rename_i packed hd
      split at h
      · cases h
      · rename_i hsize
        split at h
        · cases h
        · rename_i opened ho
          split at h
          · cases h
          · rename_i s hs
            cases h
            rw [Utf8.fromUtf8_eq_ok.mp hs] at ho
            obtain ⟨key, hk, hopen⟩ := List.exists_of_findSome?_eq_some ho
            exact ⟨kr, _, _, rfl, ⟨payload, packed, Text.stripPrefix_eq_some.mp hp, hd, Nat.le_of_not_lt hsize, rfl,
              rfl⟩, key, hk, hopen⟩

end Keyring

/-- Whether the quoted start of a value of an unknown version ends with a character. -/
def QuotesWhole (s : KeyringService) (value : String) : Prop :=
  s.keyring = none ∨ isCiphertext value = false ∨ Text.startsWith value envelopeV1Prefix = true ∨
    Text.IsCharBoundary value (min value.utf8ByteSize 24)

theorem decrypts_of_eq_some {s : KeyringService} {value : String} {r : ProxyResult String}
    (h : s.decryptSlicing c value = some r) : Decrypts c s value (some r) := by
  unfold KeyringService.decryptSlicing at h
  split at h
  · rename_i kr hk
    have hr := Keyring.decryptSlicing_eq_some h
    cases r with
    | ok plaintext =>
      by_cases hv : isCiphertext value = true
      · rw [Decrypts, if_pos hv]
        obtain ⟨_, nonce, ciphertext, he, hopen⟩ := Keyring.isEnvelope_of_decrypt hv hr.symm
        cases he
        exact ⟨_, nonce, ciphertext, hk, hopen⟩
      · rw [Decrypts, if_neg hv]
        rw [Keyring.decrypt, if_pos (by simp [hv])] at hr
        exact Except.ok.inj hr
    | error e =>
      by_contra hv
      rw [Keyring.decrypt, if_pos (by simpa [Decrypts] using hv)] at hr
      cases hr
  · split at h
    · rename_i hv
      cases h
      exact hv
    · rename_i hv
      cases h
      rw [Decrypts, if_neg hv]

/-- Decryption ends with the text of an opened envelope or with an error, if and only if the start it quotes of a
value of an unknown version ends with a character. -/
theorem decrypts_iff (c : Crypto) (s : KeyringService) (value : String) :
    Decrypts c s value (s.decryptSlicing c value) ↔ QuotesWhole s value := by
  have hnone : s.decryptSlicing c value = none ↔ ¬QuotesWhole s value := by
    unfold KeyringService.decryptSlicing QuotesWhole
    cases hk : s.keyring with
    | none =>
      simp only [true_or, not_true, iff_false]
      split <;> exact Option.some_ne_none _
    | some kr =>
      simp only [reduceCtorEq, false_or, not_or, Bool.not_eq_false, Bool.not_eq_true]
      exact Keyring.decryptSlicing_eq_none
  cases hr : s.decryptSlicing c value with
  | none => exact iff_of_false (fun h => h) (hnone.mp hr)
  | some r => exact iff_of_true (decrypts_of_eq_some hr) (by
      by_contra hq
      rw [hnone.mpr hq] at hr
      cases hr)

/-- An unknown version whose twenty-fourth byte is the first of two of one character. -/
theorem decrypt_panics_multibyte :
    ¬Decrypts KeyringService.sampleCrypto ⟨some KeyringService.sampleKeyring⟩ "$pingsix-enc:v2$0123456é"
      (KeyringService.decryptSlicing KeyringService.sampleCrypto ⟨some KeyringService.sampleKeyring⟩
        "$pingsix-enc:v2$0123456é") := by
  have hnone : KeyringService.decryptSlicing KeyringService.sampleCrypto ⟨some KeyringService.sampleKeyring⟩
      "$pingsix-enc:v2$0123456é" = none := by
    rfl
  rw [hnone]
  exact id

end Pingsix
