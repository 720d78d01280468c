import Pingsix.Externals
import Pingsix.Lib.Text
import Pingsix.Lib.Utf8

/-!
# Field encryption

The versioned envelope of encrypted values, the keyring, and the walks that
apply one operation to the secret fields of a document.
-/

namespace Pingsix

inductive SecretOp where
  | encrypt
  | decrypt
  | redact
  deriving DecidableEq, Repr

/-- Mask written over secret values. -/
def redacted : String := "***"

def ciphertextPrefix : String := "$pingsix-enc:"

def envelopeV1Prefix : String := "$pingsix-enc:v1$"

def isCiphertext (value : String) : Bool := Text.startsWith value ciphertextPrefix

/-! ## The keyring -/

/-- Keys derived from the configured secrets, newest first. -/
structure Keyring where
  keys : List ByteArray
  nonempty : keys ≠ []

namespace Keyring

def primary (kr : Keyring) : ByteArray := kr.keys.head kr.nonempty

def deriveKeys (c : Crypto) : Nat → List String → ProxyResult (List ByteArray)
  | _, [] => .ok []
  | i, secret :: secrets =>
    if secret = "" then .error (.configuration s!"data_encryption.keyring[{i}] must not be empty")
    else
      match c.deriveKey secret with
      | .error e => .error (.internal s!"Failed to derive encryption key: {e}")
      | .ok key => (deriveKeys c (i + 1) secrets).map (key :: ·)

def fromSecrets (c : Crypto) (secrets : List String) : ProxyResult Keyring :=
  match deriveKeys c 0 secrets with
  | .error e => .error e
  | .ok keys =>
    if h : keys ≠ [] then .ok ⟨keys, h⟩
    else
      .error (.configuration "data_encryption.keyring must contain at least one key when enable is true")

/-- Encrypt with the newest key under a fresh nonce; ciphertext is left as it is. -/
def encrypt (c : Crypto) (kr : Keyring) (nonce : ByteArray) (plaintext : String) : ProxyResult String :=
  if isCiphertext plaintext then .ok plaintext
  else
    match c.aeadEncrypt kr.primary nonce plaintext.toUTF8 with
    | .error e => .error (.internal s!"Failed to encrypt value: {e}")
    | .ok ciphertext => .ok (envelopeV1Prefix ++ c.base64Encode (nonce ++ ciphertext))

def decryptWithAny (c : Crypto) (nonce ciphertext : ByteArray) (keys : List ByteArray) : Option ByteArray :=
  keys.findSome? fun key => c.aeadDecrypt key nonce ciphertext

/-- Decrypt with the first key that opens the value. Where the source cuts an
unsupported value inside a character it panics; either way no value is returned. -/
def decrypt (c : Crypto) (kr : Keyring) (value : String) : ProxyResult String :=
  if !isCiphertext value then .ok value
  else
    match Text.stripPrefix value envelopeV1Prefix with
    | none =>
      let head := Utf8.fromUtf8Lossy (value.toUTF8.extract 0 (min value.utf8ByteSize 24))
      .error (.configuration s!"Unsupported encryption envelope version in value starting with '{head}'")
    | some payload =>
      match c.base64Decode payload with
      | .error e => .error (.configuration s!"Invalid encrypted value encoding: {e}")
      | .ok packed =>
        if packed.size < 12 + 16 then .error (.configuration "Invalid encrypted value: payload too short")
        else
          match decryptWithAny c (packed.extract 0 12) (packed.extract 12 packed.size) kr.keys with
          | none => .error (.configuration "Failed to decrypt value with any configured keyring key")
          | some plaintext =>
            match Utf8.fromUtf8 plaintext with
            | .error e => .error (.configuration s!"Decrypted value is not valid UTF-8: {e.display}")
            | .ok s => .ok s

end Keyring

/-- The keyring of one gateway instance; none when field encryption is off. -/
structure KeyringService where
  keyring : Option Keyring

namespace KeyringService

def disabled : KeyringService := ⟨none⟩

def new (c : Crypto) (enable : Bool) (keyring : List String) : ProxyResult KeyringService :=
  if enable then (Keyring.fromSecrets c keyring).map fun kr => ⟨some kr⟩ else .ok ⟨none⟩

def isEnabled (s : KeyringService) : Bool := s.keyring.isSome

def encrypt (c : Crypto) (s : KeyringService) (nonce : ByteArray) (plaintext : String) : ProxyResult String :=
  match s.keyring with
  | some kr => kr.encrypt c nonce plaintext
  | none => .ok plaintext

def decrypt (c : Crypto) (s : KeyringService) (value : String) : ProxyResult String :=
  match s.keyring with
  | some kr => kr.decrypt c value
  | none =>
    if isCiphertext value then
      .error (.configuration "Encrypted value found but data_encryption is disabled")
    else .ok value

end KeyringService

/-! ## Walks over secret fields -/

/-- Where a leaf stands in a document. -/
abbrev SecretPath := List (String ⊕ Nat)

/-- What is done to each secret string. -/
abbrev SecretLeaf := SecretPath → String → ProxyResult String

/-- A walk over the secret fields of a value. -/
abbrev SecretWalk := SecretLeaf → SecretPath → Json → ProxyResult Json

/-- `apply_secret_op`; encryption draws its own nonce for every leaf. -/
def applySecretOp (c : Crypto) (s : KeyringService) (nonces : SecretPath → ByteArray) : SecretOp → SecretLeaf
  | .encrypt, path, value => s.encrypt c (nonces path) value
  | .decrypt, _, value => s.decrypt c value
  | .redact, _, _ => .ok redacted

def transformItems (leaf : SecretLeaf) (path : SecretPath) : Nat → List Json → ProxyResult (List Json)
  | _, [] => .ok []
  | i, .str s :: items => do
    let s ← leaf (path ++ [.inr i]) s
    return .str s :: (← transformItems leaf path (i + 1) items)
  | i, v :: items => do return v :: (← transformItems leaf path (i + 1) items)

/-- A string, or the strings of an array. -/
def transformLeaf : SecretWalk := fun leaf path v =>
  match v with
  | .str s => (leaf path s).map .str
  | .arr items => (transformItems leaf path 0 items).map .arr
  | v => .ok v

/-- One statement of a derived walk: what is done to one member of the object. -/
structure SecretField where
  name : String
  walk : SecretWalk

namespace SecretField

/-- `#[encrypt]` -/
def leaf (name : String) : SecretField := ⟨name, transformLeaf⟩

/-- `#[encrypt(nested)]` -/
def nested (name : String) (walk : SecretWalk) : SecretField where
  name := name
  walk leaf path v := if v = .null then .ok v else walk leaf path v

def apply (f : SecretField) (leaf : SecretLeaf) (path : SecretPath) (members : List (String × Json)) :
    ProxyResult (List (String × Json)) :=
  Json.modifyMember f.name (f.walk leaf (path ++ [.inl f.name])) members

end SecretField

/-- A derived `transform_secrets`: its statements in order, on objects only. -/
def transformSecrets (fields : List SecretField) : SecretWalk := fun leaf path v =>
  match v with
  | .obj members => (fields.foldlM (fun members (f : SecretField) => f.apply leaf path members) members).map .obj
  | v => .ok v

/-- The values of a map, each walked under its key. -/
def transformMembers (walk : String → SecretWalk) : SecretWalk := fun leaf path v =>
  match v with
  | .obj members => (Json.mapMembers (fun k v => walk k leaf (path ++ [.inl k]) v) members).map .obj
  | v => .ok v

end Pingsix
