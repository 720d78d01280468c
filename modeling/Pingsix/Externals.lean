import Pingsix.Error
import Pingsix.Lib.Json

/-!
# Third-party code

What the gateway calls outside its own sources: the JSON codec, the cipher and
its encoding, URL and header syntax, and X.509 material. The plugins without
upstream capabilities enter through their validators and factories.
-/

namespace Pingsix

/-- The text form of documents, and how a reading error is displayed. -/
structure JsonCodec where
  fromSlice : ByteArray → Except DeError Json
  toVec : Json → ByteArray
  render : DeError → String

/-- AES-256-GCM, Argon2id key derivation and standard base64. -/
structure Crypto where
  deriveKey : String → Except String ByteArray
  aeadEncrypt : (key nonce plaintext : ByteArray) → Except String ByteArray
  aeadDecrypt : (key nonce ciphertext : ByteArray) → Option ByteArray
  base64Encode : ByteArray → String
  base64Decode : String → Except String ByteArray

structure Url where
  scheme : String
  host : Option String
  portOrKnownDefault : Option Nat
  path : String
  query : Option String
  deriving DecidableEq, Repr

/-- URL, form, path and header syntax; the checks give the error of a refused text. -/
structure Http where
  parseUrl : String → Except String Url
  parseForm : String → List (String × String)
  headerName : String → Except String Unit
  headerValue : String → Except String Unit
  pathAndQuery : String → Except String Unit
  insertHeader : (name value : String) → Except String Unit

/-- PEM material: a certificate and a private key are kept as the bytes they stand for. -/
structure X509 where
  stackFromPem : String → Except String (List ByteArray)
  fromPem : String → Except String ByteArray
  privateKeyFromPem : String → Except String ByteArray
  publicKey : (certificate : ByteArray) → Except String ByteArray
  publicEq : (publicKey privateKey : ByteArray) → Bool

/-- The plugins without upstream capabilities, by name. -/
structure PlainPlugins where
  validate : String → Json → ProxyResult Unit
  create : String → Json → ProxyResult Unit

structure Externals where
  json : JsonCodec
  crypto : Crypto
  http : Http
  x509 : X509
  plain : PlainPlugins

/-- What is written is read back. -/
def JsonCodec.Lawful (c : JsonCodec) : Prop := ∀ v, c.fromSlice (c.toVec v) = .ok v

namespace ProxyError

/-- `serialization_error` with a reading error as its cause. -/
def deserialization (c : JsonCodec) (message : String) (e : DeError) : ProxyError :=
  serializationError message (c.render e)

end ProxyError

end Pingsix
