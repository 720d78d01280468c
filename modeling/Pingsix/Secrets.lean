import Pingsix.ConfigSet
import Pingsix.Store

/-!
# Secrets of stored resources

Redaction, restoration of the secrets a client left redacted, and the form a
document is stored in.
-/

namespace Pingsix

section
variable (ext : Externals) (keyring : KeyringService)

/-- The secret fields of a resource, by its storage segment; unknown types pass through. -/
def transformResourceSecrets (resourceType : String) (leaf : SecretLeaf) (value : Json) : ProxyResult Json :=
  match resourceType with
  | "ssls" => SSL.transformSecrets leaf [] value
  | "upstreams" => Upstream.transformSecrets leaf [] value
  | "routes" => Route.transformSecrets ext leaf [] value
  | "services" => Service.transformSecrets ext leaf [] value
  | "global_rules" => GlobalRule.transformSecrets ext leaf [] value
  | _ => .ok value

/-- Redaction performs no fallible crypto; the fallback is never taken. -/
def redact (kind : ResourceKind) (value : Json) : Json :=
  match transformResourceSecrets ext kind.asStr (fun _ _ => .ok redacted) value with
  | .ok v => v
  | .error _ => value

mutual
/-- Does any string leaf equal the redaction sentinel? -/
def containsRedactionSentinel : Json → Bool
  | .str s => s = redacted
  | .arr items => itemsContainSentinel items
  | .obj members => membersContainSentinel members
  | _ => false

def itemsContainSentinel : List Json → Bool
  | [] => false
  | v :: items => containsRedactionSentinel v || itemsContainSentinel items

def membersContainSentinel : List (String × Json) → Bool
  | [] => false
  | (_, v) :: members => containsRedactionSentinel v || membersContainSentinel members
end

/-- Change the first member of this name. -/
def updateMember (name : String) (f : Json → Json) : List (String × Json) → List (String × Json)
  | [] => []
  | (k, v) :: rest => if k = name then (k, f v) :: rest else (k, v) :: updateMember name f rest

mutual
/-- Where the redacted stored document has a sentinel and the incoming one kept it, put the stored plaintext. -/
def restoreWalk : (secretMap plaintext incoming : Json) → Json
  | .str s, plaintext, incoming => if s = redacted ∧ incoming = .str redacted then plaintext else incoming
  | .obj map, .obj plaintext, .obj incoming => .obj (restoreMembers map plaintext incoming)
  | .arr items, .arr plaintext, .arr incoming => .arr (restoreItems items plaintext incoming)
  | _, _, incoming => incoming

def restoreMembers : (map plaintext incoming : List (String × Json)) → List (String × Json)
  | [], _, incoming => incoming
  | (key, sub) :: map, plaintext, incoming =>
    restoreMembers map plaintext <| updateMember key (fun v =>
      match Json.lookup plaintext key with
      | some pv => restoreWalk sub pv v
      | none => v) incoming

def restoreItems : (items plaintext incoming : List Json) → List Json
  | sub :: items, pv :: plaintext, v :: incoming => restoreWalk sub pv v :: restoreItems items plaintext incoming
  | _, _, incoming => incoming
end

def restoreRedactedSecrets (kind : ResourceKind) (incoming existingPlaintext : Json) : Json :=
  restoreWalk (redact ext kind existingPlaintext) existingPlaintext incoming

/-- The bytes a document is stored as, its secrets encrypted when encryption is on. -/
def encryptForStorage (nonces : SecretPath → ByteArray) (kind : ResourceKind) (value : Json) : ProxyResult ByteArray := do
  let value ← if keyring.isEnabled then
      transformResourceSecrets ext kind.asStr (applySecretOp ext.crypto keyring nonces .encrypt) value
    else .ok value
  return ext.json.toVec value

/-- Decryption draws no nonce. -/
def decryptLeaf : SecretLeaf := fun _ value => keyring.decrypt ext.crypto value

def decryptForRead (kind : ResourceKind) (value : Json) : ProxyResult Json :=
  if keyring.isEnabled then transformResourceSecrets ext kind.asStr (decryptLeaf ext keyring) value
  else .ok value

end

end Pingsix
