import Pingsix.Encryption
import Pingsix.Lib.Slice
import Pingsix.Runtime

/-!
# Slices of the source

The two functions that cut a string received from outside at a byte position,
with their cuts. A call without a result panics.
-/

namespace Pingsix

/-! ## Server names -/

namespace SslMatcher

def hostMatchesWildcardSlicing (host suffix : String) : Option Bool :=
  if suffix = "" then some (host ≠ "" && !Text.containsChar host '.')
  else
    let suffixLen := suffix.utf8ByteSize
    if host.utf8ByteSize ≤ suffixLen + 1 then some false
    else do
      let suffixStart := host.utf8ByteSize - suffixLen
      let tail ← Text.sliceFrom host suffixStart
      if tail ≠ suffix then return false
      let separator ← Text.byteAt host (suffixStart - 1)
      if separator ≠ UInt8.ofNat '.'.toNat then return false
      let label ← Text.sliceTo host (suffixStart - 1)
      return label ≠ "" && !Text.containsChar label '.'

def matchWildcardsSlicing (host : String) : List (String × ProxySSL) → Option (Option ProxySSL)
  | [] => some none
  | (suffix, ssl) :: wildcards => do
    if ← hostMatchesWildcardSlicing host suffix then return some ssl
    matchWildcardsSlicing host wildcards

def matchSniSlicing (M : Matchit) (m : SslMatcher) (sni : String) : Option (Option ProxySSL) :=
  let normalized := toAsciiLowercase sni
  match m.snis.atPath M (String.ofList normalized.toList.reverse) with
  | some found => some (some found.value)
  | none => do
    match ← matchWildcardsSlicing normalized m.wildcards with
    | some ssl => return some ssl
    | none => return m.catchAll

end SslMatcher

/-! ## Encrypted values -/

namespace Keyring

def decryptSlicing (c : Crypto) (kr : Keyring) (value : String) : Option (ProxyResult String) :=
  if !isCiphertext value then some (.ok value)
  else
    match Text.stripPrefix value envelopeV1Prefix with
    | none =>
      (Text.sliceTo value (min value.utf8ByteSize 24)).map fun head =>
        .error (.configuration s!"Unsupported encryption envelope version in value starting with '{head}'")
    | some payload =>
      match c.base64Decode payload with
      | .error e => some (.error (.configuration s!"Invalid encrypted value encoding: {e}"))
      | .ok packed =>
        if packed.size < 12 + 16 then some (.error (.configuration "Invalid encrypted value: payload too short"))
        else
          match decryptWithAny c (packed.extract 0 12) (packed.extract 12 packed.size) kr.keys with
          | none => some (.error (.configuration "Failed to decrypt value with any configured keyring key"))
          | some plaintext =>
            match Utf8.fromUtf8 plaintext with
            | .error e => some (.error (.configuration s!"Decrypted value is not valid UTF-8: {e.display}"))
            | .ok s => some (.ok s)

end Keyring

def KeyringService.decryptSlicing (c : Crypto) (s : KeyringService) (value : String) : Option (ProxyResult String) :=
  match s.keyring with
  | some kr => kr.decryptSlicing c value
  | none =>
    if isCiphertext value then
      some (.error (.configuration "Encrypted value found but data_encryption is disabled"))
    else some (.ok value)

end Pingsix
