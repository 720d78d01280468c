import Pingsix.Externals
import Pingsix.Lib.Text
import Pingsix.Lib.Utf8
import Pingsix.Resources

/-!
# TLS material

Client certificates of upstreams, and the certificates, keys and server names
of SSL entries.
-/

namespace Pingsix

/-! ## Client certificates -/

structure CertKey where
  certificates : List ByteArray
  privateKey : ByteArray
  deriving DecidableEq

/-- The leaf certificate and the private key must belong together. -/
def loadClientCertKey (x : X509) (tls : UpstreamTls) : ProxyResult CertKey :=
  match x.stackFromPem tls.clientCert with
  | .error e => .error (.pingora s!"Failed to parse client certificate PEM: {e}")
  | .ok [] => .error (.configuration "No certificates found in client_cert")
  | .ok (leaf :: chain) =>
    match x.privateKeyFromPem tls.clientKey with
    | .error e => .error (.pingora s!"Failed to parse client private key PEM: {e}")
    | .ok privateKey =>
      match x.publicKey leaf with
      | .error e => .error (.configuration s!"Failed to read client certificate public key: {e}")
      | .ok leafPublic =>
        if x.publicEq leafPublic privateKey then .ok ⟨leaf :: chain, privateKey⟩
        else .error (.configuration "Upstream client certificate and private key do not match")

def validateClientTlsMaterial (x : X509) (tls : UpstreamTls) : ProxyResult Unit :=
  (loadClientCertKey x tls).map fun _ => ()

def validateUpstreamTlsMaterial (x : X509) (upstream : Upstream) : ProxyResult Unit :=
  match upstream.tls with
  | some tls => validateClientTlsMaterial x tls
  | none => .ok ()

/-! ## SSL entries -/

structure ProxySSL where
  inner : SSL
  parsedCert : ByteArray
  parsedKey : ByteArray
  deriving DecidableEq

/-- The bare `*`, or one `*.` in front of a name that neither starts nor ends with a dot. -/
def isValidWildcard (sni : String) : Bool :=
  sni = "*" ||
    (sni.toList.count '*' = 1 && Text.startsWith sni "*." && 2 < sni.utf8ByteSize &&
      (sni.toList.drop 2).head? ≠ some '.' && sni.toList.getLast? ≠ some '.')

def checkSni (id sni : String) : ProxyResult Unit :=
  if 0 < sni.toList.count '*' ∧ ¬isValidWildcard sni then
    .error (.configuration s!"Unsupported TLS wildcard SNI '{sni}' for '{id}'; use '*' or '*.example.com'")
  else .ok ()

def ProxySSL.tryFrom (x : X509) (value : SSL) : ProxyResult ProxySSL := do
  value.snis.forM (checkSni value.id)
  match x.fromPem value.cert with
  | .error e => throw (.configuration s!"Failed to parse cert for '{value.id}': {e}")
  | .ok parsedCert =>
    match x.privateKeyFromPem value.key with
    | .error e => throw (.configuration s!"Failed to parse key for '{value.id}': {e}")
    | .ok parsedKey =>
      match x.publicKey parsedCert with
      | .error e => throw (.configuration s!"Failed to read certificate public key for '{value.id}': {e}")
      | .ok certPublic =>
        if x.publicEq certPublic parsedKey then return ⟨value, parsedCert, parsedKey⟩
        else throw (.configuration s!"TLS certificate and private key do not match for '{value.id}'")

/-! ## Plain texts -/

/-- Reads every text as it stands and finds every certificate to belong to every key. -/
def plainX509 : X509 where
  stackFromPem s := .ok [s.toUTF8]
  fromPem s := .ok s.toUTF8
  privateKeyFromPem s := .ok s.toUTF8
  publicKey certificate := .ok certificate
  publicEq _ _ := true

end Pingsix
