import Pingsix.AuthPlugins

/-!
# JWT validation options

The configuration of the jwt-auth plugin, the key and the validation object
made from it, and the plugin that decodes tokens with them. Decoding is the
token library's, as are the keys.
-/

namespace Pingsix.JwtAuth

variable {υ Key : Type}

inductive Algorithm where
  | hs256
  | hs384
  | hs512
  | es256
  | es384
  | rs256
  | rs384
  | rs512
  | ps256
  | ps384
  | ps512
  | edDSA
  deriving DecidableEq, Repr

structure PluginConfig where
  header : String := "authorization"
  query : String := ""
  cookie : String := "jwt"
  hideCredentials : Bool := false
  realm : Option String := none
  claimsToVerify : Option (List String) := none
  secret : Option String := none
  algorithm : Algorithm := .hs256
  base64Secret : Bool := false
  lifetimeGracePeriod : Nat := 0
  publicKey : Option String := none
  iss : Option String := none
  aud : Option String := none
  requiredClaims : List String := []
  deriving DecidableEq, Repr

/-! ## The token library -/

/-- The registered claims of a payload; an issuer or an audience may be one name or several. -/
structure Claims where
  exp : Option Nat := none
  nbf : Option Nat := none
  sub : Option String := none
  iss : Option (List String) := none
  aud : Option (List String) := none
  deriving DecidableEq, Repr

/-- The names that are enforced when they are required. -/
def registered : List String := ["exp", "nbf", "sub", "iss", "aud"]

def Claims.carries (claims : Claims) : String → Bool
  | "exp" => claims.exp.isSome
  | "nbf" => claims.nbf.isSome
  | "sub" => claims.sub.isSome
  | "iss" => claims.iss.isSome
  | "aud" => claims.aud.isSome
  | _ => false

structure Validation where
  algorithm : Algorithm
  leeway : Nat := 60
  requiredSpecClaims : List String := ["exp"]
  validateNbf : Bool := false
  iss : Option (List String) := none
  aud : Option (List String) := none
  deriving DecidableEq, Repr

namespace Validation

def new (algorithm : Algorithm) : Validation := { algorithm }

def setIssuer (v : Validation) (items : List String) : Validation := { v with iss := some items }

def setAudience (v : Validation) (items : List String) : Validation := { v with aud := some items }

/-- A name among several is one of the allowed ones. -/
def anyOf (allowed names : List String) : Bool := names.any fun name => decide (name ∈ allowed)

/-- What `decode` checks of the claims: an issuer and an audience are compared where the token carries them. -/
def admits (v : Validation) (now : Nat) (claims : Claims) : Bool :=
  (v.requiredSpecClaims.filter (· ∈ registered)).all claims.carries &&
    (claims.exp.all fun exp => decide (now ≤ exp + v.leeway)) &&
    (!v.validateNbf || claims.nbf.all fun nbf => decide (nbf ≤ now + v.leeway)) &&
    (claims.iss.all fun names => v.iss.all (anyOf · names)) &&
    claims.aud.all fun names => v.aud.any (anyOf · names)

end Validation

inductive ErrorKind where
  | invalidToken
  | invalidSignature
  | expiredSignature
  | invalidIssuer
  | invalidAudience
  | invalidSubject
  | immatureSignature
  | other
  deriving DecidableEq, Repr

def ErrorKind.message : ErrorKind → String
  | invalidToken => "Invalid token format"
  | invalidSignature => "Invalid signature"
  | expiredSignature => "Token expired"
  | invalidIssuer => "Invalid issuer"
  | invalidAudience => "Invalid audience"
  | invalidSubject => "Invalid subject"
  | immatureSignature => "Token not yet valid"
  | other => "Invalid token"

/-- The library: its keys, the claims in the payload of a token, whether the header of a token names the algorithm and
its signature is right under the key, and decoding, which succeeds when that and the checks of the claims do. -/
structure TokenLibrary (Key : Type) where
  fromSecret : ByteArray → Key
  fromRsaPem : String → Except String Key
  fromEcPem : String → Except String Key
  fromEdPem : String → Except String Key
  base64Error : String → String
  claims : String → Option Claims
  verifies : Algorithm → Key → String → Bool
  decode : Key → Validation → Nat → String → Except ErrorKind Claims
  decode_ok : ∀ key v now token claims', decode key v now token = .ok claims' ↔
    verifies v.algorithm key token = true ∧ claims token = some claims' ∧ v.admits now claims' = true

/-! ## The plugin -/

namespace PluginConfig

/-- Each entry is `exp` or `nbf`, and none is repeated. -/
def validateClaimsToVerify (seen : List String) : List String → Except String Unit
  | [] => .ok ()
  | claim :: claims =>
    if claim ≠ "exp" ∧ claim ≠ "nbf" then .error "claims_to_verify entries must be \"exp\" or \"nbf\""
    else if claim ∈ seen then .error "claims_to_verify entries must be unique"
    else validateClaimsToVerify (seen ++ [claim]) claims

def validate (c : PluginConfig) : ProxyResult Unit :=
  match c.claimsToVerify.elim (.ok ()) (validateClaimsToVerify []) with
  | .ok () => .ok ()
  | .error code => .error (.validationStructured [{ path := "claims_to_verify", code }])

def getDecodingKey (lib : TokenLibrary Key) (c : PluginConfig) : Except String Key :=
  match c.algorithm with
  | .hs256 | .hs384 | .hs512 =>
    match c.secret with
    | none => .error "Secret is required for HMAC algorithms (HS256, HS384, HS512)"
    | some secret =>
      if c.base64Secret then
        match Base64.decode secret with
        | some bytes => .ok (lib.fromSecret bytes)
        | none => .error s!"Failed to decode base64 secret: {lib.base64Error secret}"
      else .ok (lib.fromSecret secret.toUTF8)
  | .rs256 | .rs384 | .rs512 | .ps256 | .ps384 | .ps512 =>
    match c.publicKey with
    | none => .error "Public key is required for RSA algorithms (RS256, RS384, RS512, PS256, PS384, PS512)"
    | some pem => (lib.fromRsaPem pem).mapError fun e => s!"Failed to parse RSA public key: {e}"
  | .es256 | .es384 =>
    match c.publicKey with
    | none => .error "Public key is required for ECDSA algorithms (ES256, ES384)"
    | some pem => (lib.fromEcPem pem).mapError fun e => s!"Failed to parse ECDSA public key: {e}"
  | .edDSA =>
    match c.publicKey with
    | none => .error "Public key is required for EdDSA"
    | some pem => (lib.fromEdPem pem).mapError fun e => s!"Failed to parse EdDSA public key: {e}"

end PluginConfig

def validateApisixRealm (realm : String) : Bool :=
  decide (1 ≤ realm.utf8ByteSize ∧ realm.utf8ByteSize ≤ 128) &&
    realm.toList.all fun c => decide (0x20 ≤ c.toNat ∧ c.toNat ≤ 0x7e ∧ c ≠ '"' ∧ c ≠ '\\')

def requireClaim (v : Validation) (claim : String) : Validation :=
  { v with requiredSpecClaims := v.requiredSpecClaims.insert claim }

/-- A claim to verify is required, and the value of `nbf` is checked when it is listed. -/
def verifyClaim (v : Validation) (claim : String) : Validation :=
  let v := requireClaim v claim
  if claim = "nbf" then { v with validateNbf := true } else v

def buildValidation (c : PluginConfig) : Validation :=
  let v := { Validation.new c.algorithm with leeway := c.lifetimeGracePeriod }
  let v := c.iss.elim v fun iss => v.setIssuer [iss]
  let v := c.aud.elim v fun aud => v.setAudience [aud]
  let v := c.requiredClaims.foldl requireClaim v
  c.claimsToVerify.elim v fun claims => claims.foldl verifyClaim v

structure JwtAuthPlugin (Key : Type) where
  config : PluginConfig
  decodingKey : Key
  validation : Validation

def createJwtAuthPlugin (lib : TokenLibrary Key) (config : PluginConfig) : ProxyResult (JwtAuthPlugin Key) :=
  match config.validate with
  | .error e => .error e
  | .ok () =>
    if config.realm.any fun realm => !validateApisixRealm realm then
      .error (.validation "realm must be 1..=128 printable ASCII characters and cannot contain \" or \\")
    else
      match config.getDecodingKey lib with
      | .error e => .error (.configuration s!"Failed to create JWT decoding key: {e}")
      | .ok decodingKey => .ok { config, decodingKey, validation := buildValidation config }

namespace JwtAuthPlugin

/-- The plugin at a time, in seconds. -/
def atTime (lib : TokenLibrary Key) (now : Nat) (p : JwtAuthPlugin Key) : PluginJWTAuth where
  header := p.config.header
  query := p.config.query
  cookie := p.config.cookie
  hideCredentials := p.config.hideCredentials
  realm := p.config.realm
  decode token :=
    match lib.decode p.decodingKey p.validation now token with
    | .ok _ => .ok ()
    | .error e => .error e.message

def requestFilter (lib : TokenLibrary Key) (sha : Sha256) (now : Nat) (p : JwtAuthPlugin Key) (st : FilterState υ) :
    FilterResult υ := (p.atTime lib now).requestFilter sha st

end JwtAuthPlugin

end Pingsix.JwtAuth
