import Pingsix.AiProxy
import Pingsix.AuthPlugins

/-!
# The csrf plugin

Its configuration, the tokens it issues, and which requests it lets through.
The two hash functions and the JSON text of a token are third-party. Times are
in seconds since the epoch, none when the clock is set before it.
-/

namespace Pingsix

open HttpMessage

namespace Csrf

/-! ## Configuration -/

structure PluginConfig where
  key : String
  expires : Nat := 7200
  name : String := "pingsix-csrf-token"
  deriving DecidableEq, Repr

namespace PluginConfig

def fromValue : De PluginConfig := fun v => do
  let nm := "PluginConfig with 3 elements"
  let src ← De.struct "PluginConfig" 3 v
  let key ← src.field nm 0 "key" De.string .required
  let expires ← src.field nm 1 "expires" (De.unsigned 64) (.default 7200)
  let name ← src.field nm 2 "name" De.string (.default "pingsix-csrf-token")
  return { key, expires, name }

def validate (config : PluginConfig) : List FieldError := FieldError.length "key" 1 config.key.length

def tryFrom (json : JsonCodec) (value : Json) : ProxyResult PluginConfig :=
  parseAndValidatePluginConfig json fromValue validate "Invalid csrf plugin config" value

end PluginConfig

/-! ## Tokens -/

/-- HMAC-SHA256 of a key and a message, SHA-256, and the JSON text of tokens. -/
structure TokenCrypto where
  hmac : List UInt8 → List UInt8 → HexDigest
  sha : Sha256
  /-- The members of an object as written: a name can come twice. -/
  parse : ByteArray → Except DeError Json
  write : Json → ByteArray

structure CsrfToken where
  random : String
  /-- When the token was created. -/
  expires : Nat
  sign : String
  deriving DecidableEq, Repr

namespace CsrfToken

def toValue (t : CsrfToken) : Json :=
  .obj [("random", .str t.random), ("expires", .num (.posInt t.expires)), ("sign", .str t.sign)]

def fields : List String := ["random", "expires", "sign"]

/-- A field of the token that an object has twice. -/
def duplicateField : Json → Option String
  | .obj members => fields.find? fun name => 1 < (members.filter fun m => m.1 = name).length
  | _ => none

def fromValue : De CsrfToken := fun v => do
  let nm := "CsrfToken with 3 elements"
  let src ← De.struct "CsrfToken" 3 v
  match duplicateField v with
  | some name => throw (.custom s!"duplicate field `{name}`")
  | none =>
    let random ← src.field nm 0 "random" De.string .required
    let expires ← src.field nm 1 "expires" (De.unsigned 64) .required
    let sign ← src.field nm 2 "sign" De.string .required
    return { random, expires, sign }

/-- `expires.saturating_add(ttl)` -/
def expiryTime (t : CsrfToken) (ttl : Nat) : Nat := min (t.expires + ttl) (2 ^ 64 - 1)

/-- A lifetime of zero is none at all. -/
def isExpired (t : CsrfToken) (ttl now : Nat) : Bool := decide (0 < ttl ∧ t.expiryTime ttl < now)

end CsrfToken

def hexEncode (bytes : List UInt8) : String :=
  String.ofList (bytes.flatMap fun b => [Nat.digitChar (b.toNat / 16), Nat.digitChar (b.toNat % 16)])

/-- What reaches the MAC in its two updates. -/
def signedMessage (random : String) (expires : Nat) : List UInt8 := bytesOf random ++ bytesOf (toString expires)

/-- What one token is made from: the bytes drawn and the time. -/
structure Issue where
  randomBytes : Vector UInt8 16
  now : Nat
  deriving DecidableEq

namespace Issue

def random (i : Issue) : String := hexEncode i.randomBytes.toList

def message (i : Issue) : List UInt8 := signedMessage i.random i.now

end Issue

def constantTimeEq (sha : Sha256) (a b : String) : Bool := decide (secretDigest sha a = secretDigest sha b)

def buildCookieValue (name token : String) (expires : Nat) : String :=
  s!"{name}={token}; Path=/; SameSite=Lax; Max-Age={expires}; Secure"

/-- The token that a text carries. -/
def tokenOf (crypto : TokenCrypto) (text : String) : Option CsrfToken := do
  let decoded ← Base64.decode text
  let document ← (crypto.parse decoded).toOption
  (CsrfToken.fromValue document).toOption

/-! ## The plugin -/

structure PluginCsrf where
  config : PluginConfig
  deriving DecidableEq, Repr

namespace PluginCsrf

variable (crypto : TokenCrypto) (plugin : PluginCsrf)

def macText (message : List UInt8) : String :=
  String.ofList (crypto.hmac (bytesOf plugin.config.key) message).chars

def genSign (random : String) (expires : Nat) : String := plugin.macText crypto (signedMessage random expires)

def genToken (i : Issue) : CsrfToken :=
  { random := i.random, expires := i.now, sign := plugin.genSign crypto i.random i.now }

def genTokenString (randomBytes : Vector UInt8 16) (now : Option Nat) : Option String :=
  now.map fun now => Base64.encode (crypto.write (plugin.genToken crypto ⟨randomBytes, now⟩).toValue)

def checkToken (text : String) (now : Option Nat) : Bool :=
  match tokenOf crypto text, now with
  | some t, some now =>
    !t.isExpired plugin.config.expires now &&
      constantTimeEq crypto.sha t.sign (plugin.genSign crypto t.random t.expires)
  | _, _ => false

def safeMethods : List String := ["GET", "HEAD", "OPTIONS"]

def reject (message : String) : FilterVerdict :=
  .reject { status := 401, body := some message, contentType := some "text/plain" }

def requestFilter (req : RequestHeader) (now : Option Nat) : FilterVerdict :=
  if safeMethods.contains req.method.text then .continue
  else
    match (getReqHeaderValue req plugin.config.name).filter (· ≠ "") with
    | none => reject "no csrf token in headers"
    | some header =>
      match getCookieValue req plugin.config.name with
      | none => reject "no csrf cookie"
      | some cookie =>
        if header ≠ cookie then reject "csrf token mismatch"
        else if plugin.checkToken crypto cookie now then .continue
        else reject "Failed to verify the csrf token signature"

/-- The headers of the response with the cookie; an error when it is no header value. -/
def setCsrfCookie (randomBytes : Vector UInt8 16) (now : Option Nat) (headers : HeaderMap) : Except Unit HeaderMap :=
  match plugin.genTokenString crypto randomBytes now with
  | none => .ok headers
  | some token =>
    match HeaderValue.ofString (buildCookieValue plugin.config.name token plugin.config.expires) with
    | some value => .ok (HeaderMap.append headers "set-cookie" value)
    | none => .error ()

end PluginCsrf

end Csrf

end Pingsix
