import Pingsix.AiProxy
import Pingsix.RequestContext
import Pingsix.Session

/-!
# The ip-restriction plugin

Its configuration, the address it takes for the client's, and which requests it
lets through. The text form of networks is third-party.
-/

namespace Pingsix

open HttpMessage

namespace IpRestriction

/-! ## Networks -/

/-- The number an address stands for, and how many bits it has. -/
def addressBits : IpAddr → Nat × Nat
  | .v4 octets => (octets.foldl (fun n o => n * 256 + o) 0, 32)
  | .v6 groups => (groups.foldl (fun n g => n * 65536 + g) 0, 128)

structure IpNetwork where
  address : IpAddr
  prefixLength : Nat
  deriving DecidableEq, Repr

/-- Addresses of one family with the network's leading bits. -/
def IpNetwork.contains (network : IpNetwork) (ip : IpAddr) : Bool :=
  let (base, width) := addressBits network.address
  let (value, width') := addressBits ip
  width = width' && base / 2 ^ (width - network.prefixLength) = value / 2 ^ (width - network.prefixLength)

/-! ## Configuration -/

structure RawConfig where
  whitelist : List String := []
  blacklist : List String := []
  message : String := "Your IP address is not allowed"
  responseCode : Nat := 403
  trustedProxies : List String := []
  useForwardedHeaders : Bool := false
  forwardedHeaderErrorPolicy : String := "direct"
  deriving DecidableEq, Repr

namespace RawConfig

def fromValue : De RawConfig := fun v => do
  let name := "RawConfig with 7 elements"
  let src ← De.struct "RawConfig" 7 v
  let whitelist ← src.field name 0 "whitelist" (De.vec De.string) (.default [])
  let blacklist ← src.field name 1 "blacklist" (De.vec De.string) (.default [])
  let message ← src.field name 2 "message" De.string (.default "Your IP address is not allowed")
  let responseCode ← src.field name 3 "response_code" (De.unsigned 16) (.default 403)
  let trustedProxies ← src.field name 4 "trusted_proxies" (De.vec De.string) (.default [])
  let useForwardedHeaders ← src.field name 5 "use_forwarded_headers" De.bool (.default false)
  let forwardedHeaderErrorPolicy ← src.field name 6 "forwarded_header_error_policy" De.string (.default "direct")
  return { whitelist, blacklist, message, responseCode, trustedProxies, useForwardedHeaders,
           forwardedHeaderErrorPolicy }

def tryFrom (json : JsonCodec) (value : Json) : ProxyResult RawConfig :=
  match fromValue value with
  | .error e => .error (.deserialization json "Failed to parse IP restriction plugin config" e)
  | .ok config =>
    if config.whitelist = [] ∧ config.blacklist = [] then
      .error (.validationError "At least one of 'whitelist' or 'blacklist' must be non-empty")
    else if ¬(1 ≤ config.message.length ∧ config.message.length ≤ 1024) then
      .error (.validationError s!"message must be between 1 and 1024 characters, got {config.message.length}")
    else if config.responseCode ≠ 403 ∧ config.responseCode ≠ 404 then
      .error (.validationError s!"response_code must be 403 or 404, got {config.responseCode}")
    else .ok config

end RawConfig

inductive ForwardedHeaderErrorPolicy where
  | direct
  | deny
  deriving DecidableEq, Repr

structure PluginConfig where
  whitelist : List IpNetwork
  blacklist : List IpNetwork
  message : String
  responseCode : Nat
  trustedProxies : List IpNetwork
  useForwardedHeaders : Bool
  forwardedHeaderErrorPolicy : ForwardedHeaderErrorPolicy
  deriving DecidableEq, Repr

/-- The networks of one field; `label` names it in the error. -/
def parseNetworks (parse : String → Except String IpNetwork) (label : String) (texts : List String) :
    ProxyResult (List IpNetwork) :=
  texts.mapM fun s => (parse s).mapError fun e => .validationError s!"Invalid {label} IP network '{s}': {e}"

def compileConfig (json : JsonCodec) (parse : String → Except String IpNetwork) (cfg : Json) :
    ProxyResult PluginConfig := do
  let raw ← RawConfig.tryFrom json cfg
  let whitelist ← parseNetworks parse "whitelist" raw.whitelist
  let blacklist ← parseNetworks parse "blacklist" raw.blacklist
  let trustedProxies ← parseNetworks parse "trusted proxy" raw.trustedProxies
  let policy ← match raw.forwardedHeaderErrorPolicy with
    | "direct" => .ok ForwardedHeaderErrorPolicy.direct
    | "deny" => .ok ForwardedHeaderErrorPolicy.deny
    | other => .error (.configuration
        s!"Invalid forwarded_header_error_policy '{other}', expected 'direct' or 'deny'")
  return { whitelist, blacklist, message := raw.message, responseCode := raw.responseCode, trustedProxies,
           useForwardedHeaders := raw.useForwardedHeaders, forwardedHeaderErrorPolicy := policy }

/-! ## The client's address -/

inductive ClientIpError where
  | invalidForwardedHeader
  | other (e : ProxyError)
  deriving DecidableEq, Repr

/-- The comma-separated addresses of a text; none when a token is no address. -/
def parseHops (forwardedHeader : String) : Option (List IpAddr) :=
  (Text.splitChars ',' forwardedHeader.toList).mapM fun token => Discovery.parseIp (Text.trim (String.ofList token))

/-- The first hop from the right that is not trusted, or else the leftmost. -/
def clientFromProxyChain (hops : List IpAddr) (isTrusted : IpAddr → Bool) : Option IpAddr :=
  match hops.reverse.find? fun ip => !isTrusted ip with
  | some ip => some ip
  | none => hops.head?

namespace PluginConfig

def isTrustedProxy (config : PluginConfig) (ip : IpAddr) : Bool :=
  config.trustedProxies.any fun network => network.contains ip

/-- An error for an `X-Forwarded-For` that is no list of addresses. -/
def extractForwardedIp (config : PluginConfig) (req : RequestHeader) : Except Unit (Option IpAddr) :=
  match getReqHeaderValue req "x-forwarded-for" with
  | some forwardedHeader =>
    match parseHops forwardedHeader with
    | some hops => .ok (clientFromProxyChain hops config.isTrustedProxy)
    | none => .error ()
  | none => .ok ((getReqHeaderValue req "x-real-ip").bind fun value => Discovery.parseIp (Text.trim value))

def getRealClientIp (config : PluginConfig) (s : Session) : Except ClientIpError IpAddr :=
  if config.useForwardedHeaders then
    match getDirectClientIp s with
    | none => .error (.other (.internal "Failed to determine immediate client IP"))
    | some immediateClient =>
      if config.isTrustedProxy immediateClient then
        match config.extractForwardedIp s.reqHeader with
        | .ok (some realIp) => .ok realIp
        | .ok none => .ok immediateClient
        | .error () =>
          match config.forwardedHeaderErrorPolicy with
          | .direct => .ok immediateClient
          | .deny => .error .invalidForwardedHeader
      else .ok immediateClient
  else
    match getDirectClientIp s with
    | none => .error (.other (.internal "Failed to determine client IP"))
    | some ip => .ok ip

/-! ## The request phase -/

/-- The text of a JSON object with the message. -/
def buildRejectionBody (json : JsonCodec) (message : String) : Option String :=
  String.fromUTF8? (json.toVec (.obj [("message", .str message)]))

def rejection (json : JsonCodec) (config : PluginConfig) : Rejection where
  status := if 100 ≤ config.responseCode ∧ config.responseCode < 1000 then config.responseCode else 403
  body := buildRejectionBody json config.message
  contentType := some "application/json"

def requestFilter (json : JsonCodec) (config : PluginConfig) (s : Session) : ProxyResult FilterVerdict :=
  match config.getRealClientIp s with
  | .error .invalidForwardedHeader => .ok (.reject (rejection json config))
  | .error (.other e) => .error e
  | .ok clientIp =>
    if config.whitelist ≠ [] ∧ ¬config.whitelist.any (·.contains clientIp) then .ok (.reject (rejection json config))
    else if config.blacklist.any (·.contains clientIp) then .ok (.reject (rejection json config))
    else .ok .continue

end PluginConfig

end IpRestriction

end Pingsix
