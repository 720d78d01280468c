import Pingsix.Encryption
import Pingsix.Resources

/-!
# The ai-proxy configuration

Its schema and checks, the endpoint it resolves to, and the upstream of that
endpoint.
-/

namespace Pingsix

/-- The configuration scope that owns a plugin-declared upstream. -/
inductive TrafficSplitOwner where
  | route (id : String)
  | service (id : String)
  | globalRule (id : String)
  deriving DecidableEq, Repr

/-- One upstream occurrence in the configuration graph. -/
inductive UpstreamOccurrence where
  | named (id : String)
  | routeInline (id : String)
  | serviceInline (id : String)
  | trafficSplit (owner : TrafficSplitOwner) (rule target : Nat)
  | aiProxy (owner : TrafficSplitOwner)
  deriving DecidableEq, Repr

/-- Deserialize and run declarative validation. -/
def parseAndValidatePluginConfig {α : Type} (c : JsonCodec) (fromValue : De α) (validate : α → List FieldError)
    (errorContext : String) (value : Json) : ProxyResult α :=
  match fromValue value with
  | .error e => .error (.deserialization c errorContext e)
  | .ok config => if validate config = [] then .ok config else .error (.validationStructured (validate config))

namespace AiProxy

inductive Provider where
  | openai
  | openaiCompatible
  | deepseek
  | anthropic
  deriving DecidableEq, Repr

def Provider.asStr : Provider → String
  | .openai => "openai"
  | .openaiCompatible => "openai-compatible"
  | .deepseek => "deepseek"
  | .anthropic => "anthropic"

structure ProviderSpec where
  defaultEndpoint : Option String
  chatPath : String
  deriving DecidableEq, Repr

def providerSpec : Provider → ProviderSpec
  | .openai => ⟨some "https://api.openai.com/v1/chat/completions", "/v1/chat/completions"⟩
  | .openaiCompatible => ⟨none, "/v1/chat/completions"⟩
  | .deepseek => ⟨some "https://api.deepseek.com/chat/completions", "/chat/completions"⟩
  | .anthropic => ⟨some "https://api.anthropic.com/v1/messages", "/v1/messages"⟩

structure AuthConfig where
  header : List (String × String) := []
  query : List (String × String) := []
  deriving DecidableEq, Repr

structure LlmOptions where
  maxTokens : Nat
  deriving DecidableEq, Repr

structure OverrideConfig where
  endpoint : Option String := none
  llmOptions : Option LlmOptions := none
  deriving DecidableEq, Repr

structure AiProxyConfig where
  provider : Provider
  auth : AuthConfig
  options : Option Json := none
  override : OverrideConfig := {}
  timeout : Nat := 30000
  maxReqBodySize : Nat := 67108864
  keepalive : Bool := true
  keepaliveTimeout : Nat := 60000
  sslVerify : Bool := true
  deriving DecidableEq

/-! ## Reading -/

/-- A sorted map of strings. -/
def stringMap : De (List (String × String))
  | .obj members => members.mapM fun m => do return (m.1, ← De.string m.2)
  | v => .error (.invalidType v "a map")

def AuthConfig.fromValue : De AuthConfig := fun v => do
  let name := "AuthConfig with 2 elements"
  let src ← De.struct "AuthConfig" 2 v
  let header ← src.field name 0 "header" stringMap (.default [])
  let query ← src.field name 1 "query" stringMap (.default [])
  return { header, query }

def LlmOptions.fromValue : De LlmOptions := fun v => do
  let src ← De.struct "LlmOptions" 1 v
  let maxTokens ← src.field "LlmOptions with 1 element" 0 "max_tokens" (De.unsigned 64) .required
  return { maxTokens }

def OverrideConfig.fromValue : De OverrideConfig := fun v => do
  let name := "OverrideConfig with 2 elements"
  let src ← De.struct "OverrideConfig" 2 v
  let endpoint ← src.field name 0 "endpoint" (De.option De.string) (.optional none)
  let llmOptions ← src.field name 1 "llm_options" (De.option LlmOptions.fromValue) (.optional none)
  return { endpoint, llmOptions }

namespace AiProxyConfig

def fromValue : De AiProxyConfig := fun v => do
  let name := "AiProxyConfig with 9 elements"
  let src ← De.struct "AiProxyConfig" 9 v
  let provider ← src.field name 0 "provider"
    (De.unitVariant [("openai", .openai), ("openai-compatible", .openaiCompatible), ("deepseek", .deepseek),
      ("anthropic", .anthropic)]) .required
  let auth ← src.field name 1 "auth" AuthConfig.fromValue .required
  let options ← src.field name 2 "options" (De.option De.value) (.default none)
  let override ← src.field name 3 "override" OverrideConfig.fromValue (.default {})
  let timeout ← src.field name 4 "timeout" (De.unsigned 64) (.default 30000)
  let maxReqBodySize ← src.field name 5 "max_req_body_size" (De.unsigned 64) (.default 67108864)
  let keepalive ← src.field name 6 "keepalive" De.bool (.default true)
  let keepaliveTimeout ← src.field name 7 "keepalive_timeout" (De.unsigned 64) (.default 60000)
  let sslVerify ← src.field name 8 "ssl_verify" De.bool (.default true)
  return { provider, auth, options, override, timeout, maxReqBodySize, keepalive, keepaliveTimeout, sslVerify }

open FieldError (nest nestOption length range)

def validateOverride (o : OverrideConfig) : List FieldError :=
  o.endpoint.elim [] (fun e => length "endpoint" 1 e.length) ++
    nestOption "llm_options" (fun l : LlmOptions => range "max_tokens" 1 none l.maxTokens) o.llmOptions

def validate (cfg : AiProxyConfig) : List FieldError :=
  nest "override" (validateOverride cfg.override) ++ range "timeout" 1 (some 600000) cfg.timeout ++
    range "max_req_body_size" 1 none cfg.maxReqBodySize ++ range "keepalive_timeout" 1000 none cfg.keepaliveTimeout

end AiProxyConfig

/-! ## The endpoint -/

structure ResolvedEndpoint where
  scheme : UpstreamScheme
  host : String
  port : Nat
  path : String
  query : List (String × String)
  deriving DecidableEq, Repr

/-- An override wins over the provider default, an endpoint path over the default chat path. -/
def resolveEndpoint (h : Http) (cfg : AiProxyConfig) : ProxyResult ResolvedEndpoint := do
  let spec := providerSpec cfg.provider
  match cfg.override.endpoint.orElse fun _ => spec.defaultEndpoint with
  | none =>
    throw (.configuration
      s!"provider '{cfg.provider.asStr}' has no default endpoint; override.endpoint is required")
  | some raw =>
    match h.parseUrl raw with
    | .error e => throw (.configuration s!"invalid endpoint URL '{raw}': {e}")
    | .ok url =>
      let scheme ← if url.scheme = "https" then .ok UpstreamScheme.https
        else if url.scheme = "http" then .ok UpstreamScheme.http
        else .error (.configuration s!"endpoint URL scheme must be http or https, got '{url.scheme}'")
      match url.host.filter (· ≠ "") with
      | none => throw (.configuration s!"endpoint URL '{raw}' is missing a host")
      | some host =>
        match url.portOrKnownDefault with
        | none => throw (.configuration s!"endpoint URL '{raw}' is missing a port")
        | some port =>
          let path := if url.path = "" ∨ url.path = "/" then spec.chatPath else url.path
          return { scheme, host, port, path, query := url.query.elim [] h.parseForm }

/-- IPv6 literals need brackets in a node. -/
def nodeHost (host : String) : String :=
  if Text.containsChar host ':' ∧ ¬Text.startsWith host "[" then "[" ++ host ++ "]" else host

def millisecondsToSeconds (ms : Nat) : Nat := max 1 (min 86400 ((ms + 999) / 1000))

def buildProviderUpstreamConfig (cfg : AiProxyConfig) (endpoint : ResolvedEndpoint) : Upstream :=
  let seconds := millisecondsToSeconds cfg.timeout
  { id := "ai-proxy-" ++ cfg.provider.asStr
    timeout := some ⟨seconds, seconds, seconds⟩
    nodes := ⟨[{ host := nodeHost endpoint.host, port := some endpoint.port, weight := 1, priority := 0 }]⟩
    scheme := endpoint.scheme
    passHost := .node
    keepalivePool := some ⟨if cfg.keepalive then cfg.keepaliveTimeout else 0⟩ }

/-! ## Checks beyond the schema -/

def forbiddenAuthHeaders : List String :=
  ["host", "content-length", "transfer-encoding", "content-type", "connection", "keep-alive", "proxy-connection",
   "te", "trailer", "upgrade", "proxy-authenticate", "proxy-authorization"]

def isBlank (s : String) : Bool := s.toList.all Text.isWhitespace

def toAsciiLowercase (s : String) : String := String.ofList (s.toList.map Char.toLower)

def checkNonEmpty (field : String) (entries : List (String × String)) : ProxyResult Unit :=
  entries.forM fun (name, value) =>
    if isBlank name ∨ value = "" then
      .error (.validationError s!"ai-proxy: {field}[{name.quote}] must be a non-empty string")
    else .ok ()

def checkHeader (h : Http) (name value : String) : ProxyResult Unit := do
  if forbiddenAuthHeaders.contains (toAsciiLowercase name) then
    throw (.validationError (s!"ai-proxy: auth.header[{name.quote}] is managed by the gateway and cannot be " ++
      s!"overridden (managed: {forbiddenAuthHeaders.map String.quote})"))
  match h.headerName name with
  | .error e =>
    throw (.validationError s!"ai-proxy: auth.header name {name.quote} is not a valid HTTP header name: {e}")
  | .ok () => pure ()
  match h.headerValue value with
  | .error e =>
    throw (.validationError s!"ai-proxy: auth.header[{name.quote}] is not a valid HTTP header value: {e}")
  | .ok () => pure ()

def checkOptions (options : Option Json) : ProxyResult Unit :=
  match options with
  | none => .ok ()
  | some (.obj members) =>
    match Json.lookup members "model" with
    | none | some (.str _) => .ok ()
    | some _ => .error (.validationError "ai-proxy: options.model must be a string")
  | some _ => .error (.validationError "ai-proxy: options must be a JSON object")

def postValidate (h : Http) (cfg : AiProxyConfig) : ProxyResult Unit := do
  if cfg.auth.header = [] ∧ cfg.auth.query = [] then
    throw (.validationError "ai-proxy: auth must configure at least one of auth.header or auth.query")
  checkNonEmpty "auth.header" cfg.auth.header
  checkNonEmpty "auth.query" cfg.auth.query
  cfg.auth.header.forM fun (name, value) => checkHeader h name value
  cfg.auth.query.forM fun (name, value) =>
    if isBlank name ∨ isBlank value then
      .error (.validationError s!"ai-proxy: auth.query[{name.quote}] must be a non-empty string")
    else .ok ()
  checkOptions cfg.options
  if cfg.provider = .openaiCompatible ∧ cfg.override.endpoint.isNone then
    throw (.validationError "ai-proxy: provider 'openai-compatible' requires override.endpoint")
  match resolveEndpoint h cfg with
  | .error e => throw (.validationError s!"ai-proxy: override.endpoint: {e.display}")
  | .ok _ => pure ()

def AiProxyConfig.parse (ext : Externals) (value : Json) : ProxyResult AiProxyConfig := do
  let config ← parseAndValidatePluginConfig ext.json AiProxyConfig.fromValue AiProxyConfig.validate
    "Invalid ai-proxy plugin config" value
  postValidate ext.http config
  return config

/-! ## Capabilities -/

def validateConfig (ext : Externals) (cfg : Json) : ProxyResult Unit := (AiProxyConfig.parse ext cfg).map fun _ => ()

def inlineUpstreamJobs (ext : Externals) (owner : TrafficSplitOwner) (cfg : Json) :
    ProxyResult (List (UpstreamOccurrence × Upstream)) := do
  let config ← AiProxyConfig.parse ext cfg
  let endpoint ← resolveEndpoint ext.http config
  return [(.aiProxy owner, buildProviderUpstreamConfig config endpoint)]

/-- The values of `auth.header` and `auth.query`. -/
def secretsTransform : SecretWalk :=
  let entries : SecretWalk := transformMembers fun _ leaf path v =>
    match v with
    | .str s => (leaf path s).map .str
    | v => .ok v
  transformSecrets [⟨"auth", transformSecrets [⟨"header", entries⟩, ⟨"query", entries⟩]⟩]

end AiProxy

end Pingsix
