import Pingsix.TrafficSplit

/-!
# The plugin inventory

One entry for every builtin plugin: its name and priority, its secret fields,
its validation, and the upstreams its configuration references and declares.
-/

namespace Pingsix

inductive PluginFactory where
  | plain (create : Json → ProxyResult Unit)
  | trafficSplit
  | aiProxy

structure PluginMeta where
  name : String
  priority : Int
  factory : PluginFactory
  secretsTransform : Option SecretWalk := none
  validate : Json → ProxyResult Unit
  upstreamRefs : Option (Json → ProxyResult (List String)) := none
  upstreamJobs : Option (TrafficSplitOwner → Json → ProxyResult (List (UpstreamOccurrence × Upstream))) := none

section
variable (ext : Externals)

def PluginMeta.ofPlain (name : String) (priority : Int) (secrets : Option (List String) := none) : PluginMeta where
  name := name
  priority := priority
  factory := .plain (ext.plain.create name)
  secretsTransform := secrets.map fun fields => transformSecrets (fields.map SecretField.leaf)
  validate := ext.plain.validate name

def pluginMetas : List PluginMeta :=
  [.ofPlain ext "client-control" 22000,
   .ofPlain ext "exit-transformer" 22950,
   .ofPlain ext "request-id" 12015,
   .ofPlain ext "fault-injection" 11000,
   .ofPlain ext "cors" 4000,
   .ofPlain ext "ip-restriction" 3000,
   .ofPlain ext "uri-blocker" 2900,
   { name := "ai-proxy", priority := 2900, factory := .aiProxy, secretsTransform := some AiProxy.secretsTransform
     validate := AiProxy.validateConfig ext, upstreamJobs := some (AiProxy.inlineUpstreamJobs ext) },
   .ofPlain ext "request-validation" 2800,
   .ofPlain ext "csrf" 2980 (some ["key"]),
   .ofPlain ext "basic-auth" 2520 (some ["password"]),
   .ofPlain ext "jwt-auth" 2510 (some ["secret"]),
   .ofPlain ext "key-auth" 2500 (some ["key", "keys"]),
   .ofPlain ext "proxy-cache" 1085,
   .ofPlain ext "proxy-rewrite" 1008,
   .ofPlain ext "api-breaker" 1005,
   .ofPlain ext "proxy-mirror" 1010,
   .ofPlain ext "limit-conn" 1003,
   .ofPlain ext "limit-count" 1002,
   .ofPlain ext "limit-req" 1001,
   .ofPlain ext "brotli" 996,
   .ofPlain ext "gzip" 995,
   .ofPlain ext "redirect" 900,
   .ofPlain ext "response-rewrite" 899,
   .ofPlain ext "grpc-web" 505,
   .ofPlain ext "prometheus" 500,
   .ofPlain ext "echo" 412,
   .ofPlain ext "file-logger" 399,
   { name := "traffic-split", priority := 966, factory := .trafficSplit
     validate := TrafficSplit.validateConfig ext, upstreamRefs := some (TrafficSplit.namedUpstreamIds ext)
     upstreamJobs := some (TrafficSplit.inlineUpstreamJobs ext) }]

def pluginMeta (name : String) : Option PluginMeta := (pluginMetas ext).find? fun entry => entry.name = name

def validatePluginConfig (name : String) (cfg : Json) : ProxyResult Unit :=
  match pluginMeta ext name with
  | none => .error (.plugin s!"Unknown plugin type: {name}")
  | some entry => entry.validate cfg

def pluginUpstreamRefs (name : String) (cfg : Json) : ProxyResult (List String) :=
  match (pluginMeta ext name).bind (·.upstreamRefs) with
  | some extract => extract cfg
  | none => .ok []

/-- The inline upstreams declared across a resource's plugin configurations. -/
def pluginUpstreamJobs (owner : TrafficSplitOwner) (plugins : HashMap String Json) :
    ProxyResult (List (UpstreamOccurrence × Upstream)) := do
  let jobs ← plugins.entries.mapM fun e =>
    match (pluginMeta ext e.1).bind (·.upstreamJobs) with
    | some collect => collect owner e.2
    | none => .ok []
  return jobs.flatten

def transformPluginSecrets (name : String) : SecretWalk := fun leaf path cfg =>
  match (pluginMeta ext name).bind (·.secretsTransform) with
  | some transform => transform leaf path cfg
  | none => .ok cfg

end

/-! ## Secret fields of the resources -/

namespace SecretField

/-- `#[encrypt(plugins)]` -/
def plugins (ext : Externals) : SecretField := ⟨"plugins", transformMembers (transformPluginSecrets ext)⟩

end SecretField

def UpstreamTls.transformSecrets : SecretWalk := Pingsix.transformSecrets [.leaf "client_key"]

def Upstream.transformSecrets : SecretWalk := Pingsix.transformSecrets [.nested "tls" UpstreamTls.transformSecrets]

def Route.transformSecrets (ext : Externals) : SecretWalk :=
  Pingsix.transformSecrets [.plugins ext, .nested "upstream" Upstream.transformSecrets]

def Service.transformSecrets (ext : Externals) : SecretWalk :=
  Pingsix.transformSecrets [.plugins ext, .nested "upstream" Upstream.transformSecrets]

def GlobalRule.transformSecrets (ext : Externals) : SecretWalk := Pingsix.transformSecrets [.plugins ext]

def SSL.transformSecrets : SecretWalk := Pingsix.transformSecrets [.leaf "key"]

end Pingsix
