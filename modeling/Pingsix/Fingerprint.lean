import Pingsix.AuthPlugins
import Pingsix.Lib.Canonical
import Pingsix.Resources

/-!
# Fingerprints of upstreams

What a fingerprint hashes: an upstream's serialization without the fields a
profile excludes, with the nodes sorted and their ports filled in, encoded
canonically. The hash function, SHA-256 and the printer of doubles are
parameters.
-/

namespace Pingsix

/-! ## Numbers -/

/-- The bits of a double that is neither infinite nor undefined. -/
structure FiniteDouble where
  bits : UInt64
  finite : bits.toNat / 2 ^ 52 % 2 ^ 11 ≠ 2 ^ 11 - 1
  deriving DecidableEq

/-- A number in memory: integers are never kept as doubles, nor doubles as integers. -/
inductive SerdeNumber where
  | integer (n : Int)
  | float (value : FiniteDouble)
  deriving DecidableEq

namespace SerdeNumber

/-- Whether the double is one of the two zeros. -/
def isZero (value : FiniteDouble) : Bool := value.bits.toNat % 2 ^ 63 = 0

/-- `==`: doubles are compared by value. -/
def Equal : SerdeNumber → SerdeNumber → Prop
  | .integer m, .integer n => m = n
  | .float a, .float b => a = b ∨ (isZero a = true ∧ isZero b = true)
  | _, _ => False

end SerdeNumber

/-- The printer of doubles: what it prints reads back as the same double and is never the text of an integer. -/
structure Ryu where
  format : FiniteDouble → String
  injective : Function.Injective format
  fractional : ∀ value, '.' ∈ (format value).toList ∨ 'e' ∈ (format value).toList

def SerdeNumber.toString (ryu : Ryu) : SerdeNumber → String
  | .integer n => n.repr
  | .float value => ryu.format value

/-! ## Documents in memory -/

structure JsonValue where
  document : Document SerdeNumber
  fits : document.Fits

/-- The bytes the hasher is fed with. -/
def hashCanonicalJson (ryu : Ryu) (document : Document SerdeNumber) : List UInt8 :=
  document.encode (SerdeNumber.toString ryu)

/-! ## Serialization -/

abbrev JsonDocument := Document SerdeNumber

namespace JsonDocument

def nat (n : Nat) : JsonDocument := .num (.integer n)

def option {α : Type} (f : α → JsonDocument) : Option α → JsonDocument
  | some a => f a
  | none => .null

/-- Insertion into a map replaces the value of the key. -/
def insert (members : List (String × JsonDocument)) (key : String) (value : JsonDocument) :
    List (String × JsonDocument) := members.filter (·.1 ≠ key) ++ [(key, value)]

end JsonDocument

open JsonDocument (nat option)

def Timeout.toValue (timeout : Timeout) : JsonDocument :=
  .obj [("connect", nat timeout.connect), ("send", nat timeout.send), ("read", nat timeout.read)]

def Health.toValue (health : Health) : JsonDocument :=
  .obj [("interval", nat health.interval), ("http_statuses", .arr (health.httpStatuses.map nat)),
    ("successes", nat health.successes)]

def Unhealthy.toValue (unhealthy : Unhealthy) : JsonDocument :=
  .obj [("http_failures", nat unhealthy.httpFailures), ("tcp_failures", nat unhealthy.tcpFailures)]

def ActiveCheckType.toValue : ActiveCheckType → JsonDocument
  | .tcp => .str "tcp"
  | .http => .str "http"
  | .https => .str "https"

def ActiveCheck.toValue (check : ActiveCheck) : JsonDocument :=
  .obj [("type", check.type.toValue), ("timeout", nat check.timeout), ("http_path", .str check.httpPath),
    ("host", option .str check.host), ("port", option nat check.port),
    ("https_verify_certificate", .bool check.httpsVerifyCertificate),
    ("req_headers", .arr (check.reqHeaders.map .str)), ("healthy", option Health.toValue check.healthy),
    ("unhealthy", option Unhealthy.toValue check.unhealthy)]

def PassiveHealthy.toValue (healthy : PassiveHealthy) : JsonDocument :=
  .obj [("http_statuses", .arr (healthy.httpStatuses.map nat)), ("successes", nat healthy.successes)]

def PassiveUnhealthy.toValue (unhealthy : PassiveUnhealthy) : JsonDocument :=
  .obj [("http_statuses", .arr (unhealthy.httpStatuses.map nat)), ("tcp_failures", nat unhealthy.tcpFailures),
    ("timeouts", nat unhealthy.timeouts), ("http_failures", nat unhealthy.httpFailures)]

def PassiveCheck.toValue (check : PassiveCheck) : JsonDocument :=
  .obj [("healthy", check.healthy.toValue), ("unhealthy", check.unhealthy.toValue)]

def HealthCheck.toValue (check : HealthCheck) : JsonDocument :=
  .obj [("active", option ActiveCheck.toValue check.active), ("passive", option PassiveCheck.toValue check.passive)]

def SelectionType.toValue : SelectionType → JsonDocument
  | .roundRobin => .str "roundrobin"
  | .random => .str "random"
  | .fnv => .str "fnv"
  | .ketama => .str "ketama"

def UpstreamHashOn.toValue : UpstreamHashOn → JsonDocument
  | .vars => .str "vars"
  | .head => .str "head"
  | .cookie => .str "cookie"

def UpstreamScheme.toValue : UpstreamScheme → JsonDocument
  | .http => .str "http"
  | .https => .str "https"
  | .grpc => .str "grpc"
  | .grpcs => .str "grpcs"

def UpstreamPassHost.toValue : UpstreamPassHost → JsonDocument
  | .pass => .str "pass"
  | .rewrite => .str "rewrite"
  | .node => .str "node"

def UpstreamTls.toValue (tls : UpstreamTls) : JsonDocument :=
  .obj [("client_cert", .str tls.clientCert), ("client_key", .str tls.clientKey)]

/-- An omitted port and a priority of zero are not written. -/
def Node.toValue (node : Node) : JsonDocument :=
  .obj ([("host", .str node.host)] ++ (node.port.toList.map fun port => ("port", nat port)) ++
    [("weight", nat node.weight)] ++
    if node.priority = 0 then [] else [("priority", .num (.integer node.priority))])

/-- The fields by name; the keepalive pool, which every profile excludes, is left out. -/
def Upstream.toMembers (upstream : Upstream) : List (String × JsonDocument) :=
  [("id", .str upstream.id), ("retries", option nat upstream.retries),
    ("retry_timeout", option nat upstream.retryTimeout), ("timeout", option Timeout.toValue upstream.timeout),
    ("nodes", .arr (upstream.nodes.nodes.map Node.toValue)), ("type", upstream.type.toValue),
    ("checks", option HealthCheck.toValue upstream.checks), ("hash_on", upstream.hashOn.toValue),
    ("key", .str upstream.key), ("scheme", upstream.scheme.toValue), ("pass_host", upstream.passHost.toValue),
    ("upstream_host", option .str upstream.upstreamHost), ("tls", option UpstreamTls.toValue upstream.tls)]

/-! ## Fingerprints -/

inductive UpstreamFingerprintProfile where
  | healthCheck
  | cacheOrigin
  deriving DecidableEq, Repr

def upstreamHealthCheckExcluded : List String :=
  ["id", "retries", "retry_timeout", "timeout", "type", "hash_on", "key", "pass_host", "upstream_host", "tls",
    "keepalive_pool"]

def upstreamCacheOriginExcluded : List String := ["checks", "keepalive_pool"]

namespace UpstreamFingerprintProfile

def excluded : UpstreamFingerprintProfile → List String
  | .healthCheck => upstreamHealthCheckExcluded
  | .cacheOrigin => upstreamCacheOriginExcluded

/-- Weight and priority matter to the cache origin only. -/
def projectNode (profile : UpstreamFingerprintProfile) (scheme : UpstreamScheme) (node : Node) : JsonDocument :=
  .arr ([.str node.bareHost, nat (node.effectivePort scheme)] ++
    match profile with
    | .healthCheck => []
    | .cacheOrigin => [nat node.weight, .num (.integer node.priority)])

end UpstreamFingerprintProfile

def hexDigest (sha : Sha256) (value : String) : String := String.ofList (secretDigest sha value).chars

namespace Upstream

def projectedNodes (profile : UpstreamFingerprintProfile) (upstream : Upstream) : List JsonDocument :=
  (upstream.nodes.nodes.insertionSort fun a b => Node.sortKeyLe a b).map (profile.projectNode upstream.scheme)

def projectedMembers (sha : Sha256) (profile : UpstreamFingerprintProfile) (upstream : Upstream) :
    List (String × JsonDocument) :=
  let object := upstream.toMembers.filter (!profile.excluded.contains ·.1)
  let object := JsonDocument.insert object "nodes" (.arr (upstream.projectedNodes profile))
  match profile with
  | .healthCheck => object
  | .cacheOrigin =>
    JsonDocument.insert object "tls"
      (option (fun tls => .arr [.str (hexDigest sha tls.clientCert), .str (hexDigest sha tls.clientKey)])
        upstream.tls)

def projection (sha : Sha256) (profile : UpstreamFingerprintProfile) (upstream : Upstream) : JsonDocument :=
  .obj (upstream.projectedMembers sha profile)

def fingerprint (hash : List UInt8 → UInt64) (ryu : Ryu) (sha : Sha256) (profile : UpstreamFingerprintProfile)
    (upstream : Upstream) : UInt64 := hash (hashCanonicalJson ryu (upstream.projection sha profile))

end Upstream

end Pingsix
