import Pingsix.Node

/-!
# Configuration resources

Routes, upstreams, services, global rules and SSL entries: how each is read
from a document, its defaults, and its structural validation.
-/

namespace Pingsix

/-! ## Validation -/

namespace FieldError

def nest (field : String) (errors : List FieldError) : List FieldError :=
  errors.map fun e => ⟨field ++ "." ++ e.path, e.code⟩

def nestOption {α : Type} (field : String) (validate : α → List FieldError) : Option α → List FieldError
  | some a => nest field (validate a)
  | none => []

def length (field : String) (min : Nat) (n : Nat) : List FieldError :=
  if min ≤ n then [] else [⟨field, "length"⟩]

def range (field : String) (min : Nat) (max : Option Nat) (n : Nat) : List FieldError :=
  if min ≤ n ∧ max.all (n ≤ ·) then [] else [⟨field, "range"⟩]

/-- A struct-level check, which runs when no field has an error. -/
def schema (errors : List FieldError) (check : Except String Unit) : List FieldError :=
  if errors = [] then
    match check with
    | .ok () => []
    | .error code => [⟨"__all__", code⟩]
  else errors

end FieldError

open FieldError (nest nestOption length range schema)

/-! ## Timeouts and client certificates -/

structure UpstreamTls where
  clientCert : String
  clientKey : String
  deriving DecidableEq, Repr

namespace UpstreamTls

def fromValue : De UpstreamTls := fun v => do
  let name := "UpstreamTls with 2 elements"
  let src ← De.struct "UpstreamTls" 2 v
  let clientCert ← src.field name 0 "client_cert" De.string .required
  let clientKey ← src.field name 1 "client_key" De.string .required
  return { clientCert, clientKey }

def validate (tls : UpstreamTls) : List FieldError :=
  length "client_cert" 1 tls.clientCert.length ++ length "client_key" 1 tls.clientKey.length

end UpstreamTls

structure Timeout where
  connect : Nat
  send : Nat
  read : Nat
  deriving DecidableEq, Repr

namespace Timeout

def fromValue : De Timeout := fun v => do
  let name := "Timeout with 3 elements"
  let src ← De.struct "Timeout" 3 v
  let connect ← src.field name 0 "connect" (De.unsigned 64) .required
  let send ← src.field name 1 "send" (De.unsigned 64) .required
  let read ← src.field name 2 "read" (De.unsigned 64) .required
  return { connect, send, read }

def validate (timeout : Timeout) : List FieldError :=
  range "connect" 1 (some 86400) timeout.connect ++ range "send" 1 (some 86400) timeout.send ++
    range "read" 1 (some 86400) timeout.read

end Timeout

/-! ## Health checks -/

structure PassiveHealthy where
  httpStatuses : List Nat :=
    [200, 201, 202, 203, 204, 205, 206, 207, 208, 226, 300, 301, 302, 303, 304, 305, 306, 307, 308]
  successes : Nat := 5
  deriving DecidableEq, Repr

namespace PassiveHealthy

def fromValue : De PassiveHealthy := fun v => do
  let name := "PassiveHealthy with 2 elements"
  let src ← De.struct "PassiveHealthy" 2 v
  let d : PassiveHealthy := {}
  let httpStatuses ← src.field name 0 "http_statuses" (De.vec (De.unsigned 32)) (.default d.httpStatuses)
  let successes ← src.field name 1 "successes" (De.unsigned 32) (.default d.successes)
  return { httpStatuses, successes }

def validate (h : PassiveHealthy) : List FieldError := range "successes" 0 (some 254) h.successes

end PassiveHealthy

structure PassiveUnhealthy where
  httpStatuses : List Nat := [429, 500, 503]
  tcpFailures : Nat := 2
  timeouts : Nat := 7
  httpFailures : Nat := 5
  deriving DecidableEq, Repr

namespace PassiveUnhealthy

def fromValue : De PassiveUnhealthy := fun v => do
  let name := "PassiveUnhealthy with 4 elements"
  let src ← De.struct "PassiveUnhealthy" 4 v
  let d : PassiveUnhealthy := {}
  let httpStatuses ← src.field name 0 "http_statuses" (De.vec (De.unsigned 32)) (.default d.httpStatuses)
  let tcpFailures ← src.field name 1 "tcp_failures" (De.unsigned 32) (.default d.tcpFailures)
  let timeouts ← src.field name 2 "timeouts" (De.unsigned 32) (.default d.timeouts)
  let httpFailures ← src.field name 3 "http_failures" (De.unsigned 32) (.default d.httpFailures)
  return { httpStatuses, tcpFailures, timeouts, httpFailures }

def validate (h : PassiveUnhealthy) : List FieldError :=
  range "tcp_failures" 0 (some 254) h.tcpFailures ++ range "timeouts" 0 (some 254) h.timeouts ++
    range "http_failures" 0 (some 254) h.httpFailures

end PassiveUnhealthy

structure PassiveCheck where
  healthy : PassiveHealthy := {}
  unhealthy : PassiveUnhealthy := {}
  deriving DecidableEq, Repr

namespace PassiveCheck

def fromValue : De PassiveCheck := fun v => do
  let name := "PassiveCheck with 2 elements"
  let src ← De.struct "PassiveCheck" 2 v
  let healthy ← src.field name 0 "healthy" PassiveHealthy.fromValue (.default {})
  let unhealthy ← src.field name 1 "unhealthy" PassiveUnhealthy.fromValue (.default {})
  return { healthy, unhealthy }

def validatePassiveStatuses (statuses : List Nat) : Except String Unit :=
  if statuses = [] ∨ statuses.any (fun s => s < 200 || 599 < s) ∨ ¬statuses.Nodup then
    .error "invalid_passive_http_statuses"
  else .ok ()

def check (p : PassiveCheck) : Except String Unit := do
  validatePassiveStatuses p.healthy.httpStatuses
  validatePassiveStatuses p.unhealthy.httpStatuses
  if 254 < p.healthy.successes ∨ 254 < p.unhealthy.tcpFailures ∨ 254 < p.unhealthy.timeouts ∨
      254 < p.unhealthy.httpFailures then
    throw "invalid_passive_threshold"

def validate (p : PassiveCheck) : List FieldError :=
  schema (nest "healthy" p.healthy.validate ++ nest "unhealthy" p.unhealthy.validate) p.check

end PassiveCheck

structure Health where
  interval : Nat := 1
  httpStatuses : List Nat := [200, 302]
  successes : Nat := 2
  deriving DecidableEq, Repr

namespace Health

def fromValue : De Health := fun v => do
  let name := "Health with 3 elements"
  let src ← De.struct "Health" 3 v
  let d : Health := {}
  let interval ← src.field name 0 "interval" (De.unsigned 32) (.default d.interval)
  let httpStatuses ← src.field name 1 "http_statuses" (De.vec (De.unsigned 32)) (.default d.httpStatuses)
  let successes ← src.field name 2 "successes" (De.unsigned 32) (.default d.successes)
  return { interval, httpStatuses, successes }

def validate (h : Health) : List FieldError :=
  range "interval" 1 none h.interval ++ range "successes" 1 none h.successes

end Health

structure Unhealthy where
  httpFailures : Nat := 5
  tcpFailures : Nat := 2
  deriving DecidableEq, Repr

namespace Unhealthy

def fromValue : De Unhealthy := fun v => do
  let name := "Unhealthy with 2 elements"
  let src ← De.struct "Unhealthy" 2 v
  let d : Unhealthy := {}
  let httpFailures ← src.field name 0 "http_failures" (De.unsigned 32) (.default d.httpFailures)
  let tcpFailures ← src.field name 1 "tcp_failures" (De.unsigned 32) (.default d.tcpFailures)
  return { httpFailures, tcpFailures }

def validate (h : Unhealthy) : List FieldError :=
  range "http_failures" 1 none h.httpFailures ++ range "tcp_failures" 1 none h.tcpFailures

end Unhealthy

inductive ActiveCheckType where
  | tcp
  | http
  | https
  deriving DecidableEq, Repr

structure ActiveCheck where
  type : ActiveCheckType := .http
  timeout : Nat := 1
  httpPath : String := "/"
  host : Option String := none
  port : Option Nat := none
  httpsVerifyCertificate : Bool := true
  reqHeaders : List String := []
  healthy : Option Health := none
  unhealthy : Option Unhealthy := none
  deriving DecidableEq, Repr

namespace ActiveCheck

def fromValue : De ActiveCheck := fun v => do
  let name := "ActiveCheck with 9 elements"
  let src ← De.struct "ActiveCheck" 9 v
  let d : ActiveCheck := {}
  let type ← src.field name 0 "type"
    (De.unitVariant [("tcp", .tcp), ("http", .http), ("https", .https)]) (.default d.type)
  let timeout ← src.field name 1 "timeout" (De.unsigned 32) (.default d.timeout)
  let httpPath ← src.field name 2 "http_path" De.string (.default d.httpPath)
  let host ← src.field name 3 "host" (De.option De.string) (.optional none)
  let port ← src.field name 4 "port" (De.option (De.unsigned 32)) (.optional none)
  let httpsVerifyCertificate ←
    src.field name 5 "https_verify_certificate" De.bool (.default d.httpsVerifyCertificate)
  let reqHeaders ← src.field name 6 "req_headers" (De.vec De.string) (.default [])
  let healthy ← src.field name 7 "healthy" (De.option Health.fromValue) (.optional none)
  let unhealthy ← src.field name 8 "unhealthy" (De.option Unhealthy.fromValue) (.optional none)
  return { type, timeout, httpPath, host, port, httpsVerifyCertificate, reqHeaders, healthy, unhealthy }

def validate (a : ActiveCheck) : List FieldError :=
  range "timeout" 1 none a.timeout ++ (a.port.elim [] (range "port" 1 (some 65535))) ++
    nestOption "healthy" Health.validate a.healthy ++ nestOption "unhealthy" Unhealthy.validate a.unhealthy

end ActiveCheck

structure HealthCheck where
  active : Option ActiveCheck
  passive : Option PassiveCheck
  deriving DecidableEq, Repr

namespace HealthCheck

def fromValue : De HealthCheck := fun v => do
  let name := "HealthCheck with 2 elements"
  let src ← De.struct "HealthCheck" 2 v
  let active ← src.field name 0 "active" (De.option ActiveCheck.fromValue) (.default none)
  let passive ← src.field name 1 "passive" (De.option PassiveCheck.fromValue) (.default none)
  return { active, passive }

def check (h : HealthCheck) : Except String Unit :=
  if h.active.isNone ∧ h.passive.isNone then .error "health_check_requires_active_or_passive" else .ok ()

def validate (h : HealthCheck) : List FieldError :=
  schema (nestOption "active" ActiveCheck.validate h.active ++ nestOption "passive" PassiveCheck.validate h.passive)
    h.check

end HealthCheck

/-! ## Upstreams -/

inductive SelectionType where
  | roundRobin
  | random
  | fnv
  | ketama
  deriving DecidableEq, Repr

inductive UpstreamHashOn where
  | vars
  | head
  | cookie
  deriving DecidableEq, Repr

inductive UpstreamPassHost where
  | pass
  | rewrite
  | node
  deriving DecidableEq, Repr

structure KeepalivePool where
  idleTimeoutMs : Nat
  deriving DecidableEq, Repr

namespace KeepalivePool

def defaultIdleTimeoutMs : Nat := 60000

/-- Fractional seconds to milliseconds, in doubles, saturating at 64 bits. -/
def secsF64AsMs : De Nat
  | .num n =>
    match Double.ofNumber? n with
    | none => .error (.custom "keepalive_pool.idle_timeout must be a non-negative number")
    | some secs => .ok (min (Double.roundHalfUp (Double.ofRat (secs * 1000))) (2 ^ 64 - 1))
  | v => .error (.invalidType v "f64")

def fromValue : De KeepalivePool := fun v => do
  let src ← De.struct "KeepalivePool" 1 v
  let idleTimeoutMs ←
    src.field "KeepalivePool with 1 element" 0 "idle_timeout" secsF64AsMs (.default defaultIdleTimeoutMs)
  return { idleTimeoutMs }

def validate (pool : KeepalivePool) : List FieldError := range "idle_timeout_ms" 0 none pool.idleTimeoutMs

end KeepalivePool

structure Upstream where
  id : String := ""
  retries : Option Nat := none
  retryTimeout : Option Nat := none
  timeout : Option Timeout := none
  nodes : Nodes
  type : SelectionType := .roundRobin
  checks : Option HealthCheck := none
  hashOn : UpstreamHashOn := .vars
  key : String := "uri"
  scheme : UpstreamScheme := .http
  passHost : UpstreamPassHost := .pass
  upstreamHost : Option String := none
  tls : Option UpstreamTls := none
  keepalivePool : Option KeepalivePool := none
  deriving DecidableEq, Repr

namespace Upstream

def fromValue : De Upstream := fun v => do
  let name := "Upstream with 14 elements"
  let src ← De.struct "Upstream" 14 v
  let id ← src.field name 0 "id" De.string (.default "")
  let retries ← src.field name 1 "retries" (De.option (De.unsigned 32)) (.optional none)
  let retryTimeout ← src.field name 2 "retry_timeout" (De.option (De.unsigned 64)) (.optional none)
  let timeout ← src.field name 3 "timeout" (De.option Timeout.fromValue) (.optional none)
  let nodes ← src.field name 4 "nodes" Nodes.fromValue .required
  let type ← src.field name 5 "type"
    (De.unitVariant [("roundrobin", .roundRobin), ("random", .random), ("fnv", .fnv), ("ketama", .ketama)])
    (.default .roundRobin)
  let checks ← src.field name 6 "checks" (De.option HealthCheck.fromValue) (.optional none)
  let hashOn ← src.field name 7 "hash_on"
    (De.unitVariant [("vars", .vars), ("head", .head), ("cookie", .cookie)]) (.default .vars)
  let key ← src.field name 8 "key" De.string (.default "uri")
  let scheme ← src.field name 9 "scheme"
    (De.unitVariant [("http", .http), ("https", .https), ("grpc", .grpc), ("grpcs", .grpcs)]) (.default .http)
  let passHost ← src.field name 10 "pass_host"
    (De.unitVariant [("pass", .pass), ("rewrite", .rewrite), ("node", .node)]) (.default .pass)
  let upstreamHost ← src.field name 11 "upstream_host" (De.option De.string) (.optional none)
  let tls ← src.field name 12 "tls" (De.option UpstreamTls.fromValue) (.optional none)
  let keepalivePool ← src.field name 13 "keepalive_pool" (De.option KeepalivePool.fromValue) (.default none)
  return { id, retries, retryTimeout, timeout, nodes, type, checks, hashOn, key, scheme, passHost, upstreamHost,
           tls, keepalivePool }

/-- Two enabled nodes may not dial the same address. -/
def validateUniqueNodeAddresses (u : Upstream) : Except String Unit :=
  if ((u.nodes.nodes.filter Node.isEnabled).map (·.effectiveAddrKey u.scheme)).Nodup then .ok ()
  else .error "nodes_duplicate_address"

def validateSchemeDependentFields (u : Upstream) : Except String Unit :=
  if u.passHost = .rewrite ∧ u.upstreamHost.isNone then .error "upstream_host_required_for_rewrite"
  else u.validateUniqueNodeAddresses

def validate (u : Upstream) : List FieldError :=
  schema
    (nestOption "timeout" Timeout.validate u.timeout ++ nest "nodes" u.nodes.validate ++
      nestOption "checks" HealthCheck.validate u.checks ++ nestOption "tls" UpstreamTls.validate u.tls ++
      nestOption "keepalive_pool" KeepalivePool.validate u.keepalivePool)
    u.validateSchemeDependentFields

end Upstream

/-! ## Routes -/

/-- A request method: a non-empty token. -/
def deserializeMethod : De String := fun v => do
  let s ← De.string v
  if s.toList ≠ [] ∧ s.toList.all fun c => c.isAlphanum || "!#$%&'*+-.^_`|~".toList.contains c then return s
  else throw (.custom "invalid HTTP method")

structure Route where
  id : String := ""
  name : Option String := none
  uri : Option String := none
  uris : List String := []
  methods : List String := []
  host : Option String := none
  hosts : List String := []
  priority : Nat := 0
  plugins : HashMap String Json := ∅
  upstream : Option Upstream := none
  upstreamId : Option String := none
  serviceId : Option String := none
  timeout : Option Timeout := none
  enableWebsocket : Bool := false

namespace Route

def fromValue : De Route := fun v => do
  let nm := "Route with 14 elements"
  let src ← De.struct "Route" 14 v
  let id ← src.field nm 0 "id" De.string (.default "")
  let name ← src.field nm 1 "name" (De.option De.string) (.default none)
  let uri ← src.field nm 2 "uri" (De.option De.string) (.optional none)
  let uris ← src.field nm 3 "uris" (De.vec De.string) (.default [])
  let methods ← src.field nm 4 "methods" (De.vec deserializeMethod) (.default [])
  let host ← src.field nm 5 "host" (De.option De.string) (.optional none)
  let hosts ← src.field nm 6 "hosts" (De.vec De.string) (.default [])
  let priority ← src.field nm 7 "priority" (De.unsigned 32) (.default 0)
  let plugins ← src.field nm 8 "plugins" (De.map De.value) (.default ∅)
  let upstream ← src.field nm 9 "upstream" (De.option Upstream.fromValue) (.optional none)
  let upstreamId ← src.field nm 10 "upstream_id" (De.option De.string) (.optional none)
  let serviceId ← src.field nm 11 "service_id" (De.option De.string) (.optional none)
  let timeout ← src.field nm 12 "timeout" (De.option Timeout.fromValue) (.optional none)
  let enableWebsocket ← src.field nm 13 "enable_websocket" De.bool (.default false)
  return { id, name, uri, uris, methods, host, hosts, priority, plugins, upstream, upstreamId, serviceId, timeout,
           enableWebsocket }

def check (r : Route) : Except String Unit := do
  if r.uri.isNone ∧ r.uris = [] then throw "uri_or_uris_required"
  if r.uri.isSome ∧ r.uris ≠ [] then throw "uri_and_uris_mutually_exclusive"
  if r.host.isSome ∧ r.hosts ≠ [] then throw "host_and_hosts_mutually_exclusive"
  if r.upstreamId.isNone ∧ r.serviceId.isNone ∧ r.upstream.isNone then throw "upstream_or_service_required"
  if r.upstream.isSome ∧ r.upstreamId.isSome then throw "upstream_and_upstream_id_mutually_exclusive"

def validate (r : Route) : List FieldError :=
  schema (nestOption "upstream" Upstream.validate r.upstream ++ nestOption "timeout" Timeout.validate r.timeout)
    r.check

def getHosts (r : Route) : List String :=
  match r.host with
  | some host => [host]
  | none => r.hosts

def getUris (r : Route) : List String :=
  match r.uri with
  | some uri => [uri]
  | none => r.uris

/-- Equality, with the plugins compared as a map. -/
def same (a b : Route) : Bool :=
  a.id = b.id && a.name = b.name && a.uri = b.uri && a.uris = b.uris && a.methods = b.methods && a.host = b.host &&
    a.hosts = b.hosts && a.priority = b.priority && HashMap.sameEntries a.plugins b.plugins &&
    a.upstream = b.upstream && a.upstreamId = b.upstreamId && a.serviceId = b.serviceId && a.timeout = b.timeout &&
    a.enableWebsocket = b.enableWebsocket

end Route

/-! ## Services -/

structure Service where
  id : String := ""
  name : Option String := none
  plugins : HashMap String Json := ∅
  upstream : Option Upstream := none
  upstreamId : Option String := none
  hosts : List String := []

namespace Service

def fromValue : De Service := fun v => do
  let nm := "Service with 6 elements"
  let src ← De.struct "Service" 6 v
  let id ← src.field nm 0 "id" De.string (.default "")
  let name ← src.field nm 1 "name" (De.option De.string) (.default none)
  let plugins ← src.field nm 2 "plugins" (De.map De.value) (.default ∅)
  let upstream ← src.field nm 3 "upstream" (De.option Upstream.fromValue) (.optional none)
  let upstreamId ← src.field nm 4 "upstream_id" (De.option De.string) (.optional none)
  let hosts ← src.field nm 5 "hosts" (De.vec De.string) (.default [])
  return { id, name, plugins, upstream, upstreamId, hosts }

def validateUpstream (s : Service) : Except String Unit := do
  if s.upstreamId.isNone ∧ s.upstream.isNone then throw "upstream_required"
  if s.upstream.isSome ∧ s.upstreamId.isSome then throw "upstream_and_upstream_id_mutually_exclusive"

/-- The inline upstream of a service is not validated with it. -/
def validate (s : Service) : List FieldError := schema [] s.validateUpstream

def same (a b : Service) : Bool :=
  a.id = b.id && a.name = b.name && HashMap.sameEntries a.plugins b.plugins && a.upstream = b.upstream &&
    a.upstreamId = b.upstreamId && a.hosts = b.hosts

end Service

/-! ## Global rules and SSL entries -/

structure GlobalRule where
  id : String := ""
  plugins : HashMap String Json := ∅

namespace GlobalRule

def fromValue : De GlobalRule := fun v => do
  let nm := "GlobalRule with 2 elements"
  let src ← De.struct "GlobalRule" 2 v
  let id ← src.field nm 0 "id" De.string (.default "")
  let plugins ← src.field nm 1 "plugins" (De.map De.value) (.default ∅)
  return { id, plugins }

def validate (_ : GlobalRule) : List FieldError := []

def same (a b : GlobalRule) : Bool := a.id = b.id && HashMap.sameEntries a.plugins b.plugins

end GlobalRule

structure SSL where
  id : String := ""
  cert : String
  key : String
  snis : List String
  deriving DecidableEq, Repr

namespace SSL

def fromValue : De SSL := fun v => do
  let nm := "SSL with 4 elements"
  let src ← De.struct "SSL" 4 v
  let id ← src.field nm 0 "id" De.string (.default "")
  let cert ← src.field nm 1 "cert" De.string .required
  let key ← src.field nm 2 "key" De.string .required
  let snis ← src.field nm 3 "snis" (De.vec De.string) .required
  return { id, cert, key, snis }

def validate (s : SSL) : List FieldError := length "snis" 1 s.snis.length

end SSL

end Pingsix
