import Pingsix.LoadBalancer
import Pingsix.Selection

/-!
# Backend discovery

The backends of an upstream: one for each enabled node with a literal address,
and those its other nodes are resolved to, with the last answers of the
resolver kept for a while. Instants are in nanoseconds. The order in which a
set is listed is its order of insertion.
-/

namespace Pingsix

namespace Discovery

/-! ## Backends -/

/-- What a connection is opened with. -/
structure HttpPeer where
  address : SocketAddr
  tls : Bool
  sni : String
  alpnH2 : Bool
  clientCertKey : Option CertKey
  deriving DecidableEq

structure PeerBackend extends Backend where
  peer : HttpPeer
  deriving DecidableEq

structure Backends where
  backends : List PeerBackend := []
  nodup : (backends.map fun backend => backend.id).Nodup := by exact List.nodup_nil

namespace Backends

def get (set : Backends) (id : BackendId) : Option PeerBackend := set.backends.find? fun backend => backend.id = id

def remove (set : Backends) (id : BackendId) : Backends where
  backends := set.backends.filter fun backend => backend.id ≠ id
  nodup := List.Nodup.sublist (List.filter_sublist.map _) set.nodup

def insert (set : Backends) (backend : PeerBackend) (h : set.get backend.id = none) : Backends where
  backends := set.backends ++ [backend]
  nodup := by
    rw [List.map_append]
    refine List.nodup_append.mpr ⟨set.nodup, List.nodup_singleton _, fun a ha b hb he => ?_⟩
    obtain ⟨other, hm, rfl⟩ := List.mem_map.mp ha
    rw [List.mem_singleton.mp hb] at he
    exact List.find?_eq_none.mp h other hm (decide_eq_true he)

theorem get_remove (set : Backends) (id : BackendId) : (set.remove id).get id = none := by
  refine List.find?_eq_none.mpr fun backend hm => ?_
  simpa using (List.mem_filter.mp hm).2

/-- Of two backends with one identity the set keeps the one of the higher priority. -/
def insertBackend (set : Backends) (backend : PeerBackend) : Backends :=
  match h : set.get backend.id with
  | none => set.insert backend h
  | some existing =>
    if backend.priority = existing.priority then set
    else if existing.priority < backend.priority then
      (set.remove backend.id).insert backend (set.get_remove backend.id)
    else set

end Backends

/-! ## Peers -/

def computePeerSni (host : String) (passHost : UpstreamPassHost) (upstreamHost : Option String) : String :=
  if passHost = .rewrite then upstreamHost.getD host else host

def buildPeer (address : SocketAddr) (scheme : UpstreamScheme) (sni : String) (clientCertKey : Option CertKey) :
    HttpPeer where
  address
  tls := scheme = .https || scheme = .grpcs
  sni
  alpnH2 := scheme = .grpc || scheme = .grpcs
  clientCertKey

def parseIp (host : String) : Option IpAddr :=
  match Net.parseIpv4 host.toList with
  | some octets => some (.v4 octets)
  | none => (Net.parseIpv6 host.toList).map .v6

/-! ## Nodes that are resolved -/

structure DnsNode where
  domain : String
  port : Nat
  scheme : UpstreamScheme
  weight : Nat
  priority : Int
  sni : String
  deriving DecidableEq, Repr

/-- What the resolver answers to one lookup. -/
inductive DnsAnswer where
  | failed (error : String)
  | resolved (ips : List IpAddr)
  deriving DecidableEq, Repr

/-- The last answer that was not empty and when it came. -/
structure DnsLkgState where
  addresses : Option (List IpAddr) := none
  lastSuccessAt : Option Nat := none
  deriving DecidableEq, Repr

def dnsStaleTtlNanos : Nat := 300000000000

structure DnsDiscovery where
  node : DnsNode
  clientCertKey : Option CertKey
  lkg : DnsLkgState := {}

namespace DnsDiscovery

def backend (d : DnsDiscovery) (ip : IpAddr) : PeerBackend where
  addr := ⟨ip, d.node.port⟩
  weight := d.node.weight
  priority := d.node.priority
  peer := buildPeer ⟨ip, d.node.port⟩ d.node.scheme d.node.sni d.clientCertKey

def buildBackends (d : DnsDiscovery) (ips : List IpAddr) : Backends :=
  ips.foldl (fun set ip => set.insertBackend (d.backend ip)) {}

def lkgBackends (d : DnsDiscovery) (now : Nat) : Option Backends :=
  match d.lkg.addresses, d.lkg.lastSuccessAt with
  | some ips, some lastSuccessAt =>
    if dnsStaleTtlNanos < now - lastSuccessAt then none else some (d.buildBackends ips)
  | _, _ => none

def discover (d : DnsDiscovery) (now : Nat) : DnsAnswer → Except String Backends × DnsDiscovery
  | .resolved [] =>
    match d.lkgBackends now with
    | some backends => (.ok backends, d)
    | none => (.error s!"DNS discovery for domain {d.node.domain} returned no addresses", d)
  | .resolved ips => (.ok (d.buildBackends ips), { d with lkg := ⟨some ips, some now⟩ })
  | .failed e =>
    match d.lkgBackends now with
    | some backends => (.ok backends, d)
    | none => (.error s!"DNS discovery failed for domain: {d.node.domain}: {e}", d)

end DnsDiscovery

/-! ## The nodes of an upstream -/

structure HybridDiscovery where
  dns : List DnsDiscovery := []
  fixed : Backends := {}

namespace HybridDiscovery

def addNode (upstream : Upstream) (clientCertKey : Option CertKey) (this : HybridDiscovery) (node : Node) :
    HybridDiscovery :=
  if !node.isEnabled then this
  else
    let port := node.effectivePort upstream.scheme
    let host := node.bareHost
    let sni := computePeerSni host upstream.passHost upstream.upstreamHost
    match parseIp host with
    | some ip =>
      let peer := buildPeer ⟨ip, port⟩ upstream.scheme sni clientCertKey
      { this with
        fixed := this.fixed.insertBackend
          { addr := ⟨ip, port⟩, weight := node.weight, priority := node.priority, peer } }
    | none =>
      let dnsNode :=
        { domain := host, port, scheme := upstream.scheme, weight := node.weight, priority := node.priority, sni }
      { this with dns := this.dns ++ [{ node := dnsNode, clientCertKey }] }

def clientCert (x : X509) (upstream : Upstream) : ProxyResult (Option CertKey) :=
  match upstream.tls with
  | some tls => (loadClientCertKey x tls).map some
  | none => .ok none

def build (x : X509) (upstream : Upstream) : ProxyResult HybridDiscovery := do
  let clientCertKey ← clientCert x upstream
  return upstream.nodes.nodes.foldl (addNode upstream clientCertKey) {}

/-- The backends of all parts; an error only when there are none and some part failed. -/
def merge (results : List (Except String Backends)) : Except String Backends :=
  let backends := results.foldl
    (fun set result =>
      match result with
      | .ok part => part.backends.foldl Backends.insertBackend set
      | .error _ => set)
    {}
  if backends.backends = [] ∧ results.any fun result => !result.isOk then
    .error "Hybrid discovery yielded no backends and at least one sub-discovery failed"
  else .ok backends

/-- The parts of a discovery: the resolved nodes, and the literal ones when there are any. -/
def parts (this : HybridDiscovery) (resolved : List (Except String Backends)) : List (Except String Backends) :=
  if this.fixed.backends = [] then resolved else resolved ++ [.ok this.fixed]

end HybridDiscovery

/-- Only upstreams without resolved nodes are prepared without waiting. -/
def prepareStaticUpstream (x : X509) (upstream : Upstream) : ProxyResult Backends := do
  let discovery ← HybridDiscovery.build x upstream
  if discovery.dns ≠ [] then
    throw (.configuration s!"Upstream '{upstream.id}' requires asynchronous DNS preparation")
  match HybridDiscovery.merge (discovery.parts []) with
  | .ok backends =>
    if backends.backends = [] then
      throw (.configuration s!"Upstream '{upstream.id}' discovery returned no backends")
    return backends
  | .error e => throw (.configuration s!"Upstream '{upstream.id}' discovery failed: {e}")

/-! ## Refreshes -/

/-- A lookup that has been answered, and when. -/
structure Lookup where
  now : Nat
  answer : DnsAnswer
  deriving DecidableEq, Repr

/-- The lookups of one refresh, by the position of the node; one that the timeout cut off has no answer. -/
abbrev Round := Nat → Option Lookup

namespace HybridDiscovery

/-- A node whose lookup was answered keeps what it learned, whatever becomes of the others. -/
def refreshed (this : HybridDiscovery) (round : Round) : HybridDiscovery :=
  { this with
    dns := this.dns.mapIdx fun i d =>
      match round i with
      | some lookup => (d.discover lookup.now lookup.answer).2
      | none => d }

/-- What each node comes to; an unanswered one has nothing. -/
def resolved (this : HybridDiscovery) (round : Round) : List (Option (Except String Backends)) :=
  this.dns.mapIdx fun i d => (round i).map fun lookup => (d.discover lookup.now lookup.answer).1

/-- All lookups run at once, and whoever waits for them may drop them together. -/
def discover (this : HybridDiscovery) (round : Round) : Option (Except String Backends) × HybridDiscovery :=
  (((this.resolved round).mapM id).map fun results => merge (this.parts results), this.refreshed round)

end HybridDiscovery

/-- Prepared before the candidate is compiled, by a discovery that is then dropped. -/
def prepareUpstream (x : X509) (upstream : Upstream) (dnsResolutionTimeout : Nat) (round : Round) : ProxyResult Backends := do
  let discovery ← HybridDiscovery.build x upstream
  match (discovery.discover round).1 with
  | none =>
    throw (.configuration s!"Upstream '{upstream.id}' DNS resolution timed out after {dnsResolutionTimeout}s")
  | some (.error e) => throw (.configuration s!"Upstream '{upstream.id}' discovery failed: {e}")
  | some (.ok backends) =>
    if backends.backends = [] then
      throw (.configuration s!"Upstream '{upstream.id}' discovery returned no backends")
    return backends

/-- What was prepared is returned once, all later calls go to the discovery of its own. -/
structure SeededDiscovery where
  initial : Option Backends
  refresh : HybridDiscovery
  refreshTimeout : Nat

namespace SeededDiscovery

def new (initial : Backends) (refresh : HybridDiscovery) (refreshTimeout : Nat) : SeededDiscovery :=
  { initial := some initial, refresh, refreshTimeout }

def discover (this : SeededDiscovery) (round : Round) : Except String Backends × SeededDiscovery :=
  match this.initial with
  | some prepared => (.ok prepared, { this with initial := none })
  | none =>
    let (result, refresh) := this.refresh.discover round
    (result.getD (.error s!"DNS refresh timed out after {this.refreshTimeout}s"), { this with refresh })

/-- After these calls, one after the other. -/
def discoverAll (this : SeededDiscovery) (rounds : List Round) : SeededDiscovery :=
  rounds.foldl (fun this round => (this.discover round).2) this

end SeededDiscovery

end Discovery

end Pingsix
