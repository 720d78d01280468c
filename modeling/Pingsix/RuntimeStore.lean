import Pingsix.Fingerprint
import Pingsix.HealthCheck
import Pingsix.Plan
import Pingsix.Status

/-!
# The runtime store

Which health checks a snapshot asks for, and how a publication replaces the
active ones: new checks are registered first, then the snapshot is stored, and
only then displaced and removed checks are stopped. A publication holds its lock
to the end, but the executor of the checks goes on between any two of its pieces.
-/

namespace Pingsix

/-! ## The checks of a snapshot -/

/-- What the fingerprints of upstreams are computed with. -/
structure FingerprintHash where
  hash : List UInt8 → UInt64
  ryu : Ryu
  sha : Sha256

structure HealthCheckFingerprint where
  value : UInt64
  deriving DecidableEq, Repr

structure HealthCheckSpec (σ : Type) where
  key : String
  fingerprint : HealthCheckFingerprint
  service : σ
  deriving DecidableEq, Repr

section
variable (F : FingerprintHash)

def healthCheckFingerprint (upstream : Upstream) : HealthCheckFingerprint :=
  ⟨upstream.fingerprint F.hash F.ryu F.sha .healthCheck⟩

/-- The load balancer of an upstream object is told apart by which object it belongs to. -/
def ProxyUpstream.healthCheckService (u : ProxyUpstream) : Allocation := u.allocation

def ProxyUpstream.healthCheckSpec (u : ProxyUpstream) (key : String) : HealthCheckSpec Allocation where
  key
  fingerprint := healthCheckFingerprint F u.inner
  service := u.healthCheckService

/-- The object of a target that sets its upstream inline. -/
def TrafficSplit.inlineTarget (wu : WeightedUpstream) (target : WeightedTarget ProxyUpstream) : Option ProxyUpstream :=
  match wu.upstreamId, wu.upstream, target with
  | none, some _, .upstream u => some u
  | _, _, _ => none

namespace PluginInstance

/-- The checks of one rule of a traffic-split plugin. -/
def ruleSpecs (ruleIdx : Nat) (rule : TrafficSplit.MatchRule) (compiled : CompiledRule ProxyUpstream) :
    List (HealthCheckSpec Allocation) :=
  (rule.weightedUpstreams.zip compiled.targets).zipIdx.filterMap fun t =>
    (TrafficSplit.inlineTarget t.1.1 t.1.2.2).map fun u => u.healthCheckSpec F s!"traffic-split/{ruleIdx}/{t.2}"

/-- Only a traffic-split plugin has checks, one for each of its inline targets. -/
def healthCheckSpecs : PluginInstance ProxyUpstream → List (HealthCheckSpec Allocation)
  | .trafficSplit config rules =>
    (config.rules.zip rules).zipIdx.flatMap fun r => ruleSpecs F r.2 r.1.1 r.1.2
  | .plain _ | .aiProxy .. => []

end PluginInstance

def pluginHealthChecks (pfx : String) (plugin : PluginInstance ProxyUpstream) : List (HealthCheckSpec Allocation) :=
  (plugin.healthCheckSpecs F).map fun spec => { spec with key := s!"{pfx}/{spec.key}" }

/-- The checks of the inline upstream and the plugins of one service or route. -/
def scopeHealthChecks (scope : String) (inline : Option ProxyUpstream) (plugins : List (PluginEntry ProxyUpstream)) :
    List (HealthCheckSpec Allocation) :=
  (inline.map fun u => u.healthCheckSpec F s!"{scope}/inline").toList ++
    plugins.flatMap fun entry => pluginHealthChecks F s!"{scope}/plugin" entry.plugin

def collectHealthChecks (snapshot : RuntimeSnapshot) : List (HealthCheckSpec Allocation) :=
  snapshot.objects.upstreams.entries.map (fun e => e.2.healthCheckSpec F s!"upstream/{e.1}") ++
    snapshot.objects.services.entries.flatMap
      (fun e => scopeHealthChecks F s!"service/{e.1}" e.2.inlineUpstream e.2.plugins) ++
    snapshot.objects.routes.entries.flatMap
      (fun e => scopeHealthChecks F s!"route/{e.1}" e.2.inlineUpstream e.2.plugins) ++
    snapshot.objects.globalRules.entries.flatMap
      fun e => scopeHealthChecks F s!"global-rule/{e.1}" none e.2.plugins

end

/-! ## Publication -/

structure ActiveHealthCheckEntry (σ : Type) where
  fingerprint : HealthCheckFingerprint
  registration : HealthCheckRegistration
  service : σ
  deriving DecidableEq, Repr

abbrev ActiveHealthCheckSet (σ : Type) := HashMap String (ActiveHealthCheckEntry σ)

namespace ActiveHealthCheckSet

variable {σ : Type} [DecidableEq σ]

/-- The entry that is kept for a wanted check: the same fingerprint is not enough, the load balancer must be the same. -/
def kept (active : ActiveHealthCheckSet σ) (spec : HealthCheckSpec σ) : Option (ActiveHealthCheckEntry σ) :=
  (active.lookup spec.key).filter fun e => e.fingerprint = spec.fingerprint ∧ e.service = spec.service

/-- The registrations whose keys are no longer wanted; a replaced one is stopped as displaced. -/
def removed (active next : ActiveHealthCheckSet σ) : List (String × HealthCheckRegistration) :=
  (active.entries.filter fun e => (next.lookup e.1).isNone).map fun e => (e.1, e.2.registration)

end ActiveHealthCheckSet

/-- Where a publication is. -/
inductive PublishStage where
  | idle
  | registering (snapshot : RuntimeSnapshot) (pending : List (HealthCheckSpec Allocation))
      (next : ActiveHealthCheckSet Allocation)
  | stopping (removed : List (String × HealthCheckRegistration)) (next : ActiveHealthCheckSet Allocation)

structure RuntimeStore where
  current : RuntimeSnapshot := .empty
  status : StatusStore := {}
  active : ActiveHealthCheckSet Allocation := ∅
  stage : PublishStage := .idle
  healthCheck : HealthCheckState Allocation := {}

/-- A publication takes its lock, or does its next piece; or the executor or a task moves. -/
inductive RuntimeAction where
  | publish (snapshot : RuntimeSnapshot)
  | proceed
  | start
  | receive
  | tick
  | work
  | finish (handle : Nat)
  | shutdown

namespace RuntimeAction

/-- The move of the executor or of a task. -/
def executorAction : RuntimeAction → Option (HealthCheckAction Allocation)
  | .publish _ | .proceed => none
  | .start => some .start
  | .receive => some .receive
  | .tick => some .tick
  | .work => some .work
  | .finish handle => some (.finish handle)
  | .shutdown => some .shutdown

end RuntimeAction

namespace RuntimeStore

variable (F : FingerprintHash)

def register (s : RuntimeStore) (snapshot : RuntimeSnapshot) (spec : HealthCheckSpec Allocation)
    (pending : List (HealthCheckSpec Allocation)) (next : ActiveHealthCheckSet Allocation) : RuntimeStore :=
  match s.active.kept spec with
  | some existing => { s with stage := .registering snapshot pending (next.insert spec.key existing) }
  | none =>
    let (registry, registration, displaced) := s.healthCheck.registry.registerUpstream spec.key spec.service
    { s with
      healthCheck := { s.healthCheck with registry, displaced := displaced.toList ++ s.healthCheck.displaced }
      stage := .registering snapshot pending
        (next.insert spec.key { fingerprint := spec.fingerprint, registration, service := spec.service }) }

/-- The snapshot is stored and its revision recorded. -/
def commit (s : RuntimeStore) (snapshot : RuntimeSnapshot) (next : ActiveHealthCheckSet Allocation) : RuntimeStore :=
  { s with
    current := snapshot
    status := s.status.setPublishedRevision snapshot.revision
    stage := .stopping (s.active.removed next) next }

/-- Displaced checks are discarded in the order they were displaced, then the removed ones unregistered. -/
def stop (s : RuntimeStore) (removed : List (String × HealthCheckRegistration))
    (next : ActiveHealthCheckSet Allocation) : RuntimeStore :=
  match s.healthCheck.displaced.getLast?, removed with
  | some d, _ =>
    { s with healthCheck := { s.healthCheck with
        registry := d.discard s.healthCheck.registry
        displaced := s.healthCheck.displaced.dropLast } }
  | none, (key, registration) :: rest =>
    { s with
      healthCheck := { s.healthCheck with
        registry := (s.healthCheck.registry.unregisterUpstream key registration).1 }
      stage := .stopping rest next }
  | none, [] => { s with active := next, stage := .idle }

/-- The next piece of the publication that holds the lock. -/
def proceed (s : RuntimeStore) : Option RuntimeStore :=
  match s.stage with
  | .idle => none
  | .registering snapshot (spec :: pending) next => some (s.register snapshot spec pending next)
  | .registering snapshot [] next => some (s.commit snapshot next)
  | .stopping removed next => some (s.stop removed next)

def step (s : RuntimeStore) (a : RuntimeAction) : Option RuntimeStore :=
  match a.executorAction with
  | some move => (s.healthCheck.step move).map fun healthCheck => { s with healthCheck }
  | none =>
    match a, s.stage with
    | .publish snapshot, .idle => some { s with stage := .registering snapshot (collectHealthChecks F snapshot) ∅ }
    | .proceed, _ => s.proceed
    | _, _ => none

def Step (s : RuntimeStore) (a : RuntimeAction) (s' : RuntimeStore) : Prop := s.step F a = some s'

def Init (s : RuntimeStore) : Prop := s = {}

end RuntimeStore

end Pingsix
