import Pingsix.Decode
import Pingsix.Gateway
import Pingsix.Plan

/-!
# Gateways over one etcd

A gateway together with the snapshots its worker compiles, and any number of such
instances that list, watch and write one etcd.
-/

namespace Pingsix

/-- What `replace_all` and `apply_watch` submit: the graph decoded for runtime, when it is valid as a whole. -/
def acceptForRuntime (ext : Externals) (keyring : KeyringService) (stored : StoredGraph) : ProxyResult ResourceConfigSet := do
  let logical ← decodeGraph ext keyring stored .decryptForRuntime
  validateRuntimeForm ext logical
  return logical

/-- A gateway with the snapshot that serves requests, and what `prepare_latest` holds of an attempt: the snapshot it
loaded to reuse objects of, and the one it has compiled. -/
structure GatewayState where
  graph : Gateway ResourceConfigSet
  runtime : RuntimeSnapshot := .empty
  previous : RuntimeSnapshot := .empty
  compiled : Option RuntimeSnapshot := none

namespace GatewayState

def withWorker (s : GatewayState) (worker : Worker ResourceConfigSet) : Gateway ResourceConfigSet :=
  { s.graph with authority := { s.graph.authority with worker } }

/-- The step takes no target and compiles none. -/
def KeepsAttempt (s : GatewayState) (g : Gateway ResourceConfigSet) : Prop :=
  ∀ stage delay attempted target, g.authority.worker = .attempting stage delay attempted target →
    stage = .preparing ∨ stage = .fencing → g.authority.worker = s.graph.authority.worker

/-- A step of the gateway; of the worker's, three touch snapshots. Preparation may end with any addresses resolved. -/
inductive Step (M : Matchit) (ext : Externals) (keyring : KeyringService) (canonicalPrefix : String) :
    GatewayState → GatewayLabel → GatewayState → Prop
  | load {s : GatewayState} {delay : Nat} {attempted : Attempted} {target : PendingGraph ResourceConfigSet}
      (hw : s.graph.authority.worker = .taking delay attempted) (ht : s.graph.authority.target = some target) :
      Step M ext keyring canonicalPrefix s (.authority .internal)
        { s with graph := s.withWorker (.attempting .preparing delay attempted target), previous := s.runtime }
  | compile {s : GatewayState} {delay : Nat} {attempted : Attempted} {target : PendingGraph ResourceConfigSet}
      {plan : CandidatePlan} {ctx : BuildContext} {candidate : CandidateSnapshot} {snapshot : RuntimeSnapshot}
      (hw : s.graph.authority.worker = .attempting .compiling delay attempted target)
      (hplan : CandidatePlan.build ext target.logical s.previous = .ok plan) (hext : ctx.ext = ext)
      (hbuild : CandidateSnapshot.buildPrepared ctx target.logical plan = .ok candidate)
      (hcompile : RuntimeSnapshot.compile M candidate target.revision = .ok snapshot) :
      Step M ext keyring canonicalPrefix s (.authority .internal)
        { s with graph := s.withWorker (.attempting .fencing delay attempted target), compiled := some snapshot }
  | publish {s : GatewayState} {delay : Nat} {attempted : Attempted} {target : PendingGraph ResourceConfigSet}
      {g : Gateway ResourceConfigSet} {snapshot : RuntimeSnapshot}
      (hw : s.graph.authority.worker = .attempting .publishing delay attempted target)
      (h : Gateway.Step canonicalPrefix (acceptForRuntime ext keyring) s.graph
        (.authority (.publish target.generation target.revision)) g) (hc : s.compiled = some snapshot) :
      Step M ext keyring canonicalPrefix s (.authority (.publish target.generation target.revision))
        { s with graph := g, runtime := snapshot }
  | other {s : GatewayState} {l : GatewayLabel} {g : Gateway ResourceConfigSet}
      (h : Gateway.Step canonicalPrefix (acceptForRuntime ext keyring) s.graph l g)
      (hl : ∀ generation revision, l ≠ .authority (.publish generation revision)) (hk : s.KeepsAttempt g) :
      Step M ext keyring canonicalPrefix s l { s with graph := g }

/-- A gateway that has just started, over an etcd at any state. -/
def Initial (s : GatewayState) : Prop := ∃ etcd, s = { graph := { etcd } }

def withEtcd (s : GatewayState) (etcd : Etcd) : GatewayState := { s with graph := { s.graph with etcd } }

end GatewayState

/-- The instances, each with its view of etcd. -/
abbrev Cluster (ι : Type) := ι → GatewayState

namespace Cluster

variable {ι : Type} [DecidableEq ι]

/-- One instance moves, and what that makes of etcd is etcd for all of them. -/
def Step (M : Matchit) (ext : Externals) (keyring : KeyringService) (canonicalPrefix : String) (c : Cluster ι)
    (l : ι × GatewayLabel) (c' : Cluster ι) : Prop :=
  ∃ s, GatewayState.Step M ext keyring canonicalPrefix (c l.1) l.2 s ∧
    c' = fun i => if i = l.1 then s else (c i).withEtcd s.graph.etcd

def Init (c : Cluster ι) : Prop := (∀ i, (c i).Initial) ∧ ∀ i j, (c i).graph.etcd = (c j).graph.etcd

end Cluster

end Pingsix
