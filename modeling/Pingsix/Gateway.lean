import Pingsix.Authority
import Pingsix.Etcd
import Pingsix.Lib.System

/-!
# The gateway: etcd, the sync loop, the authority and the Admin commits

`run_sync_loop` as a machine that lists, submits the listed graph, watches from
its revision and submits each batch, listing again after every failure. Etcd,
the publication worker and the Admin API take their steps in between.
-/

namespace Pingsix

inductive SyncPhase where
  | listing
  | listed (revision : Int) (kvs : List KeyValue)
  | replacing (revision : Int)
  | connecting
  | watching (position : Int)
  | received (position next headerRevision : Int) (events : List Event)
  | applying (next headerRevision : Int)

/-- The sync service: the revision its next watch starts after, and where its loop stands. -/
structure EtcdConfigSync where
  revision : Int := 0
  phase : SyncPhase := .listing

structure Gateway (Logical : Type) where
  etcd : Etcd
  sync : EtcdConfigSync := {}
  authority : Authority Logical := {}
  /-- Admin commits whose `record_pending_publication` has not run yet. -/
  unrecorded : List Int := []

inductive GatewayLabel where
  | environment
  | authority (label : Label)
  | commit (revision : Int) (key : ResourceKey)
  deriving DecidableEq

def GatewayLabel.authority? : GatewayLabel → Option Label
  | .authority label => some label
  | _ => none

/-- Failures of one list or watch iteration that keep the etcd connection. -/
def isDataRejection : GraphError → Bool
  | .invalidCandidate _ | .invalidResource _ _ | .secret _ _ _ => true
  | _ => false

/-- What the loop records for a rejected list or batch before it lists again. -/
def recordRejection (status : StatusStore) (e : GraphError) : StatusStore :=
  if isDataRejection e then status.recordPreparationError s!"Configuration graph rejected input: {e.display}"
  else status.recordSyncError s!"Configuration graph rejected input: {e.display}"

/-- The write of an Admin mutation and the guard put that commits with it. -/
def mutationOps (canonicalPrefix : String) : StoredMutation → List EtcdOp
  | .put key value => [.put (physicalKey canonicalPrefix key) value,
      .put (canonicalPrefix ++ graphRevisionKey).toUTF8 graphProtocolVersion]
  | .delete key => [.delete (physicalKey canonicalPrefix key),
      .put (canonicalPrefix ++ graphRevisionKey).toUTF8 graphProtocolVersion]

/-- A delete commits only while its key is present; a put renews or creates it. -/
def mutationApplies (canonicalPrefix : String) (e : Etcd) : StoredMutation → Prop
  | .put _ _ => True
  | .delete key => ((e.history.stateAt e.revision).lookup (physicalKey canonicalPrefix key)).isSome

namespace Gateway

variable {Logical : Type}

def withStatus (g : Gateway Logical) (status : StatusStore) : Gateway Logical :=
  { g with authority := { g.authority with status } }

def withPhase (g : Gateway Logical) (phase : SyncPhase) : Gateway Logical :=
  { g with sync := { g.sync with phase } }

/-- The loop fails an iteration: it records why and lists again. -/
def relist (g : Gateway Logical) (status : StatusStore) : Gateway Logical :=
  (g.withStatus status).withPhase .listing

/-- A rejected list or batch: the adapter classifies it and the loop lists again. -/
def rejected (g : Gateway Logical) (e : GraphError) : Gateway Logical :=
  g.relist (recordRejection g.authority.status e)

def submitting (g : Gateway Logical) (sub : Submission Logical) (phase : SyncPhase) : Gateway Logical :=
  { g with authority := g.authority.startSubmit sub }.withPhase phase

/-- `accept` decodes a stored graph for runtime and validates it as a whole. -/
inductive Step (canonicalPrefix : String) (accept : StoredGraph → ProxyResult Logical) :
    Gateway Logical → GatewayLabel → Gateway Logical → Prop
  /-- Another writer of etcd, inside or outside the namespace. -/
  | write {g : Gateway Logical} (ops : List EtcdOp) :
      Step canonicalPrefix accept g .environment { g with etcd := g.etcd.transact ops }
  | commit {g : Gateway Logical} (mutation : StoredMutation)
      (happ : mutationApplies canonicalPrefix g.etcd mutation) :
      Step canonicalPrefix accept g (.commit (g.etcd.revision + 1) mutation.key)
        { g with
          etcd := g.etcd.transact (mutationOps canonicalPrefix mutation)
          unrecorded := (g.etcd.revision + 1) :: g.unrecorded }
  | recordPending {g : Gateway Logical} {revision : Int} (hr : revision ∈ g.unrecorded) :
      Step canonicalPrefix accept g (.authority (.recordPending revision))
        { g with
          authority := { g.authority with publications := g.authority.publications.pending revision }
          unrecorded := g.unrecorded.erase revision }
  | worker {g : Gateway Logical} {a : Authority Logical} {l : Label} (h : Authority.WorkerStep g.authority l a) :
      Step canonicalPrefix accept g (.authority l) { g with authority := a }
  | submit {g : Gateway Logical} {a : Authority Logical} {l : Label} (h : Authority.SubmitStep g.authority l a) :
      Step canonicalPrefix accept g (.authority l) { g with authority := a }
  | submitFails {g : Gateway Logical} {a : Authority Logical} {e : GraphError}
      (h : Authority.SubmitFails g.authority e a) :
      Step canonicalPrefix accept g (.authority .internal) { g with authority := a, sync := { g.sync with phase := .listing } }
  /-- The list reads one state of etcd and returns its pairs in any order. -/
  | list {g : Gateway Logical} {kvs : List KeyValue} (hp : g.sync.phase = .listing)
      (hk : kvs.Perm (g.etcd.history.range canonicalPrefix g.etcd.revision)) :
      Step canonicalPrefix accept g (.authority .internal)
        ((g.withStatus (g.authority.status.recordSyncSuccess g.etcd.revision)).withPhase
          (.listed g.etcd.revision kvs))
  | listFailed {g : Gateway Logical} (error : String) (hp : g.sync.phase = .listing) :
      Step canonicalPrefix accept g (.authority .internal) (g.relist (g.authority.status.recordSyncError error))
  | listUnmapped {g : Gateway Logical} {revision : Int} {kvs : List KeyValue} {e : StoreError} (error : String)
      (hp : g.sync.phase = .listed revision kvs)
      (hg : graphSnapshotFromList kvs revision canonicalPrefix = .error e) :
      Step canonicalPrefix accept g (.authority .internal) (g.relist (g.authority.status.recordSyncError error))
  | listRejected {g : Gateway Logical} {revision : Int} {kvs : List KeyValue} {snapshot : StoredGraph}
      {e : GraphError} (hp : g.sync.phase = .listed revision kvs) (hl : g.authority.writeLockFree)
      (hg : graphSnapshotFromList kvs revision canonicalPrefix = .ok snapshot)
      (hr : Authority.replaceAll accept snapshot = .error e) :
      Step canonicalPrefix accept g (.authority .internal) (g.rejected e)
  | replaceAll {g : Gateway Logical} {revision : Int} {kvs : List KeyValue} {snapshot : StoredGraph}
      {sub : Submission Logical} (hp : g.sync.phase = .listed revision kvs) (hl : g.authority.writeLockFree)
      (hg : graphSnapshotFromList kvs revision canonicalPrefix = .ok snapshot)
      (hr : Authority.replaceAll accept snapshot = .ok sub) :
      Step canonicalPrefix accept g (.authority .internal) (g.submitting sub (.replacing revision))
  | replaced {g : Gateway Logical} {revision : Int} (hp : g.sync.phase = .replacing revision)
      (hw : g.authority.writer = none) :
      Step canonicalPrefix accept g (.authority .internal)
        { g.withStatus (g.authority.status.setRevision (some revision)) with sync := ⟨revision, .connecting⟩ }
  /-- The watch starts at the revision after that of the list. -/
  | watchStarted {g : Gateway Logical} (hp : g.sync.phase = .connecting) :
      Step canonicalPrefix accept g (.authority .internal)
        ((g.withStatus (g.authority.status.markEtcdConnected true)).withPhase (.watching g.sync.revision))
  /-- The next response: all events after the position up to a later revision, in order. -/
  | respond {g : Gateway Logical} {position next : Int} (hp : g.sync.phase = .watching position)
      (hn : position ≤ next) (hb : next ≤ g.etcd.revision) :
      Step canonicalPrefix accept g .environment
        (g.withPhase (.received position next g.etcd.revision
          (g.etcd.history.events canonicalPrefix position next)))
  | undecodable {g : Gateway Logical} {position next header : Int} {events : List Event} {e : ProxyError}
      (error : String) (hp : g.sync.phase = .received position next header events)
      (hm : graphChangesFromEvents events canonicalPrefix = .error e) :
      Step canonicalPrefix accept g (.authority .internal) (g.relist (g.authority.status.recordSyncError error))
  | ignored {g : Gateway Logical} {position next header : Int} {events : List Event}
      {m : HashMap ResourceKey StoredChange} {changes : List StoredChange}
      (hp : g.sync.phase = .received position next header events) (hl : g.authority.writeLockFree)
      (hm : graphChangesFromEvents events canonicalPrefix = .ok m) (hc : changes.Perm m.values)
      (ha : g.authority.applyWatch accept ⟨batchRevision events, changes⟩ = .ok none) :
      Step canonicalPrefix accept g (.authority .internal)
        { g.withStatus (g.authority.status.recordSyncSuccess header) with sync := ⟨header, .watching next⟩ }
  | batchRejected {g : Gateway Logical} {position next header : Int} {events : List Event}
      {m : HashMap ResourceKey StoredChange} {changes : List StoredChange} {e : GraphError}
      (hp : g.sync.phase = .received position next header events) (hl : g.authority.writeLockFree)
      (hm : graphChangesFromEvents events canonicalPrefix = .ok m) (hc : changes.Perm m.values)
      (ha : g.authority.applyWatch accept ⟨batchRevision events, changes⟩ = .error e) :
      Step canonicalPrefix accept g (.authority .internal) (g.rejected e)
  | applyWatch {g : Gateway Logical} {position next header : Int} {events : List Event}
      {m : HashMap ResourceKey StoredChange} {changes : List StoredChange} {sub : Submission Logical}
      (hp : g.sync.phase = .received position next header events) (hl : g.authority.writeLockFree)
      (hm : graphChangesFromEvents events canonicalPrefix = .ok m) (hc : changes.Perm m.values)
      (ha : g.authority.applyWatch accept ⟨batchRevision events, changes⟩ = .ok (some sub)) :
      Step canonicalPrefix accept g (.authority .internal) (g.submitting sub (.applying next header))
  | applied {g : Gateway Logical} {next header : Int} (hp : g.sync.phase = .applying next header)
      (hw : g.authority.writer = none) :
      Step canonicalPrefix accept g (.authority .internal)
        { g.withStatus (g.authority.status.recordSyncSuccess header) with sync := ⟨header, .watching next⟩ }
  /-- The stream is cancelled or ends, or it fails and the loop records the error. -/
  | watchEnded {g : Gateway Logical} (status : StatusStore)
      (hp : g.sync.phase = .connecting ∨ ∃ position, g.sync.phase = .watching position)
      (hs : status = g.authority.status ∨ ∃ error, status = g.authority.status.recordSyncError error) :
      Step canonicalPrefix accept g (.authority .internal) (g.relist status)

/-- A gateway that has just started: an etcd at any state, nothing listed and nothing published. -/
def Initial (g : Gateway Logical) : Prop := g.sync = {} ∧ g.authority = {} ∧ g.unrecorded = []

end Gateway

end Pingsix
