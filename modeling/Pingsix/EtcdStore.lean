import Pingsix.Gateway

/-!
# The etcd graph store

Exact read, kind list, full snapshot and the guarded compare-and-swap of
`EtcdGraphStore`, on the etcd of `Pingsix.Etcd`.
-/

namespace Pingsix

/-! ## Transactions -/

/-- A comparison of a transaction; an absent key compares as revision zero. -/
inductive Compare where
  | createRevision (key : ByteArray) (revision : Int)
  | modRevision (key : ByteArray) (revision : Int)
  deriving DecidableEq

def Compare.holds (s : EtcdState) : Compare → Bool
  | .createRevision key revision => ((s.lookup key).map (·.createRevision)).getD 0 = revision
  | .modRevision key revision => ((s.lookup key).map (·.modRevision)).getD 0 = revision

/-- The comparison for an expected mod revision; none expects the key to be absent. -/
def Compare.expecting (key : ByteArray) : Option Int → Compare
  | none => .createRevision key 0
  | some revision => .modRevision key revision

def Etcd.state (e : Etcd) : EtcdState := e.history.stateAt e.revision

def Etcd.txn (e : Etcd) (when : List Compare) (andThen : List EtcdOp) : Option Etcd :=
  if when.all (·.holds e.state) then some (e.transact andThen) else none

/-! ## The store -/

namespace EtcdGraphStore

section
variable (canonicalPrefix : String)

def withPrefix (key : String) : String := canonicalPrefix ++ Text.trimStartMatches key '/'

def getExact (e : Etcd) (key : ResourceKey) : Option StoredResource :=
  (e.state.lookup (withPrefix canonicalPrefix key.logicalPath).toUTF8).map (·.toStored)

/-- One pair of a kind list; unlike the snapshot it takes metadata keys for resources. -/
def kindEntry (kind : ResourceKind) (kv : KeyValue) : Except StoreError (ResourceKey × StoredResource) :=
  match physicalKeyToResourceKey kv.key canonicalPrefix with
  | .error message => .error (.invalidResponse message)
  | .ok key =>
    if key.kind ≠ kind then
      .error (.invalidResponse s!"resource '{key.logicalPath}' is outside requested kind '{kind.asStr}'")
    else .ok (key, kv.toStored)

/-- The kind list of a response in the order etcd returned it. -/
def listKind (kind : ResourceKind) (kvs : List KeyValue) : Except StoreError (List (ResourceKey × StoredResource)) :=
  kvs.mapM (kindEntry canonicalPrefix kind)

def kindRange (kind : ResourceKind) (e : Etcd) : List KeyValue :=
  e.history.range (withPrefix canonicalPrefix (kind.asStr ++ "/")) e.revision

/-- A snapshot of the store: its pairs are returned in some order. -/
def Snapshot (e : Etcd) (g : StoredGraph) : Prop :=
  ∃ kvs, kvs.Perm (e.history.range canonicalPrefix e.revision) ∧
    graphSnapshotFromList kvs e.revision canonicalPrefix = .ok g

def graphTxn (e : Etcd) (key : String) (value : Option ByteArray) (expectedModRevision guardModRevision : Option Int) :
    Etcd × Except StoreError Int :=
  let guardKey := (withPrefix canonicalPrefix graphRevisionKey).toUTF8
  let target := Compare.expecting key.toUTF8 expectedModRevision
  let guard := Compare.expecting guardKey guardModRevision
  let mutation :=
    match value with
    | some value => EtcdOp.put key.toUTF8 value
    | none => .delete key.toUTF8
  match e.txn [target, guard] [mutation, .put guardKey graphProtocolVersion] with
  | none => (e, .error .conflict)
  | some e' => (e', .ok e'.revision)

def compareAndSwap (e : Etcd) (commit : GraphCommit) : Etcd × Except StoreError Int :=
  let (key, value) :=
    match commit.mutation with
    | .put key value => (withPrefix canonicalPrefix key.logicalPath, some value)
    | .delete key => (withPrefix canonicalPrefix key.logicalPath, none)
  graphTxn canonicalPrefix e key value commit.expectedTargetModRevision commit.expectedGuardModRevision

end

end EtcdGraphStore

end Pingsix
