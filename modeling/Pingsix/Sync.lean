import Pingsix.Keys

/-!
# List and watch ingestion

The list path maps a full etcd response to a stored graph. The watch path maps
one response to a batch with at most one change for each key, and layers the
batches on the last graph.
-/

namespace Pingsix

/-- One key-value pair of an etcd response. -/
structure KeyValue where
  key : ByteArray
  value : ByteArray
  createRevision : Int
  modRevision : Int
  deriving DecidableEq

inductive EventType where
  | put
  | delete
  deriving DecidableEq, Repr

structure Event where
  eventType : EventType
  kv : Option KeyValue
  deriving DecidableEq

def KeyValue.toStored (kv : KeyValue) : StoredResource := ⟨kv.value, kv.createRevision, kv.modRevision⟩

/-- One step of `graph_snapshot_from_list`: the resources and the guard's mod revision so far. -/
def listStep (canonicalPrefix : String) (acc : HashMap ResourceKey StoredResource × Option Int) (kv : KeyValue) :
    Except StoreError (HashMap ResourceKey StoredResource × Option Int) :=
  let key := Utf8.fromUtf8Lossy kv.key
  if !Text.startsWith key canonicalPrefix then .ok acc
  else if key = canonicalPrefix ++ graphRevisionKey then do
    validateGuardValue kv.value
    .ok (acc.1, some kv.modRevision)
  else if isMetadataKey kv.key then .ok acc
  else
    match physicalKeyToResourceKey kv.key canonicalPrefix with
    | .error message => .error (.invalidResponse message)
    | .ok resourceKey => .ok (acc.1.insert resourceKey kv.toStored, acc.2)

def graphSnapshotFromList (kvs : List KeyValue) (headerRevision : Int) (canonicalPrefix : String) :
    Except StoreError StoredGraph := do
  let (resources, guardModRevision) ← kvs.foldlM (listStep canonicalPrefix) (∅, none)
  .ok { resources, guardModRevision, revision := headerRevision }

/-- One step of `graph_changes_from_events`: later events for the same key win. -/
def eventStep (canonicalPrefix : String) (finalByKey : HashMap ResourceKey StoredChange) (event : Event) :
    ProxyResult (HashMap ResourceKey StoredChange) :=
  match event.kv with
  | none => .error (.configuration "Etcd event missing key-value pair")
  | some kv =>
    let key := Utf8.fromUtf8Lossy kv.key
    if isMetadataKey kv.key then .ok finalByKey
    else if !Text.startsWith key canonicalPrefix then .ok finalByKey
    else
      match physicalKeyToResourceKey kv.key canonicalPrefix with
      | .error message => .error (.configuration message)
      | .ok resourceKey =>
        match event.eventType with
        | .put => .ok (finalByKey.insert resourceKey (.put resourceKey kv.toStored))
        | .delete => .ok (finalByKey.insert resourceKey (.delete resourceKey))

/-- The map of final changes; the batch lists its values in any order. -/
def graphChangesFromEvents (events : List Event) (canonicalPrefix : String) :
    ProxyResult (HashMap ResourceKey StoredChange) :=
  events.foldlM (eventStep canonicalPrefix) ∅

/-- Revision of a watch response: the greatest mod revision of its events, zero when it has none. -/
def batchRevision (events : List Event) : Int :=
  ((events.filterMap fun event => event.kv.map (·.modRevision)).max?).getD 0

def applyChange (resources : HashMap ResourceKey StoredResource) : StoredChange →
    HashMap ResourceKey StoredResource
  | .put key resource => resources.insert key resource
  | .delete key => resources.erase key

/-- Apply a watch batch to a base graph. Later changes for the same key win. -/
def applyWatchBatch (base : StoredGraph) (batch : WatchBatch) : StoredGraph :=
  if batch.changes.isEmpty then base
  else { base with resources := batch.changes.foldl applyChange base.resources, revision := batch.revision }

end Pingsix
