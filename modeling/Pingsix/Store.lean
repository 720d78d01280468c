import Pingsix.Error
import Pingsix.Lib.Map
import Pingsix.Lib.Text
import Pingsix.Lib.Utf8

/-!
# Storage-neutral graph vocabulary and the in-memory store

Resources are stored under a kind and an id. A mutation is committed by
compare-and-swap against the target's mod revision and the mod revision of the
graph generation guard.
-/

namespace Pingsix

inductive ResourceKind where
  | upstream
  | service
  | globalRule
  | route
  | ssl
  deriving DecidableEq, Repr

/-- Logical identity of one stored resource; `new` is its only constructor in the source. -/
structure ResourceKey where
  kind : ResourceKind
  id : String
  valid : id ≠ "" ∧ Text.containsChar id '/' = false
  deriving DecidableEq, Repr

structure StoredResource where
  value : ByteArray
  createRevision : Int
  modRevision : Int
  deriving DecidableEq

structure StoredGraph where
  resources : HashMap ResourceKey StoredResource := ∅
  guardModRevision : Option Int := none
  revision : Int := 0

inductive StoredChange where
  | put (key : ResourceKey) (resource : StoredResource)
  | delete (key : ResourceKey)
  deriving DecidableEq

structure WatchBatch where
  revision : Int := 0
  changes : List StoredChange := []

inductive StoredMutation where
  | put (key : ResourceKey) (value : ByteArray)
  | delete (key : ResourceKey)
  deriving DecidableEq

/-- A validated mutation plus the expectations derived from one snapshot. -/
structure GraphCommit where
  mutation : StoredMutation
  expectedTargetModRevision : Option Int
  expectedGuardModRevision : Option Int
  deriving DecidableEq

inductive SecretMode where
  | decryptForRuntime
  | preserveStored
  deriving DecidableEq, Repr

inductive SecretOperation where
  | encrypt
  | decrypt
  | redact
  | restore
  deriving DecidableEq, Repr

inductive StoreError where
  | unavailable (source : ProxyError)
  | invalidResponse (message : String)
  | unsupportedProtocol
  | conflict
  deriving DecidableEq, Repr

inductive GraphError where
  | invalidKey (key reason : String)
  | invalidResource (key : ResourceKey) (source : ProxyError)
  | invalidCandidate (source : ProxyError)
  | referentialConflict (source : ProxyError)
  | notFound (key : ResourceKey)
  | casConflict
  | staleRevision (incoming published : Int)
  | secret (key : ResourceKey) (operation : SecretOperation) (source : ProxyError)
  | workerStopped
  | store (error : StoreError)
  deriving DecidableEq, Repr

namespace ResourceKind

/-- Storage segment used by etcd keys and Admin API paths. -/
def asStr : ResourceKind → String
  | upstream => "upstreams"
  | service => "services"
  | globalRule => "global_rules"
  | route => "routes"
  | ssl => "ssls"

def parse (value : String) : Except GraphError ResourceKind :=
  if value = "upstreams" then .ok upstream
  else if value = "services" then .ok service
  else if value = "global_rules" then .ok globalRule
  else if value = "routes" then .ok route
  else if value = "ssls" then .ok ssl
  else .error (.invalidKey value "unknown resource kind")

theorem parse_eq_ok {value : String} {kind : ResourceKind} : parse value = .ok kind ↔ value = kind.asStr := by
  constructor
  · intro h
    unfold parse at h
    repeat' split at h
    all_goals first
      | (cases h; assumption)
      | cases h
  · rintro rfl
    cases kind <;> decide

theorem slash_notMem_asStr (kind : ResourceKind) : '/' ∉ kind.asStr.toList := by
  cases kind <;> decide

theorem asStr_ne_empty (kind : ResourceKind) : kind.asStr ≠ "" := by
  cases kind <;> decide

end ResourceKind

namespace ResourceKey

def new (kind : ResourceKind) (id : String) : Except GraphError ResourceKey :=
  if h : id ≠ "" ∧ Text.containsChar id '/' = false then .ok ⟨kind, id, h⟩
  else .error (.invalidKey s!"{kind.asStr}/{id}" "resource id must be non-empty and must not contain '/'")

def logicalPath (key : ResourceKey) : String := key.kind.asStr ++ "/" ++ key.id

theorem ext {key key' : ResourceKey} (hk : key.kind = key'.kind) (hi : key.id = key'.id) : key = key' := by
  cases key; cases key'; cases hk; cases hi; rfl

theorem slash_notMem_id (key : ResourceKey) : '/' ∉ key.id.toList := by
  have := key.valid.2
  intro h
  rw [Text.containsChar_iff.mpr h] at this
  cases this

theorem new_eq_ok {kind : ResourceKind} {id : String} {key : ResourceKey} :
    new kind id = .ok key ↔ key.kind = kind ∧ key.id = id := by
  unfold new
  constructor
  · intro h
    split at h
    · cases h; exact ⟨rfl, rfl⟩
    · cases h
  · rintro ⟨rfl, rfl⟩
    rw [dif_pos key.valid]

end ResourceKey

def SecretOperation.display : SecretOperation → String
  | .encrypt => "Encrypt"
  | .decrypt => "Decrypt"
  | .redact => "Redact"
  | .restore => "Restore"

def StoreError.display : StoreError → String
  | .unavailable source => "Unavailable \x7b source: " ++ source.display ++ " \x7d"
  | .invalidResponse message => "InvalidResponse \x7b message: " ++ message ++ " \x7d"
  | .unsupportedProtocol => "UnsupportedProtocol"
  | .conflict => "Conflict"

def GraphError.display : GraphError → String
  | .invalidKey key reason => s!"invalid key '{key}': {reason}"
  | .invalidResource key source => s!"invalid resource '{key.logicalPath}': {source.display}"
  | .invalidCandidate source => s!"invalid candidate graph: {source.display}"
  | .referentialConflict source => s!"candidate graph has conflicting references: {source.display}"
  | .notFound key => s!"resource '{key.logicalPath}' not found"
  | .casConflict => "configuration graph changed concurrently"
  | .staleRevision incoming published =>
    s!"rejecting stale watch revision {incoming} < published revision {published}"
  | .secret key operation source =>
    s!"secret {operation.display} failed for '{key.logicalPath}': {source.display}"
  | .workerStopped => "control-plane preparation worker stopped"
  | .store error => s!"configuration store error: {error.display}"

def StoredMutation.key : StoredMutation → ResourceKey
  | .put key _ => key
  | .delete key => key

/-! ## The in-memory store -/

/-- State of the in-memory store, behind its mutex. -/
structure InMemoryState where
  graph : StoredGraph
  nextRevision : Int

namespace InMemoryState

def new : InMemoryState := ⟨{}, 1⟩

def targetOk (s : InMemoryState) (commit : GraphCommit) : Bool :=
  match commit.expectedTargetModRevision with
  | none => !s.graph.resources.containsKey commit.mutation.key
  | some expected => (s.graph.resources.lookup commit.mutation.key).map (·.modRevision) = some expected

def guardOk (s : InMemoryState) (commit : GraphCommit) : Bool :=
  match commit.expectedGuardModRevision with
  | none => s.graph.guardModRevision.isNone
  | some expected => s.graph.guardModRevision = some expected

def applyMutation (resources : HashMap ResourceKey StoredResource) (revision : Int) :
    StoredMutation → HashMap ResourceKey StoredResource
  | .put key value =>
    let createRevision := ((resources.lookup key).map (·.createRevision)).getD revision
    resources.insert key ⟨value, createRevision, revision⟩
  | .delete key => resources.erase key

/-- The state after a commit at the next revision. -/
def commitTo (s : InMemoryState) (mutation : StoredMutation) : InMemoryState where
  graph :=
    { resources := applyMutation s.graph.resources s.nextRevision mutation
      guardModRevision := some s.nextRevision
      revision := s.nextRevision }
  nextRevision := s.nextRevision + 1

def compareAndSwap (s : InMemoryState) (commit : GraphCommit) : InMemoryState × Except StoreError Int :=
  if !s.targetOk commit || !s.guardOk commit then (s, .error .conflict)
  else (s.commitTo commit.mutation, .ok s.nextRevision)

end InMemoryState

end Pingsix
