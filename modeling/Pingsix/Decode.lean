import Pingsix.Secrets

/-!
# Decoding a stored graph and planning a mutation

A stored graph is decoded under the ids of its keys. A mutation is planned
against one snapshot: the candidate graph must decode and validate, and the
commit expects the snapshot's target and guard revisions.
-/

namespace Pingsix

/-! ## Resources by kind -/

/-- The resources of one kind. -/
abbrev Resource : ResourceKind → Type
  | .upstream => Upstream
  | .service => Service
  | .globalRule => GlobalRule
  | .route => Route
  | .ssl => SSL

namespace Resource

def fromValue : (kind : ResourceKind) → De (Resource kind)
  | .upstream => Upstream.fromValue
  | .service => Service.fromValue
  | .globalRule => GlobalRule.fromValue
  | .route => Route.fromValue
  | .ssl => SSL.fromValue

def setId : (kind : ResourceKind) → String → Resource kind → Resource kind
  | .upstream, id, r => { (show Upstream from r) with id := id }
  | .service, id, r => { (show Service from r) with id := id }
  | .globalRule, id, r => { (show GlobalRule from r) with id := id }
  | .route, id, r => { (show Route from r) with id := id }
  | .ssl, id, r => { (show SSL from r) with id := id }

end Resource

namespace ResourceConfigSet

/-- The map that holds the resources of one kind. -/
def slot (set : ResourceConfigSet) : (kind : ResourceKind) → HashMap String (Resource kind)
  | .upstream => set.upstreams
  | .service => set.services
  | .globalRule => set.globalRules
  | .route => set.routes
  | .ssl => set.ssls

def insert (set : ResourceConfigSet) : (kind : ResourceKind) → String → Resource kind → ResourceConfigSet
  | .upstream, id, r => { set with upstreams := set.upstreams.insert id r }
  | .service, id, r => { set with services := set.services.insert id r }
  | .globalRule, id, r => { set with globalRules := set.globalRules.insert id r }
  | .route, id, r => { set with routes := set.routes.insert id r }
  | .ssl, id, r => { set with ssls := set.ssls.insert id r }

theorem slot_insert_self (set : ResourceConfigSet) (kind : ResourceKind) (id : String) (r : Resource kind) :
    (set.insert kind id r).slot kind = (set.slot kind).insert id r := by
  cases kind <;> rfl

theorem slot_insert_of_ne (set : ResourceConfigSet) {kind kind' : ResourceKind} (h : kind' ≠ kind) (id : String)
    (r : Resource kind) : (set.insert kind id r).slot kind' = set.slot kind' := by
  cases kind <;> cases kind' <;> first | rfl | exact absurd rfl h

theorem slot_empty (kind : ResourceKind) (id : String) :
    (({} : ResourceConfigSet).slot kind).lookup id = none := by
  cases kind <;> exact HashMap.lookup_empty id

end ResourceConfigSet

/-! ## Decoding -/

section
variable (ext : Externals) (keyring : KeyringService)

/-- The document of a stored value, its secrets decrypted for the runtime form. -/
def storedDocument (value : ByteArray) (resourceType : String) (decrypt : Bool) : ProxyResult Json :=
  match ext.json.fromSlice value with
  | .error e => .error (.deserialization ext.json "Failed to parse resource JSON" e)
  | .ok json =>
    if decrypt then transformResourceSecrets ext resourceType (decryptLeaf ext keyring) json else .ok json

def resourceFromStored {α : Type} (fromValue : De α) (value : ByteArray) (resourceType : String) (decrypt : Bool) :
    ProxyResult α := do
  let json ← storedDocument ext keyring value resourceType decrypt
  match fromValue json with
  | .error e => .error (.deserialization ext.json "Failed to deserialize resource" e)
  | .ok resource => .ok resource

/-- A stored value as a resource of this kind, under the id of its key. -/
def decodeStored (kind : ResourceKind) (id : String) (value : ByteArray) (decrypt : Bool) :
    ProxyResult (Resource kind) := do
  let resource ← resourceFromStored ext keyring (Resource.fromValue kind) value kind.asStr decrypt
  return Resource.setId kind id resource

def insertResource (decrypt : Bool) (set : ResourceConfigSet) (key : ResourceKey) (value : ByteArray) :
    ProxyResult ResourceConfigSet := do
  return set.insert key.kind key.id (← decodeStored ext keyring key.kind key.id value decrypt)

def decodeGraph (graph : StoredGraph) (mode : SecretMode) : ProxyResult ResourceConfigSet :=
  graph.resources.entries.foldlM
    (fun set e => insertResource ext keyring (mode = .decryptForRuntime) set e.1 e.2.value) {}

/-- The graph a PUT of this value would leave. -/
def putCandidate (snapshot : StoredGraph) (key : ResourceKey) (storedValue : ByteArray) : StoredGraph :=
  { snapshot with resources := snapshot.resources.insert key ⟨storedValue, 0, 0⟩ }

def deleteCandidate (snapshot : StoredGraph) (key : ResourceKey) : StoredGraph :=
  { snapshot with resources := snapshot.resources.erase key }

def planPutMutation (snapshot : StoredGraph) (key : ResourceKey) (storedValue : ByteArray) :
    Except GraphError GraphCommit :=
  match decodeGraph ext keyring (putCandidate snapshot key storedValue) .preserveStored with
  | .error e => .error (.invalidCandidate e)
  | .ok set =>
    match validateStoredForm ext set with
    | .error e => .error (.invalidCandidate e)
    | .ok () =>
      .ok
        { mutation := .put key storedValue
          expectedTargetModRevision := (snapshot.resources.lookup key).map (·.modRevision)
          expectedGuardModRevision := snapshot.guardModRevision }

def planDeleteMutation (snapshot : StoredGraph) (key : ResourceKey) : Except GraphError GraphCommit :=
  match snapshot.resources.lookup key with
  | none => .error (.notFound key)
  | some existing =>
    match decodeGraph ext keyring (deleteCandidate snapshot key) .preserveStored with
    | .error e => .error (.referentialConflict e)
    | .ok set =>
      match validateStoredForm ext set with
      | .error e => .error (.referentialConflict e)
      | .ok () =>
        .ok
          { mutation := .delete key
            expectedTargetModRevision := some existing.modRevision
            expectedGuardModRevision := snapshot.guardModRevision }

end

end Pingsix
