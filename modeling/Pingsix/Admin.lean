import Pingsix.Decode
import Pingsix.Tls
import Pingsix.Lib.System

/-!
# Admin mutations over the in-memory store

A client takes a snapshot, plans its request against it and commits the plan by
compare-and-swap. Any number of clients interleave at these steps; a client that
lost the race may start its request again.
-/

namespace Pingsix

/-! ## Reading -/

section
variable (ext : Externals) (keyring : KeyringService)

def parseStoredResource (key : ResourceKey) (value : ByteArray) : Except GraphError Json :=
  match ext.json.fromSlice value with
  | .error e => .error (.invalidResource key (.deserialization ext.json "Failed to parse stored resource" e))
  | .ok v => .ok v

/-- What the Admin API shows of one stored resource. -/
structure ResourceView where
  key : ResourceKey
  value : Json
  createRevision : Int
  modRevision : Int

/-- Decrypted first, then redacted. -/
def resourceView (key : ResourceKey) (resource : StoredResource) : Except GraphError ResourceView := do
  let json ← parseStoredResource ext key resource.value
  match decryptForRead ext keyring key.kind json with
  | .error source => throw (.secret key .decrypt source)
  | .ok json =>
    return { key, value := redact ext key.kind json, createRevision := resource.createRevision
             modRevision := resource.modRevision }

def getResource (g : StoredGraph) (key : ResourceKey) : Except GraphError (Option ResourceView) :=
  match g.resources.lookup key with
  | none => .ok none
  | some resource => (resourceView ext keyring key resource).map some

/-- All stored resources of one kind, by id. -/
def listResources (g : StoredGraph) (kind : ResourceKind) : Except GraphError (List ResourceView) := do
  let views ← (g.resources.entries.filter fun e => e.1.kind = kind).mapM fun e => resourceView ext keyring e.1 e.2
  return views.insertionSort fun a b => a.key.id ≤ b.key.id

/-! ## Planning a request -/

/-- Why a request ends without a commit; the source panics on a body that cannot hold an `id`. -/
inductive AdminFailure where
  | error (e : GraphError)
  | bodyNotObject
  deriving DecidableEq

def validatePlugins (plugins : HashMap String Json) : ProxyResult Unit :=
  forEntries plugins fun name value =>
    match validatePluginConfig ext name value with
    | .error e => .error (.plugin s!"Failed to validate plugin '{name}': {e.display}")
    | .ok () => .ok ()

/-- Read a value at its type and run its declarative validation. -/
def readAndValidate {α : Type} (fromValue : De α) (validate : α → List FieldError) (value : Json) : ProxyResult α :=
  parseAndValidatePluginConfig ext.json fromValue validate "Failed to deserialize resource JSON" value

def validateInlineUpstream (upstream : Option Upstream) : ProxyResult Unit :=
  match upstream with
  | some upstream => validateUpstreamTlsMaterial ext.x509 upstream
  | none => .ok ()

/-- The request document against its schema, its plugins and its TLS material. -/
def validateResourceJson (kind : ResourceKind) (value : Json) : ProxyResult Unit :=
  match kind with
  | .upstream => do
    let resource ← readAndValidate ext Upstream.fromValue Upstream.validate value
    validateUpstreamTlsMaterial ext.x509 resource
  | .service => do
    let resource ← readAndValidate ext Service.fromValue Service.validate value
    validatePlugins ext resource.plugins
    validateInlineUpstream ext resource.upstream
  | .globalRule => do
    let resource ← readAndValidate ext GlobalRule.fromValue GlobalRule.validate value
    validatePlugins ext resource.plugins
  | .route => do
    let resource ← readAndValidate ext Route.fromValue Route.validate value
    validatePlugins ext resource.plugins
    validateInlineUpstream ext resource.upstream
  | .ssl => do
    let resource ← readAndValidate ext SSL.fromValue SSL.validate value
    let _ ← ProxySSL.tryFrom ext.x509 resource

/-- The path id replaces the body id; null becomes an object, any other non-object cannot take it. -/
def normalizeBodyId (key : ResourceKey) (value : Json) : Except AdminFailure Json :=
  if (value.get "id").bind Json.asStr = some key.id then .ok value
  else
    match value with
    | .obj members => .ok (.obj (Json.insertMember "id" (.str key.id) members))
    | .null => .ok (.obj [("id", .str key.id)])
    | _ => .error .bodyNotObject

/-- The secrets a client left redacted come from the stored value of the same snapshot. -/
def restoreFromStored (snapshot : StoredGraph) (key : ResourceKey) (value : Json) : Except GraphError Json :=
  if containsRedactionSentinel value then
    match snapshot.resources.lookup key with
    | none => .ok value
    | some stored => do
      let existing ← parseStoredResource ext key stored.value
      match decryptForRead ext keyring key.kind existing with
      | .error source => throw (.secret key .restore source)
      | .ok existing => return restoreRedactedSecrets ext key.kind value existing
  else .ok value

/-- A PUT up to its commit: validated as submitted, stored encrypted, planned against the whole graph. -/
def planPut (nonces : SecretPath → ByteArray) (snapshot : StoredGraph) (key : ResourceKey) (value : Json) :
    Except AdminFailure GraphCommit := do
  let value ← normalizeBodyId key value
  let value ← (restoreFromStored ext keyring snapshot key value).mapError .error
  match validateResourceJson ext key.kind value with
  | .error source => throw (.error (.invalidResource key source))
  | .ok () =>
    match encryptForStorage ext keyring nonces key.kind value with
    | .error source => throw (.error (.secret key .encrypt source))
    | .ok stored => (planPutMutation ext keyring snapshot key stored).mapError .error

/-- A request, with the nonces its encryption draws. -/
inductive AdminRequest where
  | put (key : ResourceKey) (value : Json) (nonces : SecretPath → ByteArray)
  | delete (key : ResourceKey)

def AdminRequest.key : AdminRequest → ResourceKey
  | .put key _ _ => key
  | .delete key => key

def AdminRequest.plan (request : AdminRequest) (snapshot : StoredGraph) : Except AdminFailure GraphCommit :=
  match request with
  | .put key value nonces => planPut ext keyring nonces snapshot key value
  | .delete key => (planDeleteMutation ext keyring snapshot key).mapError .error

def mapStoreError : StoreError → GraphError
  | .conflict => .casConflict
  | other => .store other

/-- The whole request run by itself on a store. -/
def AdminRequest.perform (request : AdminRequest) (s : InMemoryState) :
    InMemoryState × Except AdminFailure Int :=
  match request.plan ext keyring s.graph with
  | .error e => (s, .error e)
  | .ok commit =>
    match s.compareAndSwap commit with
    | (s', .error e) => (s', .error (.error (mapStoreError e)))
    | (s', .ok revision) => (s', .ok revision)

end

/-! ## Clients -/

namespace Admin

/-- Where a client is in its request: after the snapshot it plans without touching the store. -/
inductive Phase where
  | idle
  | planning (request : AdminRequest) (snapshot : StoredGraph)
  | committing (request : AdminRequest) (snapshot : StoredGraph) (commit : GraphCommit)

structure State (Client : Type) where
  store : InMemoryState
  phase : Client → Phase

inductive Label (Client : Type) where
  | snapshot (client : Client) (request : AdminRequest)
  | planned (client : Client)
  | failed (client : Client) (request : AdminRequest) (reason : AdminFailure)
  | committed (client : Client) (request : AdminRequest) (revision : Int)

section
variable (ext : Externals) (keyring : KeyringService) {Client : Type} [DecidableEq Client]

/-- Client `c` moves to another phase. -/
def State.setPhase (σ : State Client) (c : Client) (p : Phase) : State Client :=
  { σ with phase := Function.update σ.phase c p }

inductive Step : State Client → Label Client → State Client → Prop
  | snapshot {σ : State Client} {c : Client} (request : AdminRequest) (h : σ.phase c = .idle) :
      Step σ (.snapshot c request) (σ.setPhase c (.planning request σ.store.graph))
  | planned {σ : State Client} {c : Client} {request : AdminRequest} {snapshot : StoredGraph} {commit : GraphCommit}
      (h : σ.phase c = .planning request snapshot) (hp : request.plan ext keyring snapshot = .ok commit) :
      Step σ (.planned c) (σ.setPhase c (.committing request snapshot commit))
  | rejected {σ : State Client} {c : Client} {request : AdminRequest} {snapshot : StoredGraph} {e : AdminFailure}
      (h : σ.phase c = .planning request snapshot) (hp : request.plan ext keyring snapshot = .error e) :
      Step σ (.failed c request e) (σ.setPhase c .idle)
  | committed {σ : State Client} {c : Client} {request : AdminRequest} {snapshot : StoredGraph} {commit : GraphCommit}
      {s' : InMemoryState} {revision : Int} (h : σ.phase c = .committing request snapshot commit)
      (hc : σ.store.compareAndSwap commit = (s', .ok revision)) :
      Step σ (.committed c request revision) { σ.setPhase c .idle with store := s' }
  | conflict {σ : State Client} {c : Client} {request : AdminRequest} {snapshot : StoredGraph} {commit : GraphCommit}
      {s' : InMemoryState} {e : StoreError} (h : σ.phase c = .committing request snapshot commit)
      (hc : σ.store.compareAndSwap commit = (s', .error e)) :
      Step σ (.failed c request (.error (mapStoreError e))) { σ.setPhase c .idle with store := s' }

/-- A fresh store and no request under way. -/
def Init (σ : State Client) : Prop := σ.store = .new ∧ ∀ c, σ.phase c = .idle

/-- The committed requests of a run with their revisions, oldest first. -/
def committedRequests (ls : List (Label Client)) : List (AdminRequest × Int) :=
  ls.filterMap fun
    | .committed _ request revision => some (request, revision)
    | _ => none

/-- Run requests one after another; every one must succeed at its revision. -/
def serially (s : InMemoryState) : List (AdminRequest × Int) → Option InMemoryState
  | [] => some s
  | (request, revision) :: rest =>
    match request.perform ext keyring s with
    | (s', .ok r) => if r = revision then serially s' rest else none
    | (_, .error _) => none

end

end Admin

end Pingsix
