/-!
# Readiness and sync status

The instance-owned status store without its instants: whether a disconnection
has lasted too long is an input of `isStale`, which the clock decides.
-/

namespace Pingsix

inductive ConfigSource where
  | yaml
  | etcd
  deriving DecidableEq, Repr

inductive ConfigErrorKind where
  | etcdUnavailable
  | candidateInvalid
  deriving DecidableEq, Repr

structure StatusStore where
  initialized : Bool := false
  configSource : Option ConfigSource := none
  revision : Option Int := none
  publishedRevision : Option Int := none
  errorKind : Option ConfigErrorKind := none
  lastError : Option String := none
  connected : Bool := false
  awaitingPublishAfterReconnect : Bool := false
  deriving DecidableEq, Repr

namespace StatusStore

def markEtcdConnected (s : StatusStore) (connected : Bool) : StatusStore := { s with connected }

def beginEtcdSync (s : StatusStore) : StatusStore := { s with configSource := some .etcd }

def setRevision (s : StatusStore) (revision : Option Int) : StatusStore := { s with revision }

def setPublishedRevision (s : StatusStore) (revision : Int) : StatusStore :=
  let s := { s with publishedRevision := some revision }
  if s.configSource = some .etcd then
    { s with initialized := true, errorKind := none, lastError := none, awaitingPublishAfterReconnect := false }
  else s

/-- List and watch progress; only a published snapshot restores readiness after a reconnect. -/
def recordSyncSuccess (s : StatusStore) (revision : Int) : StatusStore :=
  let s := { s with revision := some revision }
  let s := if s.errorKind = some .etcdUnavailable then { s with errorKind := none, lastError := none } else s
  let s := if s.configSource.isNone then { s with configSource := some .etcd } else s
  let s := if !s.connected && s.initialized then { s with awaitingPublishAfterReconnect := true } else s
  { s with connected := true }

def recordSyncError (s : StatusStore) (error : String) : StatusStore :=
  { s with errorKind := some .etcdUnavailable, lastError := some error, connected := false }

def recordPreparationError (s : StatusStore) (error : String) : StatusStore :=
  { s with errorKind := some .candidateInvalid, lastError := some error }

/-- Only a disconnected etcd sync can become stale; `overdue` compares the clock with `config_stale_after`. -/
def isStale (s : StatusStore) (overdue : Bool) : Bool :=
  if s.configSource ≠ some .etcd then false else if s.connected then false else overdue

def computeReady (s : StatusStore) (failReadinessWhenStale overdue : Bool) : Bool :=
  if !s.initialized || s.awaitingPublishAfterReconnect then false
  else if failReadinessWhenStale && s.isStale overdue then false
  else true

end StatusStore

end Pingsix
