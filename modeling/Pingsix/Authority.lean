import Pingsix.Publication
import Pingsix.Status
import Pingsix.Sync

/-!
# The graph authority and its publication worker

`submit` and the worker loop, cut into the critical sections of the locks they
take. A writer holds the write lock for the whole of `submit`; the worker holds
it from the generation fence to the recorded publication. What preparation and
compilation yield is left to the environment, and so is the moment a backoff
ends. `shutdown` is not part of this system: the lifecycle stays as it starts.
-/

namespace Pingsix

/-- Each submission creates one token; it is named by the generation it was created for. -/
abbrev CancellationToken := Nat

inductive Lifecycle where
  | running
  | stopped
  deriving DecidableEq, Repr

/-- The published view: its revision and the configuration it was compiled from, none before the first. -/
structure PublishedSnapshot (Logical : Type) where
  revision : Int := 0
  logical : Option Logical := none

structure PendingGraph (Logical : Type) where
  generation : Nat
  revision : Int
  stored : StoredGraph
  logical : Logical
  cancellation : CancellationToken

/-- What a writer hands to `submit`. -/
structure Submission (Logical : Type) where
  stored : StoredGraph
  logical : Logical

/-- The next critical section of a `submit` in progress. -/
inductive SubmitPc where
  | ensureWorkerStarted
  | bump
  | register (generation : Nat)
  | cancelPrevious (generation : Nat)
  | replaceTarget (generation : Nat)
  | signal
  deriving DecidableEq, Repr

structure Writer (Logical : Type) where
  pc : SubmitPc
  submission : Submission Logical

/-- Where `prepare_latest` stands with the target it took; the last three hold the write lock. -/
inductive Stage where
  | preparing
  | compiling
  | fencing
  | publishing
  | committing
  | recording
  deriving DecidableEq, Repr

/-- The target observed before an attempt: its generation and its token. -/
abbrev Attempted := Option (Nat × CancellationToken)

/-- The worker task between two critical sections. -/
inductive Worker (Logical : Type) where
  | absent
  | receiving
  | observing (retryDelay : Nat)
  | taking (retryDelay : Nat) (attempted : Attempted)
  | attempting (stage : Stage) (retryDelay : Nat) (attempted : Attempted) (target : PendingGraph Logical)
  | failedTransient (retryDelay : Nat) (attempted : Attempted)
  | backoff (retryDelay : Nat) (cancellation : CancellationToken)
  | failedPermanent (attempted : Attempted)
  | rejecting (attempted : Attempted) (revision : Option Int)
  | parked (cancellation : CancellationToken)

structure Authority (Logical : Type) where
  status : StatusStore := {}
  runtime : PublishedSnapshot Logical := {}
  committed : Option StoredGraph := none
  target : Option (PendingGraph Logical) := none
  latestGeneration : Nat := 0
  workerTx : Bool := false
  /-- The channel holds its one token. -/
  signal : Bool := false
  activeCancellation : Option CancellationToken := none
  cancelled : List CancellationToken := []
  lifecycle : Lifecycle := .running
  publications : PublicationRegistry := {}
  /-- The `submit` in progress, which holds the write lock. -/
  writer : Option (Writer Logical) := none
  worker : Worker Logical := .absent

/-- What a step shows: the events the publication claims speak of. -/
inductive Label where
  | internal
  | bump (generation : Nat)
  | register (generation : Nat) (revision : Int)
  | cancelPrevious
  | publish (generation : Nat) (revision : Int)
  | settleStale (generation : Nat) (revision : Int)
  | recordPublished (revision : Int)
  | reject (revision : Int)
  | recordPending (revision : Int)
  deriving DecidableEq, Repr

def safePreparationError (permanent : Bool) : String :=
  if permanent then "candidate rejected during runtime preparation"
  else "candidate preparation temporarily unavailable"

def Worker.holdsWriteLock {Logical : Type} : Worker Logical → Bool
  | .attempting .publishing _ _ _ | .attempting .committing _ _ _ | .attempting .recording _ _ _ => true
  | _ => false

/-- The worker waits again: for the token of a rejected generation, or for a signal when it observed none. -/
def Worker.afterRejection {Logical : Type} : Attempted → Worker Logical
  | some (_, cancellation) => .parked cancellation
  | none => .receiving

namespace Authority

variable {Logical : Type}

def writeLockFree (a : Authority Logical) : Prop := a.writer = none ∧ a.worker.holdsWriteLock = false

/-- Start the worker on a fresh channel when there is none. -/
def ensureWorkerStarted (a : Authority Logical) : Except GraphError (Authority Logical) :=
  if a.lifecycle ≠ .running then .error .workerStopped
  else if a.workerTx then .ok a
  else .ok { a with workerTx := true, signal := false, worker := .receiving }

def currentTarget (a : Authority Logical) : Attempted := a.target.map fun t => (t.generation, t.cancellation)

def isCurrentGeneration (a : Authority Logical) (generation : Nat) : Bool := a.latestGeneration = generation

/-- The revision `reject_publication` finds: that of the target, when it still is the failed generation. -/
def rejectedRevision (a : Authority Logical) (attempted : Attempted) : Option Int :=
  attempted.bind fun failed => (a.target.filter fun t => t.generation = failed.1).map (·.revision)

/-- `replace_all`, up to its `submit`; `accept` decodes for runtime and validates the whole graph. -/
def replaceAll (accept : StoredGraph → ProxyResult Logical) (snapshot : StoredGraph) :
    Except GraphError (Submission Logical) :=
  match accept snapshot with
  | .error source => .error (.invalidCandidate source)
  | .ok logical => .ok ⟨snapshot, logical⟩

/-- The graph a watch batch is layered on: the latest target, else the committed graph, else the empty one. -/
def watchBase (a : Authority Logical) : StoredGraph :=
  match a.target with
  | some t => t.stored
  | none => a.committed.getD {}

/-- `apply_watch`, up to its `submit`; an empty batch submits nothing. -/
def applyWatch (accept : StoredGraph → ProxyResult Logical) (a : Authority Logical) (batch : WatchBatch) :
    Except GraphError (Option (Submission Logical)) :=
  if batch.changes.isEmpty then .ok none
  else if batch.revision < a.runtime.revision then .error (.staleRevision batch.revision a.runtime.revision)
  else
    let stored := applyWatchBatch a.watchBase batch
    match accept stored with
    | .error source => .error (.invalidCandidate source)
    | .ok logical => .ok (some ⟨stored, logical⟩)

/-- A writer takes the write lock and enters `submit`. -/
def startSubmit (a : Authority Logical) (submission : Submission Logical) : Authority Logical :=
  { a with writer := some ⟨.ensureWorkerStarted, submission⟩ }

/-- One critical section of the `submit` in progress. -/
inductive SubmitStep : Authority Logical → Label → Authority Logical → Prop
  | ensureWorkerStarted {a a' : Authority Logical} {sub : Submission Logical}
      (hw : a.writer = some ⟨.ensureWorkerStarted, sub⟩) (ha : a.ensureWorkerStarted = .ok a') :
      SubmitStep a .internal { a' with writer := some ⟨.bump, sub⟩ }
  | bump {a : Authority Logical} {sub : Submission Logical} (hw : a.writer = some ⟨.bump, sub⟩) :
      SubmitStep a (.bump (a.latestGeneration + 1))
        { a with
          latestGeneration := a.latestGeneration + 1
          writer := some ⟨.register (a.latestGeneration + 1), sub⟩ }
  | register {a : Authority Logical} {sub : Submission Logical} {generation : Nat}
      (hw : a.writer = some ⟨.register generation, sub⟩) :
      SubmitStep a (.register generation sub.stored.revision)
        { a with
          publications :=
            (a.publications.pending sub.stored.revision).supersedePendingExcept sub.stored.revision
          writer := some ⟨.cancelPrevious generation, sub⟩ }
  | cancelPrevious {a : Authority Logical} {sub : Submission Logical} {generation : Nat}
      (hw : a.writer = some ⟨.cancelPrevious generation, sub⟩) :
      SubmitStep a .cancelPrevious
        { a with
          activeCancellation := some generation
          cancelled := a.activeCancellation.toList ++ a.cancelled
          writer := some ⟨.replaceTarget generation, sub⟩ }
  | replaceTarget {a : Authority Logical} {sub : Submission Logical} {generation : Nat}
      (hw : a.writer = some ⟨.replaceTarget generation, sub⟩) :
      SubmitStep a .internal
        { a with
          target := some ⟨generation, sub.stored.revision, sub.stored, sub.logical, generation⟩
          writer := some ⟨.signal, sub⟩ }
  /-- A full channel keeps its token, which serves this submission too. -/
  | signal {a : Authority Logical} {sub : Submission Logical} (hw : a.writer = some ⟨.signal, sub⟩) :
      SubmitStep a .internal { a with signal := a.signal || a.workerTx, writer := none }

/-- `submit` returns the error of `ensureWorkerStarted` and changes nothing. -/
inductive SubmitFails : Authority Logical → GraphError → Authority Logical → Prop
  | intro {a : Authority Logical} {sub : Submission Logical} {e : GraphError}
      (hw : a.writer = some ⟨.ensureWorkerStarted, sub⟩) (ha : a.ensureWorkerStarted = .error e) :
      SubmitFails a e { a with writer := none }

/-- One critical section of the worker task. -/
inductive WorkerStep : Authority Logical → Label → Authority Logical → Prop
  | receive {a : Authority Logical} (hw : a.worker = .receiving) (hs : a.signal = true) :
      WorkerStep a .internal { a with signal := false, worker := .observing 1 }
  | observe {a : Authority Logical} {d : Nat} (hw : a.worker = .observing d) :
      WorkerStep a .internal { a with worker := .taking d a.currentTarget }
  | takeNone {a : Authority Logical} {d : Nat} {att : Attempted} (hw : a.worker = .taking d att)
      (ht : a.target = none) : WorkerStep a .internal { a with worker := .receiving }
  | take {a : Authority Logical} {d : Nat} {att : Attempted} {t : PendingGraph Logical}
      (hw : a.worker = .taking d att) (ht : a.target = some t) :
      WorkerStep a .internal { a with worker := .attempting .preparing d att t }
  | prepared {a : Authority Logical} {d : Nat} {att : Attempted} {t : PendingGraph Logical}
      (hw : a.worker = .attempting .preparing d att t) :
      WorkerStep a .internal { a with worker := .attempting .compiling d att t }
  | prepareFailed {a : Authority Logical} {d : Nat} {att : Attempted} {t : PendingGraph Logical}
      (hw : a.worker = .attempting .preparing d att t) :
      WorkerStep a .internal
        { a with
          status := a.status.recordPreparationError (safePreparationError false)
          worker := .failedTransient d att }
  | compiled {a : Authority Logical} {d : Nat} {att : Attempted} {t : PendingGraph Logical}
      (hw : a.worker = .attempting .compiling d att t) :
      WorkerStep a .internal { a with worker := .attempting .fencing d att t }
  | compileFailed {a : Authority Logical} {d : Nat} {att : Attempted} {t : PendingGraph Logical}
      (hw : a.worker = .attempting .compiling d att t) :
      WorkerStep a .internal { a with worker := .failedPermanent att }
  | cancelled {a : Authority Logical} {stage : Stage} {d : Nat} {att : Attempted} {t : PendingGraph Logical}
      (hw : a.worker = .attempting stage d att t) (hs : stage = .preparing ∨ stage = .compiling)
      (hc : t.cancellation ∈ a.cancelled) : WorkerStep a .internal { a with worker := .receiving }
  | superseded {a : Authority Logical} {d : Nat} {att : Attempted} {t : PendingGraph Logical}
      (hw : a.worker = .attempting .fencing d att t) (hl : a.writeLockFree)
      (hc : t.cancellation ∈ a.cancelled ∨ a.latestGeneration ≠ t.generation) :
      WorkerStep a .internal { a with worker := .receiving }
  | stale {a : Authority Logical} {d : Nat} {att : Attempted} {t : PendingGraph Logical}
      (hw : a.worker = .attempting .fencing d att t) (hl : a.writeLockFree)
      (hc : ¬(t.cancellation ∈ a.cancelled ∨ a.latestGeneration ≠ t.generation))
      (hr : t.revision < a.runtime.revision) :
      WorkerStep a (.settleStale t.generation t.revision) { a with worker := .receiving }
  | fenced {a : Authority Logical} {d : Nat} {att : Attempted} {t : PendingGraph Logical}
      (hw : a.worker = .attempting .fencing d att t) (hl : a.writeLockFree)
      (hc : ¬(t.cancellation ∈ a.cancelled ∨ a.latestGeneration ≠ t.generation))
      (hr : ¬ t.revision < a.runtime.revision) :
      WorkerStep a .internal { a with worker := .attempting .publishing d att t }
  | publish {a : Authority Logical} {d : Nat} {att : Attempted} {t : PendingGraph Logical}
      (hw : a.worker = .attempting .publishing d att t) :
      WorkerStep a (.publish t.generation t.revision)
        { a with
          runtime := ⟨t.revision, some t.logical⟩
          status := a.status.setPublishedRevision t.revision
          worker := .attempting .committing d att t }
  | commit {a : Authority Logical} {d : Nat} {att : Attempted} {t : PendingGraph Logical}
      (hw : a.worker = .attempting .committing d att t) :
      WorkerStep a .internal { a with committed := some t.stored, worker := .attempting .recording d att t }
  | recordPublished {a : Authority Logical} {d : Nat} {att : Attempted} {t : PendingGraph Logical}
      (hw : a.worker = .attempting .recording d att t) :
      WorkerStep a (.recordPublished t.revision)
        { a with publications := a.publications.published t.revision, worker := .receiving }
  | retryNow {a : Authority Logical} {d generation : Nat} {token : CancellationToken}
      (hw : a.worker = .failedTransient d (some (generation, token)))
      (hc : a.isCurrentGeneration generation = false) :
      WorkerStep a .internal { a with worker := .observing d }
  | giveUp {a : Authority Logical} {d : Nat} (hw : a.worker = .failedTransient d none) :
      WorkerStep a .internal { a with worker := .receiving }
  | backOff {a : Authority Logical} {d generation : Nat} {token : CancellationToken}
      (hw : a.worker = .failedTransient d (some (generation, token)))
      (hc : a.isCurrentGeneration generation = true) :
      WorkerStep a .internal { a with worker := .backoff d token }
  | sleepOver {a : Authority Logical} {d : Nat} {token : CancellationToken} (hw : a.worker = .backoff d token) :
      WorkerStep a .internal { a with worker := .observing (min (d * 2) 30) }
  | backoffCancelled {a : Authority Logical} {d : Nat} {token : CancellationToken}
      (hw : a.worker = .backoff d token) (hc : token ∈ a.cancelled) :
      WorkerStep a .internal { a with worker := .receiving }
  | findRejected {a : Authority Logical} {att : Attempted} (hw : a.worker = .failedPermanent att) :
      WorkerStep a .internal { a with worker := .rejecting att (a.rejectedRevision att) }
  | reject {a : Authority Logical} {att : Attempted} {revision : Int}
      (hw : a.worker = .rejecting att (some revision)) :
      WorkerStep a (.reject revision)
        { a with
          publications := a.publications.rejected revision (safePreparationError true)
          status := a.status.recordPreparationError (safePreparationError true)
          worker := .afterRejection att }
  | rejectNone {a : Authority Logical} {att : Attempted} (hw : a.worker = .rejecting att none) :
      WorkerStep a .internal
        { a with
          status := a.status.recordPreparationError (safePreparationError true)
          worker := .afterRejection att }
  | unpark {a : Authority Logical} {token : CancellationToken} (hw : a.worker = .parked token)
      (hc : token ∈ a.cancelled) : WorkerStep a .internal { a with worker := .receiving }

/-- The authority under any writers: one at a time enters `submit` with any graph, and Admin commits are recorded. -/
inductive Step : Authority Logical → Label → Authority Logical → Prop
  | enter {a : Authority Logical} (sub : Submission Logical) (hl : a.writeLockFree) :
      Step a .internal (a.startSubmit sub)
  | submit {a a' : Authority Logical} {l : Label} (h : SubmitStep a l a') : Step a l a'
  | submitFails {a a' : Authority Logical} {e : GraphError} (h : SubmitFails a e a') : Step a .internal a'
  | worker {a a' : Authority Logical} {l : Label} (h : WorkerStep a l a') : Step a l a'
  | recordPending {a : Authority Logical} (revision : Int) :
      Step a (.recordPending revision) { a with publications := a.publications.pending revision }
  | status {a : Authority Logical} (status : StatusStore) : Step a .internal { a with status }

/-- The state `with_state` creates. -/
def Initial (a : Authority Logical) : Prop := a = {}

end Authority

end Pingsix
