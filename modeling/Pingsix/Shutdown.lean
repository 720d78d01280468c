import Pingsix.Authority

/-!
# Shutdown of the authority

`shutdown` beside `submit` and the worker, with `ensure_worker_started` cut
into the critical sections it is made of. A worker task and the channel it
receives from carry one number, so that a second worker can run beside the
first; each task steps as the worker of `Pingsix.Authority` does.
-/

namespace Pingsix

/-- The next critical section of `ensure_worker_started`. -/
inductive EnsurePc where
  | checkLifecycle
  | checkSender
  | storeSender
  | spawn (task : Nat)
  | storeTask (task : Nat)
  deriving DecidableEq, Repr

/-- The next critical section of `shutdown`; a second call finds the lifecycle stopped and returns at once. -/
inductive ShutdownPc where
  | idle
  | cancelling
  | closing
  | takingTask
  | joining (task : Nat)
  | aborting (task : Nat)
  | returned
  deriving DecidableEq, Repr

inductive ShutdownLabel where
  | internal
  | authority (label : Label)
  | storeSender
  | spawn (task : Nat)
  | accept
  | refuse
  | takeTask
  deriving DecidableEq

/-- The authority with its worker tasks; `worker`, `signal` and `workerTx` of the shared state are not used. -/
structure Inner (Logical : Type) where
  shared : Authority Logical := {}
  ensure : EnsurePc := .checkLifecycle
  workerTx : Option Nat := none
  workerTask : Option Nat := none
  tasks : Nat → Worker Logical := fun _ => .absent
  queued : Nat → Bool := fun _ => false
  spawned : Nat := 0
  shutdown : ShutdownPc := .idle

/-- The task waits for something, so that an abort can end it there. -/
def Worker.atAwait {Logical : Type} : Worker Logical → Bool
  | .receiving | .taking _ _ | .attempting .preparing _ _ _ | .attempting .compiling _ _ _ | .backoff _ _ |
    .parked _ => true
  | _ => false

/-- The task owns the preparation lock. -/
def Worker.isAttempting {Logical : Type} : Worker Logical → Bool
  | .attempting _ _ _ _ => true
  | _ => false

namespace Inner

variable {Logical : Type}

def writeLockFree (s : Inner Logical) : Prop :=
  s.shared.writer = none ∧ ∀ i, (s.tasks i).holdsWriteLock = false

/-- The authority as task `i` sees it. -/
def asTask (s : Inner Logical) (i : Nat) : Authority Logical :=
  { s.shared with worker := s.tasks i, signal := s.queued i, workerTx := s.workerTx = some i }

/-- What a step of task `i` leaves. -/
def fromTask (s : Inner Logical) (i : Nat) (a : Authority Logical) : Inner Logical :=
  { s with
    shared := { a with worker := s.shared.worker, signal := s.shared.signal, workerTx := s.shared.workerTx }
    tasks := Function.update s.tasks i a.worker
    queued := Function.update s.queued i a.signal }

/-- The `submit` in progress goes on to its next section. -/
def proceed (s : Inner Logical) (sub : Submission Logical) : Inner Logical :=
  { s with shared := { s.shared with writer := some ⟨.bump, sub⟩ }, ensure := .checkLifecycle }

/-- The `submit` in progress returns. -/
def finish (s : Inner Logical) : Inner Logical :=
  { s with shared := { s.shared with writer := none }, ensure := .checkLifecycle }

inductive Step : Inner Logical → ShutdownLabel → Inner Logical → Prop
  | enter {s : Inner Logical} (sub : Submission Logical) (hl : s.writeLockFree) :
      Step s .internal { s with shared := s.shared.startSubmit sub, ensure := .checkLifecycle }
  | stopped {s : Inner Logical} {sub : Submission Logical} (hw : s.shared.writer = some ⟨.ensureWorkerStarted, sub⟩)
      (he : s.ensure = .checkLifecycle) (hl : s.shared.lifecycle ≠ .running) : Step s .refuse s.finish
  | running {s : Inner Logical} {sub : Submission Logical} (hw : s.shared.writer = some ⟨.ensureWorkerStarted, sub⟩)
      (he : s.ensure = .checkLifecycle) (hl : s.shared.lifecycle = .running) :
      Step s .internal { s with ensure := .checkSender }
  | started {s : Inner Logical} {sub : Submission Logical} {i : Nat}
      (hw : s.shared.writer = some ⟨.ensureWorkerStarted, sub⟩) (he : s.ensure = .checkSender)
      (ht : s.workerTx = some i) : Step s .internal (s.proceed sub)
  | unstarted {s : Inner Logical} {sub : Submission Logical}
      (hw : s.shared.writer = some ⟨.ensureWorkerStarted, sub⟩) (he : s.ensure = .checkSender)
      (ht : s.workerTx = none) : Step s .internal { s with ensure := .storeSender }
  | storeSender {s : Inner Logical} {sub : Submission Logical}
      (hw : s.shared.writer = some ⟨.ensureWorkerStarted, sub⟩) (he : s.ensure = .storeSender) :
      Step s .storeSender
        { s with
          workerTx := some s.spawned
          queued := Function.update s.queued s.spawned false
          spawned := s.spawned + 1
          ensure := .spawn s.spawned }
  | spawn {s : Inner Logical} {sub : Submission Logical} {i : Nat}
      (hw : s.shared.writer = some ⟨.ensureWorkerStarted, sub⟩) (he : s.ensure = .spawn i) :
      Step s (.spawn i) { s with tasks := Function.update s.tasks i .receiving, ensure := .storeTask i }
  | storeTask {s : Inner Logical} {sub : Submission Logical} {i : Nat}
      (hw : s.shared.writer = some ⟨.ensureWorkerStarted, sub⟩) (he : s.ensure = .storeTask i) :
      Step s .internal ({ s with workerTask := some i }.proceed sub)
  /-- The sections of `submit` between the start of the worker and the signal. -/
  | submit {s : Inner Logical} {l : Label} {a : Authority Logical} {w : Writer Logical}
      (hw : s.shared.writer = some w) (hp : w.pc ≠ .ensureWorkerStarted ∧ w.pc ≠ .signal)
      (h : Authority.SubmitStep s.shared l a) : Step s (.authority l) { s with shared := a }
  | signal {s : Inner Logical} {sub : Submission Logical} {i : Nat} (hw : s.shared.writer = some ⟨.signal, sub⟩)
      (ht : s.workerTx = some i) (hi : s.tasks i ≠ .absent) :
      Step s .accept { s.finish with queued := Function.update s.queued i true }
  /-- There is no sender any more, or its task has ended. -/
  | unsignalled {s : Inner Logical} {sub : Submission Logical} (hw : s.shared.writer = some ⟨.signal, sub⟩)
      (ht : ∀ i, s.workerTx = some i → s.tasks i = .absent) : Step s .refuse s.finish
  /-- A task takes the target once no other owns the preparation lock. -/
  | task {s : Inner Logical} {l : Label} {a : Authority Logical} (i : Nat)
      (h : Authority.WorkerStep (s.asTask i) l a)
      (hx : ∀ d att, s.tasks i = .taking d att → ∀ j, (s.tasks j).isAttempting = false) :
      Step s (.authority l) (s.fromTask i a)
  /-- Nothing is queued and the sender is gone: the task ends. -/
  | closed {s : Inner Logical} (i : Nat) (hw : s.tasks i = .receiving) (hq : s.queued i = false)
      (ht : s.workerTx ≠ some i) : Step s .internal { s with tasks := Function.update s.tasks i .absent }
  | recordPending {s : Inner Logical} (revision : Int) :
      Step s (.authority (.recordPending revision))
        { s with shared := { s.shared with publications := s.shared.publications.pending revision } }
  | status {s : Inner Logical} (status : StatusStore) :
      Step s .internal { s with shared := { s.shared with status } }
  | stop {s : Inner Logical} (hs : s.shutdown = .idle) (hl : s.shared.lifecycle = .running) :
      Step s .internal { s with shared := { s.shared with lifecycle := .stopped }, shutdown := .cancelling }
  | cancel {s : Inner Logical} (hs : s.shutdown = .cancelling) :
      Step s .internal
        { s with
          shared :=
            { s.shared with
              activeCancellation := none
              cancelled := s.shared.activeCancellation.toList ++ s.shared.cancelled }
          shutdown := .closing }
  | close {s : Inner Logical} (hs : s.shutdown = .closing) :
      Step s .internal { s with workerTx := none, shutdown := .takingTask }
  | takeTask {s : Inner Logical} {i : Nat} (hs : s.shutdown = .takingTask) (ht : s.workerTask = some i) :
      Step s .takeTask { s with workerTask := none, shutdown := .joining i }
  | takeNone {s : Inner Logical} (hs : s.shutdown = .takingTask) (ht : s.workerTask = none) :
      Step s .takeTask { s with shutdown := .returned }
  | joined {s : Inner Logical} {i : Nat} (hs : s.shutdown = .joining i) (ht : s.tasks i = .absent) :
      Step s .internal { s with shutdown := .returned }
  /-- The task misses the deadline and is aborted; the abort takes effect where the task waits. -/
  | abort {s : Inner Logical} {i : Nat} (hs : s.shutdown = .joining i) :
      Step s .internal { s with shutdown := .aborting i }
  | aborted {s : Inner Logical} {i : Nat} (hs : s.shutdown = .aborting i) (ht : (s.tasks i).atAwait = true) :
      Step s .internal { s with tasks := Function.update s.tasks i .absent }
  | abortJoined {s : Inner Logical} {i : Nat} (hs : s.shutdown = .aborting i) (ht : s.tasks i = .absent) :
      Step s .internal { s with shutdown := .returned }

/-- The state `with_state` creates. -/
def Initial (s : Inner Logical) : Prop := s = {}

end Inner

end Pingsix
