import Pingsix.Lib.Broadcast
import Pingsix.Lib.Map

/-!
# Health checks

The registry of background checks, with a generation for every registration, and
the executor that keeps one task for each of them. The executor learns of changes
from a broadcast channel and starts over from the registry when it missed some.
-/

namespace Pingsix

/-! ## The registry -/

structure HealthCheckRegistration where
  generation : Nat
  deriving DecidableEq, Repr

inductive RegistryUpdate where
  | added (id : String) (registration : HealthCheckRegistration)
  | removed (id : String) (registration : HealthCheckRegistration)
  deriving DecidableEq, Repr

/-- Its shutdown channel is the one of its generation. -/
structure RegisteredUpstream (σ : Type) where
  generation : Nat
  loadBalancer : σ
  deriving DecidableEq, Repr

/-- An entry displaced by a replacement, held by whoever registered it. -/
structure DisplacedHealthCheck (σ : Type) where
  id : String
  registration : HealthCheckRegistration
  registered : RegisteredUpstream σ

/-- With the generations whose shutdown channel has been sent the stop signal. -/
structure HealthCheckRegistry (σ : Type) where
  upstreams : HashMap String (RegisteredUpstream σ) := ∅
  updateNotifier : Broadcast RegistryUpdate := .channel 1000
  nextGeneration : Nat := 1
  signalled : List Nat := []

namespace HealthCheckRegistry

variable {σ : Type}

def notify (r : HealthCheckRegistry σ) (update : RegistryUpdate) : HealthCheckRegistry σ :=
  { r with updateNotifier := r.updateNotifier.send update }

def signal (r : HealthCheckRegistry σ) (generation : Nat) : HealthCheckRegistry σ :=
  { r with signalled := generation :: r.signalled }

/-- A replaced entry is not stopped but returned. -/
def registerUpstream (r : HealthCheckRegistry σ) (id : String) (loadBalancer : σ) :
    HealthCheckRegistry σ × HealthCheckRegistration × Option (DisplacedHealthCheck σ) :=
  let registration : HealthCheckRegistration := ⟨r.nextGeneration⟩
  let displaced := (r.upstreams.lookup id).map fun old =>
    { id, registration := ⟨old.generation⟩, registered := old : DisplacedHealthCheck σ }
  let inserted : HealthCheckRegistry σ :=
    { r with upstreams := r.upstreams.insert id ⟨r.nextGeneration, loadBalancer⟩
             nextGeneration := r.nextGeneration + 1 }
  (inserted.notify (.added id registration), registration, displaced)

/-- Only the registration that is current is removed. -/
def unregisterUpstream (r : HealthCheckRegistry σ) (id : String) (registration : HealthCheckRegistration) :
    HealthCheckRegistry σ × Bool :=
  match r.upstreams.lookup id with
  | some current =>
    if current.generation = registration.generation then
      let removed := { r with upstreams := r.upstreams.erase id }
      ((removed.signal registration.generation).notify (.removed id registration), true)
    else (r, false)
  | none => (r, false)

def requestShutdownAll (r : HealthCheckRegistry σ) : HealthCheckRegistry σ :=
  { r with signalled := r.upstreams.values.map (·.generation) ++ r.signalled }

/-- The service to start, when the registration is current. -/
def getUpstreamForStart (r : HealthCheckRegistry σ) (id : String) (registration : HealthCheckRegistration) :
    Option σ :=
  match r.upstreams.lookup id with
  | some registered =>
    if registered.generation = registration.generation then some registered.loadBalancer else none
  | none => none

def getAllUpstreams (r : HealthCheckRegistry σ) : List (String × HealthCheckRegistration) :=
  r.upstreams.entries.map fun e => (e.1, ⟨e.2.generation⟩)

end HealthCheckRegistry

namespace DisplacedHealthCheck

variable {σ : Type}

/-- Stop the displaced task after the replacement has been committed. -/
def discard (d : DisplacedHealthCheck σ) (r : HealthCheckRegistry σ) : HealthCheckRegistry σ :=
  (r.signal d.registered.generation).notify (.removed d.id d.registration)

/-- Put the previous entry back; the new one must already have been removed by the caller. -/
def restore (d : DisplacedHealthCheck σ) (r : HealthCheckRegistry σ) : HealthCheckRegistry σ :=
  { r with upstreams := r.upstreams.insert d.id d.registered }.notify (.added d.id d.registration)

end DisplacedHealthCheck

/-! ## The executor -/

/-- The id and generation a task is for. -/
abbrev TaskKey := String × Nat

/-- What is left of the current turn of the loop. Each piece reads the registry at most once, so that other calls can
come between any two of them. -/
inductive ExecutorWork where
  | startRegistered
  | startTask (key : TaskKey)
  | stopTask (key : TaskKey)
  | resyncTasks
  | restartFinishedTasks
  | restart (key : TaskKey)
  deriving DecidableEq, Repr

inductive ExecutorPhase where
  | idle
  | running
  | stopped
  deriving DecidableEq, Repr

/-- The tasks ever spawned, whose position is their handle, and which of them have ended. -/
structure HealthCheckExecutor where
  phase : ExecutorPhase := .idle
  spawned : List TaskKey := []
  finished : List Nat := []
  runningTasks : HashMap TaskKey Nat := ∅
  work : List ExecutorWork := []

namespace HealthCheckExecutor

variable {σ : Type}

/-- A task that is there already is left alone, one that is not registered is not started. -/
def startTask (registry : HealthCheckRegistry σ) (e : HealthCheckExecutor) (key : TaskKey) : HealthCheckExecutor :=
  match e.runningTasks.lookup key with
  | some _ => e
  | none =>
    match registry.getUpstreamForStart key.1 ⟨key.2⟩ with
    | none => e
    | some _ =>
      { e with spawned := e.spawned ++ [key], runningTasks := e.runningTasks.insert key e.spawned.length }

/-- Returns when the task has ended, by itself or aborted. -/
def stopTask (e : HealthCheckExecutor) (key : TaskKey) : HealthCheckExecutor :=
  match e.runningTasks.lookup key with
  | none => e
  | some handle => { e with runningTasks := e.runningTasks.erase key, finished := handle :: e.finished }

def stopAllTasks (e : HealthCheckExecutor) : HealthCheckExecutor :=
  { e with finished := e.runningTasks.values ++ e.finished, runningTasks := ∅ }

def registeredKeys (registry : HealthCheckRegistry σ) : List TaskKey :=
  registry.getAllUpstreams.map fun x => (x.1, x.2.generation)

/-- The tasks whose registration is not current. -/
def staleKeys (registry : HealthCheckRegistry σ) (e : HealthCheckExecutor) : List TaskKey :=
  e.runningTasks.keys.filter fun key => key ∉ registeredKeys registry

def finishedKeys (e : HealthCheckExecutor) : List TaskKey :=
  (e.runningTasks.entries.filter fun t => t.2 ∈ e.finished).map (·.1)

/-- One piece of work. -/
def perform (registry : HealthCheckRegistry σ) (e : HealthCheckExecutor) : ExecutorWork → HealthCheckExecutor
  | .startRegistered => { e with work := (registeredKeys registry).map .startTask ++ e.work }
  | .startTask key => e.startTask registry key
  | .stopTask key => e.stopTask key
  | .resyncTasks => { e with work := (e.staleKeys registry).map .stopTask ++ .startRegistered :: e.work }
  | .restartFinishedTasks => { e with work := e.finishedKeys.map .restart ++ e.work }
  | .restart key =>
    let dropped := { e with runningTasks := e.runningTasks.erase key }
    match registry.getUpstreamForStart key.1 ⟨key.2⟩ with
    | some _ => { dropped with work := .startTask key :: e.work }
    | none => dropped

/-- The work a received update asks for. -/
def workOf : Received RegistryUpdate → List ExecutorWork
  | .lagged _ => [.resyncTasks, .restartFinishedTasks]
  | .value (.added id registration) => [.startTask (id, registration.generation), .restartFinishedTasks]
  | .value (.removed id registration) => [.stopTask (id, registration.generation), .restartFinishedTasks]

end HealthCheckExecutor

/-! ## Callers, executor and tasks together -/

/-- The shared service, and the displaced entries its callers still hold. -/
structure HealthCheckState (σ : Type) where
  registry : HealthCheckRegistry σ := {}
  displaced : List (DisplacedHealthCheck σ) := []
  executor : HealthCheckExecutor := {}

/-- A call on the registry, a move of the executor, the end of a task, or the shutdown of the process. -/
inductive HealthCheckAction (σ : Type) where
  | register (id : String) (loadBalancer : σ)
  | unregister (id : String) (registration : HealthCheckRegistration)
  | discard (index : Nat)
  | restore (index : Nat)
  | start
  | receive
  | tick
  | work
  | finish (handle : Nat)
  | shutdown

namespace HealthCheckState

variable {σ : Type}

/-- The executor waits for its next event. -/
def Waiting (s : HealthCheckState σ) : Prop := s.executor.phase = .running ∧ s.executor.work = []

instance (s : HealthCheckState σ) : Decidable s.Waiting :=
  inferInstanceAs (Decidable (s.executor.phase = .running ∧ s.executor.work = []))

/-- The executor subscribes first and enumerates the registry afterwards. -/
def start (s : HealthCheckState σ) : HealthCheckState σ :=
  { s with
    registry := { s.registry with updateNotifier := s.registry.updateNotifier.subscribe }
    executor := { s.executor with phase := .running, work := [.startRegistered] } }

def receive (s : HealthCheckState σ) : Option (HealthCheckState σ) :=
  s.registry.updateNotifier.recv.map fun x =>
    { s with
      registry := { s.registry with updateNotifier := x.2 }
      executor := { s.executor with work := HealthCheckExecutor.workOf x.1 } }

/-- Every registered task is signalled and every task awaited. -/
def shutdown (s : HealthCheckState σ) : HealthCheckState σ :=
  { s with
    registry := { s.registry.requestShutdownAll with updateNotifier := s.registry.updateNotifier.close }
    executor := { s.executor.stopAllTasks with phase := .stopped } }

/-- The loop prefers the shutdown over updates and these over its ticks. -/
def step (s : HealthCheckState σ) : HealthCheckAction σ → Option (HealthCheckState σ)
  | .register id loadBalancer =>
    let (registry, _, displaced) := s.registry.registerUpstream id loadBalancer
    some { s with registry, displaced := displaced.toList ++ s.displaced }
  | .unregister id registration => some { s with registry := (s.registry.unregisterUpstream id registration).1 }
  | .discard index =>
    s.displaced[index]?.map fun d =>
      { s with registry := d.discard s.registry, displaced := s.displaced.eraseIdx index }
  | .restore index =>
    s.displaced[index]?.map fun d =>
      { s with registry := d.restore s.registry, displaced := s.displaced.eraseIdx index }
  | .start => if s.executor.phase = .idle then some s.start else none
  | .receive => if s.Waiting then s.receive else none
  | .tick =>
    if s.Waiting ∧ s.receive.isNone then
      some { s with executor := { s.executor with work := [.restartFinishedTasks] } }
    else none
  | .work =>
    match s.executor.work with
    | [] => none
    | w :: rest => some { s with executor := { s.executor with work := rest }.perform s.registry w }
  | .finish handle =>
    if handle < s.executor.spawned.length then
      some { s with executor := { s.executor with finished := handle :: s.executor.finished } }
    else none
  | .shutdown => if s.Waiting then some s.shutdown else none

def Step (s : HealthCheckState σ) (a : HealthCheckAction σ) (s' : HealthCheckState σ) : Prop := s.step a = some s'

def Init (s : HealthCheckState σ) : Prop := s = {}

end HealthCheckState

end Pingsix
