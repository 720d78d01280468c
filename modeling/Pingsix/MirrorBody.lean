import Mathlib.Logic.Function.Basic
import Pingsix.Lib.BodyStream
import Pingsix.Lib.System

/-!
# Bodies of mirror requests

The proxy-mirror instances of one request, the one sender in its context that
they all look up, and the tasks that read the queues and write the mirror
requests.
-/

namespace Pingsix.ProxyMirror

open BodyStream (Chunk)

def mirrorQueueCapacity : Nat := 32

abbrev Bytes := List UInt8

inductive MirrorBody where
  | chunk (bytes : Bytes) (endOfStream : Bool)
  | finish
  deriving DecidableEq, Repr

namespace MirrorBody

def ends : MirrorBody → Bool
  | chunk _ endOfStream => endOfStream
  | finish => true

/-- What a message adds to the body of the mirror request. -/
def written : MirrorBody → List Bytes
  | chunk bytes _ => [bytes]
  | finish => []

end MirrorBody

/-! ## Mirror tasks -/

/-- Until it streams, a task resolves its target, connects and writes the header. -/
inductive TaskPhase where
  | starting
  | streaming
  | completed
  | failed
  deriving DecidableEq, Repr

def TaskPhase.terminal : TaskPhase → Bool
  | starting | streaming => false
  | completed | failed => true

/-- One mirror request; its flag is cleared by its sender or by its task at the end. -/
structure MirrorTask where
  queue : List MirrorBody := []
  gaveUp : Bool := false
  retired : Bool := false
  phase : TaskPhase := .starting
  written : List Bytes := []
  deriving DecidableEq, Repr

namespace MirrorTask

/-- A relaxed load may miss that the task has cleared the flag, and then the queue is closed. -/
def trySend (t : MirrorTask) (stale : Bool) (body : MirrorBody) : MirrorTask :=
  if t.gaveUp then t
  else if t.retired then if stale then { t with gaveUp := true } else t
  else if t.queue.length < mirrorQueueCapacity then { t with queue := t.queue ++ [body] }
  else { t with gaveUp := true }

def start (t : MirrorTask) (ok : Bool) : Option MirrorTask :=
  if t.phase = .starting then some { t with phase := if ok then .streaming else .failed } else none

/-- The next message, whose write may fail or time out. -/
def receive (t : MirrorTask) (ok : Bool) : Option MirrorTask :=
  match t.queue with
  | [] => none
  | body :: queue =>
    if t.phase = .streaming then
      some (if ok then { t with queue, written := t.written ++ body.written, phase := if body.ends then .completed else .streaming }
        else { t with queue, phase := .failed })
    else none

/-- Without a sender an empty queue ends the body without completion. -/
def hangUp (t : MirrorTask) : Option MirrorTask :=
  if t.phase = .streaming ∧ t.queue = [] then some { t with phase := .failed } else none

def cancel (t : MirrorTask) : Option MirrorTask :=
  if t.phase.terminal then none else some { t with phase := .failed }

def retire (t : MirrorTask) : Option MirrorTask :=
  if t.phase.terminal then some { t with retired := true } else none

end MirrorTask

/-! ## The request -/

/-- The context of the request and the mirror requests, each under the instance that opened it. -/
structure MirrorRequest where
  sampled : Bool := false
  /-- Whose mirror request the sender in the context leads to. -/
  sender : Option Nat := none
  mirrors : Nat → Option MirrorTask := fun _ => none
  bodyStarted : Bool := false
  /-- The instances whose body has ended. -/
  ended : Nat → Bool := fun _ => false

inductive MirrorEvent where
  /-- The request phase of an instance and its draw. -/
  | requestFilter (i : Nat) (sampled : Bool)
  /-- The upstream phase of an instance, and whether it gets a permit and its mirror request can be built. -/
  | upstreamRequestFilter (i : Nat) (granted : Bool)
  | requestBodyFilter (i : Nat) (body : Chunk UInt8) (endOfStream stale : Bool)
  /-- The context is dropped at the end of the request. -/
  | finished
  | started (i : Nat) (ok : Bool)
  | received (i : Nat) (ok : Bool)
  | hungUp (i : Nat)
  | cancelled (i : Nat)
  | retired (i : Nat)
  deriving DecidableEq, Repr

namespace MirrorRequest

def setMirror (s : MirrorRequest) (i : Nat) (t : MirrorTask) : MirrorRequest :=
  { s with mirrors := Function.update s.mirrors i (some t) }

/-- What an instance hands to the sender for a chunk. -/
def message (body : Chunk UInt8) (endOfStream : Bool) : Option MirrorBody :=
  match body with
  | some bytes => some (.chunk bytes endOfStream)
  | none => if endOfStream then some .finish else none

/-- Every instance looks up the one sender of the context. -/
def trySend (s : MirrorRequest) (stale : Bool) (body : MirrorBody) : MirrorRequest :=
  match s.sender with
  | none => s
  | some i =>
    match s.mirrors i with
    | none => s
    | some t => s.setMirror i (t.trySend stale body)

def task (s : MirrorRequest) (i : Nat) (f : MirrorTask → Option MirrorTask) : Option MirrorRequest :=
  (s.mirrors i).bind fun t => (f t).map (s.setMirror i)

/-- One event; the phases of a request come in their order, and no body goes on after its end. -/
def step (s : MirrorRequest) : MirrorEvent → Option MirrorRequest
  | .requestFilter _ sampled => if s.bodyStarted then none else some { s with sampled }
  | .upstreamRequestFilter i granted =>
    if s.bodyStarted ∨ (s.mirrors i).isSome then none
    else if s.sampled ∧ granted then some { s.setMirror i {} with sender := some i }
    else some s
  | .requestBodyFilter i body endOfStream stale =>
    if s.ended i then none
    else
      let s := { s with bodyStarted := true, ended := Function.update s.ended i endOfStream }
      match message body endOfStream with
      | none => some s
      | some body => some (s.trySend stale body)
  | .finished => some { s with sender := none }
  | .started i ok => s.task i (·.start ok)
  | .received i ok => s.task i (·.receive ok)
  | .hungUp i => if s.sender = some i then none else s.task i (·.hangUp)
  | .cancelled i => s.task i (·.cancel)
  | .retired i => s.task i (·.retire)

def Step (s : MirrorRequest) (e : MirrorEvent) (s' : MirrorRequest) : Prop := s.step e = some s'

def Init (s : MirrorRequest) : Prop := s = {}

end MirrorRequest

end Pingsix.ProxyMirror
