import Pingsix.Lib.BufferedWriter
import Pingsix.Lib.MachineInt
import Pingsix.Lib.System

/-!
# The log writer

The `Logger` service: the bounded channel it takes its lines from, the batch
loop over a buffered file, the rotation between two messages, the fallback to
stderr after a failure, and the drain at shutdown. How each operation on the
file ends is an input of its step.
-/

namespace Pingsix.Logging

inductive LogRotation where
  | internal
  | external
  | disabled
  deriving DecidableEq, Repr

structure Log where
  maxSizeBytes : Nat := 100 * 1024 * 1024
  rotation : LogRotation := .internal
  channelCapacity : Nat := 4096
  deriving DecidableEq, Repr

def Log.shouldRotate (config : Log) (writtenBytes : Nat) : Bool :=
  config.rotation = .internal ∧ config.maxSizeBytes ≤ writtenBytes

/-- A message as the logging front end hands it over, which never writes an empty one. -/
abbrev LogLine := { bytes : List UInt8 // bytes ≠ [] }

def LogLine.piece (line : LogLine) : Unflushed LogLine :=
  { item := line, bytes := line.val.length, pos := List.length_pos_of_ne_nil line.property }

/-- Where the service is: in its `select`, in a batch or a spill to stderr with so many lines left to take, at a step of
a rotation, or past its loop. -/
inductive Stage where
  | selecting
  | batch (left : Nat)
  | rotating
  | renaming
  | reopening
  | spilling (left : Nat)
  | draining
  | finishing
  | done
  deriving DecidableEq, Repr

/-- The receiver is closed once the loop has ended. -/
def Stage.closed : Stage → Bool
  | draining | finishing | done => true
  | _ => false

structure Logger where
  queue : List LogLine := []
  stage : Stage := .selecting
  writer : Option (WriteBuffer LogLine)
  writtenBytes : Nat := 0
  stopped : Bool := false
  /-- Lines that were written to the end to a log file, whatever retention does with the file later. -/
  files : List LogLine := []
  stderr : List LogLine := []
  /-- What producers wrote to stderr themselves, as the channel did not accept it. -/
  bypassed : List LogLine := []
  received : List LogLine := []
  dropped : List LogLine := []
  /-- The counter of lines dropped at the shutdown deadline. -/
  logDropped : Nat := 0
  /-- Lines that were in the buffer of a writer when it was dropped. -/
  discarded : List LogLine := []

/-- The service holds a sender of its channel, so that its producers never close it. -/
inductive Event where
  | write (line : LogLine)
  | shutdown
  | tick (failure : Option Nat)
  | recv (outcome : WriteOutcome)
  | rotateFlush (failure : Option Nat)
  | rename (ok : Bool)
  | reopen (ok : Bool)
  | take (outcome : WriteOutcome)
  | spill
  /-- The end of a batch, of a spill or of the drain. -/
  | leave
  | drain (outcome : WriteOutcome)
  | drainLate
  | finish (failure : Option Nat)

def bufferCapacity : Nat := 4096

def batchSize : Nat := 256

namespace Logger

def pending (s : Logger) : List LogLine := s.writer.elim [] WriteBuffer.items

def put (s : Logger) (w : Written LogLine) : Logger := { s with files := s.files ++ w.out, writer := some w.buffer }

def eprint (s : Logger) (line : LogLine) : Logger := { s with stderr := s.stderr ++ [line] }

def count (s : Logger) (line : LogLine) : Logger :=
  { s with writtenBytes := saturatingAdd s.writtenBytes line.val.length }

/-- A line is taken from the channel. -/
def pop (s : Logger) (data : LogLine) (queue : List LogLine) : Logger :=
  { s with queue, received := s.received ++ [data] }

/-- A writer is dropped without a flush. -/
def dropWriter (s : Logger) : Logger := { s with writer := none, discarded := s.discarded ++ s.pending }

def giveUp (s : Logger) : Logger := { s.dropWriter with stopped := true }

def goto (s : Logger) (stage : Stage) : Logger := { s with stage }

/-- `AsyncWriter::write`. -/
def asyncWrite (config : Log) (s : Logger) (line : LogLine) : Logger :=
  if s.stage.closed = false ∧ s.queue.length < config.channelCapacity then { s with queue := s.queue ++ [line] }
  else if s.stopped then { s with bypassed := s.bypassed ++ [line] }
  else s

/-- A line is written to the file or, when that fails, to stderr, and the file is given up. -/
def writeLine (s : Logger) (buffer : WriteBuffer LogLine) (data : LogLine) (outcome : WriteOutcome) (next : Logger → Stage) :
    Option Logger :=
  (buffer.writeAll bufferCapacity data.piece outcome).map fun w =>
    if w.failed then (((s.put w).eprint data).giveUp).goto (.spilling batchSize)
    else
      let s := (s.put w).count data
      s.goto (next s)

def step (config : Log) (s : Logger) : Event → Option Logger
  | .write line => some (s.asyncWrite config line)
  | .shutdown => if s.stage = .selecting then some { s with stage := .draining, stopped := true } else none
  | .tick failure =>
    match s.stage, s.writer with
    | .selecting, some buffer =>
      let w := buffer.flush failure
      some (if w.failed then (s.put w).giveUp else s.put w)
    | .selecting, none => some s
    | _, _ => none
  | .recv outcome =>
    match s.stage, s.queue with
    | .selecting, data :: queue =>
      let s := s.pop data queue
      match s.writer with
      | some buffer =>
        s.writeLine buffer data outcome fun s =>
          if config.shouldRotate s.writtenBytes then .rotating else .batch batchSize
      | none => some ((s.eprint data).goto (.spilling batchSize))
    | _, _ => none
  | .rotateFlush failure =>
    match s.stage, s.writer with
    | .rotating, some buffer =>
      let w := buffer.flush failure
      some (if w.failed then (s.put w).giveUp.goto .selecting else (s.put w).dropWriter.goto .renaming)
    | _, _ => none
  | .rename ok =>
    if s.stage = .renaming then
      some (if ok then s.goto .reopening else { s with stopped := true, stage := .spilling batchSize })
    else none
  | .reopen ok =>
    if s.stage = .reopening then
      some
        (if ok then { s.dropWriter with writer := some [], writtenBytes := 0, stage := .batch batchSize }
        else { s with stopped := true, stage := .spilling batchSize })
    else none
  | .take outcome =>
    match s.stage, s.queue, s.writer with
    | .batch (left + 1), data :: queue, some buffer =>
      let s := s.pop data queue
      s.writeLine buffer data outcome fun _ => .batch left
    | _, _, _ => none
  | .spill =>
    match s.stage, s.queue with
    | .spilling (left + 1), data :: queue =>
      let s := s.pop data queue
      some ((s.eprint data).goto (.spilling left))
    | _, _ => none
  | .leave =>
    match s.stage with
    | .batch left | .spilling left => if left = 0 ∨ s.queue = [] then some (s.goto .selecting) else none
    | .draining => if s.queue = [] then some (s.goto .finishing) else none
    | _ => none
  | .drain outcome =>
    match s.stage, s.queue with
    | .draining, data :: queue =>
      let s := s.pop data queue
      match s.writer with
      | some buffer =>
        (buffer.writeAll bufferCapacity data.piece outcome).map fun w =>
          if w.failed then ((s.put w).eprint data).dropWriter else s.put w
      | none => some (s.eprint data)
    | _, _ => none
  | .drainLate =>
    match s.stage, s.queue with
    | .draining, data :: queue =>
      some
        { s with
          queue := []
          received := s.received ++ data :: queue
          dropped := s.dropped ++ data :: queue
          logDropped := s.logDropped + (queue.length + 1)
          stage := .finishing }
    | _, _ => none
  | .finish failure =>
    if s.stage = .finishing then
      let s := s.writer.elim s fun buffer => s.put (buffer.flush failure)
      some (s.dropWriter.goto .done)
    else none

/-- The file was opened, with so many bytes in it, or it was not. -/
def start : Option Nat → Logger
  | some length => { writer := some [], writtenBytes := length }
  | none => { writer := none, stopped := true }

def Init (s : Logger) : Prop := ∃ opened, s = start opened

def Step (config : Log) (s : Logger) (e : Event) (s' : Logger) : Prop := s.step config e = some s'

end Logger

end Pingsix.Logging
