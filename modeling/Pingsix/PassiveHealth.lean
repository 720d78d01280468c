import Pingsix.Lib.System
import Pingsix.Resources
import Pingsix.Selection

/-!
# Passive health checks

What real traffic tells about a backend: counters that trip it and restore it,
the lease of the one probe a tripped backend is given at a time, and the passes
of a selection that consult them. Instants are in nanoseconds.
-/

namespace Pingsix

inductive PassiveOutcome where
  | http (status : Nat)
  | tcpFailure
  | timeout
  deriving DecidableEq, Repr

def probeLeaseNanos : Nat := 30000000000

/-! ## Counters -/

structure PassiveCounters where
  httpFailures : Nat := 0
  tcpFailures : Nat := 0
  timeouts : Nat := 0
  successes : Nat := 0
  tripped : Bool := false
  /-- When the probe in flight is given up. -/
  probeLease : Option Nat := none
  deriving DecidableEq, Repr

namespace PassiveCounters

/-- Whether a counter has come to a threshold that is not disabled. -/
def reached (threshold count : Nat) : Bool := 0 < threshold && threshold ≤ count

def observeHttp (config : PassiveCheck) (node : PassiveCounters) (status : Nat) : PassiveCounters :=
  if config.unhealthy.httpStatuses.contains status then
    let httpFailures := node.httpFailures + 1
    { node with
      httpFailures
      tcpFailures := 0
      timeouts := 0
      successes := 0
      tripped := node.tripped || reached config.unhealthy.httpFailures httpFailures }
  else if config.healthy.httpStatuses.contains status then
    let node := { node with httpFailures := 0, tcpFailures := 0, timeouts := 0 }
    if node.tripped then
      let successes := node.successes + 1
      if reached config.healthy.successes successes then { node with tripped := false, successes := 0 }
      else { node with successes }
    else node
  else node

/-- Every outcome ends the probe in flight. -/
def observe (config : PassiveCheck) (node : PassiveCounters) (outcome : PassiveOutcome) : PassiveCounters :=
  let node :=
    match outcome with
    | .tcpFailure =>
      let tcpFailures := node.tcpFailures + 1
      { node with
        tcpFailures
        httpFailures := 0
        timeouts := 0
        successes := 0
        tripped := node.tripped || reached config.unhealthy.tcpFailures tcpFailures }
    | .timeout =>
      let timeouts := node.timeouts + 1
      { node with
        timeouts
        httpFailures := 0
        tcpFailures := 0
        successes := 0
        tripped := node.tripped || reached config.unhealthy.timeouts timeouts }
    | .http status => node.observeHttp config status
  { node with probeLease := none }

/-- A tripped backend gets a probe when none is in flight. -/
def takeProbe (node : PassiveCounters) (now : Nat) : Bool × PassiveCounters :=
  let leaseFree := node.probeLease.all (· ≤ now)
  if node.tripped && leaseFree then (true, { node with probeLease := some (now + probeLeaseNanos) })
  else (false, node)

end PassiveCounters

/-! ## The state of an upstream -/

structure PassiveHealthState where
  config : PassiveCheck
  counters : HashMap BackendId PassiveCounters := ∅

namespace PassiveHealthState

def observe (st : PassiveHealthState) (backend : BackendId) (outcome : PassiveOutcome) : PassiveHealthState :=
  let node := (st.counters.lookup backend).getD {}
  { st with counters := st.counters.insert backend (node.observe st.config outcome) }

def hasTripped (st : PassiveHealthState) : Bool := st.counters.values.any (·.tripped)

def takeProbe (st : PassiveHealthState) (backend : BackendId) (now : Nat) : Bool × PassiveHealthState :=
  match st.counters.lookup backend with
  | none => (false, st)
  | some node =>
    let (granted, node) := node.takeProbe now
    (granted, { st with counters := st.counters.insert backend node })

def tripped (st : PassiveHealthState) (backend : BackendId) : Bool :=
  (st.counters.lookup backend).any (·.tripped)

end PassiveHealthState

/-! ## Selection -/

/-- The first of the offered backends that the predicate accepts, which may change the state at every one it sees. -/
def selectWith {σ : Type} (accept : σ → Backend → Bool × σ) : σ → List Backend → Option Backend × σ
  | st, [] => (none, st)
  | st, backend :: offered =>
    match accept st backend with
    | (true, st) => (some backend, st)
    | (false, st) => selectWith accept st offered

/-- What the iterators of the passes of one selection offer within the draw limit. -/
structure Offers where
  regular : List Backend
  probes : List Backend
  ready : List Backend
  any : List Backend

/-- The first ready backend, or else the first one. -/
def selectBackend (ready : Backend → Bool) (offers : Offers) : Option Backend :=
  (offers.ready.find? ready).orElse fun _ => offers.any.head?

/-- A ready backend that is not tripped, or else a probe of a tripped one, or else what the balancer selects. -/
def selectWithPassive (ready : Backend → Bool) (offers : Offers) (now : Nat) (passive : Option PassiveHealthState) :
    Option Backend × Option PassiveHealthState :=
  let regular := fun backend : Backend => passive.all fun st => !st.tripped backend.id
  match offers.regular.find? fun backend => ready backend && regular backend with
  | some backend => (some backend, passive)
  | none =>
    match passive with
    | none => (selectBackend ready offers, none)
    | some st =>
      if st.hasTripped then
        match selectWith (fun st backend => if ready backend then st.takeProbe backend.id now else (false, st)) st
          offers.probes with
        | (some backend, st) => (some backend, some st)
        | (none, st) => (selectBackend ready offers, some st)
      else (selectBackend ready offers, some st)

/-! ## Runs -/

/-- What happens to the state: an outcome is observed for a backend, or a probe of it is asked for. -/
inductive PassiveEvent where
  | outcome (backend : BackendId) (outcome : PassiveOutcome)
  | probe (backend : BackendId) (now : Nat) (granted : Bool)
  deriving DecidableEq, Repr

inductive PassiveStep : PassiveHealthState → PassiveEvent → PassiveHealthState → Prop
  | outcome {st : PassiveHealthState} (backend : BackendId) (outcome : PassiveOutcome) :
      PassiveStep st (.outcome backend outcome) (st.observe backend outcome)
  | probe {st : PassiveHealthState} (backend : BackendId) (now : Nat) :
      PassiveStep st (.probe backend now (st.takeProbe backend now).1) (st.takeProbe backend now).2

def PassiveInitial (config : PassiveCheck) (st : PassiveHealthState) : Prop := st = { config }

end Pingsix
