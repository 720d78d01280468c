import Pingsix.Lib.MachineInt
import Pingsix.PassiveHealth

/-!
# Retries

What a failed attempt at an upstream does to its passive health and to the
retries of the request. A product or a sum that does not fit its type is an
error in a build with checks and wraps in one without them.
-/

namespace Pingsix

def usizeBits : Nat := 64

/-! ## Errors of attempts -/

/-- The error types that the callbacks tell apart. -/
inductive ErrorType where
  | connectTimedout
  | tlsHandshakeTimedout
  | connectRefused
  | connectNoRoute
  | connectError
  | tlsHandshakeFailure
  | handshakeError
  | readTimedout
  | writeTimedout
  | readError
  | writeError
  | connectionClosed
  | other
  deriving DecidableEq, Repr

inductive ErrorSource where
  | upstream
  | downstream
  | internal
  | unset
  deriving DecidableEq, Repr

/-- Whether an attempt may be made again; an undecided flag leaves it to whether the connection was reused. -/
inductive RetryType where
  | decided (retry : Bool)
  | reusedOnly
  deriving DecidableEq, Repr

def RetryType.granted : RetryType → Bool
  | .decided retry => retry
  | .reusedOnly => false

structure AttemptError where
  etype : ErrorType
  esource : ErrorSource
  retry : RetryType
  deriving DecidableEq, Repr

namespace ErrorType

/-- What a failure to connect tells about a backend. -/
def connectOutcome : ErrorType → Option PassiveOutcome
  | connectTimedout | tlsHandshakeTimedout => some .timeout
  | connectRefused | connectNoRoute | connectError | tlsHandshakeFailure | handshakeError => some .tcpFailure
  | _ => none

/-- What a failure of a connection tells about a backend. -/
def proxyOutcome : ErrorType → Option PassiveOutcome
  | readTimedout | writeTimedout => some .timeout
  | readError | writeError | connectionClosed => some .tcpFailure
  | _ => none

end ErrorType

/-! ## The callbacks -/

structure SelectedUpstream where
  upstream : Upstream
  backend : BackendId
  deriving DecidableEq, Repr

/-- What the request and its upstream keep between attempts. -/
structure RetryContext where
  selected : Option SelectedUpstream := none
  /-- Retry attempts so far. -/
  tries : Nat := 0
  passive : Option PassiveHealthState := none

namespace RetryContext

def observePassive (ctx : RetryContext) (backend : BackendId) (outcome : Option PassiveOutcome) : RetryContext :=
  match outcome with
  | some outcome => { ctx with passive := ctx.passive.map (·.observe backend outcome) }
  | none => ctx

end RetryContext

def Upstream.getRetries (upstream : Upstream) : Option Nat := upstream.retries.map (· % 2 ^ usizeBits)

def errorWhileProxy (ctx : RetryContext) (e : AttemptError) : RetryContext × AttemptError :=
  if e.esource = .upstream then
    match ctx.selected with
    | some selected => (ctx.observePassive selected.backend e.etype.proxyOutcome, e)
    | none => (ctx, e)
  else (ctx, e)

/-- Whether the time since the request came in is within the timeout, both in milliseconds. -/
def withinTimeout (arithmetic : Arithmetic) (upstream : Upstream) (elapsedMs : Nat) : Except Overflow Bool :=
  match upstream.retryTimeout with
  | some timeout => (arithmetic.fit 64 (timeout * 1000)).map fun limit => elapsedMs ≤ limit
  | none => .ok true

def failToConnect (arithmetic : Arithmetic) (elapsedMs : Nat) (ctx : RetryContext) (e : AttemptError) :
    Except Overflow (RetryContext × AttemptError) :=
  match ctx.selected with
  | none => .ok (ctx, e)
  | some selected =>
    let ctx := ctx.observePassive selected.backend e.etype.connectOutcome
    match selected.upstream.getRetries with
    | none => .ok (ctx, e)
    | some retries =>
      if 0 < retries ∧ ctx.tries < retries then do
        let within ← withinTimeout arithmetic selected.upstream elapsedMs
        if within then
          let tries ← arithmetic.fit usizeBits (ctx.tries + 1)
          return ({ ctx with tries }, { e with retry := .decided true })
        else return (ctx, e)
      else .ok (ctx, e)

/-! ## Runs -/

/-- An attempt that failed: the backend selected for it, and whether a connection had been made. -/
structure Attempt where
  backend : BackendId
  connected : Bool
  error : AttemptError
  elapsedMs : Nat
  deriving DecidableEq, Repr

/-- One attempt of a request at an upstream, and its error afterwards. -/
def attempt (arithmetic : Arithmetic) (upstream : Upstream) (ctx : RetryContext) (a : Attempt) :
    Except Overflow (RetryContext × AttemptError) :=
  let ctx := { ctx with selected := some ⟨upstream, a.backend⟩ }
  if a.connected then .ok (errorWhileProxy ctx a.error) else failToConnect arithmetic a.elapsedMs ctx a.error

/-- A retry is granted to an attempt whose error comes out with it and came in without. -/
structure Grant where
  elapsedMs : Nat
  granted : Bool
  deriving DecidableEq, Repr

/-- All attempts of a request, and to which of them a retry was granted. -/
def attempts (arithmetic : Arithmetic) (upstream : Upstream) :
    RetryContext → List Attempt → Except Overflow (RetryContext × List Grant)
  | ctx, [] => .ok (ctx, [])
  | ctx, a :: as => do
    let (ctx, e) ← attempt arithmetic upstream ctx a
    let (ctx, grants) ← attempts arithmetic upstream ctx as
    return (ctx, ⟨a.elapsedMs, !a.error.retry.granted && e.retry.granted⟩ :: grants)

end Pingsix
