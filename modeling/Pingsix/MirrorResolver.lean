import Mathlib.Logic.Function.Basic
import Pingsix.Lib.System
import Pingsix.Selection

/-!
# Single-flight lookups of a mirror target

The resolver of the proxy-mirror plugin: the callers of `resolve_with`, the flag
they elect a leader with, the state behind the mutex, and the wake-ups of the
followers. Instants are in nanoseconds, and a step touches one of the three
primitives at most.
-/

namespace Pingsix.ProxyMirror

def mirrorDnsCacheTtl : Nat := 60000000000

def mirrorDnsStaleGrace : Nat := 300000000000

structure MirrorDnsState where
  addr : Option SocketAddr := none
  resolvedAt : Option Nat := none
  lastError : Option String := none
  deriving DecidableEq, Repr

namespace MirrorDnsState

/-- The address, when it was resolved less than so long ago. -/
def addrWithin (state : MirrorDnsState) (limit now : Nat) : Option SocketAddr :=
  if state.resolvedAt.any fun resolvedAt => now - resolvedAt < limit then state.addr else none

def cachedFresh (state : MirrorDnsState) (now : Nat) : Option SocketAddr := state.addrWithin mirrorDnsCacheTtl now

def staleReuse (state : MirrorDnsState) (now : Nat) : Option SocketAddr :=
  state.addrWithin (mirrorDnsCacheTtl + mirrorDnsStaleGrace) now

/-- A lookup publishes its outcome. -/
def publish (state : MirrorDnsState) (now : Nat) : Except String SocketAddr → MirrorDnsState
  | .ok addr => { addr := some addr, resolvedAt := some now, lastError := none }
  | .error error => { state with lastError := some error }

end MirrorDnsState

/-! ## Callers -/

/-- Where a call of `resolve_with` is. It keeps how many flights had ended when it began, and a leader which flight it
leads; the drop of the flight clears the flag and then notifies. -/
inductive Caller where
  | idle
  | checking (start : Nat)
  | electing (start : Nat)
  | looking (start flight : Nat)
  | failing (start flight : Nat) (error : String)
  | clearing (start flight : Nat) (result : Option (Except String SocketAddr))
  | notifying (start flight : Nat) (result : Option (Except String SocketAddr))
  | registering (start : Nat)
  | loading (start ticket : Nat)
  /-- A follower keeps the flight it has seen in progress. -/
  | waiting (start ticket flight : Nat)
  | woken (start : Nat)
  /-- A follower without an address to reuse; the instant is that of the last address. -/
  | reading (start : Nat) (resolvedAt : Option Nat)
  | returned (result : Except String SocketAddr)
  | cancelled

namespace Caller

/-- The flight whose flag the caller holds. -/
def flagFlight : Caller → Option Nat
  | looking _ flight | failing _ flight _ | clearing _ flight _ => some flight
  | _ => none

/-- The flight that the caller has not dropped yet. -/
def heldFlight : Caller → Option Nat
  | looking _ flight | failing _ flight _ | clearing _ flight _ | notifying _ flight _ => some flight
  | _ => none

/-- What the call is going to return or has returned. -/
def decided : Caller → Option (Except String SocketAddr)
  | clearing _ _ result | notifying _ _ result => result
  | returned result => some result
  | _ => none

def start : Caller → Nat
  | checking start | electing start | looking start _ | failing start _ _ | clearing start _ _ | notifying start _ _
  | registering start | loading start _ | waiting start _ _ | woken start | reading start _ => start
  | idle | returned _ | cancelled => 0

end Caller

/-! ## The resolver -/

/-- What the callers share, and the flights so far with the outcomes of their lookups. -/
structure Shared where
  state : MirrorDnsState := {}
  lookupInFlight : Bool := false
  /-- Calls of `notify_waiters`, which wake whoever registered before. -/
  notifications : Nat := 0
  now : Nat := 0
  flights : Nat := 0
  outcomes : Nat → Option (Except String SocketAddr × Nat) := fun _ => none

/-- The flights whose flag was cleared. -/
def Shared.ended (sh : Shared) : Nat := if sh.lookupInFlight then sh.flights - 1 else sh.flights

/-- The lookup of a flight ends and its outcome is published. -/
def Shared.publish (sh : Shared) (flight : Nat) (outcome : Except String SocketAddr) : Shared :=
  { sh with
    state := sh.state.publish sh.now outcome
    outcomes := Function.update sh.outcomes flight (some (outcome, sh.now)) }

structure MirrorResolver where
  shared : Shared := {}
  callers : Nat → Caller := fun _ => .idle

inductive ResolverEvent where
  | begins (i : Nat)
  | cachedFresh (i : Nat)
  | compareExchange (i : Nat)
  | lookup (i : Nat) (outcome : Except String SocketAddr)
  | staleReuse (i : Nat)
  | clearFlag (i : Nat)
  | notifyWaiters (i : Nat)
  | notified (i : Nat)
  | loadFlag (i : Nat)
  | wake (i : Nat)
  | lastError (i : Nat)
  | cancel (i : Nat)
  | tick (nanos : Nat)

/-- What one caller does with the shared state. -/
def Caller.step (sh : Shared) : ResolverEvent → Caller → Option (Caller × Shared)
  | .begins _, .idle => some (.checking sh.ended, sh)
  | .cachedFresh _, .checking start =>
    match sh.state.cachedFresh sh.now with
    | some addr => some (.returned (.ok addr), sh)
    | none => some (.electing start, sh)
  | .compareExchange _, .electing start =>
    if sh.lookupInFlight then some (.registering start, sh)
    else some (.looking start sh.flights, { sh with lookupInFlight := true, flights := sh.flights + 1 })
  | .lookup _ outcome, .looking start flight =>
    let caller := match outcome with
      | .ok addr => .clearing start flight (some (.ok addr))
      | .error error => .failing start flight error
    some (caller, sh.publish flight outcome)
  | .staleReuse _, .failing start flight error =>
    match sh.state.staleReuse sh.now with
    | some addr => some (.clearing start flight (some (.ok addr)), sh)
    | none => some (.clearing start flight (some (.error error)), sh)
  | .clearFlag _, .clearing start flight result =>
    some (.notifying start flight result, { sh with lookupInFlight := false })
  | .notifyWaiters _, .notifying _ _ result =>
    some (result.elim .cancelled .returned, { sh with notifications := sh.notifications + 1 })
  | .notified _, .registering start => some (.loading start sh.notifications, sh)
  | .loadFlag _, .loading start ticket =>
    if sh.lookupInFlight then some (.waiting start ticket (sh.flights - 1), sh) else some (.checking start, sh)
  | .wake _, .waiting start ticket _ => if ticket < sh.notifications then some (.woken start, sh) else none
  | .staleReuse _, .woken start =>
    match sh.state.staleReuse sh.now with
    | some addr => some (.returned (.ok addr), sh)
    | none => some (.reading start sh.state.resolvedAt, sh)
  | .lastError _, .reading start _ =>
    match sh.state.lastError with
    | some error => some (.returned (.error error), sh)
    | none => some (.checking start, sh)
  | .cancel _, .looking start flight => some (.clearing start flight none, sh)
  | .cancel _, .waiting _ _ _ => some (.cancelled, sh)
  | _, _ => none

namespace ResolverEvent

def caller : ResolverEvent → Option Nat
  | begins i | cachedFresh i | compareExchange i | lookup i _ | staleReuse i | clearFlag i | notifyWaiters i | notified i
  | loadFlag i | wake i | lastError i | cancel i => some i
  | tick _ => none

end ResolverEvent

namespace MirrorResolver

def step (s : MirrorResolver) (e : ResolverEvent) : Option MirrorResolver :=
  match e.caller with
  | some i => ((s.callers i).step s.shared e).map fun (caller, shared) =>
    { shared, callers := Function.update s.callers i caller }
  | none =>
    match e with
    | .tick nanos => some { s with shared := { s.shared with now := s.shared.now + nanos } }
    | _ => none

def Step (s : MirrorResolver) (e : ResolverEvent) (s' : MirrorResolver) : Prop := s.step e = some s'

def Init (s : MirrorResolver) : Prop := s = {}

end MirrorResolver

end Pingsix.ProxyMirror
