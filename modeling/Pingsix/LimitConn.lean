import Mathlib.Logic.Function.Basic
import Pingsix.Lib.System
import Pingsix.Limiting

/-!
# limit-conn

The concurrency limiter with its requests as threads. Finding a counter takes
the lock of its shard, one round of the sweep after another; counting, giving
back and releasing go without it, so that each is a step of its own. A counter
is an integer: below zero is where the unsigned one would wrap.
-/

namespace Pingsix

namespace LimitConn

structure ConnRule where
  conn : Nat
  burst : Nat
  key : String
  deriving DecidableEq, Repr

inductive KeyType where
  | var
  | varCombination
  deriving DecidableEq, Repr

/-- The fields of the configuration that decide whether a request is limited. -/
structure PluginConfig where
  conn : Option Nat := none
  burst : Nat := 0
  keyType : KeyType := .var
  key : Option String := none
  rules : List ConnRule := []
  deriving DecidableEq, Repr

structure LimitSelection where
  key : String
  conn : Nat
  burst : Nat
  deriving DecidableEq, Repr

inductive Decision where
  | pass
  /-- The multiple of the unit delay to wait. -/
  | delay (units : Int)
  | reject
  deriving DecidableEq, Repr

def decide (count : Int) (conn burst : Nat) : Decision :=
  if count > conn + burst then .reject
  else if count > conn then .delay ((count - 1) / conn)
  else .pass

/-- All limits of a request; `none` when rules are configured and none applies. -/
def selectLimits (config : PluginConfig) (resolve : ResolveVar) : Option (List LimitSelection) :=
  if config.rules ≠ [] then
    selectRules resolve config.rules (·.key) fun _ rule key => { key, conn := rule.conn, burst := rule.burst }
  else
    match config.conn, config.key with
    | some conn, some key =>
      some [{ key := apisixKey resolve key (config.keyType = .varCombination), conn, burst := config.burst }]
    | _, _ => none

/-- A counted slot, by the number of its counter, and the limit it was taken for. -/
structure ConnGuard where
  state : Nat
  limit : LimitSelection
  deriving DecidableEq, Repr

/-- Where a request is in `request_filter` and after it. -/
inductive Request where
  /-- Before the next of its limits. -/
  | selecting (guards : List ConnGuard) (limits : List LimitSelection)
  /-- In `admit`, with the lock of the shard and so many rounds of the sweep left. -/
  | admitting (guards : List ConnGuard) (limit : LimitSelection) (limits : List LimitSelection) (newKey : Bool)
      (budget : Nat)
  /-- The counter is found but not counted up. -/
  | counting (guards : List ConnGuard) (limit : LimitSelection) (limits : List LimitSelection) (state : Nat)
  | sleeping (guards : List ConnGuard) (limits : List LimitSelection)
  /-- Counted, refused, and not given back. -/
  | rejecting (guards : List ConnGuard) (state : Nat)
  /-- Admitted and not yet logged. -/
  | live (guards : List ConnGuard)
  /-- Its guards are released one after the other. -/
  | releasing (guards : List ConnGuard)
  deriving DecidableEq, Repr

structure PluginLimitConn where
  counters : BoundedShardMap Nat := fun _ => {}
  /-- The count of each counter. -/
  count : Nat → Int := fun _ => 0
  /-- How many counters were made. -/
  states : Nat := 0
  requests : List Request := []

inductive Action where
  | start (resolve : ResolveVar)
  | lookup (request : Nat)
  | examine (request : Nat)
  | settle (request : Nat)
  | count (request : Nat)
  | wake (request : Nat)
  | finish (request : Nat)
  | giveBack (request : Nat)
  | log (request : Nat)
  | cancel (request : Nat)
  | release (request : Nat)

namespace PluginLimitConn

def setRequest (s : PluginLimitConn) (r : Nat) (request : Request) : PluginLimitConn :=
  { s with requests := s.requests.set r request }

def setShard (s : PluginLimitConn) (i : Nat) (shard : Shard Nat) : PluginLimitConn :=
  { s with counters := Function.update s.counters i shard }

/-- `fetch_add` and, with a negative `d`, `fetch_sub`. -/
def add (s : PluginLimitConn) (state : Nat) (d : Int) : PluginLimitConn :=
  { s with count := Function.update s.count state (s.count state + d) }

/-- Whether no request is in `admit` on shard `i`. -/
def unlocked (hash : String → Nat) (s : PluginLimitConn) (i : Nat) : Bool :=
  s.requests.all fun
    | .admitting _ limit _ _ _ => shardIdx hash limit.key != i
    | _ => true

/-- The counter `or_insert_with` returns for a slot of shard `i`. -/
def orInsert (s : PluginLimitConn) (i : Nat) (slot : String) : Nat × PluginLimitConn :=
  match (s.counters i).entries.lookup slot with
  | some state => (state, s)
  | none =>
    (s.states, { s.setShard i ((s.counters i).insert slot s.states) with
      count := Function.update s.count s.states 0
      states := s.states + 1 })

/-- The counter of a key, when nothing happens between the rounds of the sweep. -/
def getOrInsertCounter (hash : String → Nat) (s : PluginLimitConn) (key : String) : Nat × PluginLimitConn :=
  let i := shardIdx hash key
  let admitted :=
    Shard.admitKey key limitConnOverflow (Shard.sweep (fun state => s.count state = 0) .pushBack) (s.counters i)
  (s.setShard i admitted.2).orInsert i admitted.1

/-- The steps of the requests, one for each atomic section of the plugin. -/
def act (config : PluginConfig) (hash : String → Nat) (s : PluginLimitConn) : Action → Option PluginLimitConn
  | .start resolve =>
    match selectLimits config resolve with
    | none => some s
    | some limits => some { s with requests := s.requests ++ [.selecting [] limits] }
  | .lookup r =>
    match s.requests[r]? with
    | some (.selecting guards (limit :: limits)) =>
      let shard := s.counters (shardIdx hash limit.key)
      let newKey := !shard.containsKey limit.key
      if s.unlocked hash (shardIdx hash limit.key) then
        some (s.setRequest r
          (.admitting guards limit limits newKey (if shard.isFullFor newKey then cleanupBudget else 0)))
      else none
    | _ => none
  | .examine r =>
    match s.requests[r]? with
    | some (.admitting guards limit limits newKey (budget + 1)) =>
      let i := shardIdx hash limit.key
      match (s.counters i).examine (fun state => s.count state = 0) .pushBack with
      | none => some (s.setRequest r (.admitting guards limit limits newKey 0))
      | some shard => some ((s.setShard i shard).setRequest r (.admitting guards limit limits newKey budget))
    | _ => none
  | .settle r =>
    match s.requests[r]? with
    | some (.admitting guards limit limits newKey 0) =>
      let i := shardIdx hash limit.key
      let slot := (s.counters i).storageKey newKey limit.key limitConnOverflow
      let found := (s.setShard i ((s.counters i).touch slot)).orInsert i slot
      some (found.2.setRequest r (.counting guards limit limits found.1))
    | _ => none
  | .count r =>
    match s.requests[r]? with
    | some (.counting guards limit limits state) =>
      let guard : ConnGuard := { state, limit }
      some ((s.add state 1).setRequest r
        (match decide (s.count state + 1) limit.conn limit.burst with
        | .pass => .selecting (guards ++ [guard]) limits
        | .delay _ => .sleeping (guards ++ [guard]) limits
        | .reject => .rejecting guards state))
    | _ => none
  | .wake r =>
    match s.requests[r]? with
    | some (.sleeping guards limits) => some (s.setRequest r (.selecting guards limits))
    | _ => none
  | .finish r =>
    match s.requests[r]? with
    | some (.selecting guards []) => some (s.setRequest r (.live guards))
    | _ => none
  | .giveBack r =>
    match s.requests[r]? with
    | some (.rejecting guards state) => some ((s.add state (-1)).setRequest r (.releasing guards))
    | _ => none
  | .log r =>
    match s.requests[r]? with
    | some (.live guards) => some (s.setRequest r (.releasing guards))
    | _ => none
  | .cancel r =>
    match s.requests[r]? with
    | some (.sleeping guards _) | some (.live guards) => some (s.setRequest r (.releasing guards))
    | _ => none
  | .release r =>
    match s.requests[r]? with
    | some (.releasing (guard :: guards)) => some ((s.add guard.state (-1)).setRequest r (.releasing guards))
    | _ => none

/-- A step of the limiter with the given configuration. -/
def Step (config : PluginConfig) (hash : String → Nat) (s : PluginLimitConn) (a : Action) (s' : PluginLimitConn) :
    Prop := s.act config hash a = some s'

def Initial (s : PluginLimitConn) : Prop := s = {}

end PluginLimitConn

end LimitConn

end Pingsix
