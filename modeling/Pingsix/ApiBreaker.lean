import Pingsix.AiProxy
import Pingsix.Lib.Bitset
import Pingsix.Lib.MachineInt
import Pingsix.Limiting
import Pingsix.RequestContext

/-!
# The api-breaker plugin

Its configuration, the breaker states of its keys under a bound on their
number, and what a check and a response do to them. Instants are in
nanoseconds.
-/

namespace Pingsix

namespace ApiBreaker

/-! ## Status sets -/

/-- `StatusCodeSet`: a bit for each status below 640. -/
structure StatusCodeSet where
  words : List (BitVec 64)
  deriving DecidableEq, Repr

namespace StatusCodeSet

def fromStatuses (statuses : List Nat) : StatusCodeSet :=
  ⟨statuses.foldl (fun bits status => if status < 640 then Bitset.mark bits status else bits) (Bitset.zeros 640)⟩

def contains (set : StatusCodeSet) (status : Nat) : Bool := decide (status < 640) && Bitset.marked set.words status

end StatusCodeSet

/-! ## Configuration -/

structure BreakHeader where
  key : String
  value : String
  deriving DecidableEq, Repr

structure UnhealthyConf where
  httpStatuses : List Nat := [500]
  failures : Nat := 3
  deriving DecidableEq, Repr

structure HealthyConf where
  httpStatuses : List Nat := [200]
  successes : Nat := 3
  deriving DecidableEq, Repr

structure PluginConfig where
  breakResponseCode : Nat
  breakResponseBody : Option String := none
  breakResponseHeaders : List BreakHeader := []
  maxBreakerSec : Nat := 300
  unhealthy : UnhealthyConf := {}
  healthy : HealthyConf := {}
  deriving DecidableEq, Repr

def BreakHeader.fromValue : De BreakHeader := fun v => do
  let nm := "BreakHeader with 2 elements"
  let src ← De.struct "BreakHeader" 2 v
  let key ← src.field nm 0 "key" De.string .required
  let value ← src.field nm 1 "value" De.string .required
  return { key, value }

def UnhealthyConf.fromValue : De UnhealthyConf := fun v => do
  let nm := "UnhealthyConf with 2 elements"
  let src ← De.struct "UnhealthyConf" 2 v
  let httpStatuses ← src.field nm 0 "http_statuses" (De.vec (De.unsigned 16)) (.default [500])
  let failures ← src.field nm 1 "failures" (De.unsigned 32) (.default 3)
  return { httpStatuses, failures }

def HealthyConf.fromValue : De HealthyConf := fun v => do
  let nm := "HealthyConf with 2 elements"
  let src ← De.struct "HealthyConf" 2 v
  let httpStatuses ← src.field nm 0 "http_statuses" (De.vec (De.unsigned 16)) (.default [200])
  let successes ← src.field nm 1 "successes" (De.unsigned 32) (.default 3)
  return { httpStatuses, successes }

namespace PluginConfig

def fromValue : De PluginConfig := fun v => do
  let nm := "PluginConfig with 6 elements"
  let src ← De.struct "PluginConfig" 6 v
  let breakResponseCode ← src.field nm 0 "break_response_code" (De.unsigned 16) .required
  let breakResponseBody ← src.field nm 1 "break_response_body" (De.option De.string) (.default none)
  let breakResponseHeaders ← src.field nm 2 "break_response_headers" (De.vec BreakHeader.fromValue) (.default [])
  let maxBreakerSec ← src.field nm 3 "max_breaker_sec" (De.unsigned 64) (.default 300)
  let unhealthy ← src.field nm 4 "unhealthy" UnhealthyConf.fromValue (.default {})
  let healthy ← src.field nm 5 "healthy" HealthyConf.fromValue (.default {})
  return { breakResponseCode, breakResponseBody, breakResponseHeaders, maxBreakerSec, unhealthy, healthy }

/-- The syntax of header names is third-party. -/
def validateHeader (headerName : String → Bool) (header : BreakHeader) : List FieldError :=
  (if Text.trim header.key = "" ∨ headerName header.key = false then [⟨"key", "invalid header key"⟩] else []) ++
    FieldError.length "value" 1 header.value.length

def validate (headerName : String → Bool) (config : PluginConfig) : List FieldError :=
  FieldError.range "break_response_code" 200 (some 599) config.breakResponseCode ++
    (config.breakResponseHeaders.zipIdx.flatMap fun entry =>
      FieldError.nest s!"break_response_headers[{entry.2}]" (validateHeader headerName entry.1)) ++
    FieldError.range "max_breaker_sec" 3 none config.maxBreakerSec

/-- The checks of `try_from` beyond the declared ones. -/
def check (config : PluginConfig) : ProxyResult Unit := do
  let unhealthy := config.unhealthy.httpStatuses
  let healthy := config.healthy.httpStatuses
  if unhealthy = [] ∨ healthy = [] ∨ ¬unhealthy.Nodup ∨ ¬healthy.Nodup then
    throw (.validationError "api-breaker http_statuses must be non-empty and unique")
  if unhealthy.any fun s => !(500 ≤ s && s ≤ 599) then
    throw (.validationError "api-breaker unhealthy.http_statuses must be in [500, 599]")
  if healthy.any fun s => !(200 ≤ s && s ≤ 499) then
    throw (.validationError "api-breaker healthy.http_statuses must be in [200, 499]")
  if config.unhealthy.failures < 1 then
    throw (.validationError "api-breaker unhealthy.failures must be >= 1")
  if config.healthy.successes < 1 then
    throw (.validationError "api-breaker healthy.successes must be >= 1")

def tryFrom (json : JsonCodec) (headerName : String → Bool) (value : Json) : ProxyResult PluginConfig := do
  let config ← parseAndValidatePluginConfig json fromValue (validate headerName) "Invalid api-breaker plugin config" value
  config.check
  return config

end PluginConfig

/-! ## Breaker states -/

def maxBreakerKeys : Nat := 1024
def maxExponent : Nat := 30

structure BreakerState where
  /-- Unhealthy responses since the last reset. -/
  unhealthyCount : Nat := 0
  /-- Healthy responses while recovering from a trip. -/
  healthyCount : Nat := 0
  /-- When the last trip was. -/
  lasttime : Option Nat := none
  deriving DecidableEq, Repr

structure BreakerStates where
  shard : Shard BreakerState := {}

/-- `Shard::evict_oldest` -/
def evictOldest (shard : Shard BreakerState) : Shard BreakerState :=
  match shard.touchOrder.popOldest with
  | some (key, touchOrder) => { shard with touchOrder }.remove key
  | none => shard

namespace BreakerStates

/-- The key that has to make room for a new one. -/
def evicted (states : BreakerStates) (key : String) : Option String :=
  if !states.shard.containsKey key && decide (maxBreakerKeys ≤ states.shard.len) then
    states.shard.touchOrder.popOldest.map (·.1)
  else none

/-- The state of a key, the key being the last one used, and the states with it. -/
def entry (states : BreakerStates) (key : String) : BreakerState × BreakerStates :=
  let shard :=
    if !states.shard.containsKey key && decide (maxBreakerKeys ≤ states.shard.len) then evictOldest states.shard
    else states.shard
  let shard := shard.touch key
  let state := (shard.entries.lookup key).getD {}
  (state, ⟨shard.insert key state⟩)

def set (states : BreakerStates) (key : String) (state : BreakerState) : BreakerStates := ⟨states.shard.insert key state⟩

end BreakerStates

def breakerSecs (unhealthyCount failures maxBreakerSec : Nat) : Nat :=
  let failureTimes := min (max (unhealthyCount / max failures 1) 1) maxExponent
  let exp := if failureTimes < 64 then 2 ^ failureTimes else 2 ^ 64 - 1
  min exp maxBreakerSec

def nanosOfSecs (secs : Nat) : Nat := secs * 1000000000

/-! ## The plugin -/

/-- What is fixed when the plugin is created. -/
structure PluginApiBreaker where
  config : PluginConfig
  unhealthySet : StatusCodeSet
  healthySet : StatusCodeSet
  deriving DecidableEq, Repr

def createApiBreakerPlugin (json : JsonCodec) (headerName : String → Bool) (cfg : Json) : ProxyResult PluginApiBreaker := do
  let config ← PluginConfig.tryFrom json headerName cfg
  return {
    unhealthySet := .fromStatuses config.unhealthy.httpStatuses
    healthySet := .fromStatuses config.healthy.httpStatuses
    config }

/-- The identity of the route, or one key for all requests without one. -/
def stateKey (routeId : Option String) : String :=
  match routeId with
  | some id => if id ≠ "" then id else "__global__"
  | none => "__global__"

namespace PluginApiBreaker

variable (plugin : PluginApiBreaker)

def window (state : BreakerState) : Nat :=
  breakerSecs state.unhealthyCount plugin.config.unhealthy.failures plugin.config.maxBreakerSec

def isOpen (states : BreakerStates) (key : String) (now : Nat) : Bool × BreakerStates :=
  let (state, states) := states.entry key
  match state.lasttime with
  | some lasttime => (decide (now ≤ lasttime + nanosOfSecs (plugin.window state)), states)
  | none => (false, states)

def reject (resolve : ResolveVar) : Rejection where
  status := plugin.config.breakResponseCode
  body := plugin.config.breakResponseBody
  contentType := plugin.config.breakResponseBody.map fun _ => "text/plain"
  headers := plugin.config.breakResponseHeaders.map fun h => (h.key, renderApisixTemplate h.value resolve)

def requestFilter (resolve : ResolveVar) (states : BreakerStates) (key : String) (now : Nat) :
    FilterVerdict × BreakerStates :=
  let (isOpen, states) := plugin.isOpen states key now
  (if isOpen then .reject (plugin.reject resolve) else .continue, states)

/-- What a response does to the state of its key. -/
def observe (arithmetic : Arithmetic) (state : BreakerState) (status now : Nat) : Except Overflow BreakerState :=
  if plugin.unhealthySet.contains status then do
    let unhealthyCount ← arithmetic.fit 32 (state.unhealthyCount + 1)
    let lasttime := if unhealthyCount % max plugin.config.unhealthy.failures 1 = 0 then some now else state.lasttime
    return { unhealthyCount, healthyCount := 0, lasttime }
  else if plugin.healthySet.contains status ∧ state.lasttime ≠ none then do
    let healthyCount ← arithmetic.fit 32 (state.healthyCount + 1)
    if max plugin.config.healthy.successes 1 ≤ healthyCount then
      return { unhealthyCount := 0, healthyCount := 0, lasttime := none }
    else return { state with healthyCount }
  else return state

def responseFilter (arithmetic : Arithmetic) (states : BreakerStates) (key : String) (status now : Nat) :
    Except Overflow BreakerStates := do
  let (state, states) := states.entry key
  let state ← plugin.observe arithmetic state status now
  return states.set key state

end PluginApiBreaker

/-! ## Runs -/

inductive Occurrence where
  | check (now : Nat) (isOpen : Bool)
  | response (status now : Nat)
  deriving DecidableEq, Repr

/-- A check or a response on a key, and the key evicted for it. -/
structure Event where
  key : String
  occurrence : Occurrence
  evicted : Option String
  deriving DecidableEq, Repr

inductive Step (plugin : PluginApiBreaker) : BreakerStates → Event → BreakerStates → Prop
  | check {states : BreakerStates} (key : String) (now : Nat) :
      Step plugin states ⟨key, .check now (plugin.isOpen states key now).1, states.evicted key⟩
        (plugin.isOpen states key now).2
  | response {states states' : BreakerStates} (key : String) (status now : Nat) :
      plugin.responseFilter .checked states key status now = .ok states' →
        Step plugin states ⟨key, .response status now, states.evicted key⟩ states'

end ApiBreaker

end Pingsix
