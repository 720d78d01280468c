import Pingsix.Lib.System
import Pingsix.Limiting

/-!
# limit-count with a sliding window

The histories that the rules of one plugin, or the instances of one group,
record in and count from. Instants and windows are in nanoseconds. The store
keeps a log of its checks beside the histories; no function reads it.
-/

namespace Pingsix

namespace LimitCount

def maxSlidingEntriesPerKey : Nat := 4096
def maxWindowSecs : Nat := 86400
def nanos : Nat := 1000000000

/-! ## Configuration -/

inductive KeyType where
  | var
  | varCombination
  | constant
  | head
  | cookie
  deriving DecidableEq, Repr

inductive WindowType where
  | fixed
  | sliding
  deriving DecidableEq, Repr

inductive KeyMissingPolicy where
  | allow
  | deny
  | default
  deriving DecidableEq, Repr

structure CountRule where
  count : Nat
  timeWindow : Nat
  key : String
  deriving DecidableEq, Repr

structure PluginConfig where
  keyType : KeyType := .var
  key : String := "remote_addr"
  timeWindow : Option Nat := none
  count : Option Nat := none
  windowType : WindowType := .fixed
  keyMissingPolicy : KeyMissingPolicy := .allow
  rules : List CountRule := []
  group : Option String := none
  allowDegradation : Bool := false
  deriving DecidableEq, Repr

def validateKey (key : String) : Bool := Text.trim key ≠ ""

def validateOptionalCount (value : Nat) : Bool := 1 ≤ value

def validateOptionalTimeWindow (value : Nat) : Bool := 1 ≤ value && value ≤ maxWindowSecs

def CountRule.validate (rule : CountRule) : Bool :=
  validateOptionalCount rule.count && validateOptionalTimeWindow rule.timeWindow && validateKey rule.key

/-- One of the two branches, and that one complete. -/
def validateLimitCountShape (config : PluginConfig) : Bool :=
  let mainConfigured := config.count.isSome || config.timeWindow.isSome
  let rulesConfigured := !config.rules.isEmpty
  !(mainConfigured && rulesConfigured) && (mainConfigured || rulesConfigured) &&
    !(mainConfigured && (config.count.isNone || config.timeWindow.isNone))

/-- The checks of `try_from` after the schema. -/
def validateSliding (config : PluginConfig) : Bool :=
  (config.windowType ≠ .sliding ||
    (config.count.toList ++ config.rules.map (·.count)).all (· < maxSlidingEntriesPerKey)) &&
    !(config.group.isSome && !config.rules.isEmpty) && decide (config.rules.map (·.key)).Nodup

/-- Whether `try_from` accepts the configuration. -/
def PluginConfig.accepted (config : PluginConfig) : Bool :=
  validateKey config.key && config.timeWindow.all validateOptionalTimeWindow &&
    config.count.all validateOptionalCount && config.rules.all CountRule.validate &&
    validateLimitCountShape config && validateSliding config

/-! ## Histories -/

structure SlidingWindow where
  events : List Nat := []

namespace SlidingWindow

/-- Drops the oldest events as long as they are older than the window. -/
def prune (w : SlidingWindow) (now timeWindow : Nat) : SlidingWindow :=
  ⟨w.events.dropWhile fun event => decide (timeWindow * nanos ≤ now - event)⟩

def observe (w : SlidingWindow) (now timeWindow : Nat) : SlidingWindow :=
  let events := (w.prune now timeWindow).events
  ⟨(if maxSlidingEntriesPerKey ≤ events.length then events.tail else events) ++ [now]⟩

end SlidingWindow

def slidingStale (now : Nat) (w : SlidingWindow) : Bool :=
  match w.events.getLast? with
  | some last => decide (maxWindowSecs * nanos ≤ now - last)
  | none => true

/-- The slot of the key and the shard with it. -/
def slidingWindowFor (shard : Shard SlidingWindow) (key : String) (now : Nat) : String × Shard SlidingWindow :=
  Shard.admitKey key limitCountOverflow (Shard.sweep (slidingStale now) .restore) shard

/-! ## Requests -/

structure LimitSelection where
  count : Nat
  timeWindow : Nat
  fromRule : Bool
  /-- Which rule it is. -/
  rule : Nat
  deriving DecidableEq, Repr

structure Session where
  resolve : ResolveVar
  header : String → String
  cookie : String → String

/-- One observation of a request: by which instance and limit, for which key, and what came out. -/
structure Record where
  plugin : Nat
  selection : LimitSelection
  key : String
  now : Nat
  /-- The shard and the slot of the history. -/
  place : Nat × String
  currentCount : Nat
  deriving DecidableEq, Repr

def Record.limited (r : Record) : Bool := decide (r.selection.count < r.currentCount)

structure Store where
  sliding : BoundedShardMap SlidingWindow := fun _ => {}
  log : List Record := []

/-- `check_rate_limit` at an instant. -/
def Store.checkRateLimit (hash : String → Nat) (st : Store) (plugin : Nat) (selection : LimitSelection)
    (key : String) (now : Nat) : Record × Store :=
  let i := shardIdx hash key
  let (slot, shard) := slidingWindowFor (st.sliding i) key now
  let window := ((shard.entries.lookup slot).getD {}).observe now selection.timeWindow
  let record : Record :=
    { plugin, selection, key, now, place := (i, slot), currentCount := window.events.length }
  (record, { sliding := Function.update st.sliding i (shard.insert slot window), log := st.log ++ [record] })

inductive Verdict where
  | continue
  | noRule
  | missingKey
  | limited (record : Record)
  deriving DecidableEq, Repr

namespace PluginConfig

variable (config : PluginConfig)

def mainSelection : Option LimitSelection :=
  match config.count, config.timeWindow with
  | some count, some timeWindow => some { count, timeWindow, fromRule := false, rule := 0 }
  | _, _ => none

def resolveMainKey (session : Session) : String :=
  match config.keyType with
  | .var => apisixKey session.resolve config.key false
  | .varCombination => apisixKey session.resolve config.key true
  | .constant => config.key
  | .head => session.header config.key
  | .cookie => session.cookie config.key

/-- Every rule that applies; the plugin's own limit when there are no rules. -/
def selectLimits (session : Session) : Option (List (String × LimitSelection)) :=
  if config.rules ≠ [] then
    selectRules session.resolve config.rules (·.key) fun index rule key =>
      (key, { count := rule.count, timeWindow := rule.timeWindow, fromRule := true, rule := index })
  else config.mainSelection.map fun selection => [(config.resolveMainKey session, selection)]

def defaultKey : String := "_default_rate_limit_key"

/-- The checks that `request_filter` makes one after the other until one is over its limit. -/
def checks (session : Session) : List (String × LimitSelection) :=
  ((config.selectLimits session).getD []).filterMap fun p =>
    if p.1 = "" ∧ p.2.fromRule = false then
      if config.keyMissingPolicy = .default then some (defaultKey, p.2) else none
    else some p

/-- The loop over the selected limits; the `n`th check is made at `clock n`. -/
def enforce (hash : String → Nat) (plugin : Nat) (clock : Nat → Nat) :
    Nat → Store → List (String × LimitSelection) → Verdict × Store
  | _, st, [] => (.continue, st)
  | n, st, (key, selection) :: limits =>
    if key = "" ∧ selection.fromRule = false then
      match config.keyMissingPolicy with
      | .allow => (.continue, st)
      | .deny => (.missingKey, st)
      | .default =>
        let checked := st.checkRateLimit hash plugin selection defaultKey (clock n)
        (if checked.1.limited then .limited checked.1 else .continue, checked.2)
    else
      let checked := st.checkRateLimit hash plugin selection key (clock n)
      if checked.1.limited then (.limited checked.1, checked.2)
      else enforce hash plugin clock (n + 1) checked.2 limits

def requestFilter (hash : String → Nat) (plugin : Nat) (st : Store) (session : Session) (clock : Nat → Nat) :
    Verdict × Store :=
  match config.selectLimits session with
  | none => (if config.allowDegradation then .continue else .noRule, st)
  | some limits => config.enforce hash plugin clock 0 st limits

end PluginConfig

/-! ## Interleaved requests -/

/-- One check of a request to one of the instances. -/
structure Check where
  plugin : Nat
  session : Session
  key : String
  selection : LimitSelection
  now : Nat

/-- The instances check requests in any order; the histories are theirs together. -/
inductive Step (hash : String → Nat) (instances : List PluginConfig) : Store → Check → Store → Prop
  | check {st : Store} (c : Check) {config : PluginConfig} (hi : instances[c.plugin]? = some config)
      (hc : (c.key, c.selection) ∈ config.checks c.session) :
      Step hash instances st c (st.checkRateLimit hash c.plugin c.selection c.key c.now).2

def Initial (st : Store) : Prop := st = {}

end LimitCount

end Pingsix
