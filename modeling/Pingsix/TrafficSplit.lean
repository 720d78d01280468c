import Pingsix.AiProxy

/-!
# The traffic-split configuration

Its schema and checks, the named upstreams it references, and the inline
upstreams it declares. The inline upstreams are collected from the raw document,
the references from the typed configuration.
-/

namespace Pingsix

namespace TrafficSplit

structure WeightedUpstream where
  upstreamId : Option String
  upstream : Option Upstream
  weight : Nat
  deriving DecidableEq, Repr

structure MatchRule where
  vars : List (List String)
  weightedUpstreams : List WeightedUpstream
  deriving DecidableEq, Repr

structure PluginConfig where
  rules : List MatchRule
  deriving DecidableEq, Repr

def WeightedUpstream.fromValue : De WeightedUpstream := fun v => do
  let name := "WeightedUpstream with 3 elements"
  let src ← De.struct "WeightedUpstream" 3 v
  let upstreamId ← src.field name 0 "upstream_id" (De.option De.string) (.optional none)
  let upstream ← src.field name 1 "upstream" (De.option Upstream.fromValue) (.optional none)
  let weight ← src.field name 2 "weight" (De.unsigned 32) .required
  return { upstreamId, upstream, weight }

def MatchRule.fromValue : De MatchRule := fun v => do
  let name := "MatchRule with 2 elements"
  let src ← De.struct "MatchRule" 2 v
  let vars ← src.field name 0 "vars" (De.vec (De.vec De.string)) (.default [])
  let weightedUpstreams ← src.field name 1 "weighted_upstreams" (De.vec WeightedUpstream.fromValue) .required
  return { vars, weightedUpstreams }

def PluginConfig.fromValue : De PluginConfig := fun v => do
  let src ← De.struct "PluginConfig" 1 v
  let rules ← src.field "PluginConfig with 1 element" 0 "rules" (De.vec MatchRule.fromValue) .required
  return { rules }

open FieldError (nest range)

/-- The weights are checked, the inline upstreams are not. -/
def PluginConfig.validate (config : PluginConfig) : List FieldError :=
  config.rules.flatMap fun rule => nest "rules" <|
    rule.weightedUpstreams.flatMap fun w => nest "weighted_upstreams" (range "weight" 0 none w.weight)

def totalWeight (rule : MatchRule) : ProxyResult Nat :=
  rule.weightedUpstreams.foldlM (fun acc w =>
    if acc + w.weight < 2 ^ 64 then .ok (acc + w.weight)
    else .error (.configuration "traffic-split weight overflow")) 0

def checkTarget (w : WeightedUpstream) : ProxyResult Unit :=
  if w.upstreamId.isSome ∧ w.upstream.isSome then
    .error (.configuration "traffic-split target cannot set both upstream_id and upstream")
  else .ok ()

/-- The checks on one rule before its targets are built. -/
def checkRule (index : Nat) (rule : MatchRule) : ProxyResult Unit := do
  if rule.weightedUpstreams = [] then
    throw (.plugin s!"Rule {index} must have at least one weighted upstream")
  if (← totalWeight rule) = 0 then
    throw (.plugin s!"Rule {index} must have total weight greater than 0")

def parse (ext : Externals) (cfg : Json) : ProxyResult PluginConfig :=
  match PluginConfig.fromValue cfg with
  | .error e => .error (.serialization (ext.json.render e))
  | .ok config => .ok config

def validateConfig (ext : Externals) (cfg : Json) : ProxyResult Unit := do
  let config ← parse ext cfg
  if config.validate ≠ [] then throw (.validationStructured config.validate)
  if config.rules = [] then throw (.plugin "Traffic-split plugin requires at least one rule")
  config.rules.zipIdx.forM fun (rule, index) => do
    checkRule index rule
    rule.weightedUpstreams.forM checkTarget

def namedUpstreamIds (ext : Externals) (cfg : Json) : ProxyResult (List String) := do
  let config ← parse ext cfg
  return config.rules.flatMap fun rule => rule.weightedUpstreams.filterMap (·.upstreamId)

/-! ## Inline upstreams, from the raw document -/

def inlineUpstream (ext : Externals) (weighted : Json) : ProxyResult (Option Upstream) :=
  match weighted.get "upstream" with
  | none => .ok none
  | some value =>
    match Upstream.fromValue value with
    | .error e => .error (.configuration s!"Invalid traffic-split upstream: {ext.json.render e}")
    | .ok upstream => .ok (some upstream)

def targetJobs (ext : Externals) (owner : TrafficSplitOwner) (rule : Nat) :
    Nat → List Json → ProxyResult (List (UpstreamOccurrence × Upstream))
  | _, [] => .ok []
  | target, weighted :: rest => do
    let upstream ← inlineUpstream ext weighted
    let jobs ← targetJobs ext owner rule (target + 1) rest
    return (upstream.map fun u => (UpstreamOccurrence.trafficSplit owner rule target, u)).toList ++ jobs

def ruleJobs (ext : Externals) (owner : TrafficSplitOwner) :
    Nat → List Json → ProxyResult (List (UpstreamOccurrence × Upstream))
  | _, [] => .ok []
  | rule, v :: rest =>
    match (v.get "weighted_upstreams").bind Json.asArray with
    | none => .error (.configuration "Invalid traffic-split weighted_upstreams")
    | some targets => do
      let jobs ← targetJobs ext owner rule 0 targets
      return jobs ++ (← ruleJobs ext owner (rule + 1) rest)

def inlineUpstreamJobs (ext : Externals) (owner : TrafficSplitOwner) (cfg : Json) :
    ProxyResult (List (UpstreamOccurrence × Upstream)) :=
  match (cfg.get "rules").bind Json.asArray with
  | none => .error (.configuration "Invalid traffic-split rules")
  | some rules => ruleJobs ext owner 0 rules

end TrafficSplit

end Pingsix
