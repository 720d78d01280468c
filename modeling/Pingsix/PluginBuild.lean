import Mathlib.Data.List.Sort
import Pingsix.Lib.BinarySearch
import Pingsix.LoadBalancer
import Pingsix.Plugins

/-!
# Building plugins

The factories: a plain plugin from its configuration, traffic-split with the
named upstreams of the candidate and its prepared inline ones, ai-proxy with its
prepared endpoint. The compiled forms are generic over the upstream objects they
hold.
-/

namespace Pingsix

/-! ## Compiled plugins -/

/-- A weighted target after compilation; passing through keeps the route's own upstream. -/
inductive WeightedTarget (υ : Type) where
  | upstream (u : υ)
  | passThrough
  deriving DecidableEq, Repr

structure CompiledRule (υ : Type) where
  targets : List (Nat × WeightedTarget υ)
  totalWeight : Nat
  deriving DecidableEq, Repr

inductive PluginScope where
  | global
  | route
  deriving DecidableEq, Repr

inductive PluginInstance (υ : Type) where
  | plain (config : Json)
  | trafficSplit (config : TrafficSplit.PluginConfig) (rules : List (CompiledRule υ))
  | aiProxy (config : AiProxy.AiProxyConfig) (endpoint : AiProxy.ResolvedEndpoint) (upstream : υ) (scope : PluginScope)
  deriving DecidableEq

/-- A plugin object with its name and priority; which object it is, its owner and the candidate tell. -/
structure PluginEntry (υ : Type) where
  generation : Nat
  owner : TrafficSplitOwner
  name : String
  priority : Int
  plugin : PluginInstance υ
  deriving DecidableEq

/-- Descending priority, then ascending name. -/
def PluginEntry.before {υ : Type} (a b : PluginEntry υ) : Prop :=
  b.priority < a.priority ∨ a.priority = b.priority ∧ a.name ≤ b.name

instance {υ : Type} : DecidableRel (PluginEntry.before (υ := υ)) := fun a b =>
  inferInstanceAs (Decidable (b.priority < a.priority ∨ a.priority = b.priority ∧ a.name ≤ b.name))

def sortPluginsByPriorityDesc {υ : Type} (entries : List (PluginEntry υ)) : List (PluginEntry υ) :=
  entries.insertionSort PluginEntry.before

/-! ## Factories -/

section
variable (ctx : BuildContext) (upstreams : HashMap String ProxyUpstream) (owner : TrafficSplitOwner)

namespace TrafficSplit

def buildTarget (ruleIdx upstreamIdx : Nat) (wu : WeightedUpstream) :
    BuildResult (Nat × WeightedTarget ProxyUpstream) := do
  raise (checkTarget wu)
  match wu.upstreamId, wu.upstream with
  | some id, _ =>
    match upstreams.lookup id with
    | some u => return (wu.weight, .upstream u)
    | none => throw { error := .configuration s!"Traffic-split references missing upstream '{id}'" }
  | none, some inline => do
    let u ← buildUpstream ctx (.trafficSplit owner ruleIdx upstreamIdx) inline
      s!"Traffic-split inline upstream {ruleIdx}/{upstreamIdx} was not prepared"
    return (wu.weight, .upstream u)
  | none, none => return (wu.weight, .passThrough)

def buildRule (ruleIdx : Nat) (rule : MatchRule) : BuildResult (CompiledRule ProxyUpstream) := do
  raise (checkRule ruleIdx rule)
  let totalWeight ← raise (TrafficSplit.totalWeight rule)
  let targets ← rule.weightedUpstreams.zipIdx.mapM fun wu => buildTarget ctx upstreams owner ruleIdx wu.2 wu.1
  return { targets, totalWeight }

def create (cfg : Json) : BuildResult (PluginInstance ProxyUpstream) := do
  let config ← raise (parse ctx.ext cfg)
  if config.validate ≠ [] then throw { error := .validationStructured config.validate }
  if config.rules = [] then throw { error := .plugin "Traffic-split plugin requires at least one rule" }
  let rules ← config.rules.zipIdx.mapM fun rule => buildRule ctx upstreams owner rule.2 rule.1
  return .trafficSplit config rules

end TrafficSplit

namespace AiProxy

def ownerId : TrafficSplitOwner → String
  | .route id => s!"route '{id}'"
  | .service id => s!"service '{id}'"
  | .globalRule id => s!"global-rule '{id}'"

def scopeOf : TrafficSplitOwner → PluginScope
  | .globalRule _ => .global
  | .route _ | .service _ => .route

def create (cfg : Json) : BuildResult (PluginInstance ProxyUpstream) := do
  let config ← raise (AiProxyConfig.parse ctx.ext cfg)
  let endpoint ← raise (resolveEndpoint ctx.ext.http config)
  let u ← buildUpstream ctx (.aiProxy owner) (buildProviderUpstreamConfig config endpoint)
    s!"ai-proxy provider upstream for {ownerId owner} was not prepared (DNS preparation missing)"
  return .aiProxy config endpoint u (scopeOf owner)

end AiProxy

def PluginFactory.create (factory : PluginFactory) (cfg : Json) : BuildResult (PluginInstance ProxyUpstream) :=
  match factory with
  | .plain create => (raise (create cfg)).map fun _ => .plain cfg
  | .trafficSplit => TrafficSplit.create ctx upstreams owner cfg
  | .aiProxy => AiProxy.create ctx owner cfg

def buildPluginWithUpstreams (name : String) (cfg : Json) : BuildResult (PluginEntry ProxyUpstream) :=
  match pluginMeta ctx.ext name with
  | none => .error { error := .plugin s!"Unknown plugin type: {name}" }
  | some entry =>
    (entry.factory.create ctx upstreams owner cfg).map fun plugin =>
      { generation := ctx.generation, owner, name, priority := entry.priority, plugin }

/-- The plugins of one resource, sorted; the wrapper writes the plugin's name into its error. -/
def buildPlugins (plugins : HashMap String Json) (wrap : String → String → String) :
    BuildResult (List (PluginEntry ProxyUpstream)) := do
  let entries ← plugins.entries.mapM fun e =>
    (buildPluginWithUpstreams ctx upstreams owner e.1 e.2).mapError fun err =>
      { err with error := .plugin (wrap e.1 err.error.display) }
  return sortPluginsByPriorityDesc entries

end

/-! ## Executors -/

structure ProxyPluginExecutor (υ : Type) where
  plugins : List (PluginEntry υ) := []
  deriving DecidableEq

namespace ProxyPluginExecutor

variable {υ : Type}

def fromSorted (plugins : List (PluginEntry υ)) : ProxyPluginExecutor υ := ⟨plugins⟩

def hasPlugin (executor : ProxyPluginExecutor υ) (name : String) : Bool :=
  executor.plugins.any fun entry => entry.name = name

end ProxyPluginExecutor

/-! ## Merging -/

/-- The names of the plugins, sorted and each once. -/
def buildPluginNameIndex {υ : Type} (plugins : List (PluginEntry υ)) : List String :=
  ((plugins.map (·.name)).insertionSort (· ≤ ·)).dedup

def routeOverridesPlugin (routePluginNames : List String) (pluginName : String) : Bool :=
  BinarySearch.search (fun n => compareOfLessAndEq n pluginName) routePluginNames

/-- Merge two lists in descending priority; on equal priorities the route's plugin comes first, and a service
plugin is left out when the route has one of its name. -/
def mergeRouteAndServicePlugins {υ : Type} (overridden : String → Bool) :
    List (PluginEntry υ) → List (PluginEntry υ) → List (PluginEntry υ)
  | [], sps => sps.filter fun sp => !overridden sp.name
  | rp :: rps, sps => takeService rp (fun sps => mergeRouteAndServicePlugins overridden rps sps) sps
where
  /-- Service plugins until the route's next one is due. -/
  takeService (rp : PluginEntry υ) (rest : List (PluginEntry υ) → List (PluginEntry υ)) :
      List (PluginEntry υ) → List (PluginEntry υ)
    | [] => rp :: rest []
    | sp :: sps =>
      if sp.priority ≤ rp.priority then rp :: rest (sp :: sps)
      else if overridden sp.name then takeService rp rest sps
      else sp :: takeService rp rest sps

end Pingsix
