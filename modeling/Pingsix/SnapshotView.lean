import Pingsix.Lib.Naturality
import Pingsix.PlanSound

/-!
# What a snapshot shows

The objects of a snapshot as something that looks at upstream objects sees them:
their plugin tables as functions, their upstreams through the look. Two looks
matter: the one that tells every object apart, and the declared configuration,
which two builds of one upstream share.
-/

namespace Pingsix

/-! ## Looks -/

/-- A way to look at upstream objects, and at the candidates plugin objects were built for. -/
structure Look (ω : Type) where
  upstream : ProxyUpstream → ω
  generation : Nat → Nat

namespace Look

/-- Every object is told apart. -/
def identity : Look ProxyUpstream := ⟨id, id⟩

/-- Only the configuration is seen. -/
def declared : Look Upstream := ⟨ProxyUpstream.declared, fun _ => 0⟩

end Look

/-! ## Plugins -/

section
variable {υ ω : Type} (f : υ → ω)

def WeightedTarget.map : WeightedTarget υ → WeightedTarget ω
  | .upstream u => .upstream (f u)
  | .passThrough => .passThrough

def CompiledRule.map (rule : CompiledRule υ) : CompiledRule ω where
  targets := rule.targets.map fun t => (t.1, t.2.map f)
  totalWeight := rule.totalWeight

def PluginInstance.map : PluginInstance υ → PluginInstance ω
  | .plain config => .plain config
  | .trafficSplit config rules => .trafficSplit config (rules.map (·.map f))
  | .aiProxy config endpoint upstream scope => .aiProxy config endpoint (f upstream) scope

end

section
variable {ω : Type} (L : Look ω)

def PluginEntry.seen (e : PluginEntry ProxyUpstream) : PluginEntry ω where
  generation := L.generation e.generation
  owner := e.owner
  name := e.name
  priority := e.priority
  plugin := e.plugin.map L.upstream

/-! ## Resources -/

/-- The configuration without its plugin table, and the table as a function. -/
def Route.shown (route : Route) : Route × (String → Option Json) :=
  ({ route with plugins := ∅ }, fun name => route.plugins.lookup name)

def Service.shown (service : Service) : Service × (String → Option Json) :=
  ({ service with plugins := ∅ }, fun name => service.plugins.lookup name)

def GlobalRule.shown (rule : GlobalRule) : GlobalRule × (String → Option Json) :=
  ({ rule with plugins := ∅ }, fun name => rule.plugins.lookup name)

structure ServiceView (ω : Type) where
  inner : Service × (String → Option Json)
  upstream : Option ω
  plugins : List (PluginEntry ω)
  inlineUpstream : Option ω

def ProxyService.seen (s : ProxyService ProxyUpstream) : ServiceView ω where
  inner := s.inner.shown
  upstream := s.upstream.map L.upstream
  plugins := s.plugins.map (·.seen L)
  inlineUpstream := s.inlineUpstream.map L.upstream

structure GlobalRuleView (ω : Type) where
  inner : GlobalRule × (String → Option Json)
  plugins : List (PluginEntry ω)

def ProxyGlobalRule.seen (rule : ProxyGlobalRule ProxyUpstream) : GlobalRuleView ω where
  inner := rule.inner.shown
  plugins := rule.plugins.map (·.seen L)

structure RouteView (ω : Type) where
  inner : Route × (String → Option Json)
  plugins : List (PluginEntry ω)
  resolvedUpstream : Option ω
  effectiveHosts : List String
  serviceName : Option String
  pluginExecutor : List (PluginEntry ω)
  inlineUpstream : Option ω
  cacheNamespace : (Route × (String → Option Json)) × Option (Service × (String → Option Json))
  servesPreflight : Bool

def ProxyRoute.seen (r : ProxyRoute ProxyUpstream) : RouteView ω where
  inner := r.inner.shown
  plugins := r.plugins.map (·.seen L)
  resolvedUpstream := r.resolvedUpstream.map L.upstream
  effectiveHosts := r.effectiveHosts
  serviceName := r.serviceName
  pluginExecutor := r.pluginExecutor.plugins.map (·.seen L)
  inlineUpstream := r.inlineUpstream.map L.upstream
  cacheNamespace := (r.cacheNamespace.1.shown, r.cacheNamespace.2.map (·.shown))
  servesPreflight := r.servesPreflight

end

instance {ω : Type} : MatchedRoute (RouteView ω) where
  routeId r := r.inner.1.id
  priority r := r.inner.1.priority
  getHosts r := r.effectiveHosts
  getUris r := r.inner.1.getUris
  methods r := r.inner.1.methods
  servesPreflight r := r.servesPreflight

/-! ## Compiled snapshots -/

/-- The snapshots that one instance publishes with the configuration each was compiled from: the empty one to begin
with, and then each compiled with what could be reused of the one before. -/
inductive Compiled (M : Matchit) (ext : Externals) : ResourceConfigSet → RuntimeSnapshot → Prop
  | empty : Compiled M ext {} .empty
  | next {before config : ResourceConfigSet} {previous snapshot : RuntimeSnapshot} {plan : CandidatePlan}
      {ctx : BuildContext} {candidate : CandidateSnapshot} {revision : Int} (h : Compiled M ext before previous)
      (hid : config.Identified) (hplan : CandidatePlan.build ext config previous = .ok plan) (hext : ctx.ext = ext)
      (hbuild : CandidateSnapshot.buildPrepared ctx config plan = .ok candidate)
      (hcompile : RuntimeSnapshot.compile M candidate revision = .ok snapshot) : Compiled M ext config snapshot

end Pingsix
