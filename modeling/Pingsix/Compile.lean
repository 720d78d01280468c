import Pingsix.ConfigSet
import Pingsix.Matcher
import Pingsix.PluginBuild

/-!
# Compiling services, global rules and routes

Each runtime object is built from its configuration, the upstream and service
objects of the same candidate, and prepared material. What it references it holds.
-/

namespace Pingsix

/-- An entry that a resource references by id. -/
def referenced {ο : Type} (owner target : String) (objects : HashMap String ο) (id : String) : BuildResult ο :=
  match objects.lookup id with
  | some o => .ok o
  | none => .error { error := .configuration s!"{owner} references missing {target} '{id}'" }

/-- The inline upstream of a service or route; `Owner` and `owner` name it in the error texts. -/
def buildInlineUpstream (ctx : BuildContext) (occurrence : UpstreamOccurrence) (Owner owner : String) :
    Option Upstream → BuildResult (Option ProxyUpstream)
  | none => .ok none
  | some config => do
    let u ← buildUpstream ctx occurrence config s!"{Owner} inline upstream was not prepared" fun e =>
      .internal s!"Failed to create upstream for {owner}: {e.display}"
    return some u

/-- The inline upstream, or the named one, or what is inherited. -/
def resolveUpstream (upstreams : HashMap String ProxyUpstream) (Owner : String)
    (inline : Option ProxyUpstream) (upstreamId : Option String) (inherited : Option ProxyUpstream) :
    BuildResult (Option ProxyUpstream) :=
  match inline, upstreamId with
  | some u, _ => .ok (some u)
  | none, some id => (referenced Owner "upstream" upstreams id).map some
  | none, none => .ok inherited

/-! ## Services -/

structure ProxyService (υ : Type) where
  inner : Service
  upstream : Option υ
  plugins : List (PluginEntry υ)
  inlineUpstream : Option υ

namespace ProxyService

def build (ctx : BuildContext) (service : Service) (upstreams : HashMap String ProxyUpstream) :
    BuildResult (ProxyService ProxyUpstream) := do
  let inlineUpstream ← buildInlineUpstream ctx (.serviceInline service.id) s!"Service '{service.id}'"
    s!"service '{service.id}'" service.upstream
  let upstream ← resolveUpstream upstreams s!"Service '{service.id}'" inlineUpstream service.upstreamId none
  let plugins ← buildPlugins ctx upstreams (.service service.id) service.plugins fun name e =>
    s!"Failed to build plugin '{name}' for service '{service.id}': {e}"
  return { inner := service, upstream, plugins, inlineUpstream }

end ProxyService

/-! ## Global rules -/

structure ProxyGlobalRule (υ : Type) where
  inner : GlobalRule
  plugins : List (PluginEntry υ)

namespace ProxyGlobalRule

def build (ctx : BuildContext) (rule : GlobalRule) (upstreams : HashMap String ProxyUpstream) :
    BuildResult (ProxyGlobalRule ProxyUpstream) := do
  let plugins ← buildPlugins ctx upstreams (.globalRule rule.id) rule.plugins fun name e =>
    s!"Failed to build plugin '{name}' for global rule '{rule.id}': {e}"
  return { inner := rule, plugins }

end ProxyGlobalRule

/-- All rules' plugins by descending priority, then name, then rule id. -/
def buildGlobalPluginExecutor {υ : Type} (rules : HashMap String (ProxyGlobalRule υ)) : ProxyPluginExecutor υ :=
  let sorted := rules.values.insertionSort fun a b => a.inner.id ≤ b.inner.id
  let withRule := sorted.flatMap fun rule => rule.plugins.map fun entry => (rule.inner.id, entry)
  let ordered := withRule.insertionSort fun a b =>
    b.2.priority < a.2.priority ∨ a.2.priority = b.2.priority ∧
      (a.2.name < b.2.name ∨ a.2.name = b.2.name ∧ a.1 ≤ b.1)
  .fromSorted (ordered.map (·.2))

/-! ## Routes -/

/-- What the cache namespace fingerprint hashes: the route and its service without the excluded fields. -/
def cacheNamespace (route : Route) (service : Option Service) : Route × Option Service :=
  ({ route with name := none, methods := [], upstream := none, upstreamId := none, enableWebsocket := false },
    service.map fun s => { s with name := none, hosts := [], upstream := none, upstreamId := none })

structure ProxyRoute (υ : Type) where
  inner : Route
  plugins : List (PluginEntry υ)
  resolvedUpstream : Option υ
  effectiveHosts : List String
  serviceName : Option String
  pluginExecutor : ProxyPluginExecutor υ
  inlineUpstream : Option υ
  cacheNamespace : Route × Option Service
  servesPreflight : Bool

namespace ProxyRoute

/-- The route's own hosts, or else the hosts of its service. -/
def hostsOf (route : Route) (service : Option Service) : List String :=
  if route.getHosts ≠ [] then route.getHosts else service.elim [] (·.hosts)

def merge {υ : Type} (plugins : List (PluginEntry υ)) (service : Option (ProxyService υ)) : List (PluginEntry υ) :=
  match service with
  | some s => mergeRouteAndServicePlugins (fun name => (plugins.map (·.name)).contains name) plugins s.plugins
  | none => plugins

def build (ctx : BuildContext) (route : Route) (upstreams : HashMap String ProxyUpstream)
    (services : HashMap String (ProxyService ProxyUpstream)) : BuildResult (ProxyRoute ProxyUpstream) := do
  let service ← match route.serviceId with
    | some id => (referenced s!"Route '{route.id}'" "service" services id).map some
    | none => .ok none
  let inlineUpstream ← buildInlineUpstream ctx (.routeInline route.id) s!"Route '{route.id}'" s!"route '{route.id}'"
    route.upstream
  let resolvedUpstream ← resolveUpstream upstreams s!"Route '{route.id}'" inlineUpstream route.upstreamId
    (service.bind (·.upstream))
  let plugins ← buildPlugins ctx upstreams (.route route.id) route.plugins fun name e =>
    s!"Failed to build plugin '{name}': {e}"
  let executor := ProxyPluginExecutor.fromSorted (merge plugins service)
  return {
    inner := route
    plugins
    resolvedUpstream
    effectiveHosts := hostsOf route (service.map (·.inner))
    serviceName := service.bind (·.inner.name)
    pluginExecutor := executor
    inlineUpstream
    cacheNamespace := Pingsix.cacheNamespace route (service.map (·.inner))
    servesPreflight := executor.hasPlugin "cors" }

end ProxyRoute

instance {υ : Type} : MatchedRoute (ProxyRoute υ) where
  routeId r := r.inner.id
  priority r := r.inner.priority
  getHosts r := r.effectiveHosts
  getUris r := r.inner.getUris
  methods r := r.inner.methods
  servesPreflight r := r.servesPreflight

end Pingsix
