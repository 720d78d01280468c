import Pingsix.Runtime

/-!
# Candidate plans

Which compiled objects of the previous snapshot are reused, which upstream
occurrences are prepared, and the candidate compiled from both.
-/

namespace Pingsix

/-! ## Reuse decisions -/

/-- The previous objects that are kept, each under its id. -/
def reuseEntries {ν ο : Type} (config : HashMap String ν) (previous : HashMap String ο)
    (keep : ν → ο → ProxyResult Bool) : ProxyResult (HashMap String ο) :=
  config.entries.foldlM
    (fun (kept : HashMap String ο) e =>
      match previous.lookup e.1 with
      | none => .ok kept
      | some existing => do
        if ← keep e.2 existing then return kept.insert e.1 existing
        return kept)
    ∅

/-- The jobs of the entries that are not reused. -/
def collectJobs {ν : Type} (config : HashMap String ν) (reused : String → Bool)
    (jobs : String → ν → ProxyResult (List (UpstreamOccurrence × Upstream))) :
    ProxyResult (List (UpstreamOccurrence × Upstream)) := do
  let collected ← config.entries.mapM fun e => if reused e.1 then .ok [] else jobs e.1 e.2
  return collected.flatten

structure CandidatePlan where
  reusedUpstreams : HashMap String ProxyUpstream
  reusedServices : HashMap String (ProxyService ProxyUpstream)
  reusedGlobalRules : HashMap String (ProxyGlobalRule ProxyUpstream)
  reusedRoutes : HashMap String (ProxyRoute ProxyUpstream)
  reusedSsls : HashMap String ProxySSL
  jobs : List (UpstreamOccurrence × Upstream)

section
variable (ext : Externals)

/-- Whether every upstream a scope references is reused; asked only when the scope's own configuration is unchanged. -/
def depsReused (same : Bool) (deps : ProxyResult (List String)) (reused : HashMap String ProxyUpstream) :
    ProxyResult Bool :=
  if same then do return (← deps).all reused.containsKey else .ok false

def routeServiceReused (route : Route) (reused : HashMap String (ProxyService ProxyUpstream)) : Bool :=
  route.serviceId.all reused.containsKey

def namedJob (id : String) (upstream : Upstream) : ProxyResult (List (UpstreamOccurrence × Upstream)) :=
  .ok [(.named id, upstream)]

def serviceJobs (id : String) (service : Service) : ProxyResult (List (UpstreamOccurrence × Upstream)) := do
  let plugins ← pluginUpstreamJobs ext (.service id) service.plugins
  return (service.upstream.map fun u => (UpstreamOccurrence.serviceInline id, u)).toList ++ plugins

def globalRuleJobs (id : String) (rule : GlobalRule) : ProxyResult (List (UpstreamOccurrence × Upstream)) :=
  pluginUpstreamJobs ext (.globalRule id) rule.plugins

def routeJobs (id : String) (route : Route) : ProxyResult (List (UpstreamOccurrence × Upstream)) := do
  let plugins ← pluginUpstreamJobs ext (.route id) route.plugins
  return (route.upstream.map fun u => (UpstreamOccurrence.routeInline id, u)).toList ++ plugins

def CandidatePlan.build (config : ResourceConfigSet) (previous : RuntimeSnapshot) : ProxyResult CandidatePlan := do
  let old := previous.objects
  let reusedUpstreams ← reuseEntries config.upstreams old.upstreams fun upstream existing =>
    .ok (existing.inner = upstream)
  let reusedServices ← reuseEntries config.services old.services fun service existing =>
    depsReused (existing.inner.same service) (scopeUpstreamDeps ext service) reusedUpstreams
  let reusedGlobalRules ← reuseEntries config.globalRules old.globalRules fun rule existing =>
    depsReused (existing.inner.same rule) (pluginUpstreamDeps ext rule.plugins) reusedUpstreams
  let reusedRoutes ← reuseEntries config.routes old.routes fun route existing =>
    depsReused (routeServiceReused route reusedServices && existing.inner.same route) (scopeUpstreamDepsRule ext route)
      reusedUpstreams
  let reusedSsls ← reuseEntries config.ssls old.ssls fun ssl existing => .ok (existing.inner = ssl)
  let named ← collectJobs config.upstreams reusedUpstreams.containsKey namedJob
  let services ← collectJobs config.services reusedServices.containsKey (serviceJobs ext)
  let globalRules ← collectJobs config.globalRules reusedGlobalRules.containsKey (globalRuleJobs ext)
  let routes ← collectJobs config.routes reusedRoutes.containsKey (routeJobs ext)
  return { reusedUpstreams, reusedServices, reusedGlobalRules, reusedRoutes, reusedSsls
           jobs := named ++ services ++ globalRules ++ routes }

end

/-! ## Compiling a candidate -/

/-- Reused objects as they are, the others built. -/
def buildEntries {ν ο : Type} (config : HashMap String ν) (reused : HashMap String ο) (build : String → ν → BuildResult ο) :
    BuildResult (HashMap String ο) :=
  config.entries.foldlM
    (fun (built : HashMap String ο) e =>
      match reused.lookup e.1 with
      | some existing => .ok (built.insert e.1 existing)
      | none => do return built.insert e.1 (← build e.1 e.2))
    ∅

def CandidateSnapshot.buildPrepared (ctx : BuildContext) (config : ResourceConfigSet) (plan : CandidatePlan) :
    BuildResult CandidateSnapshot := do
  raise (validateRuntimeForm ctx.ext config)
  let upstreams ← buildEntries config.upstreams plan.reusedUpstreams fun id upstream =>
    buildUpstream ctx (.named id) upstream s!"Upstream '{id}' was not prepared"
  let services ← buildEntries config.services plan.reusedServices fun _ service =>
    ProxyService.build ctx service upstreams
  let globalRules ← buildEntries config.globalRules plan.reusedGlobalRules fun _ rule =>
    ProxyGlobalRule.build ctx rule upstreams
  let routes ← buildEntries config.routes plan.reusedRoutes fun _ route =>
    ProxyRoute.build ctx route upstreams services
  let ssls ← buildEntries config.ssls plan.reusedSsls fun _ ssl => raise (ProxySSL.tryFrom ctx.ext.x509 ssl)
  return { upstreams, services, globalRules, routes, ssls }

end Pingsix
