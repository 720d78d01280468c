import Pingsix.Lib.Except
import Pingsix.Plugins

/-!
# The typed configuration graph

The resources of one graph by id, and the whole-graph validation: every resource
on its own, then the references between them.
-/

namespace Pingsix

structure ResourceConfigSet where
  upstreams : HashMap String Upstream := ∅
  services : HashMap String Service := ∅
  globalRules : HashMap String GlobalRule := ∅
  routes : HashMap String Route := ∅
  ssls : HashMap String SSL := ∅

/-- Run a fallible check on every entry of a map. -/
def forEntries {ν : Type} (m : HashMap String ν) (check : String → ν → ProxyResult Unit) : ProxyResult Unit :=
  m.entries.forM fun e => check e.1 e.2

theorem forEntries_eq_ok {ν : Type} {m : HashMap String ν} {check : String → ν → ProxyResult Unit} :
    forEntries m check = .ok () ↔ ∀ id v, m.lookup id = some v → check id v = .ok () := by
  unfold forEntries
  rw [Except.forM_eq_ok]
  constructor
  · intro h id v hv
    exact h ⟨id, v⟩ ((HashMap.mem_entries_iff m id v).mpr hv)
  · intro h e he
    exact h e.1 e.2 ((HashMap.mem_entries_iff m e.1 e.2).mp he)

section
variable (ext : Externals)

/-- The structural check of one resource, named by its kind and id. -/
def validateResource (kind id : String) (errors : List FieldError) : ProxyResult Unit :=
  if errors = [] then .ok ()
  else .error (.configuration s!"{kind} '{id}' validation failed: {Nodes.displayErrors errors}")

/-- Every named upstream a plugin references must be there. -/
def validatePluginUpstreamRefs (owner : String) (plugins : HashMap String Json) (upstreams : HashMap String Upstream) :
    ProxyResult Unit :=
  forEntries plugins fun name value => do
    validatePluginConfig ext name value
    (← pluginUpstreamRefs ext name value).forM fun id =>
      if upstreams.containsKey id then .ok ()
      else .error (.configuration s!"{owner} plugin '{name}' references missing upstream '{id}'")

/-- A reference written in a resource of the kind `owner` must name an entry of the map. -/
def validateReference {ν : Type} (owner : String) (target : String) (entries : HashMap String ν) :
    Option String → ProxyResult Unit
  | none => .ok ()
  | some id =>
    if entries.containsKey id then .ok ()
    else .error (.configuration s!"{owner} references missing {target} '{id}'")

def validateRouteRefs (set : ResourceConfigSet) (route : Route) : ProxyResult Unit := do
  validateReference s!"Route '{route.id}'" "service" set.services route.serviceId
  if route.upstream.isNone then
    validateReference s!"Route '{route.id}'" "upstream" set.upstreams route.upstreamId
  validatePluginUpstreamRefs ext s!"Route '{route.id}'" route.plugins set.upstreams

def validateServiceRefs (set : ResourceConfigSet) (service : Service) : ProxyResult Unit := do
  if service.upstream.isNone then
    validateReference s!"Service '{service.id}'" "upstream" set.upstreams service.upstreamId
  validatePluginUpstreamRefs ext s!"Service '{service.id}'" service.plugins set.upstreams

def validateGlobalRuleRefs (set : ResourceConfigSet) (rule : GlobalRule) : ProxyResult Unit :=
  validatePluginUpstreamRefs ext s!"GlobalRule '{rule.id}'" rule.plugins set.upstreams

def validateConfigSet (set : ResourceConfigSet) : ProxyResult Unit := do
  forEntries set.upstreams fun _ u => validateResource "Upstream" u.id u.validate
  forEntries set.services fun _ s => validateResource "Service" s.id s.validate
  forEntries set.globalRules fun _ g => validateResource "GlobalRule" g.id g.validate
  forEntries set.routes fun _ r => validateResource "Route" r.id r.validate
  forEntries set.ssls fun _ s => validateResource "SSL" s.id s.validate
  forEntries set.routes fun _ r => validateRouteRefs ext set r
  forEntries set.services fun _ s => validateServiceRefs ext set s
  forEntries set.globalRules fun _ g => validateGlobalRuleRefs ext set g

/-- The gate on a set whose secrets are decrypted. -/
def validateRuntimeForm (set : ResourceConfigSet) : ProxyResult Unit := validateConfigSet ext set

/-- The gate on a set whose secrets may still be ciphertext. -/
def validateStoredForm (set : ResourceConfigSet) : ProxyResult Unit := validateConfigSet ext set

/-! ## Dependencies -/

def pluginUpstreamDeps (plugins : HashMap String Json) : ProxyResult (List String) := do
  let refs ← plugins.entries.mapM fun e => pluginUpstreamRefs ext e.1 e.2
  return refs.flatten

def scopeUpstreamDeps (service : Service) : ProxyResult (List String) := do
  return (← pluginUpstreamDeps ext service.plugins) ++ service.upstreamId.toList

def scopeUpstreamDepsRule (route : Route) : ProxyResult (List String) := do
  return (← pluginUpstreamDeps ext route.plugins) ++ route.upstreamId.toList

end

end Pingsix
