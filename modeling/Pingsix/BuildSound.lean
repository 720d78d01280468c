import Pingsix.Plan
import Pingsix.TrafficSplitSound

/-!
# The prepared material a build takes

For every factory and every resource, the occurrences whose prepared material its
build takes: a build that succeeds found all of them, and one that reports an
occurrence as not prepared reports one of them that is missing.
-/

namespace Pingsix

open TrafficSplit (keys keys_append)

/-! ## Route objects -/

namespace ProxyRoute

/-- The service a route names. -/
def serviceOf (services : HashMap String (ProxyService ProxyUpstream)) (route : Route) :
    BuildResult (Option (ProxyService ProxyUpstream)) :=
  match route.serviceId with
  | some id => (referenced s!"Route '{route.id}'" "service" services id).map some
  | none => .ok none

/-- The route object made of its parts. -/
def assemble (route : Route) (service : Option (ProxyService ProxyUpstream)) (inlineUpstream resolvedUpstream : Option ProxyUpstream)
    (plugins : List (PluginEntry ProxyUpstream)) : ProxyRoute ProxyUpstream where
  inner := route
  plugins
  resolvedUpstream
  effectiveHosts := hostsOf route (service.map (·.inner))
  serviceName := service.bind (·.inner.name)
  pluginExecutor := ProxyPluginExecutor.fromSorted (merge plugins service)
  inlineUpstream
  cacheNamespace := Pingsix.cacheNamespace route (service.map (·.inner))
  servesPreflight := (ProxyPluginExecutor.fromSorted (merge plugins service)).hasPlugin "cors"

theorem build_eq_ok {ctx : BuildContext} {route : Route} {ups : HashMap String ProxyUpstream}
    {svcs : HashMap String (ProxyService ProxyUpstream)} {r : ProxyRoute ProxyUpstream} :
    build ctx route ups svcs = .ok r ↔ ∃ service inline upstream plugins, serviceOf svcs route = .ok service ∧
      buildInlineUpstream ctx (.routeInline route.id) s!"Route '{route.id}'" s!"route '{route.id}'" route.upstream =
        .ok inline ∧
      resolveUpstream ups s!"Route '{route.id}'" inline route.upstreamId (service.bind (·.upstream)) = .ok upstream ∧
      buildPlugins ctx ups (.route route.id) route.plugins (fun name e => s!"Failed to build plugin '{name}': {e}") =
        .ok plugins ∧
      r = assemble route service inline upstream plugins := by
  unfold build serviceOf
  cases route.serviceId with
  | none =>
    simp only [Except.bind_eq_ok, Except.pure_eq_ok]
    constructor
    · rintro ⟨service, hs, inline, hi, upstream, hu, plugins, hp, rfl⟩
      exact ⟨service, inline, upstream, plugins, hs, hi, hu, hp, rfl⟩
    · rintro ⟨service, inline, upstream, plugins, hs, hi, hu, hp, rfl⟩
      exact ⟨service, hs, inline, hi, upstream, hu, plugins, hp, rfl⟩
  | some id =>
    simp only [Except.bind_eq_ok, Except.pure_eq_ok]
    constructor
    · rintro ⟨service, hs, inline, hi, upstream, hu, plugins, hp, rfl⟩
      exact ⟨service, inline, upstream, plugins, hs, hi, hu, hp, rfl⟩
    · rintro ⟨service, inline, upstream, plugins, hs, hi, hu, hp, rfl⟩
      exact ⟨service, hs, inline, hi, upstream, hu, plugins, hp, rfl⟩

end ProxyRoute

/-! ## The inventory -/

/-- The three kinds of entries of the inventory. -/
inductive PluginMeta.Kind (ext : Externals) : PluginMeta → Prop
  | plain (name : String) (priority : Int) (secrets : Option (List String)) : Kind ext (.ofPlain ext name priority secrets)
  | trafficSplit : Kind ext
      { name := "traffic-split", priority := 966, factory := .trafficSplit
        validate := TrafficSplit.validateConfig ext, upstreamRefs := some (TrafficSplit.namedUpstreamIds ext)
        upstreamJobs := some (TrafficSplit.inlineUpstreamJobs ext) }
  | aiProxy : Kind ext
      { name := "ai-proxy", priority := 2900, factory := .aiProxy, secretsTransform := some AiProxy.secretsTransform
        validate := AiProxy.validateConfig ext, upstreamJobs := some (AiProxy.inlineUpstreamJobs ext) }

theorem kind_of_mem (ext : Externals) : ∀ entry ∈ pluginMetas ext, PluginMeta.Kind ext entry := by
  unfold pluginMetas
  simp only [List.forall_mem_cons, List.not_mem_nil, false_imp_iff, implies_true, and_true]
  and_intros
  all_goals first | exact .plain _ _ _ | exact .trafficSplit | exact .aiProxy

theorem kind_of_pluginMeta {ext : Externals} {name : String} {entry : PluginMeta}
    (h : pluginMeta ext name = some entry) : PluginMeta.Kind ext entry :=
  kind_of_mem ext entry (List.mem_of_find?_eq_some h)

theorem name_of_pluginMeta {ext : Externals} {name : String} {entry : PluginMeta}
    (h : pluginMeta ext name = some entry) : entry.name = name := by
  simpa using List.find?_some h

/-! ## Declared upstreams -/

/-- The upstreams a factory builds itself, from the typed configuration. -/
def PluginFactory.upstreams (ext : Externals) (owner : TrafficSplitOwner) (cfg : Json) :
    PluginFactory → ProxyResult (List (UpstreamOccurrence × Upstream))
  | .plain _ => .ok []
  | .trafficSplit => (TrafficSplit.parse ext cfg).map fun config => config.inlineUpstreams owner
  | .aiProxy => do
    let config ← AiProxy.AiProxyConfig.parse ext cfg
    let endpoint ← AiProxy.resolveEndpoint ext.http config
    return [(.aiProxy owner, AiProxy.buildProviderUpstreamConfig config endpoint)]

def declaredUpstreams (ext : Externals) (owner : TrafficSplitOwner) (name : String) (cfg : Json) :
    ProxyResult (List (UpstreamOccurrence × Upstream)) :=
  match pluginMeta ext name with
  | none => .ok []
  | some entry => entry.factory.upstreams ext owner cfg

/-- The keys of a list of jobs, none when there is no list. -/
def keysOf (r : ProxyResult (List (UpstreamOccurrence × Upstream))) : List UpstreamOccurrence :=
  match r with
  | .ok jobs => keys jobs
  | .error _ => []

def inlineKeys (occurrence : UpstreamOccurrence) (inline : Option Upstream) : List UpstreamOccurrence :=
  keys (inline.map fun u => (occurrence, u)).toList

def pluginKeys (ext : Externals) (owner : TrafficSplitOwner) (plugins : HashMap String Json) : List UpstreamOccurrence :=
  plugins.entries.flatMap fun e => keysOf (declaredUpstreams ext owner e.1 e.2)

def serviceKeys (ext : Externals) (id : String) (service : Service) : List UpstreamOccurrence :=
  inlineKeys (.serviceInline id) service.upstream ++ pluginKeys ext (.service id) service.plugins

def globalRuleKeys (ext : Externals) (id : String) (rule : GlobalRule) : List UpstreamOccurrence :=
  pluginKeys ext (.globalRule id) rule.plugins

def routeKeys (ext : Externals) (id : String) (route : Route) : List UpstreamOccurrence :=
  inlineKeys (.routeInline id) route.upstream ++ pluginKeys ext (.route id) route.plugins

/-- The occurrences whose prepared material compiling a candidate takes. -/
def CandidatePlan.lookups (ext : Externals) (config : ResourceConfigSet) (plan : CandidatePlan) :
    List UpstreamOccurrence :=
  (config.upstreams.entries.flatMap fun e => if plan.reusedUpstreams.containsKey e.1 then [] else [.named e.1]) ++
    ((config.services.entries.flatMap fun e =>
      if plan.reusedServices.containsKey e.1 then [] else serviceKeys ext e.1 e.2) ++
    ((config.globalRules.entries.flatMap fun e =>
      if plan.reusedGlobalRules.containsKey e.1 then [] else globalRuleKeys ext e.1 e.2) ++
    (config.routes.entries.flatMap fun e =>
      if plan.reusedRoutes.containsKey e.1 then [] else routeKeys ext e.1 e.2)))

/-! ## Taking prepared material -/

/-- A success found all the keys' material; a key reported as not prepared is one of them and missing. -/
structure Takes (ctx : BuildContext) (ks : List UpstreamOccurrence) {α : Type} (r : BuildResult α) : Prop where
  found : ∀ a, r = .ok a → ∀ occ ∈ ks, ctx.prepared.containsKey occ = true
  reported : ∀ e occ, r = .error e → e.unprepared = some occ → occ ∈ ks ∧ ctx.prepared.containsKey occ = false

namespace Takes

variable {ctx : BuildContext} {α β : Type} {ks ks' : List UpstreamOccurrence}

theorem ok (a : α) : Takes ctx [] (.ok a) where
  found _ _ _ h := by cases h
  reported _ _ h := by cases h

theorem error {e : BuildError} (h : e.unprepared = none) : Takes ctx ks (.error e : BuildResult α) where
  found _ h := by cases h
  reported e' occ he ho := by
    cases he
    rw [h] at ho
    cases ho

theorem raise (r : ProxyResult α) : Takes ctx [] (raise r) := by
  cases r with
  | ok a => exact ok a
  | error e => exact error rfl

theorem bind {x : BuildResult α} {f : α → BuildResult β} (hx : Takes ctx ks x)
    (hf : ∀ a, x = .ok a → Takes ctx ks' (f a)) : Takes ctx (ks ++ ks') (x >>= f) := by
  cases x with
  | error e =>
    constructor
    · intro _ h
      cases h
    · intro e' occ h ho
      cases h
      obtain ⟨hm, hp⟩ := hx.reported e occ rfl ho
      exact ⟨List.mem_append_left _ hm, hp⟩
  | ok a =>
    have hfa := hf a rfl
    constructor
    · intro b hb occ hm
      cases List.mem_append.mp hm with
      | inl hm => exact hx.found a rfl occ hm
      | inr hm => exact hfa.found b hb occ hm
    · intro e occ he ho
      obtain ⟨hm, hp⟩ := hfa.reported e occ he ho
      exact ⟨List.mem_append_right _ hm, hp⟩

/-- A step that takes nothing; the keys of the rest may depend on its success. -/
theorem raise_bind {r : ProxyResult α} {f : α → BuildResult β} (hf : ∀ a, r = .ok a → Takes ctx ks (f a)) :
    Takes ctx ks (Pingsix.raise r >>= f) := by
  cases r with
  | error e => exact error rfl
  | ok a => exact hf a rfl

theorem mapError {x : BuildResult α} {f : BuildError → BuildError} (hx : Takes ctx ks x)
    (hf : ∀ e, (f e).unprepared = e.unprepared) : Takes ctx ks (x.mapError f) := by
  cases x with
  | ok a => exact hx
  | error e =>
    constructor
    · intro _ h
      cases h
    · intro e' occ h ho
      cases h
      rw [hf] at ho
      exact hx.reported e occ rfl ho

theorem map {x : BuildResult α} {f : α → β} (hx : Takes ctx ks x) : Takes ctx ks (x.map f) := by
  cases x with
  | error e =>
    constructor
    · intro _ h
      cases h
    · intro e' occ h
      cases h
      exact hx.reported e occ rfl
  | ok a =>
    constructor
    · intro _ _
      exact hx.found a rfl
    · intro _ _ h
      cases h

theorem snoc {x : BuildResult α} {f : α → BuildResult β} (hx : Takes ctx ks x)
    (hf : ∀ a, x = .ok a → Takes ctx [] (f a)) : Takes ctx ks (x >>= f) := by
  have := bind hx hf
  rwa [List.append_nil] at this

theorem mapM {f : α → BuildResult β} {k : α → List UpstreamOccurrence} : ∀ {l : List α},
    (∀ a ∈ l, Takes ctx (k a) (f a)) → Takes ctx (l.flatMap k) (l.mapM f)
  | [], _ => ok []
  | a :: l, h => by
    rw [List.mapM_cons, List.flatMap_cons]
    refine bind (h a List.mem_cons_self) fun b _ => ?_
    exact snoc (mapM fun a' ha' => h a' (List.mem_cons_of_mem a ha')) fun bs _ => ok (b :: bs)

theorem foldlM {f : β → α → BuildResult β} {k : α → List UpstreamOccurrence} : ∀ {l : List α} {b : β},
    (∀ a ∈ l, ∀ b, Takes ctx (k a) (f b a)) → Takes ctx (l.flatMap k) (l.foldlM f b)
  | [], b, _ => ok b
  | a :: l, b, h => by
    rw [List.foldlM_cons, List.flatMap_cons]
    exact bind (h a List.mem_cons_self b) fun b' _ => foldlM fun a' ha' => h a' (List.mem_cons_of_mem a ha')

end Takes

/-! ## Building upstreams and plugins -/

section
variable {ctx : BuildContext} {ups : HashMap String ProxyUpstream} {owner : TrafficSplitOwner}

theorem takes_buildUpstream (occurrence : UpstreamOccurrence) (u : Upstream) (message : String)
    (wrap : ProxyError → ProxyError) : Takes ctx [occurrence] (buildUpstream ctx occurrence u message wrap) := by
  unfold buildUpstream
  refine Takes.snoc ?_ fun p _ => ?_
  · unfold BuildContext.take
    cases hp : ctx.prepared.lookup occurrence with
    | some p =>
      constructor
      · intro _ _ occ hm
        cases List.mem_singleton.mp hm
        simp [HashMap.containsKey, hp]
      · intro _ _ h
        cases h
    | none =>
      constructor
      · intro _ h
        cases h
      · intro e occ h ho
        cases h
        cases ho
        exact ⟨List.mem_singleton_self _, by simp [HashMap.containsKey, hp]⟩
  · cases ProxyUpstream.build ctx occurrence u p with
    | ok _ => exact Takes.ok _
    | error _ => exact Takes.error rfl

namespace TrafficSplit

theorem takes_buildTarget (r t : Nat) (w : WeightedUpstream) :
    Takes ctx (inlineKeys (.trafficSplit owner r t) w.upstream) (buildTarget ctx ups owner r t w) := by
  unfold buildTarget
  refine Takes.raise_bind fun _ hc => ?_
  cases hid : w.upstreamId with
  | some id =>
    have hn : w.upstream = none := by
      cases hu : w.upstream with
      | none => rfl
      | some u => simp [checkTarget, hid, hu] at hc
    rw [hn]
    cases hl : ups.lookup id with
    | some u =>
      simp only [hl]
      exact Takes.ok _
    | none =>
      simp only [hl]
      exact Takes.error rfl
  | none =>
    cases hu : w.upstream with
    | none => exact Takes.ok _
    | some u => exact Takes.snoc (takes_buildUpstream _ u _ _) fun _ _ => Takes.ok _

theorem keys_targetUpstreams (r : Nat) : ∀ (ws : List WeightedUpstream) (n : Nat),
    keys (targetUpstreams owner r n ws) =
      (ws.zipIdx n).flatMap fun p => inlineKeys (.trafficSplit owner r p.2) p.1.upstream
  | [], n => rfl
  | w :: ws, n => by
    rw [targetUpstreams, keys_append, keys_targetUpstreams r ws (n + 1), List.zipIdx_cons, List.flatMap_cons]
    rfl

theorem keys_ruleUpstreams : ∀ (rules : List MatchRule) (n : Nat),
    keys (ruleUpstreams owner n rules) =
      (rules.zipIdx n).flatMap fun p => keys (targetUpstreams owner p.2 0 p.1.weightedUpstreams)
  | [], n => rfl
  | r :: rules, n => by
    rw [ruleUpstreams, keys_append, keys_ruleUpstreams rules (n + 1), List.zipIdx_cons, List.flatMap_cons]

theorem takes_buildRule (n : Nat) (rule : MatchRule) :
    Takes ctx (keys (targetUpstreams owner n 0 rule.weightedUpstreams)) (buildRule ctx ups owner n rule) := by
  unfold buildRule
  refine Takes.raise_bind fun _ _ => Takes.raise_bind fun _ _ => Takes.snoc ?_ fun _ _ => Takes.ok _
  rw [keys_targetUpstreams]
  exact Takes.mapM fun p _ => takes_buildTarget n p.2 p.1

theorem takes_create {cfg : Json} : Takes ctx
    (keysOf ((parse ctx.ext cfg).map fun config => config.inlineUpstreams owner)) (create ctx ups owner cfg) := by
  unfold create
  refine Takes.raise_bind fun config hp => ?_
  rw [hp]
  by_cases hv : config.validate = []
  · by_cases hr : config.rules = []
    · simp only [hv, hr, ne_eq, not_true, if_true, if_false]
      exact Takes.error rfl
    · simp only [hv, hr, ne_eq, not_true, if_false]
      refine Takes.snoc ?_ fun _ _ => Takes.ok _
      show Takes ctx (keys (ruleUpstreams owner 0 config.rules)) _
      rw [keys_ruleUpstreams]
      exact Takes.mapM fun p _ => takes_buildRule p.2 p.1
  · simp only [hv, ne_eq, not_false_eq_true, if_true]
    exact Takes.error rfl

end TrafficSplit

namespace AiProxy

theorem takes_create {cfg : Json} : Takes ctx (keysOf (PluginFactory.aiProxy.upstreams ctx.ext owner cfg))
    (create ctx owner cfg) := by
  unfold create PluginFactory.upstreams
  refine Takes.raise_bind fun config hp => Takes.raise_bind fun endpoint he => ?_
  rw [hp]
  have hkeys : keysOf (do
      let endpoint ← resolveEndpoint ctx.ext.http config
      return [(UpstreamOccurrence.aiProxy owner, buildProviderUpstreamConfig config endpoint)]) =
        [UpstreamOccurrence.aiProxy owner] := by
    rw [he]
    rfl
  show Takes ctx (keysOf (do
    let endpoint ← resolveEndpoint ctx.ext.http config
    return [(UpstreamOccurrence.aiProxy owner, buildProviderUpstreamConfig config endpoint)])) _
  rw [hkeys]
  exact Takes.snoc (takes_buildUpstream _ _ _ _) fun _ _ => Takes.ok _

end AiProxy

theorem PluginFactory.takes_create {entry : PluginMeta} (h : PluginMeta.Kind ctx.ext entry) {cfg : Json} :
    Takes ctx (keysOf (entry.factory.upstreams ctx.ext owner cfg)) (entry.factory.create ctx ups owner cfg) := by
  cases h with
  | plain name priority secrets => exact Takes.map (Takes.raise _)
  | trafficSplit => exact TrafficSplit.takes_create
  | aiProxy => exact AiProxy.takes_create

theorem takes_buildPluginWithUpstreams (name : String) (cfg : Json) :
    Takes ctx (keysOf (declaredUpstreams ctx.ext owner name cfg))
      (buildPluginWithUpstreams ctx ups owner name cfg) := by
  unfold buildPluginWithUpstreams declaredUpstreams
  cases hm : pluginMeta ctx.ext name with
  | none => exact Takes.error rfl
  | some entry => exact Takes.map (PluginFactory.takes_create (kind_of_pluginMeta hm))

theorem takes_buildPlugins (plugins : HashMap String Json) (wrap : String → String → String) :
    Takes ctx (pluginKeys ctx.ext owner plugins) (buildPlugins ctx ups owner plugins wrap) := by
  unfold buildPlugins pluginKeys
  refine Takes.snoc (Takes.mapM fun e _ => ?_) fun _ _ => Takes.ok _
  exact Takes.mapError (takes_buildPluginWithUpstreams e.1 e.2) fun _ => rfl

/-! ## Building resources -/

theorem takes_buildInlineUpstream (occurrence : UpstreamOccurrence) (capital small : String) (inline : Option Upstream) :
    Takes ctx (inlineKeys occurrence inline) (buildInlineUpstream ctx occurrence capital small inline) := by
  cases inline with
  | none => exact Takes.ok _
  | some u => exact Takes.snoc (takes_buildUpstream occurrence u _ _) fun _ _ => Takes.ok _

theorem takes_referenced {ο : Type} (capital target : String) (objects : HashMap String ο) (id : String) :
    Takes ctx [] (referenced capital target objects id) := by
  unfold referenced
  cases objects.lookup id with
  | none => exact Takes.error rfl
  | some o => exact Takes.ok o

theorem takes_resolveUpstream (capital : String) (inline : Option ProxyUpstream) (id : Option String)
    (inherited : Option ProxyUpstream) : Takes ctx [] (resolveUpstream ups capital inline id inherited) := by
  unfold resolveUpstream
  cases inline with
  | some u => exact Takes.ok _
  | none =>
    cases id with
    | none => exact Takes.ok _
    | some id => exact Takes.map (takes_referenced _ _ _ _)

theorem ProxyService.takes_build (service : Service) :
    Takes ctx (serviceKeys ctx.ext service.id service) (ProxyService.build ctx service ups) := by
  unfold ProxyService.build serviceKeys
  refine Takes.bind (takes_buildInlineUpstream _ _ _ _) fun inline _ => ?_
  refine Takes.bind (takes_resolveUpstream _ _ _ _) fun upstream _ => ?_
  exact Takes.snoc (takes_buildPlugins _ _) fun _ _ => Takes.ok _

theorem ProxyGlobalRule.takes_build (rule : GlobalRule) :
    Takes ctx (globalRuleKeys ctx.ext rule.id rule) (ProxyGlobalRule.build ctx rule ups) :=
  Takes.snoc (takes_buildPlugins _ _) fun _ _ => Takes.ok _

theorem ProxyRoute.takes_build (route : Route) (svcs : HashMap String (ProxyService ProxyUpstream)) :
    Takes ctx (routeKeys ctx.ext route.id route) (ProxyRoute.build ctx route ups svcs) := by
  have hrest (service : Option (ProxyService ProxyUpstream)) : Takes ctx (routeKeys ctx.ext route.id route) (do
      let inlineUpstream ← buildInlineUpstream ctx (.routeInline route.id) s!"Route '{route.id}'" s!"route '{route.id}'"
        route.upstream
      let resolvedUpstream ← resolveUpstream ups s!"Route '{route.id}'" inlineUpstream route.upstreamId
        (service.bind (·.upstream))
      let plugins ← buildPlugins ctx ups (.route route.id) route.plugins fun name e =>
        s!"Failed to build plugin '{name}': {e}"
      return ProxyRoute.assemble route service inlineUpstream resolvedUpstream plugins) := by
    refine Takes.bind (takes_buildInlineUpstream _ _ _ _) fun inline _ => ?_
    refine Takes.bind (takes_resolveUpstream _ _ _ _) fun upstream _ => ?_
    exact Takes.snoc (takes_buildPlugins _ _) fun _ _ => Takes.ok _
  unfold ProxyRoute.build
  cases route.serviceId with
  | none => exact hrest none
  | some id =>
    have hfound : Takes ctx [] ((referenced s!"Route '{route.id}'" "service" svcs id).map some) :=
      Takes.map (takes_referenced _ _ _ _)
    exact hfound.bind fun service _ => hrest service

end

end Pingsix
