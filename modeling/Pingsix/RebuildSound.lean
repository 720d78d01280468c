import Pingsix.MergeSound
import Pingsix.OrderSound
import Pingsix.SnapshotView

/-!
# Building one configuration twice

A build from the same configuration succeeds again and shows the same object,
when the inline upstreams are built again to the same look and the referenced
objects look the same. Every factory and every kind of resource has its lemma.
-/

namespace Pingsix

open Except (Simulated)

section
variable {ω : Type} (L : Look ω)

/-- Whatever the first context builds, the second builds to the same look. -/
structure Rebuilds (ctx ctx' : BuildContext) : Prop where
  ext : ctx'.ext = ctx.ext
  generation : L.generation ctx'.generation = L.generation ctx.generation
  build : ∀ occurrence upstream notPrepared wrap,
    Simulated L.upstream (buildUpstream ctx occurrence upstream notPrepared wrap)
      (buildUpstream ctx' occurrence upstream notPrepared wrap)

/-- What the first map holds under the ids, the second holds with the same look. -/
def LookedUpAlike {ο ζ : Type} (look : ο → ζ) (ids : List String) (objects objects' : HashMap String ο) : Prop :=
  ∀ id ∈ ids, ∀ o, objects.lookup id = some o → ∃ o', objects'.lookup id = some o' ∧ look o' = look o

variable {L}

theorem Rebuilds.refl (L : Look ω) (ctx : BuildContext) : Rebuilds L ctx ctx where
  ext := rfl
  generation := rfl
  build _ _ _ _ := Simulated.refl _ _

variable {ctx ctx' : BuildContext} {ups ups' : HashMap String ProxyUpstream}

theorem LookedUpAlike.mono {ο ζ : Type} {look : ο → ζ} {ids ids' : List String} {objects objects' : HashMap String ο}
    (h : LookedUpAlike look ids objects objects') (hs : ids' ⊆ ids) : LookedUpAlike look ids' objects objects' :=
  fun id hid => h id (hs hid)

/-! ## Traffic split -/

namespace TrafficSplit

def ruleIds (rule : MatchRule) : List String := rule.weightedUpstreams.filterMap (·.upstreamId)

def configIds (config : PluginConfig) : List String := config.rules.flatMap ruleIds

theorem rebuild_target (hc : Rebuilds L ctx ctx') (owner : TrafficSplitOwner) (r t : Nat) {w : WeightedUpstream}
    (ha : LookedUpAlike L.upstream w.upstreamId.toList ups ups') :
    Simulated (fun x => (x.1, x.2.map L.upstream)) (buildTarget ctx ups owner r t w) (buildTarget ctx' ups' owner r t w) := by
  unfold buildTarget
  refine Simulated.bind_same fun _ _ => ?_
  cases hid : w.upstreamId with
  | some id =>
    simp only
    cases hl : ups.lookup id with
    | none => exact Simulated.error
    | some u =>
      obtain ⟨u', hl', hlook⟩ := ha id (by simp [hid]) u hl
      rw [hl']
      exact Simulated.ok (by simp [WeightedTarget.map, hlook])
  | none =>
    cases w.upstream with
    | none => exact Simulated.ok rfl
    | some inline =>
      refine Simulated.bind (hc.build _ _ _ _) fun u u' hlook => Simulated.ok ?_
      simp [WeightedTarget.map, hlook]

theorem rebuild_rule (hc : Rebuilds L ctx ctx') (owner : TrafficSplitOwner) (r : Nat) {rule : MatchRule}
    (ha : LookedUpAlike L.upstream (ruleIds rule) ups ups') :
    Simulated (CompiledRule.map L.upstream) (buildRule ctx ups owner r rule) (buildRule ctx' ups' owner r rule) := by
  unfold buildRule
  refine Simulated.bind_same fun _ _ => Simulated.bind_same fun total _ => ?_
  refine Simulated.bind (Simulated.mapM fun w hw => rebuild_target hc owner r w.2 (ha.mono ?_)) fun ts ts' hts => ?_
  · exact fun id hid => List.mem_filterMap.mpr ⟨w.1, List.fst_mem_of_mem_zipIdx hw, Option.mem_toList.mp hid⟩
  · exact Simulated.ok (by simp only [CompiledRule.map, hts])

theorem rebuild_create (hc : Rebuilds L ctx ctx') (owner : TrafficSplitOwner) {cfg : Json}
    (ha : ∀ config, parse ctx.ext cfg = .ok config → LookedUpAlike L.upstream (configIds config) ups ups') :
    Simulated (PluginInstance.map L.upstream) (create ctx ups owner cfg) (create ctx' ups' owner cfg) := by
  unfold create
  rw [hc.ext]
  refine Simulated.bind_same fun config hconfig => ?_
  have ha := ha config (Except.mapError_eq_ok.mp hconfig)
  by_cases hv : config.validate = []
  · by_cases hr : config.rules = []
    · simp only [hv, hr, ne_eq, not_true, if_true, if_false]
      exact Simulated.error
    · simp only [hv, hr, ne_eq, not_true, if_false]
      refine Simulated.bind (Simulated.mapM fun rule hrule => rebuild_rule hc owner rule.2 (ha.mono ?_))
        fun rs rs' hrs => Simulated.ok ?_
      · exact fun id hid => List.mem_flatMap_of_mem (List.fst_mem_of_mem_zipIdx hrule) hid
      · simp only [PluginInstance.map, hrs]
  · simp only [hv, ne_eq, not_false_eq_true, if_true]
    exact Simulated.error

end TrafficSplit

/-! ## Plugins -/

theorem AiProxy.rebuild_create (hc : Rebuilds L ctx ctx') (owner : TrafficSplitOwner) (cfg : Json) :
    Simulated (PluginInstance.map L.upstream) (AiProxy.create ctx owner cfg) (AiProxy.create ctx' owner cfg) := by
  unfold AiProxy.create
  rw [hc.ext]
  refine Simulated.bind_same fun config _ => Simulated.bind_same fun endpoint _ => ?_
  exact Simulated.bind (hc.build _ _ _ _) fun u u' hlook => Simulated.ok (by simp only [PluginInstance.map, hlook])

/-- The named upstreams a plugin refers to. -/
def pluginIds (ext : Externals) (name : String) (cfg : Json) : List String :=
  (pluginUpstreamRefs ext name cfg).toOption.getD []

theorem rebuild_plugin (hc : Rebuilds L ctx ctx') (owner : TrafficSplitOwner) {name : String} {cfg : Json}
    (ha : LookedUpAlike L.upstream (pluginIds ctx.ext name cfg) ups ups') :
    Simulated (PluginEntry.seen L) (buildPluginWithUpstreams ctx ups owner name cfg)
      (buildPluginWithUpstreams ctx' ups' owner name cfg) := by
  unfold buildPluginWithUpstreams
  rw [hc.ext]
  cases hm : pluginMeta ctx.ext name with
  | none => exact Simulated.error
  | some entry =>
    have hfactory : Simulated (PluginInstance.map L.upstream) (entry.factory.create ctx ups owner cfg)
        (entry.factory.create ctx' ups' owner cfg) := by
      cases kind_of_pluginMeta hm with
      | plain => exact Simulated.bind_same fun _ _ => Simulated.ok rfl
      | trafficSplit =>
        refine TrafficSplit.rebuild_create hc owner fun config hconfig => ha.mono fun id hid => ?_
        unfold pluginIds pluginUpstreamRefs
        rw [hm]
        show id ∈ (TrafficSplit.namedUpstreamIds ctx.ext cfg).toOption.getD []
        unfold TrafficSplit.namedUpstreamIds
        rw [hconfig]
        exact hid
      | aiProxy => exact AiProxy.rebuild_create hc owner cfg
    exact hfactory.map fun p p' hp => by simp only [PluginEntry.seen, hc.generation, hp]

theorem name_of_build {owner : TrafficSplitOwner} {name : String} {cfg : Json} {e : PluginEntry ProxyUpstream}
    (h : buildPluginWithUpstreams ctx ups owner name cfg = .ok e) : e.name = name := by
  unfold buildPluginWithUpstreams at h
  cases hm : pluginMeta ctx.ext name with
  | none =>
    rw [hm] at h
    cases h
  | some entry =>
    rw [hm] at h
    obtain ⟨plugin, -, rfl⟩ := Except.map_eq_ok.mp h
    rfl

/-- The plugins of a table carry its names. -/
theorem names_of_mapM {owner : TrafficSplitOwner} (wrap : String → BuildError → BuildError) :
    ∀ {l : List (Sigma fun _ : String => Json)} {es : List (PluginEntry ProxyUpstream)},
      l.mapM (fun e => (buildPluginWithUpstreams ctx ups owner e.1 e.2).mapError (wrap e.1)) = .ok es →
        es.map (·.name) = l.map Sigma.fst
  | [], es, h => by
    cases h
    rfl
  | e :: l, es, h => by
    cases Except.mapM_eq_ok.mp h with
    | cons hb hrest =>
      rw [List.map_cons, List.map_cons, names_of_mapM wrap (Except.mapM_eq_ok.mpr hrest),
        name_of_build (Except.mapError_eq_ok.mp hb)]

section
variable {υ : Type}

instance : IsTrans (PluginEntry υ) PluginEntry.before where
  trans a b c h h' := by
    unfold PluginEntry.before at *
    obtain h | ⟨h, hn⟩ := h
    · obtain h' | ⟨h', -⟩ := h'
      · exact .inl (h'.trans h)
      · exact .inl (h' ▸ h)
    · obtain h' | ⟨h', hn'⟩ := h'
      · exact .inl (h ▸ h')
      · exact .inr ⟨h.trans h', String.le_trans hn hn'⟩

instance : Std.Total (PluginEntry.before (υ := υ)) where
  total a b := by
    unfold PluginEntry.before
    rcases Int.lt_trichotomy a.priority b.priority with h | h | h
    · exact .inr (.inl h)
    · exact (String.le_total a.name b.name).imp (fun hn => .inr ⟨h, hn⟩) fun hn => .inr ⟨h.symm, hn⟩
    · exact .inl (.inl h)

theorem PluginEntry.name_eq_of_before {a b : PluginEntry υ} (h : a.before b) (h' : b.before a) : a.name = b.name := by
  unfold before at h h'
  obtain h | ⟨h, hn⟩ := h
  · obtain h' | ⟨h', -⟩ := h'
    · exact absurd (h.trans h') (Int.lt_irrefl _)
    · exact absurd h (h' ▸ Int.lt_irrefl _)
  · obtain h' | ⟨-, hn'⟩ := h'
    · exact absurd h' (h ▸ Int.lt_irrefl _)
    · exact String.le_antisymm hn hn'

/-- The plugins of a table sort to one list, whatever order they come in. -/
theorem sortPlugins_perm {es es' : List (PluginEntry υ)} (h : es.Perm es') (hn : (es.map (·.name)).Nodup) :
    sortPluginsByPriorityDesc es = sortPluginsByPriorityDesc es' :=
  insertionSort_perm _ h fun _ ha _ hb hab hba =>
    List.inj_on_of_nodup_map hn ha hb (PluginEntry.name_eq_of_before hab hba)

end

theorem sortPlugins_seen (es : List (PluginEntry ProxyUpstream)) :
    (sortPluginsByPriorityDesc es).map (·.seen L) = sortPluginsByPriorityDesc (es.map (·.seen L)) :=
  List.map_insertionSort _ _ _ _ fun _ _ _ _ => Iff.rfl

/-- The named upstreams the plugins of a table refer to. -/
def tableIds (ext : Externals) (plugins : HashMap String Json) : List String :=
  plugins.entries.flatMap fun e => pluginIds ext e.1 e.2

theorem rebuild_plugins (hc : Rebuilds L ctx ctx') (owner : TrafficSplitOwner) {plugins plugins' : HashMap String Json}
    (h : plugins.SameEntries plugins') (ha : LookedUpAlike L.upstream (tableIds ctx.ext plugins) ups ups')
    (wrap : String → String → String) :
    Simulated (List.map (·.seen L)) (buildPlugins ctx ups owner plugins wrap)
      (buildPlugins ctx' ups' owner plugins' wrap) := by
  intro entries hentries
  obtain ⟨es, hes, hsort⟩ := Except.bind_eq_ok.mp hentries
  cases Except.pure_eq_ok.mp hsort
  obtain ⟨es', hes', hseen⟩ := Simulated.mapM (fun e he =>
    ((rebuild_plugin hc owner (ha.mono fun id hid => List.mem_flatMap_of_mem he hid)).mapError)) es hes
  obtain ⟨es'', hes'', hperm⟩ := Except.mapM_perm h.perm hes'
  refine ⟨_, Except.bind_eq_ok.mpr ⟨es'', hes'', rfl⟩, ?_⟩
  have hnames : ((es'.map (·.seen L)).map (·.name)).Nodup := by
    have hn : es'.map (·.name) = plugins.keys :=
      names_of_mapM (fun name err => { err with error := .plugin (wrap name err.error.display) }) hes'
    rw [List.map_map]
    show (es'.map (·.name)).Nodup
    rw [hn]
    exact plugins.nodupKeys
  rw [sortPlugins_seen, sortPlugins_seen, ← sortPlugins_perm (hperm.map _) hnames, hseen]

/-! ## Upstreams of services and routes -/

theorem rebuild_inline (hc : Rebuilds L ctx ctx') (occurrence : UpstreamOccurrence) (Owner owner : String)
    (inline : Option Upstream) :
    Simulated (Option.map L.upstream) (buildInlineUpstream ctx occurrence Owner owner inline)
      (buildInlineUpstream ctx' occurrence Owner owner inline) := by
  cases inline with
  | none => exact Simulated.ok rfl
  | some config =>
    refine Simulated.bind (hc.build _ _ _ _) fun u u' hlook => Simulated.ok ?_
    simp [hlook]

theorem rebuild_referenced {ο ζ : Type} {look : ο → ζ} {objects objects' : HashMap String ο} {id : String}
    (ha : LookedUpAlike look [id] objects objects') (owner target : String) :
    Simulated look (referenced owner target objects id) (referenced owner target objects' id) := by
  unfold referenced
  cases hl : objects.lookup id with
  | none => exact Simulated.error
  | some o =>
    obtain ⟨o', hl', hlook⟩ := ha id List.mem_cons_self o hl
    rw [hl']
    exact Simulated.ok hlook

theorem rebuild_resolve {Owner : String} {inline inline' inherited inherited' : Option ProxyUpstream} {id : Option String}
    (ha : LookedUpAlike L.upstream id.toList ups ups') (hi : inline'.map L.upstream = inline.map L.upstream)
    (hh : inherited'.map L.upstream = inherited.map L.upstream) :
    Simulated (Option.map L.upstream) (resolveUpstream ups Owner inline id inherited)
      (resolveUpstream ups' Owner inline' id inherited') := by
  cases inline with
  | some u =>
    cases inline' with
    | none => cases hi
    | some u' => exact Simulated.ok hi
  | none =>
    cases inline' with
    | some u' => cases hi
    | none =>
      cases id with
      | none => exact Simulated.ok hh
      | some id =>
        show Simulated _ ((referenced Owner "upstream" ups id).map some) ((referenced Owner "upstream" ups' id).map some)
        exact (rebuild_referenced ha Owner "upstream").map fun u u' hlook => by simp [hlook]

/-! ## Services, global rules and routes -/

def serviceIds (ext : Externals) (service : Service) : List String :=
  tableIds ext service.plugins ++ service.upstreamId.toList

def routeIds (ext : Externals) (route : Route) : List String := tableIds ext route.plugins ++ route.upstreamId.toList

theorem rebuild_service (hc : Rebuilds L ctx ctx') {service service' : Service} (h : service.shown = service'.shown)
    (ha : LookedUpAlike L.upstream (serviceIds ctx.ext service) ups ups') :
    Simulated (ProxyService.seen L) (ProxyService.build ctx service ups) (ProxyService.build ctx' service' ups') := by
  obtain ⟨id, name, plugins, upstream, upstreamId, hosts⟩ := service
  obtain ⟨id', name', plugins', upstream', upstreamId', hosts'⟩ := service'
  unfold Service.shown at h
  simp only [Prod.mk.injEq, Service.mk.injEq, true_and] at h
  obtain ⟨⟨rfl, rfl, rfl, rfl, rfl⟩, htable⟩ := h
  have hsame : plugins.SameEntries plugins' := fun name => congrFun htable name
  unfold ProxyService.build
  refine Simulated.bind (rebuild_inline hc _ _ _ _) fun i i' hi => ?_
  refine Simulated.bind (rebuild_resolve (ha.mono fun id hid => List.mem_append_right _ hid) hi rfl) fun u u' hu => ?_
  refine Simulated.bind (rebuild_plugins hc _ hsame (ha.mono fun id hid => List.mem_append_left _ hid) _)
    fun ps ps' hps => Simulated.ok ?_
  simp only [ProxyService.seen, Service.shown, hi, hu, hps, htable]

theorem rebuild_globalRule (hc : Rebuilds L ctx ctx') {rule rule' : GlobalRule} (h : rule.shown = rule'.shown)
    (ha : LookedUpAlike L.upstream (tableIds ctx.ext rule.plugins) ups ups') :
    Simulated (ProxyGlobalRule.seen L) (ProxyGlobalRule.build ctx rule ups) (ProxyGlobalRule.build ctx' rule' ups') := by
  obtain ⟨id, plugins⟩ := rule
  obtain ⟨id', plugins'⟩ := rule'
  unfold GlobalRule.shown at h
  simp only [Prod.mk.injEq, GlobalRule.mk.injEq, and_true] at h
  obtain ⟨rfl, htable⟩ := h
  have hsame : plugins.SameEntries plugins' := fun name => congrFun htable name
  unfold ProxyGlobalRule.build
  refine Simulated.bind (rebuild_plugins hc _ hsame ha _) fun ps ps' hps => Simulated.ok ?_
  simp only [ProxyGlobalRule.seen, GlobalRule.shown, hps, htable]

/-! ## Routes -/

/-- Merging reads names and priorities only. -/
theorem takeService_map {υ υ' : Type} {g : PluginEntry υ → PluginEntry υ'} (hname : ∀ e, (g e).name = e.name)
    (hpriority : ∀ e, (g e).priority = e.priority) {overridden : String → Bool} {rp : PluginEntry υ}
    {rest : List (PluginEntry υ) → List (PluginEntry υ)} {rest' : List (PluginEntry υ') → List (PluginEntry υ')}
    (hrest : ∀ sps, (rest sps).map g = rest' (sps.map g)) : ∀ sps : List (PluginEntry υ),
      (mergeRouteAndServicePlugins.takeService overridden rp rest sps).map g =
        mergeRouteAndServicePlugins.takeService overridden (g rp) rest' (sps.map g)
  | [] => congrArg (g rp :: ·) (hrest [])
  | sp :: sps => by
    unfold mergeRouteAndServicePlugins.takeService
    simp only [List.map_cons, hname, hpriority]
    by_cases hp : sp.priority ≤ rp.priority
    · simp only [if_pos hp, List.map_cons, hrest]
    · cases overridden sp.name with
      | true => simp only [if_neg hp, if_true, takeService_map hname hpriority hrest sps]
      | false => simp only [if_neg hp, Bool.false_eq_true, if_false, List.map_cons, takeService_map hname hpriority hrest sps]

theorem mergeRouteAndServicePlugins_map {υ υ' : Type} {g : PluginEntry υ → PluginEntry υ'} (hname : ∀ e, (g e).name = e.name)
    (hpriority : ∀ e, (g e).priority = e.priority) (overridden : String → Bool) :
    ∀ rps sps : List (PluginEntry υ), (mergeRouteAndServicePlugins overridden rps sps).map g =
      mergeRouteAndServicePlugins overridden (rps.map g) (sps.map g)
  | [], sps => by
    unfold mergeRouteAndServicePlugins
    show _ = (sps.map g).filter fun sp => !overridden sp.name
    rw [List.filter_map]
    refine congrArg (List.map g) (List.filter_congr fun sp _ => ?_)
    rw [Function.comp_apply, hname]
  | rp :: rps, sps => by
    unfold mergeRouteAndServicePlugins
    exact takeService_map hname hpriority (mergeRouteAndServicePlugins_map hname hpriority overridden rps) sps

/-- The merged plugins of a route as the look shows them. -/
theorem merge_seen {plugins plugins' : List (PluginEntry ProxyUpstream)} {service service' : Option (ProxyService ProxyUpstream)}
    (hp : plugins'.map (·.seen L) = plugins.map (·.seen L)) (hs : service'.map (·.seen L) = service.map (·.seen L)) :
    (ProxyRoute.merge plugins' service').map (·.seen L) = (ProxyRoute.merge plugins service).map (·.seen L) := by
  have hnames (l : List (PluginEntry ProxyUpstream)) : l.map (·.name) = (l.map (·.seen L)).map (·.name) := by
    rw [List.map_map]
    rfl
  cases service with
  | none =>
    cases service' with
    | some s' => cases hs
    | none => exact hp
  | some s =>
    cases service' with
    | none => cases hs
    | some s' =>
      have hservice : s'.plugins.map (·.seen L) = s.plugins.map (·.seen L) :=
        congrArg ServiceView.plugins (Option.some.inj hs)
      unfold ProxyRoute.merge
      simp only [mergeRouteAndServicePlugins_map (g := PluginEntry.seen L) (fun _ => rfl) (fun _ => rfl), hnames plugins',
        hnames plugins, hp, hservice]

theorem hasPlugin_seen (plugins : List (PluginEntry ProxyUpstream)) (name : String) :
    (ProxyPluginExecutor.fromSorted plugins).hasPlugin name = (plugins.map (·.seen L)).any fun e => e.name = name := by
  rw [List.any_map]
  rfl

theorem rebuild_serviceOf {svcs svcs' : HashMap String (ProxyService ProxyUpstream)} {route route' : Route}
    (hid : route'.id = route.id) (hservice : route'.serviceId = route.serviceId)
    (hs : LookedUpAlike (ProxyService.seen L) route.serviceId.toList svcs svcs') :
    Simulated (Option.map (ProxyService.seen L)) (ProxyRoute.serviceOf svcs route) (ProxyRoute.serviceOf svcs' route') := by
  unfold ProxyRoute.serviceOf
  rw [hservice, hid]
  cases h : route.serviceId with
  | none => exact Simulated.ok rfl
  | some id =>
    rw [h] at hs
    exact (rebuild_referenced hs _ _).map fun s s' hlook => by simp [hlook]

/-- A route object shows the same when its parts do. -/
theorem assemble_seen {route route' : Route} (h : route.shown = route'.shown)
    {service service' : Option (ProxyService ProxyUpstream)} (hs : service'.map (·.seen L) = service.map (·.seen L))
    {inline inline' upstream upstream' : Option ProxyUpstream} (hi : inline'.map L.upstream = inline.map L.upstream)
    (hu : upstream'.map L.upstream = upstream.map L.upstream) {plugins plugins' : List (PluginEntry ProxyUpstream)}
    (hp : plugins'.map (·.seen L) = plugins.map (·.seen L)) :
    (ProxyRoute.assemble route' service' inline' upstream' plugins').seen L =
      (ProxyRoute.assemble route service inline upstream plugins).seen L := by
  obtain ⟨id, name, uri, uris, methods, host, hosts, priority, table, ups, upsId, svcId, timeout, ws⟩ := route
  obtain ⟨id', name', uri', uris', methods', host', hosts', priority', table', ups', upsId', svcId', timeout', ws'⟩ := route'
  unfold Route.shown at h
  simp only [Prod.mk.injEq, Route.mk.injEq, true_and] at h
  obtain ⟨⟨rfl, rfl, rfl, rfl, rfl, rfl, rfl, rfl, rfl, rfl, rfl, rfl, rfl⟩, htable⟩ := h
  have hmerge := merge_seen hp hs
  have hpreflight : (ProxyPluginExecutor.fromSorted (ProxyRoute.merge plugins' service')).hasPlugin "cors" =
      (ProxyPluginExecutor.fromSorted (ProxyRoute.merge plugins service)).hasPlugin "cors" := by
    rw [hasPlugin_seen (L := L), hasPlugin_seen (L := L), hmerge]
  unfold ProxyRoute.assemble ProxyRoute.seen Route.shown
  simp only [hi, hu, hp, hpreflight, RouteView.mk.injEq, true_and, and_true, htable]
  cases service with
  | none =>
    cases service' with
    | some s' => cases hs
    | none => exact ⟨rfl, rfl, hmerge, by simp [cacheNamespace, htable]⟩
  | some s =>
    cases service' with
    | none => cases hs
    | some s' =>
      have hinner : s'.inner.shown = s.inner.shown := congrArg ServiceView.inner (Option.some.inj hs)
      have hhosts : s'.inner.hosts = s.inner.hosts := congrArg (fun x => x.1.hosts) hinner
      have hname : s'.inner.name = s.inner.name := congrArg (fun x => x.1.name) hinner
      have hid : s'.inner.id = s.inner.id := congrArg (fun x => x.1.id) hinner
      have heffective : ∀ route : Route, ProxyRoute.hostsOf route (some s'.inner) = ProxyRoute.hostsOf route (some s.inner) := by
        intro route
        unfold ProxyRoute.hostsOf
        simp only [Option.elim_some, hhosts]
      refine ⟨heffective _, hname, hmerge, ?_⟩
      have hlookup : (fun name => s'.inner.plugins.lookup name) = fun name => s.inner.plugins.lookup name :=
        congrArg Prod.snd hinner
      simp [cacheNamespace, Service.shown, htable, hid, hlookup]

theorem rebuild_route (hc : Rebuilds L ctx ctx') {svcs svcs' : HashMap String (ProxyService ProxyUpstream)}
    {route route' : Route} (h : route.shown = route'.shown) (ha : LookedUpAlike L.upstream (routeIds ctx.ext route) ups ups')
    (hs : LookedUpAlike (ProxyService.seen L) route.serviceId.toList svcs svcs') :
    Simulated (ProxyRoute.seen L) (ProxyRoute.build ctx route ups svcs) (ProxyRoute.build ctx' route' ups' svcs') := by
  intro r hr
  obtain ⟨service, inline, upstream, plugins, hservice, hinline, hupstream, hplugins, rfl⟩ := ProxyRoute.build_eq_ok.mp hr
  have hsame : route.plugins.SameEntries route'.plugins := fun name => congrFun (congrArg Prod.snd h) name
  have hbare : { route with plugins := ∅ } = { route' with plugins := ∅ } := congrArg Prod.fst h
  have hid : route'.id = route.id := (congrArg Route.id hbare).symm
  have hsid : route'.serviceId = route.serviceId := (congrArg Route.serviceId hbare).symm
  have huid : route'.upstreamId = route.upstreamId := (congrArg Route.upstreamId hbare).symm
  have hu : route'.upstream = route.upstream := (congrArg Route.upstream hbare).symm
  obtain ⟨service', hservice', hsl⟩ := rebuild_serviceOf hid hsid hs service hservice
  obtain ⟨inline', hinline', hil⟩ := rebuild_inline hc _ _ _ _ inline hinline
  have hinherited : (service'.bind (·.upstream)).map L.upstream = (service.bind (·.upstream)).map L.upstream := by
    cases service with
    | none =>
      cases service' with
      | none => rfl
      | some s' => cases hsl
    | some s =>
      cases service' with
      | none => cases hsl
      | some s' => exact congrArg ServiceView.upstream (Option.some.inj hsl)
  obtain ⟨upstream', hupstream', hul⟩ := rebuild_resolve (ha.mono fun id hid => List.mem_append_right _ hid) hil hinherited
    upstream hupstream
  obtain ⟨plugins', hplugins', hpl⟩ := rebuild_plugins hc _ hsame (ha.mono fun id hid => List.mem_append_left _ hid) _
    plugins hplugins
  refine ⟨ProxyRoute.assemble route' service' inline' upstream' plugins', ProxyRoute.build_eq_ok.mpr
    ⟨service', inline', upstream', plugins', hservice', ?_, ?_, ?_, rfl⟩, ?_⟩
  · rw [hid, hu]
    exact hinline'
  · rw [hid, huid]
    exact hupstream'
  · rw [hid]
    exact hplugins'
  · exact assemble_seen h hsl hil hul hpl

end

end Pingsix
