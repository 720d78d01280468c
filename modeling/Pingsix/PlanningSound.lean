import Pingsix.PlanSound
import Pingsix.ValidationSound

/-!
# What a plan prepares

On a validated set the jobs of a plan are the occurrences its candidate takes
material for, exactly when the raw extraction of every traffic-split
configuration finds what the typed one declares.
-/

namespace Pingsix

open TrafficSplit (keys keys_append readsAlike)

/-! ## What a candidate takes -/

theorem takes_buildEntries {ctx : BuildContext} {ν ο : Type} {config : HashMap String ν} {reused : HashMap String ο}
    {build : String → ν → BuildResult ο} {k : String → ν → List UpstreamOccurrence}
    (h : ∀ id v, config.lookup id = some v → Takes ctx (k id v) (build id v)) :
    Takes ctx (config.entries.flatMap fun e => if reused.containsKey e.1 then [] else k e.1 e.2)
      (buildEntries config reused build) := by
  refine Takes.foldlM fun e he built => ?_
  unfold HashMap.containsKey
  cases reused.lookup e.1 with
  | some existing => exact Takes.ok _
  | none => exact Takes.snoc (h e.1 e.2 ((HashMap.mem_entries_iff config e.1 e.2).mp he)) fun _ _ => Takes.ok _

theorem takes_buildPrepared {ctx : BuildContext} {config : ResourceConfigSet} (hid : config.Identified)
    (plan : CandidatePlan) : Takes ctx (plan.lookups ctx.ext config) (CandidateSnapshot.buildPrepared ctx config plan) := by
  unfold CandidateSnapshot.buildPrepared CandidatePlan.lookups
  refine Takes.raise_bind fun _ _ => ?_
  have hups : Takes ctx (config.upstreams.entries.flatMap fun e =>
      if plan.reusedUpstreams.containsKey e.1 then [] else [.named e.1])
      (buildEntries config.upstreams plan.reusedUpstreams fun id upstream =>
        buildUpstream ctx (.named id) upstream s!"Upstream '{id}' was not prepared") :=
    takes_buildEntries fun id u _ => takes_buildUpstream (.named id) u _ _
  refine Takes.bind hups fun ups _ => ?_
  refine Takes.bind (takes_buildEntries fun id s hs => ?_) fun svcs _ => ?_
  · have hsid : s.id = id := (congrArg Service.id (hid .service id s hs)).symm
    exact hsid ▸ ProxyService.takes_build s
  refine Takes.bind (takes_buildEntries fun id g hg => ?_) fun rules _ => ?_
  · have hgid : g.id = id := (congrArg GlobalRule.id (hid .globalRule id g hg)).symm
    exact hgid ▸ ProxyGlobalRule.takes_build g
  refine Takes.snoc (takes_buildEntries fun id r hr => ?_) fun routes _ => ?_
  · have hrid : r.id = id := (congrArg Route.id (hid .route id r hr)).symm
    exact hrid ▸ ProxyRoute.takes_build r svcs
  · refine Takes.snoc ?_ fun ssls _ => Takes.ok _
    have hssls : Takes ctx (config.ssls.entries.flatMap fun e => if plan.reusedSsls.containsKey e.1 then [] else [])
        (buildEntries config.ssls plan.reusedSsls fun _ ssl => raise (ProxySSL.tryFrom ctx.ext.x509 ssl)) :=
      takes_buildEntries fun id ssl _ => Takes.raise _
    simpa [List.flatMap_eq_nil_iff.mpr] using hssls

/-! ## The two extractions -/

section
variable (ext : Externals)

/-- The upstreams the plan collects from one plugin configuration. -/
def extractedUpstreams (owner : TrafficSplitOwner) (name : String) (cfg : Json) :
    ProxyResult (List (UpstreamOccurrence × Upstream)) :=
  match (pluginMeta ext name).bind (·.upstreamJobs) with
  | some collect => collect owner cfg
  | none => .ok []

/-- What the plan collects from the document is what the factory builds from the typed configuration. -/
def Agrees (owner : TrafficSplitOwner) (name : String) (cfg : Json) : Prop :=
  ∃ jobs declared, extractedUpstreams ext owner name cfg = .ok jobs ∧ declaredUpstreams ext owner name cfg = .ok declared ∧
    keys jobs = keys declared

variable {ext} {owner : TrafficSplitOwner}

theorem pluginMeta_trafficSplit : pluginMeta ext "traffic-split" =
    some { name := "traffic-split", priority := 966, factory := .trafficSplit
           validate := TrafficSplit.validateConfig ext, upstreamRefs := some (TrafficSplit.namedUpstreamIds ext)
           upstreamJobs := some (TrafficSplit.inlineUpstreamJobs ext) } := rfl

theorem agrees_trafficSplit_iff {cfg : Json} (hv : TrafficSplit.validateConfig ext cfg = .ok ()) :
    Agrees ext owner "traffic-split" cfg ↔ readsAlike cfg = true := by
  obtain ⟨config, hp, -⟩ := Except.bind_eq_ok.mp hv
  have hdeclared : declaredUpstreams ext owner "traffic-split" cfg = .ok (config.inlineUpstreams owner) := by
    unfold declaredUpstreams
    rw [pluginMeta_trafficSplit]
    show (TrafficSplit.parse ext cfg).map _ = _
    rw [hp]
    rfl
  have hextracted : extractedUpstreams ext owner "traffic-split" cfg = TrafficSplit.inlineUpstreamJobs ext owner cfg := by
    unfold extractedUpstreams
    rw [pluginMeta_trafficSplit]
    rfl
  unfold Agrees
  rw [hdeclared, hextracted]
  constructor
  · rintro ⟨jobs, declared, hj, hd, hk⟩
    cases hd
    exact TrafficSplit.alike_of_inlineUpstreamJobs hp hj fun key hkey => hk ▸ hkey
  · intro ha
    exact ⟨_, _, TrafficSplit.inlineUpstreamJobs_of_alike hp ha, rfl, rfl⟩

/-- The endpoint of a parsed configuration resolves: parsing tries it. -/
theorem AiProxy.resolves_of_parse {cfg : Json} {config : AiProxy.AiProxyConfig}
    (h : AiProxy.AiProxyConfig.parse ext cfg = .ok config) :
    ∃ endpoint, AiProxy.resolveEndpoint ext.http config = .ok endpoint := by
  unfold AiProxy.AiProxyConfig.parse at h
  obtain ⟨config', -, h⟩ := Except.bind_eq_ok.mp h
  obtain ⟨hpost, h⟩ := Except.bind_unit_eq_ok.mp h
  cases Except.pure_eq_ok.mp h
  unfold AiProxy.postValidate at hpost
  cases he : AiProxy.resolveEndpoint ext.http config with
  | ok endpoint => exact ⟨endpoint, rfl⟩
  | error e =>
    simp only [he] at hpost
    split_ifs at hpost
    all_goals simp [Except.bind_unit_eq_ok] at hpost

/-- The two extractions of a valid configuration agree unless it splits traffic and reads differently. -/
theorem agrees_iff {name : String} {cfg : Json} (hv : validatePluginConfig ext name cfg = .ok ()) :
    Agrees ext owner name cfg ↔ (name = "traffic-split" → readsAlike cfg = true) := by
  unfold validatePluginConfig at hv
  by_cases hn : name = "traffic-split"
  · subst hn
    rw [pluginMeta_trafficSplit] at hv
    rw [agrees_trafficSplit_iff hv]
    exact ⟨fun h _ => h, fun h => h rfl⟩
  · refine iff_of_true ?_ fun h => absurd h hn
    unfold Agrees extractedUpstreams declaredUpstreams
    cases hm : pluginMeta ext name with
    | none => exact ⟨[], [], rfl, rfl, rfl⟩
    | some entry =>
      rw [hm] at hv
      have hname := name_of_pluginMeta hm
      cases kind_of_pluginMeta hm with
      | plain => exact ⟨[], [], rfl, rfl, rfl⟩
      | trafficSplit => exact absurd hname.symm hn
      | aiProxy =>
        obtain ⟨config, hp, -⟩ := Except.map_eq_ok.mp hv
        obtain ⟨endpoint, he⟩ := AiProxy.resolves_of_parse hp
        have hjobs : AiProxy.inlineUpstreamJobs ext owner cfg =
            .ok [(.aiProxy owner, AiProxy.buildProviderUpstreamConfig config endpoint)] := by
          unfold AiProxy.inlineUpstreamJobs
          rw [hp]
          show (AiProxy.resolveEndpoint ext.http config >>= _) = _
          rw [he]
          rfl
        exact ⟨_, _, hjobs, hjobs, rfl⟩

theorem keys_flatten {α : Type} {f : α → ProxyResult (List (UpstreamOccurrence × Upstream))}
    {k : α → List UpstreamOccurrence} : ∀ {l : List α} {lists : List (List (UpstreamOccurrence × Upstream))},
      l.mapM f = .ok lists → (∀ a ∈ l, ∀ jobs, f a = .ok jobs → keys jobs = k a) → keys lists.flatten = l.flatMap k
  | [], lists, h, _ => by
    cases h
    rfl
  | a :: l, lists, h, hk => by
    rw [List.mapM_cons] at h
    obtain ⟨jobs, hj, h⟩ := Except.bind_eq_ok.mp h
    obtain ⟨rest, hr, h⟩ := Except.bind_eq_ok.mp h
    cases Except.pure_eq_ok.mp h
    rw [List.flatten_cons, keys_append, List.flatMap_cons, hk a List.mem_cons_self jobs hj,
      keys_flatten hr fun a' ha' => hk a' (List.mem_cons_of_mem a ha')]

/-- Where both extractions agree on every configuration, the jobs are those of the declared upstreams. -/
theorem pluginUpstreamJobs_of_agrees {plugins : HashMap String Json}
    (h : ∀ name cfg, plugins.lookup name = some cfg → Agrees ext owner name cfg) :
    ∃ jobs, pluginUpstreamJobs ext owner plugins = .ok jobs ∧ keys jobs = pluginKeys ext owner plugins := by
  have hentries : ∀ e ∈ plugins.entries, Agrees ext owner e.1 e.2 := fun e he =>
    h e.1 e.2 ((HashMap.mem_entries_iff plugins e.1 e.2).mp he)
  obtain ⟨lists, hls⟩ := (Except.mapM_isOk (f := fun e : Sigma fun _ : String => Json =>
    extractedUpstreams ext owner e.1 e.2)).mpr fun e he => by
      obtain ⟨jobs, -, hj, -⟩ := hentries e he
      exact ⟨jobs, hj⟩
  refine ⟨lists.flatten, Except.bind_eq_ok.mpr ⟨lists, hls, rfl⟩, keys_flatten hls fun e he jobs hj => ?_⟩
  obtain ⟨jobs', declared, hj', hd, hk⟩ := hentries e he
  cases hj.symm.trans hj'
  rw [hd, hk]
  rfl

/-! ## Planning -/

theorem reuseEntries_isOk {ν ο : Type} {config : HashMap String ν} {previous : HashMap String ο}
    {keep : ν → ο → ProxyResult Bool} (h : ∀ id v, config.lookup id = some v → ∀ o, ∃ b, keep v o = .ok b) :
    ∃ reused, reuseEntries config previous keep = .ok reused := by
  rw [reuseEntries_eq, HashMap.collect_isOk]
  intro id v hv
  unfold kept
  cases previous.lookup id with
  | none => exact ⟨none, rfl⟩
  | some existing =>
    obtain ⟨b, hb⟩ := h id v hv existing
    exact ⟨_, Except.map_eq_ok.mpr ⟨b, hb, rfl⟩⟩

theorem depsReused_isOk {deps : ProxyResult (List String)} (h : ∃ ids, deps = .ok ids) (same : Bool)
    (reused : HashMap String ProxyUpstream) : ∃ b, depsReused same deps reused = .ok b := by
  obtain ⟨ids, rfl⟩ := h
  unfold depsReused
  by_cases hs : same = true
  · rw [if_pos hs]
    exact ⟨_, rfl⟩
  · rw [if_neg hs]
    exact ⟨false, rfl⟩

theorem pluginUpstreamDeps_isOk {owner : String} {plugins : HashMap String Json} {upstreams : HashMap String Upstream}
    (h : validatePluginUpstreamRefs ext owner plugins upstreams = .ok ()) :
    ∃ ids, pluginUpstreamDeps ext plugins = .ok ids := by
  have hrefs := validatePluginUpstreamRefs_eq_ok.mp h
  obtain ⟨lists, hls⟩ := (Except.mapM_isOk (f := fun e : Sigma fun _ : String => Json =>
    pluginUpstreamRefs ext e.1 e.2)).mpr fun e he => by
      obtain ⟨-, ids, hi, -⟩ := hrefs e.1 e.2 ((HashMap.mem_entries_iff plugins e.1 e.2).mp he)
      exact ⟨ids, hi⟩
  exact ⟨_, Except.bind_eq_ok.mpr ⟨lists, hls, rfl⟩⟩

theorem collectJobs_of_keys {ν : Type} {config : HashMap String ν} {reused : String → Bool}
    {jobs : String → ν → ProxyResult (List (UpstreamOccurrence × Upstream))} {k : String → ν → List UpstreamOccurrence}
    (h : ∀ id v, config.lookup id = some v → ∃ js, jobs id v = .ok js ∧ keys js = k id v) :
    ∃ collected, collectJobs config reused jobs = .ok collected ∧
      keys collected = config.entries.flatMap fun e => if reused e.1 then [] else k e.1 e.2 := by
  have hentries (e) (he : e ∈ config.entries) := h e.1 e.2 ((HashMap.mem_entries_iff config e.1 e.2).mp he)
  obtain ⟨lists, hls⟩ := (Except.mapM_isOk (f := fun e : Sigma fun _ : String => ν =>
    if reused e.1 then .ok [] else jobs e.1 e.2)).mpr fun e he => by
      by_cases hr : reused e.1 = true
      · rw [if_pos hr]
        exact ⟨[], rfl⟩
      · rw [if_neg hr]
        obtain ⟨js, hj, -⟩ := hentries e he
        exact ⟨js, hj⟩
  refine ⟨lists.flatten, Except.bind_eq_ok.mpr ⟨lists, hls, rfl⟩, keys_flatten hls fun e he js hj => ?_⟩
  by_cases hr : reused e.1 = true
  · rw [if_pos hr] at hj ⊢
    cases hj
    rfl
  · rw [if_neg hr] at hj ⊢
    obtain ⟨js', hj', hk⟩ := hentries e he
    cases hj.symm.trans hj'
    exact hk

theorem serviceJobs_of_agrees {id : String} {s : Service}
    (h : ∀ name cfg, s.plugins.lookup name = some cfg → Agrees ext (.service id) name cfg) :
    ∃ jobs, serviceJobs ext id s = .ok jobs ∧ keys jobs = serviceKeys ext id s := by
  obtain ⟨jobs, hj, hk⟩ := pluginUpstreamJobs_of_agrees h
  refine ⟨_, Except.bind_eq_ok.mpr ⟨jobs, hj, rfl⟩, ?_⟩
  rw [keys_append, hk]
  rfl

theorem routeJobs_of_agrees {id : String} {r : Route}
    (h : ∀ name cfg, r.plugins.lookup name = some cfg → Agrees ext (.route id) name cfg) :
    ∃ jobs, routeJobs ext id r = .ok jobs ∧ keys jobs = routeKeys ext id r := by
  obtain ⟨jobs, hj, hk⟩ := pluginUpstreamJobs_of_agrees h
  refine ⟨_, Except.bind_eq_ok.mpr ⟨jobs, hj, rfl⟩, ?_⟩
  rw [keys_append, hk]
  rfl

/-- A plan is made, its candidate takes the material of the jobs and no other, and no configuration is extracted in
two ways. -/
structure PlansExactly (ext : Externals) (config : ResourceConfigSet) (previous : RuntimeSnapshot) : Prop where
  planned : ∃ plan, CandidatePlan.build ext config previous = .ok plan ∧
    ∀ ctx : BuildContext, ctx.ext = ext → Takes ctx (keys plan.jobs) (CandidateSnapshot.buildPrepared ctx config plan)
  agrees : ∀ owner name cfg, PluginOccurs config name cfg → Agrees ext owner name cfg

theorem build_of_agrees {config : ResourceConfigSet} (hv : validateRuntimeForm ext config = .ok ())
    (previous : RuntimeSnapshot) (ha : ∀ owner name cfg, PluginOccurs config name cfg → Agrees ext owner name cfg) :
    ∃ plan, CandidatePlan.build ext config previous = .ok plan ∧ keys plan.jobs = plan.lookups ext config := by
  have hset := validateConfigSet_eq_ok.mp hv
  have hserviceDeps (s : Service) (id : String) (hs : config.services.lookup id = some s) :
      ∃ ids, scopeUpstreamDeps ext s = .ok ids := by
    obtain ⟨ids, hi⟩ := pluginUpstreamDeps_isOk (validateServiceRefs_eq_ok.mp (hset.serviceRefs id s hs)).2
    exact ⟨_, Except.bind_eq_ok.mpr ⟨ids, hi, rfl⟩⟩
  have hrouteDeps (r : Route) (id : String) (hr : config.routes.lookup id = some r) :
      ∃ ids, scopeUpstreamDepsRule ext r = .ok ids := by
    obtain ⟨ids, hi⟩ := pluginUpstreamDeps_isOk (validateRouteRefs_eq_ok.mp (hset.routeRefs id r hr)).2.2
    exact ⟨_, Except.bind_eq_ok.mpr ⟨ids, hi, rfl⟩⟩
  have hups : ∃ ups, reuseEntries config.upstreams previous.objects.upstreams keepsUpstream = .ok ups :=
    reuseEntries_isOk fun _ _ _ _ => ⟨_, rfl⟩
  obtain ⟨ups, hups⟩ := hups
  have hsvcs : ∃ svcs, reuseEntries config.services previous.objects.services (keepsService ext ups) = .ok svcs :=
    reuseEntries_isOk fun id s hs _ => depsReused_isOk (hserviceDeps s id hs) _ _
  obtain ⟨svcs, hsvcs⟩ := hsvcs
  have hrules : ∃ rules, reuseEntries config.globalRules previous.objects.globalRules (keepsGlobalRule ext ups) =
      .ok rules :=
    reuseEntries_isOk fun id g hg _ => depsReused_isOk (pluginUpstreamDeps_isOk (hset.globalRuleRefs id g hg)) _ _
  obtain ⟨rules, hrules⟩ := hrules
  have hroutes : ∃ routes, reuseEntries config.routes previous.objects.routes (keepsRoute ext ups svcs) = .ok routes :=
    reuseEntries_isOk fun id r hr _ => depsReused_isOk (hrouteDeps r id hr) _ _
  obtain ⟨routes, hroutes⟩ := hroutes
  have hssls : ∃ ssls, reuseEntries config.ssls previous.objects.ssls keepsSsl = .ok ssls :=
    reuseEntries_isOk fun _ _ _ _ => ⟨_, rfl⟩
  obtain ⟨ssls, hssls⟩ := hssls
  have hn : ∃ n, collectJobs config.upstreams ups.containsKey namedJob = .ok n ∧
      keys n = config.upstreams.entries.flatMap fun e => if ups.containsKey e.1 then [] else [.named e.1] :=
    collectJobs_of_keys fun id u _ => ⟨[(.named id, u)], rfl, rfl⟩
  obtain ⟨n, hn, kn⟩ := hn
  have hs : ∃ s, collectJobs config.services svcs.containsKey (serviceJobs ext) = .ok s ∧
      keys s = config.services.entries.flatMap fun e => if svcs.containsKey e.1 then [] else serviceKeys ext e.1 e.2 :=
    collectJobs_of_keys fun id s hs => serviceJobs_of_agrees fun name cfg hp => ha _ name cfg (.service hs hp)
  obtain ⟨s, hs, ks⟩ := hs
  have hg : ∃ g, collectJobs config.globalRules rules.containsKey (globalRuleJobs ext) = .ok g ∧
      keys g = config.globalRules.entries.flatMap fun e =>
        if rules.containsKey e.1 then [] else globalRuleKeys ext e.1 e.2 :=
    collectJobs_of_keys fun id g hg => pluginUpstreamJobs_of_agrees fun name cfg hp => ha _ name cfg (.globalRule hg hp)
  obtain ⟨g, hg, kg⟩ := hg
  have hr : ∃ r, collectJobs config.routes routes.containsKey (routeJobs ext) = .ok r ∧
      keys r = config.routes.entries.flatMap fun e => if routes.containsKey e.1 then [] else routeKeys ext e.1 e.2 :=
    collectJobs_of_keys fun id r hr => routeJobs_of_agrees fun name cfg hp => ha _ name cfg (.route hr hp)
  obtain ⟨r, hr, kr⟩ := hr
  refine ⟨⟨ups, svcs, rules, routes, ssls, n ++ s ++ g ++ r⟩, CandidatePlan.build_eq_ok.mpr
    ⟨hups, hsvcs, hrules, hroutes, hssls, n, s, g, r, hn, hs, hg, hr, rfl⟩, ?_⟩
  unfold CandidatePlan.lookups
  rw [keys_append, keys_append, keys_append, kn, ks, kg, kr, List.append_assoc, List.append_assoc]

/-! ## Main result -/

theorem validatePluginConfig_of_occurs {config : ResourceConfigSet} (hv : validateRuntimeForm ext config = .ok ())
    {name : String} {cfg : Json} (h : PluginOccurs config name cfg) : validatePluginConfig ext name cfg = .ok () := by
  have hset := validateConfigSet_eq_ok.mp hv
  cases h with
  | route hl hp =>
    have hrefs := (validateRouteRefs_eq_ok.mp (hset.routeRefs _ _ hl)).2.2
    exact (validatePluginUpstreamRefs_eq_ok.mp hrefs name cfg hp).1
  | service hl hp =>
    have hrefs := (validateServiceRefs_eq_ok.mp (hset.serviceRefs _ _ hl)).2
    exact (validatePluginUpstreamRefs_eq_ok.mp hrefs name cfg hp).1
  | globalRule hl hp =>
    have hrefs := validateGlobalRuleRefs_eq_ok.mp (hset.globalRuleRefs _ _ hl)
    exact (validatePluginUpstreamRefs_eq_ok.mp hrefs name cfg hp).1

/-- Planning a validated set never fails and prepares exactly what the candidate takes, exactly when every traffic-split
configuration reads alike as a document and as a typed configuration. -/
theorem planning_exact_iff {config : ResourceConfigSet} (hid : config.Identified)
    (hv : validateRuntimeForm ext config = .ok ()) (previous : RuntimeSnapshot) :
    PlansExactly ext config previous ↔ ∀ cfg, PluginOccurs config "traffic-split" cfg → readsAlike cfg = true := by
  constructor
  · intro h cfg hocc
    exact (agrees_iff (validatePluginConfig_of_occurs hv hocc)).mp (h.agrees (.route "") _ cfg hocc) rfl
  · intro hall
    have ha (owner : TrafficSplitOwner) (name : String) (cfg : Json) (hocc : PluginOccurs config name cfg) :
        Agrees ext owner name cfg := by
      refine (agrees_iff (validatePluginConfig_of_occurs hv hocc)).mpr fun hn => ?_
      subst hn
      exact hall cfg hocc
    obtain ⟨plan, hp, hk⟩ := build_of_agrees hv previous ha
    refine ⟨⟨plan, hp, fun ctx hctx => ?_⟩, ha⟩
    rw [hk, ← hctx]
    exact takes_buildPrepared hid plan

end

/-! ## A target that passes through -/

/-- A rule with one target that names no upstream; the members are those of the target besides its weight. -/
def passThroughConfig (members : List (String × Json)) : Json :=
  .obj [("rules", .arr [.obj [("weighted_upstreams", .arr [.obj (members ++ [("weight", .num (.posInt 1))])])]])]

def splitSet (cfg : Json) : ResourceConfigSet where
  upstreams := AList.singleton "u1" { id := "u1", nodes := ⟨[{ host := "127.0.0.1", port := some 80, weight := 1,
                                                               priority := 0 }]⟩ }
  routes := AList.singleton "r" { id := "r", uri := some "/", upstreamId := some "u1",
                                  plugins := AList.singleton "traffic-split" cfg }

theorem of_lookup_singleton {ν : Type} {k id : String} {v w : ν}
    (h : (AList.singleton k v : HashMap String ν).lookup id = some w) : id = k ∧ w = v := by
  cases List.mem_singleton.mp ((HashMap.mem_entries_iff _ _ _).mpr h)
  exact ⟨rfl, rfl⟩

theorem identified_splitSet (cfg : Json) : (splitSet cfg).Identified := by
  intro kind id r h
  cases kind with
  | upstream =>
    obtain ⟨rfl, rfl⟩ := of_lookup_singleton h
    rfl
  | service =>
    rw [show ((splitSet cfg).slot .service).lookup id = none from HashMap.lookup_empty id] at h
    cases h
  | globalRule =>
    rw [show ((splitSet cfg).slot .globalRule).lookup id = none from HashMap.lookup_empty id] at h
    cases h
  | route =>
    obtain ⟨rfl, rfl⟩ := of_lookup_singleton h
    rfl
  | ssl =>
    rw [show ((splitSet cfg).slot .ssl).lookup id = none from HashMap.lookup_empty id] at h
    cases h

theorem occurs_splitSet {cfg cfg' : Json} {name : String} (h : PluginOccurs (splitSet cfg) name cfg') : cfg' = cfg := by
  cases h with
  | route hl hp =>
    obtain ⟨rfl, rfl⟩ := of_lookup_singleton hl
    exact (of_lookup_singleton hp).2
  | service hl hp =>
    rw [show (splitSet cfg).services.lookup _ = none from HashMap.lookup_empty _] at hl
    cases hl
  | globalRule hl hp =>
    rw [show (splitSet cfg).globalRules.lookup _ = none from HashMap.lookup_empty _] at hl
    cases hl

theorem planning_exact_passThrough :
    PlansExactly (Admin.sampleExternals []) (splitSet (passThroughConfig [])) .empty := by
  refine (planning_exact_iff (identified_splitSet _) rfl .empty).mpr fun cfg h => ?_
  rw [occurs_splitSet h]
  rfl

/-- The set is valid, and an upstream written as null makes planning fail. -/
theorem planning_fails_on_null :
    (splitSet (passThroughConfig [("upstream", .null)])).Identified ∧
      validateRuntimeForm (Admin.sampleExternals []) (splitSet (passThroughConfig [("upstream", .null)])) = .ok () ∧
        ¬PlansExactly (Admin.sampleExternals []) (splitSet (passThroughConfig [("upstream", .null)])) .empty := by
  refine ⟨identified_splitSet _, rfl, fun h => ?_⟩
  obtain ⟨plan, hp, -⟩ := h.planned
  have herror : CandidatePlan.build (Admin.sampleExternals []) (splitSet (passThroughConfig [("upstream", .null)]))
      .empty = .error (.configuration "Invalid traffic-split upstream: invalid document") := rfl
  rw [herror] at hp
  cases hp

end Pingsix
