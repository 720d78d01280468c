import Pingsix.BuildSound
import Pingsix.DecodeSound

/-!
# Plans and candidates

What a plan and the candidate built from it hold under each id, and that neither
depends on the iteration order of the maps they are computed from.
-/

namespace Pingsix

open HashMap (SameEntries)

/-! ## Ids -/

namespace ResourceConfigSet

/-- Every resource is held under its own id. -/
def Identified (set : ResourceConfigSet) : Prop :=
  ∀ kind id r, (set.slot kind).lookup id = some r → Resource.setId kind id r = r

theorem identified_decodeGraph {ext : Externals} {keyring : KeyringService} {g : StoredGraph} {mode : SecretMode}
    {set : ResourceConfigSet} (h : decodeGraph ext keyring g mode = .ok set) : set.Identified := by
  intro kind id r hr
  obtain ⟨key, res, -, -, -, hd⟩ := (decodeGraph_lookup h).mp hr
  unfold decodeStored at hd
  obtain ⟨r', -, he⟩ := Except.bind_eq_ok.mp hd
  cases Except.pure_eq_ok.mp he
  cases kind <;> rfl

end ResourceConfigSet

/-! ## Entries -/

/-- The previous object under the id, if it is kept. -/
def kept {ν ο : Type} (previous : HashMap String ο) (keep : ν → ο → ProxyResult Bool) (id : String) (v : ν) :
    ProxyResult (Option ο) :=
  match previous.lookup id with
  | none => .ok none
  | some existing => (keep v existing).map fun b => if b then some existing else none

theorem reuseEntries_eq {ν ο : Type} (config : HashMap String ν) (previous : HashMap String ο)
    (keep : ν → ο → ProxyResult Bool) : reuseEntries config previous keep = config.collect (kept previous keep) := by
  unfold reuseEntries HashMap.collect
  congr 1
  funext b e
  unfold kept
  cases previous.lookup e.1 with
  | none => rfl
  | some existing =>
    simp only
    cases keep e.2 existing with
    | error err => rfl
    | ok k => cases k <;> rfl

theorem lookup_reuseEntries {ν ο : Type} {config : HashMap String ν} {previous reused : HashMap String ο}
    {keep : ν → ο → ProxyResult Bool} (h : reuseEntries config previous keep = .ok reused) {id : String} {o : ο} :
    reused.lookup id = some o ↔ ∃ v, config.lookup id = some v ∧ previous.lookup id = some o ∧ keep v o = .ok true := by
  rw [reuseEntries_eq] at h
  rw [HashMap.lookup_collect h]
  refine exists_congr fun v => and_congr_right fun _ => ?_
  unfold kept
  cases previous.lookup id with
  | none => simp
  | some existing =>
    rw [Except.map_eq_ok, Option.some.injEq]
    constructor
    · rintro ⟨k, hk, he⟩
      cases k with
      | false => cases he
      | true =>
        cases he
        exact ⟨rfl, hk⟩
    · rintro ⟨rfl, hk⟩
      exact ⟨true, hk, rfl⟩

/-- The reused object or else the one built. -/
def reusedOr {ν ο : Type} (reused : HashMap String ο) (build : String → ν → BuildResult ο) (id : String) (v : ν) :
    BuildResult ο :=
  match reused.lookup id with
  | some existing => .ok existing
  | none => build id v

theorem buildEntries_eq {ν ο : Type} (config : HashMap String ν) (reused : HashMap String ο)
    (build : String → ν → BuildResult ο) :
    buildEntries config reused build = config.collect fun id v => (reusedOr reused build id v).map some := by
  unfold buildEntries HashMap.collect
  congr 1
  funext b e
  unfold reusedOr
  beta_reduce
  cases reused.lookup e.1 with
  | some existing => rfl
  | none =>
    simp only
    cases build e.1 e.2 with
    | error err => rfl
    | ok o => rfl

theorem buildEntries_isOk {ν ο : Type} {config : HashMap String ν} {reused : HashMap String ο}
    {build : String → ν → BuildResult ο} : (∃ built, buildEntries config reused build = .ok built) ↔
      ∀ id v, config.lookup id = some v → ∃ o, reusedOr reused build id v = .ok o := by
  rw [buildEntries_eq, HashMap.collect_isOk]
  refine forall₃_congr fun id v _ => ?_
  simp only [Except.map_eq_ok]
  exact ⟨fun ⟨_, o, ho, _⟩ => ⟨o, ho⟩, fun ⟨o, ho⟩ => ⟨some o, o, ho, rfl⟩⟩

theorem lookup_buildEntries {ν ο : Type} {config : HashMap String ν} {reused built : HashMap String ο}
    {build : String → ν → BuildResult ο} (h : buildEntries config reused build = .ok built) {id : String} {o : ο} :
    built.lookup id = some o ↔ ∃ v, config.lookup id = some v ∧ reusedOr reused build id v = .ok o := by
  rw [buildEntries_eq] at h
  rw [HashMap.lookup_collect h]
  refine exists_congr fun v => and_congr_right fun _ => ?_
  rw [Except.map_eq_ok]
  exact ⟨fun ⟨_, ho, he⟩ => Option.some.inj he ▸ ho, fun ho => ⟨o, ho, rfl⟩⟩

/-! ## Plans -/

section
variable (ext : Externals)

/-! What a previous object is kept for. -/

def keepsUpstream (upstream : Upstream) (existing : ProxyUpstream) : ProxyResult Bool := .ok (existing.inner = upstream)

def keepsService (reused : HashMap String ProxyUpstream) (service : Service) (existing : ProxyService ProxyUpstream) :
    ProxyResult Bool := depsReused (existing.inner.same service) (scopeUpstreamDeps ext service) reused

def keepsGlobalRule (reused : HashMap String ProxyUpstream) (rule : GlobalRule)
    (existing : ProxyGlobalRule ProxyUpstream) : ProxyResult Bool :=
  depsReused (existing.inner.same rule) (pluginUpstreamDeps ext rule.plugins) reused

def keepsRoute (reused : HashMap String ProxyUpstream) (services : HashMap String (ProxyService ProxyUpstream))
    (route : Route) (existing : ProxyRoute ProxyUpstream) : ProxyResult Bool :=
  depsReused (routeServiceReused route services && existing.inner.same route) (scopeUpstreamDepsRule ext route) reused

def keepsSsl (ssl : SSL) (existing : ProxySSL) : ProxyResult Bool := .ok (existing.inner = ssl)

/-- What each part of a plan is computed from. -/
structure CandidatePlan.Built (config : ResourceConfigSet) (previous : RuntimeSnapshot) (plan : CandidatePlan) :
    Prop where
  upstreams : reuseEntries config.upstreams previous.objects.upstreams keepsUpstream = .ok plan.reusedUpstreams
  services : reuseEntries config.services previous.objects.services (keepsService ext plan.reusedUpstreams) =
    .ok plan.reusedServices
  globalRules : reuseEntries config.globalRules previous.objects.globalRules
    (keepsGlobalRule ext plan.reusedUpstreams) = .ok plan.reusedGlobalRules
  routes : reuseEntries config.routes previous.objects.routes
    (keepsRoute ext plan.reusedUpstreams plan.reusedServices) = .ok plan.reusedRoutes
  ssls : reuseEntries config.ssls previous.objects.ssls keepsSsl = .ok plan.reusedSsls
  jobs : ∃ named services globalRules routes,
    collectJobs config.upstreams plan.reusedUpstreams.containsKey namedJob = .ok named ∧
      collectJobs config.services plan.reusedServices.containsKey (serviceJobs ext) = .ok services ∧
      collectJobs config.globalRules plan.reusedGlobalRules.containsKey (globalRuleJobs ext) = .ok globalRules ∧
      collectJobs config.routes plan.reusedRoutes.containsKey (routeJobs ext) = .ok routes ∧
      plan.jobs = named ++ services ++ globalRules ++ routes

variable {ext} {config : ResourceConfigSet}

theorem CandidatePlan.build_eq_ok {previous : RuntimeSnapshot} {plan : CandidatePlan} :
    CandidatePlan.build ext config previous = .ok plan ↔ CandidatePlan.Built ext config previous plan := by
  unfold CandidatePlan.build
  simp only [Except.bind_eq_ok]
  constructor
  · rintro ⟨ups, hups, svcs, hsvcs, rules, hrules, routes, hroutes, ssls, hssls, n, hn, s, hs, g, hg, r, hr, h⟩
    cases Except.pure_eq_ok.mp h
    exact ⟨hups, hsvcs, hrules, hroutes, hssls, n, s, g, r, hn, hs, hg, hr, rfl⟩
  · rintro ⟨hups, hsvcs, hrules, hroutes, hssls, n, s, g, r, hn, hs, hg, hr, hj⟩
    refine ⟨_, hups, _, hsvcs, _, hrules, _, hroutes, _, hssls, n, hn, s, hs, g, hg, r, hr, ?_⟩
    rw [← hj]
    rfl

end

/-! ## Candidates -/

/-- What each map of a candidate is built from. -/
structure CandidateSnapshot.Built (ctx : BuildContext) (config : ResourceConfigSet) (plan : CandidatePlan)
    (candidate : CandidateSnapshot) : Prop where
  valid : validateRuntimeForm ctx.ext config = .ok ()
  upstreams : buildEntries config.upstreams plan.reusedUpstreams (fun id upstream =>
    buildUpstream ctx (.named id) upstream s!"Upstream '{id}' was not prepared") = .ok candidate.upstreams
  services : buildEntries config.services plan.reusedServices (fun _ service =>
    ProxyService.build ctx service candidate.upstreams) = .ok candidate.services
  globalRules : buildEntries config.globalRules plan.reusedGlobalRules (fun _ rule =>
    ProxyGlobalRule.build ctx rule candidate.upstreams) = .ok candidate.globalRules
  routes : buildEntries config.routes plan.reusedRoutes (fun _ route =>
    ProxyRoute.build ctx route candidate.upstreams candidate.services) = .ok candidate.routes
  ssls : buildEntries config.ssls plan.reusedSsls (fun _ ssl => raise (ProxySSL.tryFrom ctx.ext.x509 ssl)) =
    .ok candidate.ssls

theorem CandidateSnapshot.buildPrepared_eq_ok {ctx : BuildContext} {config : ResourceConfigSet} {plan : CandidatePlan}
    {candidate : CandidateSnapshot} : CandidateSnapshot.buildPrepared ctx config plan = .ok candidate ↔
      CandidateSnapshot.Built ctx config plan candidate := by
  unfold CandidateSnapshot.buildPrepared
  rw [Except.bind_unit_eq_ok, raise, Except.mapError_eq_ok]
  simp only [Except.bind_eq_ok]
  constructor
  · rintro ⟨hv, ups, hups, svcs, hsvcs, rules, hrules, routes, hroutes, ssls, hssls, h⟩
    cases Except.pure_eq_ok.mp h
    exact ⟨hv, hups, hsvcs, hrules, hroutes, hssls⟩
  · rintro ⟨hv, hups, hsvcs, hrules, hroutes, hssls⟩
    exact ⟨hv, _, hups, _, hsvcs, _, hrules, _, hroutes, _, hssls, rfl⟩

/-! ## Builds read maps by lookups -/

section
variable {ctx : BuildContext} {ups ups' : HashMap String ProxyUpstream} (h : SameEntries ups ups')
include h

theorem TrafficSplit.buildTarget_congr (owner : TrafficSplitOwner) :
    TrafficSplit.buildTarget ctx ups owner = TrafficSplit.buildTarget ctx ups' owner := by
  have hl (id : String) : AList.lookup id ups = AList.lookup id ups' := h id
  unfold TrafficSplit.buildTarget
  simp only [hl]

theorem TrafficSplit.create_congr (owner : TrafficSplitOwner) :
    TrafficSplit.create ctx ups owner = TrafficSplit.create ctx ups' owner := by
  funext cfg
  unfold TrafficSplit.create TrafficSplit.buildRule
  rw [TrafficSplit.buildTarget_congr h]

theorem buildPlugins_congr (owner : TrafficSplitOwner) :
    buildPlugins ctx ups owner = buildPlugins ctx ups' owner := by
  funext plugins wrap
  unfold buildPlugins buildPluginWithUpstreams PluginFactory.create
  rw [TrafficSplit.create_congr h]

theorem resolveUpstream_congr : resolveUpstream ups = resolveUpstream ups' := by
  have hl (id : String) : AList.lookup id ups = AList.lookup id ups' := h id
  unfold resolveUpstream referenced
  simp only [hl]

theorem ProxyService.build_congr (service : Service) :
    ProxyService.build ctx service ups = ProxyService.build ctx service ups' := by
  unfold ProxyService.build
  rw [resolveUpstream_congr h, buildPlugins_congr h]

theorem ProxyGlobalRule.build_congr (rule : GlobalRule) :
    ProxyGlobalRule.build ctx rule ups = ProxyGlobalRule.build ctx rule ups' := by
  unfold ProxyGlobalRule.build
  rw [buildPlugins_congr h]

theorem ProxyRoute.build_congr {svcs svcs' : HashMap String (ProxyService ProxyUpstream)} (hs : SameEntries svcs svcs')
    (route : Route) : ProxyRoute.build ctx route ups svcs = ProxyRoute.build ctx route ups' svcs' := by
  have href (owner target : String) : referenced owner target svcs = referenced owner target svcs' := by
    funext id
    unfold referenced
    rw [hs id]
  unfold ProxyRoute.build
  rw [resolveUpstream_congr h, buildPlugins_congr h]
  simp only [href]

end

/-! ## Iteration orders -/

section
variable {ν ο : Type} {config config' : HashMap String ν} (hc : SameEntries config config')
include hc

theorem reuseEntries_congr {previous reused : HashMap String ο} {keep keep' : ν → ο → ProxyResult Bool}
    (hk : ∀ v o, keep v o = keep' v o) (h : reuseEntries config previous keep = .ok reused) :
    ∃ reused', reuseEntries config' previous keep' = .ok reused' ∧ SameEntries reused reused' := by
  cases funext fun v => funext (hk v)
  rw [reuseEntries_eq] at h ⊢
  exact HashMap.collect_congr hc (fun _ _ _ => rfl) h

theorem buildEntries_congr {reused reused' built : HashMap String ο} {build build' : String → ν → BuildResult ο}
    (hr : SameEntries reused reused') (hb : ∀ id v, build id v = build' id v)
    (h : buildEntries config reused build = .ok built) :
    ∃ built', buildEntries config' reused' build' = .ok built' ∧ SameEntries built built' := by
  rw [buildEntries_eq] at h ⊢
  refine HashMap.collect_congr hc (fun id v _ => ?_) h
  unfold reusedOr
  rw [hr id]
  simp only [hb]

theorem collectJobs_congr {reused reused' : String → Bool} {jobs : String → ν → ProxyResult (List (UpstreamOccurrence × Upstream))}
    {collected : List (UpstreamOccurrence × Upstream)} (hr : ∀ id, reused id = reused' id)
    (h : collectJobs config reused jobs = .ok collected) :
    ∃ collected', collectJobs config' reused' jobs = .ok collected' ∧ collected.Perm collected' := by
  cases funext hr
  unfold collectJobs at h ⊢
  obtain ⟨lists, hl, h⟩ := Except.bind_eq_ok.mp h
  cases Except.pure_eq_ok.mp h
  obtain ⟨lists', hl', hperm⟩ := Except.mapM_perm hc.perm hl
  exact ⟨lists'.flatten, Except.bind_eq_ok.mpr ⟨lists', hl', rfl⟩, hperm.flatten⟩

end

end Pingsix
