import Pingsix.RebuildSound

/-!
# Incremental compilation

A snapshot compiled with objects of the one before is the snapshot its
configuration alone gives: every object is what building its present
configuration over the snapshot's own objects gives, so nothing refers to an
object of an earlier snapshot, and two snapshots of one configuration differ in
nothing but which candidates their objects were built for.
-/

namespace Pingsix

open Except (Simulated)

/-! ## Looks that tell less -/

section
variable {ω : Type} (L : Look ω)

theorem PluginInstance.map_id {υ : Type} (p : PluginInstance υ) : p.map id = p := by
  have htarget (t : Nat × WeightedTarget υ) : (t.1, t.2.map id) = t := by
    obtain ⟨w, t⟩ := t
    cases t with
    | upstream u => rfl
    | passThrough => rfl
  have hrule (rule : CompiledRule υ) : rule.map id = rule := by
    obtain ⟨targets, total⟩ := rule
    unfold CompiledRule.map
    simp only [htarget, List.map_id']
  cases p with
  | plain config => rfl
  | trafficSplit config rules =>
    unfold PluginInstance.map
    simp only [hrule, List.map_id']
  | aiProxy config endpoint upstream scope => rfl

theorem PluginEntry.seen_identity (e : PluginEntry ProxyUpstream) : e.seen Look.identity = e := by
  unfold PluginEntry.seen Look.identity
  simp only [PluginInstance.map_id]
  rfl

theorem plugins_seen_identity (es : List (PluginEntry ProxyUpstream)) : es.map (·.seen Look.identity) = es := by
  simp only [PluginEntry.seen_identity, List.map_id']

theorem upstream_seen_identity (u : Option ProxyUpstream) : u.map Look.identity.upstream = u := Option.map_id'

/-- What is one object under the look that tells everything apart is one under every look. -/
theorem ProxyService.seen_of_identity {s s' : ProxyService ProxyUpstream}
    (h : s.seen Look.identity = s'.seen Look.identity) : s.seen L = s'.seen L := by
  unfold ProxyService.seen at h ⊢
  simp only [plugins_seen_identity, upstream_seen_identity, ServiceView.mk.injEq] at h
  obtain ⟨hinner, hupstream, hplugins, hinline⟩ := h
  rw [hinner, hupstream, hplugins, hinline]

theorem ProxyGlobalRule.seen_of_identity {s s' : ProxyGlobalRule ProxyUpstream}
    (h : s.seen Look.identity = s'.seen Look.identity) : s.seen L = s'.seen L := by
  unfold ProxyGlobalRule.seen at h ⊢
  simp only [plugins_seen_identity, GlobalRuleView.mk.injEq] at h
  obtain ⟨hinner, hplugins⟩ := h
  rw [hinner, hplugins]

theorem ProxyRoute.seen_of_identity {r r' : ProxyRoute ProxyUpstream}
    (h : r.seen Look.identity = r'.seen Look.identity) : r.seen L = r'.seen L := by
  unfold ProxyRoute.seen at h ⊢
  simp only [plugins_seen_identity, upstream_seen_identity, RouteView.mk.injEq] at h
  obtain ⟨hinner, hplugins, hresolved, hhosts, hname, hexecutor, hinline, hcache, hpreflight⟩ := h
  rw [hinner, hplugins, hresolved, hhosts, hname, hexecutor, hinline, hcache, hpreflight]

end

/-! ## Configurations that show the same -/

theorem Service.shown_of_same {a b : Service} (h : a.same b = true) : a.shown = b.shown := by
  unfold Service.same at h
  simp only [Bool.and_eq_true, decide_eq_true_eq, HashMap.sameEntries_iff] at h
  obtain ⟨⟨⟨⟨⟨hid, hname⟩, hplugins⟩, hupstream⟩, hupstreamId⟩, hhosts⟩ := h
  unfold Service.shown
  rw [hid, hname, hupstream, hupstreamId, hhosts, funext hplugins]

theorem GlobalRule.shown_of_same {a b : GlobalRule} (h : a.same b = true) : a.shown = b.shown := by
  unfold GlobalRule.same at h
  simp only [Bool.and_eq_true, decide_eq_true_eq, HashMap.sameEntries_iff] at h
  unfold GlobalRule.shown
  rw [h.1, funext h.2]

theorem Route.shown_of_same {a b : Route} (h : a.same b = true) : a.shown = b.shown := by
  unfold Route.same at h
  simp only [Bool.and_eq_true, decide_eq_true_eq, HashMap.sameEntries_iff] at h
  obtain ⟨⟨⟨⟨⟨⟨⟨⟨⟨⟨⟨⟨⟨h1, h2⟩, h3⟩, h4⟩, h5⟩, h6⟩, h7⟩, h8⟩, h9⟩, h10⟩, h11⟩, h12⟩, h13⟩, h14⟩ := h
  unfold Route.shown
  rw [h1, h2, h3, h4, h5, h6, h7, h8, funext h9, h10, h11, h12, h13, h14]

/-! ## Dependencies -/

section
variable {ext : Externals}

theorem mem_tableIds {plugins : HashMap String Json} {id : String} :
    id ∈ tableIds ext plugins ↔ ∃ name cfg, plugins.lookup name = some cfg ∧ id ∈ pluginIds ext name cfg := by
  unfold tableIds
  rw [List.mem_flatMap]
  constructor
  · intro h
    obtain ⟨e, he, hid⟩ := h
    exact ⟨e.1, e.2, (HashMap.mem_entries_iff _ _ _).mp he, hid⟩
  · intro h
    obtain ⟨name, cfg, hl, hid⟩ := h
    exact ⟨⟨name, cfg⟩, (HashMap.mem_entries_iff _ _ _).mpr hl, hid⟩

/-- The upstreams that a reuse decision asks for are all that a build of the table reads. -/
theorem tableIds_subset {plugins : HashMap String Json} {ids : List String}
    (h : pluginUpstreamDeps ext plugins = .ok ids) : tableIds ext plugins ⊆ ids := by
  intro id hid
  obtain ⟨name, cfg, hl, hid⟩ := mem_tableIds.mp hid
  obtain ⟨refs, hrefs, he⟩ := Except.bind_eq_ok.mp h
  cases Except.pure_eq_ok.mp he
  obtain ⟨r, hr⟩ := Except.mapM_isOk.mp ⟨refs, hrefs⟩ ⟨name, cfg⟩ ((HashMap.mem_entries_iff _ _ _).mpr hl)
  refine List.mem_flatten.mpr ⟨r, (Except.mem_mapM hrefs).mpr ⟨⟨name, cfg⟩, (HashMap.mem_entries_iff _ _ _).mpr hl, hr⟩, ?_⟩
  unfold pluginIds at hid
  have hr : pluginUpstreamRefs ext name cfg = .ok r := hr
  rw [hr] at hid
  exact hid

theorem depsReused_eq_ok {same : Bool} {deps : ProxyResult (List String)} {reused : HashMap String ProxyUpstream}
    (h : depsReused same deps reused = .ok true) :
    same = true ∧ ∃ ids, deps = .ok ids ∧ ∀ id ∈ ids, reused.containsKey id = true := by
  unfold depsReused at h
  cases same with
  | false => cases h
  | true =>
    obtain ⟨ids, hids, he⟩ := Except.bind_eq_ok.mp h
    exact ⟨rfl, ids, hids, List.all_eq_true.mp (Except.pure_eq_ok.mp he)⟩

end

/-! ## Up-to-date objects -/

/-- Exactly the configured ids have objects, and each object is one made from its configuration. -/
structure Matches {ν ο : Type} (made : String → ν → ο → Prop) (config : HashMap String ν) (objects : HashMap String ο) :
    Prop where
  made : ∀ id o, objects.lookup id = some o → ∃ v, config.lookup id = some v ∧ made id v o
  held : ∀ id v, config.lookup id = some v → ∃ o, objects.lookup id = some o

/-- Objects that are reused or built are made from their configuration when both kinds are. -/
theorem matches_next {ν ο : Type} {made : String → ν → ο → Prop} {config : HashMap String ν}
    {previous reused built : HashMap String ο} {keep : ν → ο → ProxyResult Bool} {build : String → ν → BuildResult ο}
    (hreuse : reuseEntries config previous keep = .ok reused) (hbuild : buildEntries config reused build = .ok built)
    (fresh : ∀ id v o, config.lookup id = some v → build id v = .ok o → made id v o)
    (kept : ∀ id v o, config.lookup id = some v → previous.lookup id = some o → keep v o = .ok true → made id v o) :
    Matches made config built where
  made id o ho := by
    obtain ⟨v, hv, ho⟩ := (lookup_buildEntries hbuild).mp ho
    refine ⟨v, hv, ?_⟩
    cases reusedOr_eq_ok.mp ho with
    | inl hr =>
      obtain ⟨v', hv', hp, hk⟩ := (lookup_reuseEntries hreuse).mp hr
      cases Option.some.inj (hv.symm.trans hv')
      exact kept id v o hv hp hk
    | inr hb => exact fresh id v o hv hb.2
  held id v hv := by
    obtain ⟨o, ho⟩ := buildEntries_isOk.mp ⟨built, hbuild⟩ id v hv
    exact ⟨o, (lookup_buildEntries hbuild).mpr ⟨v, hv, ho⟩⟩

/-- A reused object is the object of the new snapshot and was that of the previous one. -/
theorem lookup_of_reused {ν ο : Type} {config : HashMap String ν} {previous reused built : HashMap String ο}
    {keep : ν → ο → ProxyResult Bool} {build : String → ν → BuildResult ο}
    (hreuse : reuseEntries config previous keep = .ok reused) (hbuild : buildEntries config reused build = .ok built)
    {id : String} (h : reused.containsKey id = true) :
    ∃ o, previous.lookup id = some o ∧ built.lookup id = some o := by
  obtain ⟨o, ho⟩ := Option.isSome_iff_exists.mp h
  obtain ⟨v, hv, hp, -⟩ := (lookup_reuseEntries hreuse).mp ho
  exact ⟨o, hp, (lookup_buildEntries hbuild).mpr ⟨v, hv, reusedOr_eq_ok.mpr (.inl ho)⟩⟩

section
variable (ext : Externals) (objects : CandidateSnapshot)

def UpstreamMade (id : String) (upstream : Upstream) (u : ProxyUpstream) : Prop :=
  ∃ ctx, ctx.ext = ext ∧ buildUpstream ctx (.named id) upstream "" = .ok u

def ServiceMade (_ : String) (service : Service) (s : ProxyService ProxyUpstream) : Prop :=
  ∃ ctx s', ctx.ext = ext ∧ ProxyService.build ctx service objects.upstreams = .ok s' ∧
    s'.seen Look.identity = s.seen Look.identity

def GlobalRuleMade (_ : String) (rule : GlobalRule) (r : ProxyGlobalRule ProxyUpstream) : Prop :=
  ∃ ctx r', ctx.ext = ext ∧ ProxyGlobalRule.build ctx rule objects.upstreams = .ok r' ∧
    r'.seen Look.identity = r.seen Look.identity

def RouteMade (_ : String) (route : Route) (r : ProxyRoute ProxyUpstream) : Prop :=
  ∃ ctx r', ctx.ext = ext ∧ ProxyRoute.build ctx route objects.upstreams objects.services = .ok r' ∧
    r'.seen Look.identity = r.seen Look.identity

def SslMade (_ : String) (ssl : SSL) (s : ProxySSL) : Prop := ProxySSL.tryFrom ext.x509 ssl = .ok s

/-- Every object is what building its configuration over the objects themselves gives, in the context of the candidate
it was first built for. -/
structure UpToDate (config : ResourceConfigSet) : Prop where
  upstreams : Matches (UpstreamMade ext) config.upstreams objects.upstreams
  services : Matches (ServiceMade ext objects) config.services objects.services
  globalRules : Matches (GlobalRuleMade ext objects) config.globalRules objects.globalRules
  routes : Matches (RouteMade ext objects) config.routes objects.routes
  ssls : Matches (SslMade ext) config.ssls objects.ssls

end

/-! ## One compilation -/

section
variable {ext : Externals} {before config : ResourceConfigSet} {previous : RuntimeSnapshot} {plan : CandidatePlan}
variable {ctx : BuildContext} {candidate : CandidateSnapshot}

theorem buildUpstream_message {ctx : BuildContext} {occurrence : UpstreamOccurrence} {upstream : Upstream}
    {m m' : String} {wrap wrap' : ProxyError → ProxyError} {u : ProxyUpstream}
    (h : buildUpstream ctx occurrence upstream m wrap = .ok u) : buildUpstream ctx occurrence upstream m' wrap' = .ok u :=
  buildUpstream_eq_ok.mpr (buildUpstream_eq_ok.mp h)

/-- An upstream that is kept was built from the very configuration it is kept for. -/
theorem upstreamMade_kept (hid : config.Identified) (hbefore : before.Identified)
    (hp : Matches (UpstreamMade ext) before.upstreams previous.objects.upstreams) {id : String} {upstream : Upstream}
    {u : ProxyUpstream} (hu : config.upstreams.lookup id = some upstream)
    (hl : previous.objects.upstreams.lookup id = some u) (hk : keepsUpstream upstream u = .ok true) :
    UpstreamMade ext id upstream u := by
  obtain ⟨old, hold, ctx, hext, hbuild⟩ := hp.made id u hl
  have hnew : upstream.id = id := (congrArg Upstream.id (hid .upstream id upstream hu)).symm
  have hoid : old.id = id := (congrArg Upstream.id (hbefore .upstream id old hold)).symm
  obtain ⟨prepared, -, -, rfl⟩ := buildUpstream_eq_ok.mp hbuild
  have hinner : ProxyUpstream.withId ctx (.named id) old = upstream := of_decide_eq_true (Except.ok.inj hk)
  have hsame : old = upstream := by
    unfold ProxyUpstream.withId at hinner
    by_cases hempty : old.id = ""
    · -- a drawn id is not empty, but the id the kept object stands under is
      rw [if_pos hempty] at hinner
      have hdrawn : "inline_" ++ ctx.uuid (.named id) = upstream.id := congrArg Upstream.id hinner
      rw [hnew, ← hoid, hempty] at hdrawn
      simp at hdrawn
    · rwa [if_neg hempty] at hinner
  rw [← hsame]
  exact ⟨ctx, hext, hbuild⟩

theorem lookedUpAlike_of_deps {reused : HashMap String ProxyUpstream}
    (hreuse : reuseEntries config.upstreams previous.objects.upstreams keepsUpstream = .ok reused)
    {build : String → Upstream → BuildResult ProxyUpstream} {built : HashMap String ProxyUpstream}
    (hbuild : buildEntries config.upstreams reused build = .ok built) {ids deps : List String} (hsub : ids ⊆ deps)
    (hdeps : ∀ id ∈ deps, reused.containsKey id = true) :
    LookedUpAlike Look.identity.upstream ids previous.objects.upstreams built := by
  intro id hid u hu
  obtain ⟨u', hp, hb⟩ := lookup_of_reused hreuse hbuild (hdeps id (hsub hid))
  cases Option.some.inj (hu.symm.trans hp)
  exact ⟨u, hb, rfl⟩

theorem inner_of_service {service : Service} {ups : HashMap String ProxyUpstream} {s : ProxyService ProxyUpstream}
    (h : ProxyService.build ctx service ups = .ok s) : s.inner = service := by
  obtain ⟨i, -, h⟩ := Except.bind_eq_ok.mp h
  obtain ⟨u, -, h⟩ := Except.bind_eq_ok.mp h
  obtain ⟨ps, -, h⟩ := Except.bind_eq_ok.mp h
  cases Except.pure_eq_ok.mp h
  rfl

theorem inner_of_globalRule {rule : GlobalRule} {ups : HashMap String ProxyUpstream} {r : ProxyGlobalRule ProxyUpstream}
    (h : ProxyGlobalRule.build ctx rule ups = .ok r) : r.inner = rule := by
  obtain ⟨ps, -, h⟩ := Except.bind_eq_ok.mp h
  cases Except.pure_eq_ok.mp h
  rfl

theorem inner_of_route {route : Route} {ups : HashMap String ProxyUpstream}
    {svcs : HashMap String (ProxyService ProxyUpstream)} {r : ProxyRoute ProxyUpstream}
    (h : ProxyRoute.build ctx route ups svcs = .ok r) : r.inner = route := by
  obtain ⟨service, inline, upstream, plugins, -, -, -, -, rfl⟩ := ProxyRoute.build_eq_ok.mp h
  rfl

/-- The ids a table refers to are those of any table with the same entries. -/
theorem tableIds_congr {plugins plugins' : HashMap String Json}
    (h : (fun name => plugins.lookup name) = fun name => plugins'.lookup name) :
    tableIds ext plugins ⊆ tableIds ext plugins' := by
  intro id hid
  obtain ⟨name, cfg, hl, hid⟩ := mem_tableIds.mp hid
  exact mem_tableIds.mpr ⟨name, cfg, congrFun h name ▸ hl, hid⟩

section
variable (hprevious : UpToDate ext previous.objects before) (hp : CandidatePlan.Built ext config previous plan)
variable (hb : CandidateSnapshot.Built ctx config plan candidate)
include hprevious hp hb

theorem serviceMade_kept {id : String} {service : Service} {s : ProxyService ProxyUpstream}
    (hl : previous.objects.services.lookup id = some s) (hk : keepsService ext plan.reusedUpstreams service s = .ok true) :
    ServiceMade ext candidate id service s := by
  obtain ⟨old, -, ctx', s', hext', hmade, hseen⟩ := hprevious.services.made id s hl
  obtain ⟨hsame, deps, hdeps, hreused⟩ := depsReused_eq_ok hk
  have hshown : old.shown = service.shown := by
    rw [← inner_of_service hmade]
    exact (congrArg ServiceView.inner hseen).trans (Service.shown_of_same hsame)
  obtain ⟨ids, hids, hd⟩ := Except.bind_eq_ok.mp hdeps
  cases Except.pure_eq_ok.mp hd
  have hupstreamId : old.upstreamId = service.upstreamId := congrArg (fun x => x.1.upstreamId) hshown
  have hsub : serviceIds ext old ⊆ ids ++ service.upstreamId.toList := by
    unfold serviceIds
    rw [hupstreamId]
    refine List.append_subset.mpr ⟨fun id hid => List.mem_append_left _ ?_, List.subset_append_right _ _⟩
    exact tableIds_subset hids (tableIds_congr (congrArg Prod.snd hshown) hid)
  obtain ⟨s'', hmade', hseen'⟩ := rebuild_service (Rebuilds.refl Look.identity ctx') hshown
    (hext' ▸ lookedUpAlike_of_deps hp.upstreams hb.upstreams hsub hreused) s' hmade
  exact ⟨ctx', s'', hext', hmade', hseen'.trans hseen⟩

theorem globalRuleMade_kept {id : String} {rule : GlobalRule} {r : ProxyGlobalRule ProxyUpstream}
    (hl : previous.objects.globalRules.lookup id = some r)
    (hk : keepsGlobalRule ext plan.reusedUpstreams rule r = .ok true) : GlobalRuleMade ext candidate id rule r := by
  obtain ⟨old, -, ctx', r', hext', hmade, hseen⟩ := hprevious.globalRules.made id r hl
  obtain ⟨hsame, ids, hids, hreused⟩ := depsReused_eq_ok hk
  have hshown : old.shown = rule.shown := by
    rw [← inner_of_globalRule hmade]
    exact (congrArg GlobalRuleView.inner hseen).trans (GlobalRule.shown_of_same hsame)
  have hsub : tableIds ext old.plugins ⊆ ids := fun id hid =>
    tableIds_subset hids (tableIds_congr (congrArg Prod.snd hshown) hid)
  obtain ⟨r'', hmade', hseen'⟩ := rebuild_globalRule (Rebuilds.refl Look.identity ctx') hshown
    (hext' ▸ lookedUpAlike_of_deps hp.upstreams hb.upstreams hsub hreused) r' hmade
  exact ⟨ctx', r'', hext', hmade', hseen'.trans hseen⟩

theorem routeMade_kept {id : String} {route : Route} {r : ProxyRoute ProxyUpstream}
    (hl : previous.objects.routes.lookup id = some r)
    (hk : keepsRoute ext plan.reusedUpstreams plan.reusedServices route r = .ok true) :
    RouteMade ext candidate id route r := by
  obtain ⟨old, -, ctx', r', hext', hmade, hseen⟩ := hprevious.routes.made id r hl
  obtain ⟨hsame, deps, hdeps, hreused⟩ := depsReused_eq_ok hk
  obtain ⟨hservice, hsame⟩ := Bool.and_eq_true_iff.mp hsame
  have hshown : old.shown = route.shown := by
    rw [← inner_of_route hmade]
    exact (congrArg RouteView.inner hseen).trans (Route.shown_of_same hsame)
  obtain ⟨ids, hids, hd⟩ := Except.bind_eq_ok.mp hdeps
  cases Except.pure_eq_ok.mp hd
  have hupstreamId : old.upstreamId = route.upstreamId := congrArg (fun x => x.1.upstreamId) hshown
  have hserviceId : old.serviceId = route.serviceId := congrArg (fun x => x.1.serviceId) hshown
  have hsub : routeIds ext old ⊆ ids ++ route.upstreamId.toList := by
    unfold routeIds
    rw [hupstreamId]
    refine List.append_subset.mpr ⟨fun id hid => List.mem_append_left _ ?_, List.subset_append_right _ _⟩
    exact tableIds_subset hids (tableIds_congr (congrArg Prod.snd hshown) hid)
  have hservices : LookedUpAlike (ProxyService.seen Look.identity) old.serviceId.toList previous.objects.services
      candidate.services := by
    intro sid hsid s hs
    rw [hserviceId] at hsid
    unfold routeServiceReused at hservice
    rw [Option.mem_toList.mp hsid] at hservice
    obtain ⟨s', hp', hb'⟩ := lookup_of_reused hp.services hb.services hservice
    cases Option.some.inj (hs.symm.trans hp')
    exact ⟨s, hb', rfl⟩
  obtain ⟨r'', hmade', hseen'⟩ := rebuild_route (Rebuilds.refl Look.identity ctx') hshown
    (hext' ▸ lookedUpAlike_of_deps hp.upstreams hb.upstreams hsub hreused) hservices r' hmade
  exact ⟨ctx', r'', hext', hmade', hseen'.trans hseen⟩

end

theorem sslMade_kept (hp : Matches (SslMade ext) before.ssls previous.objects.ssls) {id : String} {ssl : SSL}
    {s : ProxySSL} (hl : previous.objects.ssls.lookup id = some s) (hk : keepsSsl ssl s = .ok true) :
    SslMade ext id ssl s := by
  obtain ⟨old, -, hmade⟩ := hp.made id s hl
  have hinner : s.inner = ssl := of_decide_eq_true (Except.ok.inj hk)
  rw [← hinner, (tryFrom_spec hmade).1]
  exact hmade

/-- A compilation leaves every object up to date when the previous one did. -/
theorem upToDate_next (hid : config.Identified) (hbefore : before.Identified)
    (hprevious : UpToDate ext previous.objects before) (hplan : CandidatePlan.build ext config previous = .ok plan)
    (hext : ctx.ext = ext) (hbuild : CandidateSnapshot.buildPrepared ctx config plan = .ok candidate) :
    UpToDate ext candidate config := by
  have hp := CandidatePlan.build_eq_ok.mp hplan
  have hb := CandidateSnapshot.buildPrepared_eq_ok.mp hbuild
  constructor
  · exact matches_next hp.upstreams hb.upstreams (fun id upstream u _ h => ⟨ctx, hext, buildUpstream_message h⟩)
      fun id upstream u hu hl hk => upstreamMade_kept hid hbefore hprevious.upstreams hu hl hk
  · exact matches_next hp.services hb.services (fun id service s _ h => ⟨ctx, s, hext, h, rfl⟩)
      fun id service s _ hl hk => serviceMade_kept hprevious hp hb hl hk
  · exact matches_next hp.globalRules hb.globalRules (fun id rule r _ h => ⟨ctx, r, hext, h, rfl⟩)
      fun id rule r _ hl hk => globalRuleMade_kept hprevious hp hb hl hk
  · exact matches_next hp.routes hb.routes (fun id route r _ h => ⟨ctx, r, hext, h, rfl⟩)
      fun id route r _ hl hk => routeMade_kept hprevious hp hb hl hk
  · refine matches_next hp.ssls hb.ssls (fun id ssl s _ h => ?_) fun id ssl s _ hl hk => sslMade_kept hprevious.ssls hl hk
    rw [← hext]
    exact Except.mapError_eq_ok.mp h

end

theorem matches_empty {ν ο : Type} {made : String → ν → ο → Prop} : Matches made (∅ : HashMap String ν) ∅ :=
  ⟨fun _ _ h => (nomatch h), fun _ _ h => (nomatch h)⟩

theorem identified_empty : ({} : ResourceConfigSet).Identified := by
  intro kind id r h
  cases kind <;> cases h

theorem Compiled.objects_eq {M : Matchit} {candidate : CandidateSnapshot} {revision : Int} {snapshot : RuntimeSnapshot}
    (h : RuntimeSnapshot.compile M candidate revision = .ok snapshot) : snapshot.objects = candidate := by
  obtain ⟨routeMatcher, -, h⟩ := Except.bind_eq_ok.mp h
  obtain ⟨sslMatcher, -, h⟩ := Except.bind_eq_ok.mp h
  cases Except.pure_eq_ok.mp h
  rfl

/-- Every object of a published snapshot is made from the snapshot's configuration over the snapshot's objects. -/
theorem Compiled.upToDate {M : Matchit} {ext : Externals} {config : ResourceConfigSet} {snapshot : RuntimeSnapshot}
    (h : Compiled M ext config snapshot) : config.Identified ∧ UpToDate ext snapshot.objects config := by
  induction h with
  | empty =>
    exact ⟨identified_empty, matches_empty, matches_empty, matches_empty, matches_empty, matches_empty⟩
  | next _ hid hplan hext hbuild hcompile ih =>
    rw [objects_eq hcompile]
    exact ⟨hid, upToDate_next hid ih.1 ih.2 hplan hext hbuild⟩

/-! ## What references are bound to -/

/-- Every target that names an upstream holds the object of that name. -/
def BoundPlugin (upstreams : HashMap String ProxyUpstream) : PluginInstance ProxyUpstream → Prop
  | .trafficSplit config rules =>
    List.Forall₂ (fun rule compiled => List.Forall₂ (fun (w : TrafficSplit.WeightedUpstream) (t : Nat × WeightedTarget ProxyUpstream) =>
      ∀ id, w.upstreamId = some id → ∃ u, upstreams.lookup id = some u ∧ t.2 = .upstream u)
        rule.weightedUpstreams compiled.targets) config.rules rules
  | .plain _ | .aiProxy .. => True

/-- An upstream by name is the object of that name. -/
def BoundUpstream (upstreams : HashMap String ProxyUpstream) (id : String) (u : Option ProxyUpstream) : Prop :=
  ∃ o, upstreams.lookup id = some o ∧ u = some o

section
variable {ctx : BuildContext} {ups : HashMap String ProxyUpstream}

theorem forall₂_of_mapM_zipIdx {α β ε : Type} {f : α × Nat → Except ε β} {r : α → β → Prop}
    (hf : ∀ a i b, f (a, i) = .ok b → r a b) : ∀ {l : List α} {n : Nat} {bs : List β},
      (l.zipIdx n).mapM f = .ok bs → List.Forall₂ r l bs
  | [], n, bs, h => by
    cases h
    exact .nil
  | a :: l, n, bs, h => by
    rw [List.zipIdx_cons] at h
    cases Except.mapM_eq_ok.mp h with
    | cons hb hrest => exact .cons (hf a n _ hb) (forall₂_of_mapM_zipIdx hf (Except.mapM_eq_ok.mpr hrest))

theorem TrafficSplit.bound_target {owner : TrafficSplitOwner} {r t : Nat} {w : WeightedUpstream}
    {x : Nat × WeightedTarget ProxyUpstream} (h : buildTarget ctx ups owner r t w = .ok x) {id : String}
    (hid : w.upstreamId = some id) : ∃ u, ups.lookup id = some u ∧ x.2 = .upstream u := by
  unfold buildTarget at h
  rw [hid] at h
  obtain ⟨-, -, h⟩ := Except.bind_eq_ok.mp h
  simp only at h
  cases hl : ups.lookup id with
  | none =>
    rw [hl] at h
    cases h
  | some u =>
    rw [hl] at h
    cases Except.pure_eq_ok.mp h
    exact ⟨u, rfl, rfl⟩

theorem TrafficSplit.bound_create {owner : TrafficSplitOwner} {cfg : Json} {p : PluginInstance ProxyUpstream}
    (h : create ctx ups owner cfg = .ok p) : BoundPlugin ups p := by
  unfold create at h
  obtain ⟨config, -, h⟩ := Except.bind_eq_ok.mp h
  by_cases hv : config.validate = []
  · by_cases hr : config.rules = []
    · simp only [hv, hr, ne_eq, not_true, if_true, if_false] at h
      cases h
    · simp only [hv, hr, ne_eq, not_true, if_false] at h
      obtain ⟨rules, hrules, h⟩ := Except.bind_eq_ok.mp h
      cases Except.pure_eq_ok.mp h
      refine forall₂_of_mapM_zipIdx (fun rule i compiled hc => ?_) hrules
      obtain ⟨-, -, hc⟩ := Except.bind_eq_ok.mp hc
      obtain ⟨total, -, hc⟩ := Except.bind_eq_ok.mp hc
      obtain ⟨targets, htargets, hc⟩ := Except.bind_eq_ok.mp hc
      cases Except.pure_eq_ok.mp hc
      exact forall₂_of_mapM_zipIdx (fun w t x hx id hid => bound_target hx hid) htargets
  · simp only [hv, ne_eq, not_false_eq_true, if_true] at h
    cases h

theorem bound_plugins {owner : TrafficSplitOwner} {plugins : HashMap String Json} {wrap : String → String → String}
    {es : List (PluginEntry ProxyUpstream)} (h : buildPlugins ctx ups owner plugins wrap = .ok es) :
    ∀ e ∈ es, BoundPlugin ups e.plugin := by
  obtain ⟨es', hes', h⟩ := Except.bind_eq_ok.mp h
  cases Except.pure_eq_ok.mp h
  intro e he
  obtain ⟨x, -, hx⟩ := (Except.mem_mapM hes').mp ((List.mem_insertionSort _).mp he)
  have hx := Except.mapError_eq_ok.mp hx
  unfold buildPluginWithUpstreams at hx
  cases hm : pluginMeta ctx.ext x.1 with
  | none =>
    rw [hm] at hx
    cases hx
  | some entry =>
    rw [hm] at hx
    obtain ⟨plugin, hplugin, rfl⟩ := Except.map_eq_ok.mp hx
    show BoundPlugin ups plugin
    cases kind_of_pluginMeta hm with
    | plain =>
      obtain ⟨-, -, rfl⟩ := Except.map_eq_ok.mp hplugin
      exact trivial
    | trafficSplit => exact TrafficSplit.bound_create hplugin
    | aiProxy =>
      obtain ⟨config, -, hplugin⟩ := Except.bind_eq_ok.mp hplugin
      obtain ⟨endpoint, -, hplugin⟩ := Except.bind_eq_ok.mp hplugin
      obtain ⟨u, -, hplugin⟩ := Except.bind_eq_ok.mp hplugin
      cases Except.pure_eq_ok.mp hplugin
      exact trivial

theorem bound_resolve {Owner : String} {inline inherited u : Option ProxyUpstream} {id : Option String}
    (h : resolveUpstream ups Owner inline id inherited = .ok u) (hn : inline = none) :
    (∀ uid, id = some uid → BoundUpstream ups uid u) ∧ (id = none → u = inherited) := by
  subst hn
  constructor
  · intro id hid
    subst hid
    obtain ⟨o, ho, rfl⟩ := Except.map_eq_ok.mp h
    unfold referenced at ho
    cases hl : ups.lookup id with
    | none =>
      rw [hl] at ho
      cases ho
    | some o' =>
      rw [hl] at ho
      cases ho
      exact ⟨o, hl, rfl⟩
  · intro hid
    subst hid
    exact (Except.ok.inj h).symm

theorem inline_eq_none {occurrence : UpstreamOccurrence} {Owner owner : String} {inline : Option ProxyUpstream}
    (h : buildInlineUpstream ctx occurrence Owner owner none = .ok inline) : inline = none := (Except.ok.inj h).symm

end

/-- What a service or route without an inline upstream and with these plugins is bound to. -/
structure BoundScope (upstreams : HashMap String ProxyUpstream) (inline : Option Upstream) (id : Option String)
    (upstream : Option ProxyUpstream) (plugins : List (PluginEntry ProxyUpstream)) : Prop where
  upstream : inline = none → ∀ uid, id = some uid → BoundUpstream upstreams uid upstream
  plugins : ∀ e ∈ plugins, BoundPlugin upstreams e.plugin

/-- A route takes its inherited upstream, its hosts and its service's plugins from the service object it names. -/
structure BoundRoute (services : HashMap String (ProxyService ProxyUpstream)) (r : ProxyRoute ProxyUpstream) (sid : String)
    (s : ProxyService ProxyUpstream) : Prop where
  service : services.lookup sid = some s
  inherited : r.inner.upstream = none → r.inner.upstreamId = none → r.resolvedUpstream = s.upstream
  hosts : r.inner.getHosts = [] → r.effectiveHosts = s.inner.hosts
  executor : r.pluginExecutor.plugins = ProxyRoute.merge r.plugins (some s)

/-- Every reference inside the objects is bound to the object they hold under the id. -/
structure CandidateSnapshot.Bound (objects : CandidateSnapshot) : Prop where
  services : ∀ id s, objects.services.lookup id = some s →
    BoundScope objects.upstreams s.inner.upstream s.inner.upstreamId s.upstream s.plugins
  globalRules : ∀ id rule, objects.globalRules.lookup id = some rule → ∀ e ∈ rule.plugins, BoundPlugin objects.upstreams e.plugin
  routes : ∀ id r, objects.routes.lookup id = some r →
    BoundScope objects.upstreams r.inner.upstream r.inner.upstreamId r.resolvedUpstream r.plugins
  routeServices : ∀ id r, objects.routes.lookup id = some r → ∀ sid, r.inner.serviceId = some sid →
    ∃ s, BoundRoute objects.services r sid s

section
variable {ext : Externals} {objects : CandidateSnapshot}

theorem bound_service {id : String} {service : Service} {s : ProxyService ProxyUpstream}
    (h : ServiceMade ext objects id service s) :
    BoundScope objects.upstreams s.inner.upstream s.inner.upstreamId s.upstream s.plugins := by
  obtain ⟨ctx, s', -, hmade, hseen⟩ := h
  obtain ⟨inline, hinline, hmade⟩ := Except.bind_eq_ok.mp hmade
  obtain ⟨upstream, hupstream, hmade⟩ := Except.bind_eq_ok.mp hmade
  obtain ⟨plugins, hplugins, hmade⟩ := Except.bind_eq_ok.mp hmade
  cases Except.pure_eq_ok.mp hmade
  unfold ProxyService.seen at hseen
  simp only [plugins_seen_identity, upstream_seen_identity, ServiceView.mk.injEq] at hseen
  obtain ⟨hinner, rfl, rfl, -⟩ := hseen
  have hu : s.inner.upstream = service.upstream := (congrArg (fun x => x.1.upstream) hinner).symm
  have huid : s.inner.upstreamId = service.upstreamId := (congrArg (fun x => x.1.upstreamId) hinner).symm
  rw [hu, huid]
  refine ⟨fun hn uid hid => ?_, bound_plugins hplugins⟩
  rw [hn] at hinline
  exact (bound_resolve hupstream (inline_eq_none hinline)).1 uid hid

theorem bound_globalRule {id : String} {rule : GlobalRule} {r : ProxyGlobalRule ProxyUpstream}
    (h : GlobalRuleMade ext objects id rule r) : ∀ e ∈ r.plugins, BoundPlugin objects.upstreams e.plugin := by
  obtain ⟨ctx, r', -, hmade, hseen⟩ := h
  obtain ⟨plugins, hplugins, hmade⟩ := Except.bind_eq_ok.mp hmade
  cases Except.pure_eq_ok.mp hmade
  have hplugin := congrArg GlobalRuleView.plugins hseen
  unfold ProxyGlobalRule.seen at hplugin
  simp only [plugins_seen_identity] at hplugin
  rw [← hplugin]
  exact bound_plugins hplugins

theorem bound_route {id : String} {route : Route} {r : ProxyRoute ProxyUpstream} (h : RouteMade ext objects id route r) :
    BoundScope objects.upstreams r.inner.upstream r.inner.upstreamId r.resolvedUpstream r.plugins ∧
      ∀ sid, r.inner.serviceId = some sid → ∃ s, BoundRoute objects.services r sid s := by
  obtain ⟨ctx, r', -, hmade, hseen⟩ := h
  obtain ⟨service, inline, upstream, plugins, hservice, hinline, hupstream, hplugins, rfl⟩ := ProxyRoute.build_eq_ok.mp hmade
  unfold ProxyRoute.seen ProxyRoute.assemble at hseen
  simp only [plugins_seen_identity, upstream_seen_identity, RouteView.mk.injEq] at hseen
  obtain ⟨hinner, hps, hresolved, hhosts, -, hexecutor, -, -, -⟩ := hseen
  have hu : r.inner.upstream = route.upstream := (congrArg (fun x => x.1.upstream) hinner).symm
  have huid : r.inner.upstreamId = route.upstreamId := (congrArg (fun x => x.1.upstreamId) hinner).symm
  have hsid : r.inner.serviceId = route.serviceId := (congrArg (fun x => x.1.serviceId) hinner).symm
  have hown : r.inner.getHosts = route.getHosts := (congrArg (fun x => x.1.getHosts) hinner).symm
  have hresolve : route.upstream = none → _ := fun hn => bound_resolve hupstream (by
    rw [hn] at hinline
    exact inline_eq_none hinline)
  refine ⟨⟨fun hn uid hid => ?_, ?_⟩, fun sid hid => ?_⟩
  · rw [huid] at hid
    exact hresolved ▸ (hresolve (hu ▸ hn)).1 uid hid
  · rw [← hps]
    exact bound_plugins hplugins
  · rw [hsid] at hid
    unfold ProxyRoute.serviceOf at hservice
    rw [hid] at hservice
    obtain ⟨s, hs, rfl⟩ := Except.map_eq_ok.mp hservice
    unfold referenced at hs
    cases hl : objects.services.lookup sid with
    | none =>
      rw [hl] at hs
      cases hs
    | some s' =>
      rw [hl] at hs
      cases hs
      refine ⟨s, hl, fun hn hni => ?_, fun hh => ?_, ?_⟩
      · rw [huid] at hni
        exact hresolved ▸ (hresolve (hu ▸ hn)).2 hni
      · rw [← hhosts]
        unfold ProxyRoute.hostsOf
        rw [← hown, hh]
        rfl
      · rw [← hexecutor, ← hps]
        rfl

/-- No object of a published snapshot refers to an object of an earlier one. -/
theorem compiled_bound {M : Matchit} {config : ResourceConfigSet} {snapshot : RuntimeSnapshot}
    (h : Compiled M ext config snapshot) : snapshot.objects.Bound := by
  obtain ⟨-, hu⟩ := h.upToDate
  refine ⟨fun id s hs => ?_, fun id rule hr => ?_, fun id r hr => ?_, fun id r hr => ?_⟩
  · obtain ⟨service, -, hmade⟩ := hu.services.made id s hs
    exact bound_service hmade
  · obtain ⟨config, -, hmade⟩ := hu.globalRules.made id rule hr
    exact bound_globalRule hmade
  · obtain ⟨route, -, hmade⟩ := hu.routes.made id r hr
    exact (bound_route hmade).1
  · obtain ⟨route, -, hmade⟩ := hu.routes.made id r hr
    exact (bound_route hmade).2

end

/-- The context of a second candidate, for which nothing is prepared. -/
def reusingContext : BuildContext := { tiedContext with prepared := ∅, generation := 2 }

theorem identified_tiedSecond : tiedSecond.Identified := fun kind id r h =>
  identified_tiedFirst kind id r ((sameEntries_tied kind id).trans h)

/-- A route that is reused holds the upstream of the second snapshot. -/
theorem compiled_bound_tied : ∃ s r, Compiled Matchit.staticFirst tiedContext.ext tiedSecond s ∧
    s.objects.routes.lookup "a" = some r ∧ BoundUpstream s.objects.upstreams "u1" r.resolvedUpstream := by
  have h := @Compiled.next Matchit.staticFirst tiedContext.ext {} tiedFirst .empty _ _ tiedContext _ 1 .empty
    identified_tiedFirst rfl rfl rfl rfl
  have h' := @Compiled.next Matchit.staticFirst tiedContext.ext tiedFirst tiedSecond _ _ _ reusingContext _ 2 h
    identified_tiedSecond rfl rfl rfl rfl
  exact ⟨_, _, h', rfl, ((compiled_bound h').routes "a" _ rfl).upstream rfl "u1" rfl⟩

end Pingsix
