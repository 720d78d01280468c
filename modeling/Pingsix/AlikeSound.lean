import Pingsix.IncrementalSound
import Pingsix.MatcherMap

/-!
# Snapshots of one configuration

Two compiled snapshots of one configuration answer every request alike, whatever
was published before each and however much of it was reused: they differ only in
which candidates their objects were built for and what was prepared for them.
-/

namespace Pingsix

open Except (Simulated)

/-! ## A context that can build what either of two built -/

/-- Everything prepared for either context. -/
def BuildContext.union (ctx ctx' : BuildContext) : BuildContext := { ctx with prepared := ctx.prepared ∪ ctx'.prepared }

section
variable {ctx ctx' : BuildContext}

theorem rebuilds_of_prepared {target : BuildContext} (hext : target.ext = ctx.ext)
    (hprepared : ∀ occurrence p, ctx.prepared.lookup occurrence = some p →
      ∃ p', target.prepared.lookup occurrence = some p') : Rebuilds Look.declared ctx target where
  ext := hext
  generation := rfl
  build occurrence upstream message wrap u hu := by
    obtain ⟨p, hp, hloads, -⟩ := buildUpstream_eq_ok.mp hu
    obtain ⟨p', hp'⟩ := hprepared occurrence p hp
    have hbuilt : buildUpstream target occurrence upstream message wrap = .ok
        { allocation := ⟨target.generation, occurrence⟩, idGenerated := upstream.id = "",
          inner := ProxyUpstream.withId target occurrence upstream, prepared := p' } :=
      buildUpstream_eq_ok.mpr ⟨p', hp', hext ▸ hloads, rfl⟩
    exact ⟨_, hbuilt, (declared_of_buildUpstream hbuilt).trans (declared_of_buildUpstream hu).symm⟩

theorem rebuilds_union_left : Rebuilds Look.declared ctx (ctx.union ctx') :=
  rebuilds_of_prepared rfl fun occurrence p hp => by
    have hm : occurrence ∈ ctx.prepared := AList.lookup_isSome.mp (by rw [hp]; rfl)
    exact ⟨p, (AList.lookup_union_left hm).trans hp⟩

theorem rebuilds_union_right (hext : ctx.ext = ctx'.ext) : Rebuilds Look.declared ctx' (ctx.union ctx') :=
  rebuilds_of_prepared hext fun occurrence p hp => by
    have hm : occurrence ∈ ctx'.prepared := AList.lookup_isSome.mp (by rw [hp]; rfl)
    exact Option.isSome_iff_exists.mp (AList.lookup_isSome.mpr (AList.mem_union.mpr (.inr hm)))

end

/-! ## Objects of one configuration -/

/-- The two maps hold objects that look alike under the same ids. -/
def SeenAlike {ο ζ : Type} (look : ο → ζ) (objects objects' : HashMap String ο) : Prop :=
  ∀ id, (objects.lookup id).map look = (objects'.lookup id).map look

theorem SeenAlike.agrees {ο ζ : Type} {look : ο → ζ} {objects objects' : HashMap String ο}
    (h : SeenAlike look objects objects') (ids : List String) : LookedUpAlike look ids objects objects' := by
  intro id _ o ho
  have hid := h id
  rw [ho] at hid
  obtain ⟨o', ho', hlook⟩ := Option.map_eq_some_iff.mp hid.symm
  exact ⟨o', ho', hlook⟩

theorem SeenAlike.refl {ο ζ : Type} (look : ο → ζ) (objects : HashMap String ο) : SeenAlike look objects objects :=
  fun _ => rfl

/-- Objects made from the same configuration look alike when what is made for one id does. -/
theorem seenAlike_of_matches {ν ο ζ : Type} {made made' : String → ν → ο → Prop} {config config' : HashMap String ν}
    {objects objects' : HashMap String ο} (look : ο → ζ) (h : Matches made config objects)
    (h' : Matches made' config' objects') (hc : config.SameEntries config')
    (hlook : ∀ id v o o', made id v o → made' id v o' → look o = look o') : SeenAlike look objects objects' := by
  intro id
  cases ho : objects.lookup id with
  | none =>
    cases ho' : objects'.lookup id with
    | none => rfl
    | some o' =>
      obtain ⟨v, hv, -⟩ := h'.made id o' ho'
      obtain ⟨o, ho''⟩ := h.held id v ((hc id).trans hv)
      rw [ho] at ho''
      cases ho''
  | some o =>
    obtain ⟨v, hv, hmade⟩ := h.made id o ho
    obtain ⟨o', ho'⟩ := h'.held id v ((hc id).symm.trans hv)
    obtain ⟨v', hv', hmade'⟩ := h'.made id o' ho'
    cases Option.some.inj (((hc id).symm.trans hv).symm.trans hv')
    rw [ho']
    exact congrArg some (hlook id v o o' hmade hmade')

section
variable {ext : Externals} {objects objects' : CandidateSnapshot} {id : String}

theorem upstream_alike {upstream : Upstream} {u u' : ProxyUpstream} (h : UpstreamMade ext id upstream u)
    (h' : UpstreamMade ext id upstream u') : u.declared = u'.declared := by
  obtain ⟨ctx, -, hu⟩ := h
  obtain ⟨ctx', -, hu'⟩ := h'
  exact (declared_of_buildUpstream hu).trans (declared_of_buildUpstream hu').symm

/-- Two builds are compared through a third, in a context that can build what either built. -/
theorem alike_of_rebuilds {α ζ : Type} {look : α → ζ} {x x' y : BuildResult α} {a a' : α} (ha : x = .ok a) (ha' : x' = .ok a')
    (h : Simulated look x y) (h' : Simulated look x' y) : look a = look a' := by
  obtain ⟨b, hb, hlook⟩ := h a ha
  obtain ⟨b', hb', hlook'⟩ := h' a' ha'
  cases Except.ok.inj (hb.symm.trans hb')
  exact hlook.symm.trans hlook'

variable (hups : SeenAlike ProxyUpstream.declared objects.upstreams objects'.upstreams)
include hups

theorem service_alike {service : Service} {s s' : ProxyService ProxyUpstream} (h : ServiceMade ext objects id service s)
    (h' : ServiceMade ext objects' id service s') : s.seen Look.declared = s'.seen Look.declared := by
  obtain ⟨ctx, t, hext, hmade, hseen⟩ := h
  obtain ⟨ctx', t', hext', hmade', hseen'⟩ := h'
  rw [← ProxyService.seen_of_identity Look.declared hseen, ← ProxyService.seen_of_identity Look.declared hseen']
  exact alike_of_rebuilds hmade hmade' (rebuild_service rebuilds_union_left rfl (hups.agrees _))
    (rebuild_service (rebuilds_union_right (hext.trans hext'.symm)) rfl ((SeenAlike.refl _ _).agrees _))

theorem globalRule_alike {rule : GlobalRule} {r r' : ProxyGlobalRule ProxyUpstream} (h : GlobalRuleMade ext objects id rule r)
    (h' : GlobalRuleMade ext objects' id rule r') : r.seen Look.declared = r'.seen Look.declared := by
  obtain ⟨ctx, t, hext, hmade, hseen⟩ := h
  obtain ⟨ctx', t', hext', hmade', hseen'⟩ := h'
  rw [← ProxyGlobalRule.seen_of_identity Look.declared hseen, ← ProxyGlobalRule.seen_of_identity Look.declared hseen']
  exact alike_of_rebuilds hmade hmade' (rebuild_globalRule rebuilds_union_left rfl (hups.agrees _))
    (rebuild_globalRule (rebuilds_union_right (hext.trans hext'.symm)) rfl ((SeenAlike.refl _ _).agrees _))

theorem route_alike (hsvcs : SeenAlike (ProxyService.seen Look.declared) objects.services objects'.services)
    {route : Route} {r r' : ProxyRoute ProxyUpstream} (h : RouteMade ext objects id route r)
    (h' : RouteMade ext objects' id route r') : r.seen Look.declared = r'.seen Look.declared := by
  obtain ⟨ctx, t, hext, hmade, hseen⟩ := h
  obtain ⟨ctx', t', hext', hmade', hseen'⟩ := h'
  rw [← ProxyRoute.seen_of_identity Look.declared hseen, ← ProxyRoute.seen_of_identity Look.declared hseen']
  exact alike_of_rebuilds hmade hmade' (rebuild_route rebuilds_union_left rfl (hups.agrees _) (hsvcs.agrees _))
    (rebuild_route (rebuilds_union_right (hext.trans hext'.symm)) rfl ((SeenAlike.refl _ _).agrees _)
      ((SeenAlike.refl _ _).agrees _))

end

/-! ## Global plugins and matchers -/

/-- The rule as it is seen, its table left out. -/
def GlobalRuleView.rule {ω : Type} (v : GlobalRuleView ω) : ProxyGlobalRule ω := ⟨v.inner.1, v.plugins⟩

section
variable {ω : Type} (L : Look ω)

theorem values_mapValues {κ ν μ : Type} [DecidableEq κ] (f : ν → μ) (m : HashMap κ ν) :
    (m.mapValues fun _ => f).values = m.values.map f := by
  unfold HashMap.values
  rw [HashMap.entries_mapValues, List.map_map, List.map_map]
  rfl

/-- The executor of the rules as they are seen is the executor as it is seen. -/
theorem globalPlugins_seen (rules : HashMap String (ProxyGlobalRule ProxyUpstream)) :
    (buildGlobalPluginExecutor (rules.mapValues fun _ r => (r.seen L).rule)).plugins =
      (buildGlobalPluginExecutor rules).plugins.map (·.seen L) := by
  unfold buildGlobalPluginExecutor ProxyPluginExecutor.fromSorted
  simp only [values_mapValues]
  have hrules : (rules.values.map fun r => (r.seen L).rule).insertionSort (fun a b => a.inner.id ≤ b.inner.id) =
      (rules.values.insertionSort fun a b => a.inner.id ≤ b.inner.id).map fun r => (r.seen L).rule :=
    (List.map_insertionSort (fun a b : ProxyGlobalRule ProxyUpstream => a.inner.id ≤ b.inner.id)
      (fun a b => a.inner.id ≤ b.inner.id) (fun r => (r.seen L).rule) _ fun _ _ _ _ => Iff.rfl).symm
  have hflat (l : List (ProxyGlobalRule ProxyUpstream)) :
      ((l.map fun r => (r.seen L).rule).flatMap fun r => r.plugins.map fun e => (r.inner.id, e)) =
        (l.flatMap fun r => r.plugins.map fun e => (r.inner.id, e)).map fun p => (p.1, p.2.seen L) := by
    rw [List.flatMap_map, List.map_flatMap]
    refine congrArg (List.flatMap · l) (funext fun r => ?_)
    show (r.plugins.map (·.seen L)).map (fun e => (r.inner.id, e)) = _
    rw [List.map_map, List.map_map]
    rfl
  rw [hrules, hflat, ← List.map_insertionSort (fun a b => b.2.priority < a.2.priority ∨ a.2.priority = b.2.priority ∧
    (a.2.name < b.2.name ∨ a.2.name = b.2.name ∧ a.1 ≤ b.1)) _ (fun p : String × PluginEntry ProxyUpstream => (p.1, p.2.seen L))
    _ fun _ _ _ _ => Iff.rfl, List.map_map, List.map_map]
  rfl

theorem keepsRoute_seen : KeepsRoute (ProxyRoute.seen L) where
  routeId _ := rfl
  priority _ := rfl
  getHosts _ := rfl
  getUris _ := rfl
  methods _ := rfl
  servesPreflight _ := rfl

end

theorem SeenAlike.mapValues {ο ζ μ : Type} {look : ο → ζ} {f : ζ → μ} {objects objects' : HashMap String ο}
    (h : SeenAlike look objects objects') :
    HashMap.SameEntries (objects.mapValues fun _ o => f (look o)) (objects'.mapValues fun _ o => f (look o)) := by
  intro id
  have hid := congrArg (Option.map f) (h id)
  rw [Option.map_map, Option.map_map] at hid
  rw [HashMap.lookup_mapValues, HashMap.lookup_mapValues]
  exact hid

/-! ## Snapshots -/

/-- Nothing but the identity of objects and what was prepared for them tells the two snapshots apart: not their objects,
not the answer to any request, not the global plugins and not the certificate of any server name. -/
structure RuntimeSnapshot.Alike (M : Matchit) (s s' : RuntimeSnapshot) : Prop where
  upstreams : SeenAlike ProxyUpstream.declared s.objects.upstreams s'.objects.upstreams
  services : SeenAlike (ProxyService.seen Look.declared) s.objects.services s'.objects.services
  globalRules : SeenAlike (ProxyGlobalRule.seen Look.declared) s.objects.globalRules s'.objects.globalRules
  routes : SeenAlike (ProxyRoute.seen Look.declared) s.objects.routes s'.objects.routes
  ssls : HashMap.SameEntries s.objects.ssls s'.objects.ssls
  globalPlugins : s.globalPlugins.plugins.map (·.seen Look.declared) = s'.globalPlugins.plugins.map (·.seen Look.declared)
  routeMatch : ∀ isMethod request,
    (MatchEntry.routeMatch M isMethod s.routeMatcher request).map (Prod.map id (·.seen Look.declared)) =
      (MatchEntry.routeMatch M isMethod s'.routeMatcher request).map (Prod.map id (·.seen Look.declared))
  certificates : ∀ sni, s.sslMatcher.matchSniSlicing M sni = s'.sslMatcher.matchSniSlicing M sni

theorem Compiled.compiles {M : Matchit} {ext : Externals} {config : ResourceConfigSet} {s : RuntimeSnapshot}
    (h : Compiled M ext config s) : ∃ revision, RuntimeSnapshot.compile M s.objects revision = .ok s := by
  cases h with
  | empty => exact ⟨0, rfl⟩
  | next _ _ _ _ _ hcompile => exact ⟨_, Compiled.objects_eq hcompile ▸ hcompile⟩

section
variable {M : Matchit} {s s' : RuntimeSnapshot} {revision revision' : Int}

theorem hasPlugin_of_seen {e e' : ProxyPluginExecutor ProxyUpstream}
    (h : e.plugins.map (·.seen Look.declared) = e'.plugins.map (·.seen Look.declared)) (name : String) :
    e.hasPlugin name = e'.hasPlugin name := by
  have hp := @hasPlugin_seen _ Look.declared e.plugins name
  have hp' := @hasPlugin_seen _ Look.declared e'.plugins name
  rw [h] at hp
  exact hp.trans hp'.symm

/-- What is compiled from alike objects is alike. -/
theorem alike_of_objects (hM : M.Lawful) (hO : M.OrderFree) (hc : RuntimeSnapshot.compile M s.objects revision = .ok s)
    (hc' : RuntimeSnapshot.compile M s'.objects revision' = .ok s')
    (hrules : SeenAlike (ProxyGlobalRule.seen Look.declared) s.objects.globalRules s'.objects.globalRules)
    (hroutes : SeenAlike (ProxyRoute.seen Look.declared) s.objects.routes s'.objects.routes)
    (hssls : HashMap.SameEntries s.objects.ssls s'.objects.ssls)
    (hruleIds : ∀ id rule, s.objects.globalRules.lookup id = some rule → rule.inner.id = id)
    (hrouteIds : MatchEntry.Identified s.objects.routes) :
    s.globalPlugins.plugins.map (·.seen Look.declared) = s'.globalPlugins.plugins.map (·.seen Look.declared) ∧
      (∀ isMethod request,
        (MatchEntry.routeMatch M isMethod s.routeMatcher request).map (Prod.map id (·.seen Look.declared)) =
          (MatchEntry.routeMatch M isMethod s'.routeMatcher request).map (Prod.map id (·.seen Look.declared))) ∧
        ∀ sni, s.sslMatcher.matchSniSlicing M sni = s'.sslMatcher.matchSniSlicing M sni := by
  unfold RuntimeSnapshot.compile at hc hc'
  obtain ⟨m, hm, hc⟩ := Except.bind_eq_ok.mp hc
  obtain ⟨ssl, hssl, hc⟩ := Except.bind_eq_ok.mp hc
  obtain ⟨m', hm', hc'⟩ := Except.bind_eq_ok.mp hc'
  obtain ⟨ssl', hssl', hc'⟩ := Except.bind_eq_ok.mp hc'
  have hs := Except.pure_eq_ok.mp hc
  have hs' := Except.pure_eq_ok.mp hc'
  have hids : ∀ id rule, (s.objects.globalRules.mapValues fun _ r => (r.seen Look.declared).rule).lookup id = some rule →
      rule.inner.id = id := by
    intro id rule hl
    rw [HashMap.lookup_mapValues] at hl
    obtain ⟨r, hr, rfl⟩ := Option.map_eq_some_iff.mp hl
    exact hruleIds id r hr
  have hglobal := congrArg ProxyPluginExecutor.plugins (buildGlobalPluginExecutor_perm (hrules.mapValues (f := GlobalRuleView.rule)) hids)
  rw [globalPlugins_seen, globalPlugins_seen] at hglobal
  have hrouteIds' : MatchEntry.Identified (s.objects.routes.mapValues fun _ r => r.seen Look.declared) := by
    intro id view hl
    rw [HashMap.lookup_mapValues] at hl
    obtain ⟨r, hr, rfl⟩ := Option.map_eq_some_iff.mp hl
    exact hrouteIds id r hr
  have hroutes' : HashMap.SameEntries (s.objects.routes.mapValues fun _ r => r.seen Look.declared)
      (s'.objects.routes.mapValues fun _ r => r.seen Look.declared) := hroutes.mapValues (f := id)
  have hbuild : m.map (·.seen Look.declared) = m'.map (·.seen Look.declared) := by
    have hg := MatchEntry.build_map (keepsRoute_seen Look.declared) M s.objects.routes
      ((buildGlobalPluginExecutor s.objects.globalRules).hasPlugin "cors")
    have hg' := MatchEntry.build_map (keepsRoute_seen Look.declared) M s'.objects.routes
      ((buildGlobalPluginExecutor s'.objects.globalRules).hasPlugin "cors")
    rw [hm] at hg
    rw [hm', ← MatchEntry.build_perm hroutes' hrouteIds', ← hasPlugin_of_seen hglobal] at hg'
    exact Except.ok.inj (hg.symm.trans hg')
  rw [← hs, ← hs']
  refine ⟨hglobal, fun isMethod request => ?_, ?_⟩
  · show (MatchEntry.routeMatch M isMethod m request).map _ = (MatchEntry.routeMatch M isMethod m' request).map _
    rw [← MatchEntry.routeMatch_map (keepsRoute_seen Look.declared), ← MatchEntry.routeMatch_map (keepsRoute_seen Look.declared),
      hbuild]
  · exact SslMatcher.matchSniSlicing_perm hM hO (hssls.perm_values.flatMap_right _) (Except.mapError_eq_ok.mp hssl)
      (Except.mapError_eq_ok.mp hssl')

end

section
variable {ext : Externals} {config : ResourceConfigSet} {objects : CandidateSnapshot}

theorem ruleId_of_upToDate (hid : config.Identified) (h : UpToDate ext objects config) :
    ∀ id rule, objects.globalRules.lookup id = some rule → rule.inner.id = id := by
  intro id rule hr
  obtain ⟨g, hg, ctx, r, -, hmade, hseen⟩ := h.globalRules.made id rule hr
  have hinner : r.inner.id = rule.inner.id := congrArg (fun v : GlobalRuleView ProxyUpstream => v.inner.1.id) hseen
  rw [← hinner, inner_of_globalRule hmade]
  exact (congrArg GlobalRule.id (hid .globalRule id g hg)).symm

theorem routeId_of_upToDate (hid : config.Identified) (h : UpToDate ext objects config) :
    MatchEntry.Identified objects.routes := by
  intro id route hr
  obtain ⟨g, hg, ctx, r, -, hmade, hseen⟩ := h.routes.made id route hr
  have hinner : r.inner.id = route.inner.id := congrArg (fun v : RouteView ProxyUpstream => v.inner.1.id) hseen
  show route.inner.id = id
  rw [← hinner, inner_of_route hmade]
  exact (congrArg Route.id (hid .route id g hg)).symm

end

/-- Whatever was published before each of them and however much of it was reused, two snapshots compiled from one
configuration are alike; so an incremental compilation is one from scratch. -/
theorem compiled_alike {M : Matchit} (hM : M.Lawful) (hO : M.OrderFree) {ext : Externals} {config config' : ResourceConfigSet}
    {s s' : RuntimeSnapshot} (hsame : config.SameEntries config') (h : Compiled M ext config s)
    (h' : Compiled M ext config' s') : s.Alike M s' := by
  obtain ⟨hid, hu⟩ := h.upToDate
  obtain ⟨-, hu'⟩ := h'.upToDate
  obtain ⟨revision, hc⟩ := h.compiles
  obtain ⟨revision', hc'⟩ := h'.compiles
  have hups := seenAlike_of_matches _ hu.upstreams hu'.upstreams (hsame .upstream) fun _ _ _ _ => upstream_alike
  have hsvcs := seenAlike_of_matches _ hu.services hu'.services (hsame .service) fun _ _ _ _ => service_alike hups
  have hrules := seenAlike_of_matches _ hu.globalRules hu'.globalRules (hsame .globalRule) fun _ _ _ _ =>
    globalRule_alike hups
  have hroutes := seenAlike_of_matches _ hu.routes hu'.routes (hsame .route) fun _ _ _ _ => route_alike hups hsvcs
  have hssls : HashMap.SameEntries s.objects.ssls s'.objects.ssls := by
    have hseen := seenAlike_of_matches id hu.ssls hu'.ssls (hsame .ssl) fun _ _ _ _ hmade hmade' =>
      Except.ok.inj (hmade.symm.trans hmade')
    intro id
    have hid := hseen id
    rwa [Option.map_id_fun, id_eq, id_eq] at hid
  obtain ⟨hglobal, hmatch, hcertificates⟩ := alike_of_objects hM hO hc hc' hrules hroutes hssls
    (ruleId_of_upToDate hid hu) (routeId_of_upToDate hid hu)
  exact ⟨hups, hsvcs, hrules, hroutes, hssls, hglobal, hmatch, hcertificates⟩

/-- A set compiled after nothing, and compiled once more over the result with every object reused. -/
theorem compiled_alike_tied : ∃ s s', Compiled Matchit.staticFirst tiedContext.ext tiedFirst s ∧
    Compiled Matchit.staticFirst tiedContext.ext tiedSecond s' ∧ s.Alike Matchit.staticFirst s' := by
  have h := @Compiled.next Matchit.staticFirst tiedContext.ext {} tiedFirst .empty _ _ tiedContext _ 1 .empty
    identified_tiedFirst rfl rfl rfl rfl
  have h' := @Compiled.next Matchit.staticFirst tiedContext.ext tiedFirst tiedSecond _ _ _ reusingContext _ 2 h
    identified_tiedSecond rfl rfl rfl rfl
  exact ⟨_, _, h, h', compiled_alike Matchit.staticFirst_lawful Matchit.staticFirst_orderFree sameEntries_tied h h'⟩

end Pingsix
