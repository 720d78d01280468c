import Pingsix.CacheKeySound
import Pingsix.PipelineSound

/-!
# Confinement of provider credentials

The instance that claims a request is the only one that acts on it, but nothing
holds the request to its upstream: a plugin that runs later may move it on.
-/

namespace Pingsix

open HttpMessage RequestPlugin

variable {υ : Type}

/-! ## Who acts -/

/-- The later phases of the instance apply: its credentials, its TLS options and its body transform. -/
def PluginAiProxy.Acts (p : PluginAiProxy υ) (ctx : ProxyContext υ) : Prop := p.ownsRequest ctx = true

theorem PluginAiProxy.acts_iff {p : PluginAiProxy υ} {ctx : ProxyContext υ} :
    p.Acts ctx ↔ ∃ state, ctx.aiProxyState = some state ∧ state.token = p.token := by
  unfold Acts ownsRequest
  cases ctx.aiProxyState <;> simp

/-- An instance that does not act leaves the upstream request, the body and the peer alone. -/
theorem PluginAiProxy.idle (env : RequestEnv υ) {p : PluginAiProxy υ} {ctx : ProxyContext υ} (h : ¬p.Acts ctx)
    (req : RequestHeader) (chunk : Option (List UInt8)) (endOfStream : Bool) (peer : HttpPeer) :
    p.upstreamRequestFilter env ctx req = .ok req ∧ p.requestBodyFilter env ctx chunk endOfStream = .ok (chunk, ctx) ∧
      p.upstreamPeerFilter ctx peer = peer := by
  have howns : p.ownsRequest ctx = false := by simpa [Acts] using h
  refine ⟨by simp [upstreamRequestFilter, howns], ?_⟩
  unfold requestBodyFilter upstreamPeerFilter
  cases hs : ctx.aiProxyState with
  | none => exact ⟨rfl, rfl⟩
  | some state =>
    have ht : state.token ≠ p.token := fun ht => h (acts_iff.mpr ⟨state, hs, ht⟩)
    simp [ht]

def RequestPlugin.aiProxy? : RequestPlugin υ → Option (PluginAiProxy υ)
  | .aiProxy p => some p
  | _ => none

/-- The ai-proxy instances of both layers. -/
def CompiledPluginPipeline.aiProxies (pipeline : CompiledPluginPipeline υ) : List (PluginAiProxy υ) :=
  pipeline.plugins.filterMap RequestPlugin.aiProxy?

/-- At most one instance acts, and only on a request whose selected upstream is its own. -/
def Confined (pipeline : CompiledPluginPipeline υ) (ctx : ProxyContext υ) : Prop :=
  (∀ p ∈ pipeline.aiProxies, p.Acts ctx → ctx.selected = some p.upstream) ∧
    ∀ p ∈ pipeline.aiProxies, ∀ q ∈ pipeline.aiProxies, p.Acts ctx → q.Acts ctx → p = q

/-! ## Who moves the request -/

/-- What an action writes into the override. -/
def OverrideAction.written : OverrideAction υ → List (Option υ)
  | .keep => []
  | .clear => [none]
  | .set u => [some u]

/-- What the plugins write into the override, in order. -/
def overrideWrites (env : RequestEnv υ) : List (RequestPlugin υ) → FilterState υ → List (Option υ)
  | [], _ => []
  | p :: ps, st =>
    match p.requestFilter env st with
    | .ok (.continue, mid) => (p.overrideAction env st).written ++ overrideWrites env ps mid
    | _ => []

/-- The upstream of an override, or else of the route. -/
def targetOf (route : Option (RouteContext υ)) (override : Option υ) : Option υ :=
  match override with
  | some u => some u
  | none => route.bind (·.resolvedUpstream)

/-- The last write of the override after the instance that claims the request, if there is one, leaves the request
with the instance's upstream. -/
def KeepsOverride (env : RequestEnv υ) (plugins : List (RequestPlugin υ)) (st : FilterState υ) : Prop :=
  ∀ before p after mid, plugins = before ++ .aiProxy p :: after → runFilters env before st = .ok (.continue, mid) →
    p.Claims mid → ∀ override, (overrideWrites env after { mid with ctx := p.claim mid.ctx }).getLast? = some override →
      targetOf st.ctx.route override = some p.upstream

/-! ## Steps and runs -/

theorem claim_requestFilter {env : RequestEnv υ} {p : PluginAiProxy υ} {st : FilterState υ} (h : p.Claims st) :
    (RequestPlugin.aiProxy p).requestFilter env st = .ok (.continue, { st with ctx := p.claim st.ctx }) := by
  obtain ⟨hs, hy, ht, hb⟩ := h
  simp only [RequestPlugin.requestFilter, PluginAiProxy.requestFilter, hs, hy, ht, hb]
  simp

/-- Every plugin keeps the route. -/
theorem Continues.route {env : RequestEnv υ} {p : RequestPlugin υ} {st : FilterState υ} {ctx : ProxyContext υ}
    (h : Continues env p st ctx) : ctx.route = st.ctx.route := by
  cases h <;> rfl

/-- On a claimed request, a plugin keeps the state and acts on the override as `overrideAction` says. -/
theorem Continues.of_claimed {env : RequestEnv υ} {p : RequestPlugin υ} {st : FilterState υ} {ctx : ProxyContext υ}
    (h : Continues env p st ctx) (hs : st.ctx.aiProxyState ≠ none) :
    ctx.aiProxyState = st.ctx.aiProxyState ∧
      ctx.upstreamOverride = (p.overrideAction env st).apply st.ctx.upstreamOverride := by
  cases h with
  | verified hv _ =>
    refine ⟨rfl, ?_⟩
    cases p <;> first | rfl | exact absurd hv (by simp [RequestPlugin.verifies])
  | settled => exact ⟨rfl, rfl⟩
  | claimed h => exact absurd h.1 hs
  | moved => exact ⟨rfl, rfl⟩

/-- A request that becomes claimed is claimed by an instance whose turn it is. -/
theorem Continues.claims {env : RequestEnv υ} {p : RequestPlugin υ} {st : FilterState υ} {ctx : ProxyContext υ}
    (h : Continues env p st ctx) (hs : st.ctx.aiProxyState = none) (hs' : ctx.aiProxyState ≠ none) :
    ∃ a, p = .aiProxy a ∧ a.Claims st := by
  cases h with
  | verified => exact absurd hs hs'
  | settled => exact absurd hs hs'
  | claimed hc => exact ⟨_, rfl, hc⟩
  | moved => exact absurd hs hs'

theorem getLast?_append_getD {α : Type} (xs ys : List α) (a : α) :
    (xs ++ ys).getLast?.getD a = ys.getLast?.getD (xs.getLast?.getD a) := by
  rw [List.getLast?_append]
  cases ys.getLast? <;> rfl

theorem apply_eq_written (action : OverrideAction υ) (override : Option υ) :
    action.apply override = action.written.getLast?.getD override := by
  cases action <;> rfl

theorem runFilters_route {env : RequestEnv υ} : ∀ {ps : List (RequestPlugin υ)} {st st' : FilterState υ},
    runFilters env ps st = .ok (.continue, st') → st'.ctx.route = st.ctx.route
  | [], _, _, h => by cases h; rfl
  | p :: ps, st, st', h => by
    obtain ⟨mid, hp, h⟩ := runFilters_cons.mp h
    rw [runFilters_route h, (requestFilter_continue hp).route]

/-- A run over a claimed request keeps the state, and the override is what was written last. -/
theorem runFilters_of_claimed {env : RequestEnv υ} : ∀ {ps : List (RequestPlugin υ)} {st st' : FilterState υ},
    st.ctx.aiProxyState ≠ none → runFilters env ps st = .ok (.continue, st') →
      st'.ctx.aiProxyState = st.ctx.aiProxyState ∧
        st'.ctx.upstreamOverride = (overrideWrites env ps st).getLast?.getD st.ctx.upstreamOverride
  | [], _, _, _, h => by cases h; exact ⟨rfl, rfl⟩
  | p :: ps, st, st', hs, h => by
    obtain ⟨mid, hp, h⟩ := runFilters_cons.mp h
    obtain ⟨hstate, hover⟩ := (requestFilter_continue hp).of_claimed hs
    obtain ⟨hstate', hover'⟩ := runFilters_of_claimed (hstate ▸ hs) h
    refine ⟨hstate'.trans hstate, ?_⟩
    rw [hover', hover, apply_eq_written, ← getLast?_append_getD]
    simp only [overrideWrites, hp]

/-- A run that ends with a claimed request has an instance that claimed it. -/
theorem exists_claims {env : RequestEnv υ} : ∀ {ps : List (RequestPlugin υ)} {st st' : FilterState υ},
    st.ctx.aiProxyState = none → runFilters env ps st = .ok (.continue, st') → st'.ctx.aiProxyState ≠ none →
      ∃ before p after mid, ps = before ++ .aiProxy p :: after ∧ runFilters env before st = .ok (.continue, mid) ∧
        p.Claims mid
  | [], _, _, hs, h, hs' => by cases h; exact absurd hs hs'
  | p :: ps, st, st', hs, h, hs' => by
    obtain ⟨mid, hp, h⟩ := runFilters_cons.mp h
    by_cases hmid : mid.ctx.aiProxyState = none
    · obtain ⟨before, a, after, last, rfl, hb, hc⟩ := exists_claims hmid h hs'
      exact ⟨p :: before, a, after, last, rfl, runFilters_cons.mpr ⟨mid, hp, hb⟩, hc⟩
    · obtain ⟨a, rfl, hc⟩ := (requestFilter_continue hp).claims hs hmid
      exact ⟨[], a, ps, st, rfl, rfl, hc⟩

/-! ## Main result -/

/-- What a run over a decomposed list of plugins ends with, when an instance claims the request in it. -/
theorem claimed_run {env : RequestEnv υ} {before after : List (RequestPlugin υ)} {p : PluginAiProxy υ}
    {st mid st' : FilterState υ} (hb : runFilters env before st = .ok (.continue, mid)) (hc : p.Claims mid)
    (h : runFilters env (before ++ .aiProxy p :: after) st = .ok (.continue, st')) :
    (∃ state, st'.ctx.aiProxyState = some state ∧ state.token = p.token) ∧
      st'.ctx.upstreamOverride =
        (overrideWrites env after { mid with ctx := p.claim mid.ctx }).getLast?.getD (some p.upstream) := by
  obtain ⟨mid', hb', h⟩ := runFilters_append.mp h
  rw [hb] at hb'
  cases hb'
  obtain ⟨mid'', hp, h⟩ := runFilters_cons.mp h
  rw [claim_requestFilter hc] at hp
  cases hp
  obtain ⟨hstate, hover⟩ := runFilters_of_claimed (by simp [PluginAiProxy.claim]) h
  exact ⟨⟨_, hstate, rfl⟩, hover⟩

theorem mem_aiProxies {pipeline : CompiledPluginPipeline υ} {before after : List (RequestPlugin υ)}
    {p : PluginAiProxy υ} (h : pipeline.plugins = before ++ .aiProxy p :: after) : p ∈ pipeline.aiProxies := by
  unfold CompiledPluginPipeline.aiProxies
  rw [h]
  exact List.mem_filterMap.mpr ⟨.aiProxy p, by simp, rfl⟩

theorem HttpService.upstreamPeer_eq_some {env : RequestEnv υ} {pipeline : CompiledPluginPipeline υ}
    {ctx ctx' : ProxyContext υ} {peer : HttpPeer} (h : HttpService.upstreamPeer env pipeline ctx = some (peer, ctx')) :
    ctx' = { ctx with selected := targetOf ctx.route ctx.upstreamOverride } := by
  obtain ⟨u, hu, h⟩ := Option.bind_eq_some_iff.mp h
  obtain ⟨peer', -, h⟩ := Option.bind_eq_some_iff.mp h
  cases h
  have ht : targetOf ctx.route ctx.upstreamOverride = some u := hu
  rw [ht]

theorem unclaimed_earlyRequestFilter (env : RequestEnv υ) (req : RequestHeader) (route : Option (RouteContext υ)) :
    (HttpService.earlyRequestFilter env req route).ctx.aiProxyState = none := by
  unfold HttpService.earlyRequestFilter ProxyContext.captureCredentials
  split <;> rfl

/-- The request that reaches a peer of its selected upstream is confined, exactly when no plugin after the instance
that claimed it moves it to another upstream for good. -/
theorem ai_proxy_confined_iff {env : RequestEnv υ} {pipeline : CompiledPluginPipeline υ} {req : RequestHeader}
    {route : Option (RouteContext υ)} {st : FilterState υ} {peer : HttpPeer} {ctx : ProxyContext υ}
    (hd : (pipeline.aiProxies.map (·.token)).Nodup)
    (hrun : pipeline.requestFilter env (HttpService.earlyRequestFilter env req route) = .ok (.continue, st))
    (hpeer : HttpService.upstreamPeer env pipeline st.ctx = some (peer, ctx)) :
    Confined pipeline ctx ↔ KeepsOverride env pipeline.plugins (HttpService.earlyRequestFilter env req route) := by
  have hrun := CompiledPluginPipeline.requestFilter_continue.mp hrun
  have hroute := runFilters_route hrun
  have hselected : ctx.selected = targetOf st.ctx.route st.ctx.upstreamOverride := by
    rw [HttpService.upstreamPeer_eq_some hpeer]
  have hstate : ctx.aiProxyState = st.ctx.aiProxyState := by
    rw [HttpService.upstreamPeer_eq_some hpeer]
  have hunclaimed := unclaimed_earlyRequestFilter env req route
  have unique : ∀ p ∈ pipeline.aiProxies, ∀ q ∈ pipeline.aiProxies, p.token = q.token → p = q :=
    fun p hp q hq he => List.inj_on_of_nodup_map hd hp hq he
  constructor
  · intro ⟨hconfined, _⟩ before p after mid hplugins hb hc override hlast
    rw [hplugins] at hrun
    obtain ⟨⟨state, hs, ht⟩, hover⟩ := claimed_run hb hc hrun
    have hp := hconfined p (mem_aiProxies hplugins) (PluginAiProxy.acts_iff.mpr ⟨state, hstate.trans hs, ht⟩)
    rw [hselected, hover, hlast, hroute] at hp
    exact hp
  · intro hkeeps
    refine ⟨fun p hp hacts => ?_, fun p hp q hq hacts hacts' => ?_⟩
    · obtain ⟨state, hs, ht⟩ := PluginAiProxy.acts_iff.mp hacts
      obtain ⟨before, a, after, mid, hplugins, hb, hc⟩ := exists_claims hunclaimed hrun (by simp [← hstate, hs])
      have hrun' := hrun
      rw [hplugins] at hrun'
      obtain ⟨⟨state', hs', ht'⟩, hover⟩ := claimed_run hb hc hrun'
      have hstates : state = state' := Option.some.inj (hs.symm.trans (hstate.trans hs'))
      obtain rfl := unique p hp a (mem_aiProxies hplugins) (by rw [← ht, hstates, ht'])
      rw [hselected, hover, hroute]
      cases hlast : (overrideWrites env after { mid with ctx := p.claim mid.ctx }).getLast? with
      | none => rfl
      | some override => exact hkeeps before p after mid hplugins hb hc override hlast
    · obtain ⟨state, hs, ht⟩ := PluginAiProxy.acts_iff.mp hacts
      obtain ⟨state', hs', ht'⟩ := PluginAiProxy.acts_iff.mp hacts'
      rw [hs] at hs'
      cases hs'
      exact unique p hp q hq (ht.symm.trans ht')

/-! ## A canary after a provider -/

def chatEnv : RequestEnv String where
  sha := shaOfNoCredentials
  matchApisixVars := fun _ vars => vars.isEmpty
  draw := fun _ _ => 0
  parseForm := fun _ => []
  serializeForm := fun pairs => "&".intercalate (pairs.map fun pair => pair.1 ++ "=" ++ pair.2)
  parseUri := fun text => (Uri.ofPathAndQuery text).elim (.error "invalid uri character") .ok
  transformRequest := fun _ body => .ok (body, false)
  selectBackend := fun _ => some {}

def openai : PluginAiProxy String where
  config := { provider := .openai, auth := { header := [("Authorization", "Bearer sk-1")] } }
  endpoint := { scheme := .https, host := "api.openai.com", port := 443, path := "/v1/chat/completions", query := [] }
  upstream := "openai"
  scope := .route
  token := 1

/-- Every request goes to the canary. -/
def canary : PluginTrafficSplit String where
  instanceId := 1
  rules := [([], { targets := [(1, .upstream "canary")], totalWeight := 1 })]

def chatRequest : RequestHeader where
  method := .post
  uri := { rawPath := "/chat", graphic := by decide }
  headers := [("content-type", ⟨bytesOf "application/json", List.all_eq_true.mp (by decide)⟩), ("content-length", ⟨bytesOf "64", List.all_eq_true.mp (by decide)⟩)]

def chatRoute : RouteContext String :=
  { cacheNamespaceFingerprint := 7, resolvedUpstream := some "web", pluginNames := ["ai-proxy", "traffic-split"] }

def chatStart : FilterState String := HttpService.earlyRequestFilter chatEnv chatRequest (some chatRoute)

theorem openai_claims : openai.Claims chatStart :=
  ⟨unclaimed_earlyRequestFilter chatEnv chatRequest (some chatRoute), by decide, by decide, by decide⟩

theorem ai_proxy_confined_iff_openai :
    Confined { route := [.aiProxy openai] } { openai.claim chatStart.ctx with selected := some "openai" } ↔
      KeepsOverride chatEnv [.aiProxy openai] chatStart :=
  @ai_proxy_confined_iff _ chatEnv { route := [.aiProxy openai] } chatRequest (some chatRoute) _ _ _ (by decide)
    (CompiledPluginPipeline.requestFilter_continue.mpr
      (runFilters_cons.mpr ⟨_, claim_requestFilter openai_claims, rfl⟩)) rfl

/-- The traffic split runs after the claim: the provider's key goes to the canary. -/
theorem canary_gets_credentials :
    ¬∀ (env : RequestEnv String) (pipeline : CompiledPluginPipeline String) (req : RequestHeader)
      (route : Option (RouteContext String)) (st : FilterState String) (peer : HttpPeer) (ctx : ProxyContext String),
      (pipeline.aiProxies.map (·.token)).Nodup →
      pipeline.requestFilter env (HttpService.earlyRequestFilter env req route) = .ok (.continue, st) →
      HttpService.upstreamPeer env pipeline st.ctx = some (peer, ctx) → Confined pipeline ctx := by
  intro h
  let split := { openai.claim chatStart.ctx with upstreamOverride := some "canary" }
  have hrun : CompiledPluginPipeline.requestFilter chatEnv { route := [.aiProxy openai, .trafficSplit canary] } chatStart =
      .ok (.continue, { request := chatRequest, ctx := split }) :=
    CompiledPluginPipeline.requestFilter_continue.mpr
      (runFilters_cons.mpr ⟨_, claim_requestFilter openai_claims, rfl⟩)
  have hc := (h chatEnv _ chatRequest (some chatRoute) _ _ { split with selected := some "canary" } (by decide) hrun rfl).1
    openai (by simp [CompiledPluginPipeline.aiProxies, CompiledPluginPipeline.plugins, RequestPlugin.aiProxy?])
    (PluginAiProxy.acts_iff.mpr ⟨_, rfl, rfl⟩)
  exact absurd hc (by decide)

end Pingsix
