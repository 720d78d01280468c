import Pingsix.RequestPipeline

/-!
# Soundness of the request phase

What one plugin does to the context when the request goes on: it notes the
credential it verified, or settles the cache, or claims the request for an
ai-proxy upstream, or moves the request to another upstream.
-/

namespace Pingsix

open HttpMessage

variable {υ : Type}

/-! ## What a plugin does -/

/-- The credential the plugin verifies in the state. -/
def RequestPlugin.verifies (sha : Sha256) : RequestPlugin υ → FilterState υ → Option String
  | .basicAuth p, st => p.verified sha st.request
  | .keyAuth p, st => (p.verified sha st.request).map (·.1)
  | .jwtAuth p, st =>
    match p.extractToken st with
    | .ok (some token, _) => if (p.decode token).isOk then some token else none
    | _ => none
  | _, _ => none

/-- What the plugin does to the upstream override, an ai-proxy instance's claim apart. -/
def RequestPlugin.overrideAction (env : RequestEnv υ) : RequestPlugin υ → FilterState υ → OverrideAction υ
  | .trafficSplit p, st =>
    match (p.rules.find? fun rule => env.matchApisixVars st.request rule.1).bind fun rule => p.pickUpstream env rule.2 with
    | some (.upstream selected) => .set selected
    | some .passThrough => .clear
    | none => .keep
  | .other p, st =>
    match p.filter st with
    | .ok (_, _, action) => action
    | .error _ => .keep
  | _, _ => .keep

/-- The instance takes the request when its turn comes. -/
def PluginAiProxy.Claims (p : PluginAiProxy υ) (st : FilterState υ) : Prop :=
  st.ctx.aiProxyState = none ∧ p.yields st.ctx = false ∧ PluginAiProxy.contentTypeError st.request.headers = none ∧
    PluginAiProxy.requestDeclaresBody st.request.headers = true

/-- The context a plugin leaves when the request goes on. -/
inductive Continues (env : RequestEnv υ) : RequestPlugin υ → FilterState υ → ProxyContext υ → Prop
  | verified {p : RequestPlugin υ} {st : FilterState υ} {credential : String}
      (hv : p.verifies env.sha st = some credential) (hp : Printable credential) :
      Continues env p st (st.ctx.markRequestHasCredentials.noteRequestCredential env.sha credential)
  | settled {p : PluginCache} {st : FilterState υ} (settings : Option CacheSettings) :
      Continues env (.cache p) st { st.ctx with cacheSettings := settings }
  | claimed {p : PluginAiProxy υ} {st : FilterState υ} (h : p.Claims st) : Continues env (.aiProxy p) st (p.claim st.ctx)
  | moved {p : RequestPlugin υ} {st : FilterState υ} (hv : p.verifies env.sha st = none)
      (hc : ∀ a, p = .aiProxy a → ¬a.Claims st) :
      Continues env p st
        { st.ctx with upstreamOverride := (p.overrideAction env st).apply st.ctx.upstreamOverride }

/-! ## Authentication -/

theorem PluginBasicAuth.requestFilter_continue {env : RequestEnv υ} {p : PluginBasicAuth} {st st' : FilterState υ}
    (h : p.requestFilter env.sha st = .ok (.continue, st')) : Continues env (.basicAuth p) st st'.ctx := by
  unfold PluginBasicAuth.requestFilter at h
  cases hv : p.verified env.sha st.request with
  | none => rw [hv] at h; cases h
  | some credential =>
    have hg : getReqHeaderValue st.request "authorization" = some credential := (Option.filter_eq_some_iff.mp hv).1
    have hctx : st'.ctx = st.ctx.markRequestHasCredentials.noteRequestCredential env.sha credential := by
      rw [hv] at h
      simp only [hg, Option.isSome_some, if_true] at h
      by_cases hh : p.hideCredentials = true
      · rw [if_pos hh] at h; cases h; rfl
      · rw [if_neg hh] at h; cases h; rfl
    rw [hctx]
    exact .verified hv (printable_getReqHeaderValue hg)

theorem PluginKeyAuth.printable_findKey {p : PluginKeyAuth} {req : RequestHeader} {value : String} {source : KeySource}
    (h : p.findKey req = some (value, source)) : Printable value := by
  unfold PluginKeyAuth.findKey at h
  cases hg : getReqHeaderValue req p.header with
  | some text =>
    rw [hg] at h
    cases h
    exact printable_getReqHeaderValue hg
  | none =>
    rw [hg] at h
    by_cases hq : p.query = ""
    · simp [hq] at h
    · rw [if_neg hq] at h
      obtain ⟨text, ht, he⟩ := Option.map_eq_some_iff.mp h
      cases he
      have := @printable_getQueryValue req p.query
      rw [ht] at this
      exact this

theorem PluginKeyAuth.requestFilter_continue {env : RequestEnv υ} {p : PluginKeyAuth} {st st' : FilterState υ}
    (h : p.requestFilter env.sha st = .ok (.continue, st')) : Continues env (.keyAuth p) st st'.ctx := by
  unfold PluginKeyAuth.requestFilter at h
  cases hv : p.verified env.sha st.request with
  | none => rw [hv] at h; cases h
  | some found =>
    obtain ⟨value, source⟩ := found
    have hf : p.findKey st.request = some (value, source) := (Option.filter_eq_some_iff.mp hv).1
    have hctx : st'.ctx = st.ctx.markRequestHasCredentials.noteRequestCredential env.sha value := by
      rw [hv] at h
      simp only [hf, Option.isSome_some, if_true] at h
      by_cases hh : p.hideCredentials = true
      · rw [if_pos hh] at h
        cases source with
        | header => cases h; rfl
        | query =>
          simp only at h
          split at h
          · cases h; rfl
          · cases h
      · rw [if_neg hh] at h; cases h; rfl
    rw [hctx]
    exact .verified (by simp [RequestPlugin.verifies, hv]) (printable_findKey hf)

theorem printable_getCookieValue {req : RequestHeader} {name value : String} (h : getCookieValue req name = some value) :
    Printable value := by
  obtain ⟨pair, hf, rfl⟩ := Option.map_eq_some_iff.mp h
  obtain ⟨v, -, hv⟩ := List.mem_flatMap.mp (List.mem_of_find?_eq_some hf)
  cases ht : v.toStr with
  | none => simp [ht] at hv
  | some text =>
    rw [ht] at hv
    exact .of_subset (splitPairs_subset hv) (HeaderValue.printable ht)

theorem stripBearer_subset (value : String) : (PluginJWTAuth.stripBearer value).toList ⊆ value.toList := by
  unfold PluginJWTAuth.stripBearer
  split
  · intro c hc
    rw [String.toList_ofList] at hc
    exact List.mem_of_mem_drop hc
  · exact fun _ hc => hc

/-- Extracting a token leaves the context alone, and the token is printable. -/
theorem PluginJWTAuth.extractToken_eq_ok {p : PluginJWTAuth} {st left : FilterState υ} {token : Option String}
    (h : p.extractToken st = .ok (token, left)) : left.ctx = st.ctx ∧ ∀ text, token = some text → Printable text := by
  unfold PluginJWTAuth.extractToken at h
  cases hh : (getReqHeaderValue st.request p.header).map stripBearer with
  | some text =>
    rw [hh] at h
    obtain ⟨value, hg, rfl⟩ := Option.map_eq_some_iff.mp hh
    by_cases hc : p.hideCredentials = true
    · simp only [hc, if_true] at h
      cases h
      exact ⟨rfl, fun _ he => by cases he; exact .of_subset (stripBearer_subset value) (printable_getReqHeaderValue hg)⟩
    · simp only [hc] at h
      cases h
      exact ⟨rfl, fun _ he => by cases he; exact .of_subset (stripBearer_subset value) (printable_getReqHeaderValue hg)⟩
  | none =>
    rw [hh] at h
    simp only at h
    cases hq : (if p.query = "" then none else getQueryValue st.request p.query) with
    | some text =>
      have hp : Printable text := by
        by_cases he : p.query = ""
        · simp [he] at hq
        · rw [if_neg he] at hq
          have := @printable_getQueryValue st.request p.query
          rwa [hq] at this
      rw [hq] at h
      simp only at h
      split at h
      · split at h
        · cases h
          exact ⟨rfl, fun _ he => by cases he; exact hp⟩
        · cases h
      · cases h
        exact ⟨rfl, fun _ he => by cases he; exact hp⟩
    | none =>
      rw [hq] at h
      simp only at h
      cases hk : getCookieValue st.request p.cookie with
      | none =>
        rw [hk] at h
        cases h
        exact ⟨rfl, nofun⟩
      | some text =>
        have hp := printable_getCookieValue hk
        rw [hk] at h
        simp only at h
        split at h
        · split at h
          · cases h
            exact ⟨rfl, fun _ he => by cases he; exact hp⟩
          · cases h
        · cases h
          exact ⟨rfl, fun _ he => by cases he; exact hp⟩

theorem PluginJWTAuth.requestFilter_continue {env : RequestEnv υ} {p : PluginJWTAuth} {st st' : FilterState υ}
    (h : p.requestFilter env.sha st = .ok (.continue, st')) : Continues env (.jwtAuth p) st st'.ctx := by
  unfold PluginJWTAuth.requestFilter at h
  split at h
  · cases h
  · cases h
  · rename_i token left he
    split at h
    · cases h
    · rename_i hd
      cases h
      obtain ⟨hctx, hp⟩ := extractToken_eq_ok he
      have hv : (RequestPlugin.jwtAuth p : RequestPlugin υ).verifies env.sha st = some token := by
        simp only [RequestPlugin.verifies, he, hd]
        rfl
      have := Continues.verified hv (hp token rfl)
      rwa [← hctx] at this

/-! ## One plugin -/

theorem Continues.of_action {env : RequestEnv υ} {p : RequestPlugin υ} {st : FilterState υ} {action : OverrideAction υ}
    (hv : p.verifies env.sha st = none) (hc : ∀ a, p = .aiProxy a → ¬a.Claims st)
    (ha : p.overrideAction env st = action) :
    Continues env p st { st.ctx with upstreamOverride := action.apply st.ctx.upstreamOverride } := by
  rw [← ha]
  exact .moved hv hc

theorem PluginTrafficSplit.requestFilter_continue {env : RequestEnv υ} {p : PluginTrafficSplit υ} {st st' : FilterState υ}
    (h : p.requestFilter env st = .ok (.continue, st')) : Continues env (.trafficSplit p) st st'.ctx := by
  have of_action {action : OverrideAction υ} (ha : (RequestPlugin.trafficSplit p).overrideAction env st = action) :=
    Continues.of_action rfl (fun _ he => by cases he) ha
  unfold PluginTrafficSplit.requestFilter at h
  unfold RequestPlugin.overrideAction at of_action
  split at h
  · rename_i hf
    cases h
    exact @of_action .keep (by simp [hf])
  · rename_i rule hf
    split at h
    · rename_i selected hu
      cases h
      exact @of_action (.set selected) (by simp [hf, hu])
    · rename_i hu
      cases h
      exact @of_action .clear (by simp [hf, hu])
    · rename_i hu
      cases h
      exact @of_action .keep (by simp [hf, hu])

theorem PluginAiProxy.requestFilter_continue {env : RequestEnv υ} {p : PluginAiProxy υ} {st st' : FilterState υ}
    (h : p.requestFilter st = .ok (.continue, st')) : Continues env (.aiProxy p) st st'.ctx := by
  have moved (hc : ¬p.Claims st) : Continues env (.aiProxy p) st st.ctx :=
    .moved rfl fun a he => by cases he; exact hc
  unfold PluginAiProxy.requestFilter at h
  by_cases hs : st.ctx.aiProxyState.isSome = true
  · rw [if_pos hs] at h
    cases h
    exact moved fun hc => by simp [hc.1] at hs
  · rw [if_neg hs] at h
    by_cases hy : p.yields st.ctx = true
    · rw [if_pos hy] at h
      cases h
      exact moved fun hc => by simp [hc.2.1] at hy
    · rw [if_neg hy] at h
      cases ht : contentTypeError st.request.headers with
      | some message => rw [ht] at h; cases h
      | none =>
        rw [ht] at h
        by_cases hb : requestDeclaresBody st.request.headers = true
        · simp only [hb, if_true] at h
          cases h
          exact .claimed ⟨by simpa using hs, by simpa using hy, ht, hb⟩
        · simp only [hb] at h
          cases h

theorem RequestPlugin.requestFilter_continue {env : RequestEnv υ} {p : RequestPlugin υ} {st st' : FilterState υ}
    (h : p.requestFilter env st = .ok (.continue, st')) : Continues env p st st'.ctx := by
  cases p with
  | basicAuth p => exact PluginBasicAuth.requestFilter_continue h
  | keyAuth p => exact PluginKeyAuth.requestFilter_continue h
  | jwtAuth p => exact PluginJWTAuth.requestFilter_continue h
  | cache p =>
    cases h
    split
    · exact .settled _
    · exact .settled st.ctx.cacheSettings
  | trafficSplit p => exact PluginTrafficSplit.requestFilter_continue h
  | aiProxy p => exact PluginAiProxy.requestFilter_continue h
  | other p =>
    simp only [RequestPlugin.requestFilter] at h
    split at h
    · cases h
    · rename_i verdict request action hf
      cases h
      exact .of_action rfl (fun _ he => by cases he) (by simp only [RequestPlugin.overrideAction, hf])

/-! ## Runs -/

namespace RequestPlugin

theorem runFilters_cons {env : RequestEnv υ} {p : RequestPlugin υ} {ps : List (RequestPlugin υ)}
    {st st' : FilterState υ} : runFilters env (p :: ps) st = .ok (.continue, st') ↔
      ∃ mid, p.requestFilter env st = .ok (.continue, mid) ∧ runFilters env ps mid = .ok (.continue, st') := by
  rw [runFilters]
  constructor
  · intro h
    split at h
    · rename_i mid hm
      exact ⟨mid, hm, h⟩
    · rename_i hn
      exact absurd h (hn st')
  · rintro ⟨mid, hm, h⟩
    rw [hm]
    exact h

theorem runFilters_append {env : RequestEnv υ} : ∀ {ps qs : List (RequestPlugin υ)} {st st' : FilterState υ},
    runFilters env (ps ++ qs) st = .ok (.continue, st') ↔
      ∃ mid, runFilters env ps st = .ok (.continue, mid) ∧ runFilters env qs mid = .ok (.continue, st')
  | [], qs, st, st' => by simp [runFilters]
  | p :: ps, qs, st, st' => by
    rw [List.cons_append, runFilters_cons]
    constructor
    · rintro ⟨mid, hp, h⟩
      obtain ⟨mid', h1, h2⟩ := runFilters_append.mp h
      exact ⟨mid', runFilters_cons.mpr ⟨mid, hp, h1⟩, h2⟩
    · rintro ⟨mid', h1, h2⟩
      obtain ⟨mid, hp, h1⟩ := runFilters_cons.mp h1
      exact ⟨mid, hp, runFilters_append.mpr ⟨mid', h1, h2⟩⟩

end RequestPlugin

theorem CompiledPluginPipeline.requestFilter_continue {env : RequestEnv υ} {pipeline : CompiledPluginPipeline υ}
    {st st' : FilterState υ} : pipeline.requestFilter env st = .ok (.continue, st') ↔
      RequestPlugin.runFilters env pipeline.plugins st = .ok (.continue, st') := by
  unfold CompiledPluginPipeline.plugins
  rw [RequestPlugin.runFilters_append]
  unfold CompiledPluginPipeline.requestFilter
  constructor
  · intro h
    split at h
    · rename_i mid hm
      exact ⟨mid, hm, h⟩
    · rename_i hn
      exact absurd h (hn st')
  · rintro ⟨mid, hm, h⟩
    rw [hm]
    exact h

end Pingsix
