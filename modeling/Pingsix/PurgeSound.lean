import Pingsix.CacheConfig
import Pingsix.CacheKeySound
import Pingsix.Lib.Sums
import Pingsix.TemplateSound

/-!
# Soundness of the purge

A purge removes the entry of the `GET` request it stands for when both have one
key. A template that asks for the method, in any spelling but the one the checks
know, tells them apart.
-/

namespace Pingsix

open HttpMessage Delimited

variable {υ : Type}

/-! ## What a template asks for -/

/-- A placeholder of the template has this name. -/
def asksFor (name template : String) : Bool := (tokensOf {} template).any fun t => t.name = name.toList

def Method.purge : Method := ⟨"PURGE", by decide⟩

def FilterState.withMethod (st : FilterState υ) (m : Method) : FilterState υ :=
  { st with request := { st.request with method := m } }

section
variable {req : RequestHeader} {m m' : Method}

/-- Only one variable reads the method. -/
theorem resolveCacheKeyVar_congr {name : String} (h : name ≠ "request_method") :
    resolveCacheKeyVar { req with method := m } name = resolveCacheKeyVar { req with method := m' } name := by
  unfold resolveCacheKeyVar
  split
  · rfl
  · split
    · rfl
    · simp only [h, if_false]
      rfl

theorem resolveCacheKeyVar_method : resolveCacheKeyVar { req with method := m } "request_method" = m.text := by
  unfold resolveCacheKeyVar
  rfl

theorem renderCacheKeyTemplate_toList (template : String) :
    (renderCacheKeyTemplate req template).toList = (renderTokens (resolveCacheKeyVar req) (tokensOf {} template)).1 := by
  unfold renderCacheKeyTemplate renderApisixTemplate renderTemplate
  rw [renderTemplateWithCount_eq, String.toList_ofList]

/-- How many placeholders of the template ask for the method. -/
def methodPlaceholders (template : String) : Nat :=
  ((tokensOf {} template).filter fun t => t.name = "request_method".toList).length

theorem methodPlaceholders_eq_zero {template : String} :
    methodPlaceholders template = 0 ↔ asksFor "request_method" template = false := by
  unfold methodPlaceholders asksFor
  rw [List.length_eq_zero_iff, List.filter_eq_nil_iff, List.any_eq_false]

end

section
variable (req : RequestHeader)

/-- A token that asks for the method is two characters longer under `PURGE`. -/
theorem length_render (t : TemplateToken) :
    (t.render (resolveCacheKeyVar { req with method := Method.purge })).1.length =
      (t.render (resolveCacheKeyVar { req with method := Method.get })).1.length +
        if t.name = "request_method".toList then 2 else 0 := by
  by_cases h : t.name = "request_method".toList
  · have hval : ∀ m : Method, (t.render (resolveCacheKeyVar { req with method := m })).1 = m.text.toList := by
      intro m
      have hr : resolveCacheKeyVar { req with method := m } (String.ofList t.name) = m.text := by
        rw [h, String.ofList_toList]
        exact resolveCacheKeyVar_method
      rw [render_of_name (h ▸ by decide), hr]
    rw [if_pos h, hval, hval]
    rfl
  · have hne : String.ofList t.name ≠ "request_method" := fun e => h (by rw [← e, String.toList_ofList])
    have hval : resolveCacheKeyVar { req with method := Method.purge } (String.ofList t.name) =
        resolveCacheKeyVar { req with method := Method.get } (String.ofList t.name) := resolveCacheKeyVar_congr hne
    rw [if_neg h, render_congr hval]
    rfl

theorem length_renderTokens (ts : List TemplateToken) :
    (renderTokens (resolveCacheKeyVar { req with method := Method.purge }) ts).1.length =
      (renderTokens (resolveCacheKeyVar { req with method := Method.get }) ts).1.length +
        2 * (ts.filter fun t => t.name = "request_method".toList).length := by
  induction ts with
  | nil => rfl
  | cons t ts ih =>
    have ht := length_render req t
    rw [renderTokens_cons, renderTokens_cons, List.length_append, List.length_append, ih, ht, List.filter_cons]
    by_cases h : t.name = "request_method".toList
    · simp only [h, if_true, decide_true, List.length_cons]
      omega
    · simp only [h, if_false, decide_false, Bool.false_eq_true]
      omega

theorem length_renderings (templates : List String) :
    ((renderings templates { req with method := Method.purge }).map fun s => s.toList.length).sum =
      ((renderings templates { req with method := Method.get }).map fun s => s.toList.length).sum +
        2 * (templates.map methodPlaceholders).sum := by
  induction templates with
  | nil => rfl
  | cons template templates ih =>
    unfold renderings at ih ⊢
    simp only [List.map_cons, List.sum_cons, ih, renderCacheKeyTemplate_toList, length_renderTokens]
    unfold methodPlaceholders
    omega

theorem renderings_congr {templates : List String} (h : ∀ template ∈ templates, asksFor "request_method" template = false)
    (m m' : Method) : renderings templates { req with method := m } = renderings templates { req with method := m' } := by
  refine List.map_congr_left fun template ht => String.toList_inj.mp ?_
  have hno := List.any_eq_false.mp (h template ht)
  rw [renderCacheKeyTemplate_toList, renderCacheKeyTemplate_toList]
  unfold renderTokens
  refine List.flatMap_congr fun t hmem => ?_
  have hne : String.ofList t.name ≠ "request_method" := fun e => hno t hmem (by
    rw [decide_eq_true_eq, ← e, String.toList_ofList])
  rw [render_congr (resolveCacheKeyVar_congr hne)]

/-- The two primary keys are one text when no template asks for the method, and only then. -/
theorem primaryKey_purge_iff (policy : CachePolicy) :
    primaryKey policy { req with method := Method.purge } = primaryKey policy { req with method := Method.get } ↔
      ∀ template ∈ policy.cacheKey.getD [], asksFor "request_method" template = false := by
  unfold primaryKey
  split
  · rename_i template templates hk
    rw [hk, Option.getD_some]
    constructor
    · intro h t ht
      have hlen := congrArg List.length h
      rw [length_join, length_join, List.map_map, List.map_map, List.length_map, List.length_map] at hlen
      have hsum := length_renderings req (template :: templates)
      have hcount : (renderings (template :: templates) { req with method := Method.purge }).length =
          (renderings (template :: templates) { req with method := Method.get }).length := by
        simp only [renderings, List.length_map]
      have hle := Sums.le_sum_map methodPlaceholders ht
      refine methodPlaceholders_eq_zero.mp ?_
      simp only [Function.comp_def] at hlen
      omega
    · intro h
      rw [renderings_congr req h]
  · rename_i hk
    have hnil : policy.cacheKey.getD [] = [] := by
      cases hc : policy.cacheKey with
      | none => rfl
      | some templates =>
        cases templates with
        | nil => rfl
        | cons t ts => exact absurd hc (hk t ts)
    rw [hnil]
    exact ⟨fun _ _ h => absurd h (by simp), fun _ => rfl⟩

end

/-! ## The keys of a purge -/

theorem cacheKey_withMethod_iff {sha : Sha256} {F : CacheFingerprints υ} {tls : Bool} {policy : CachePolicy}
    {st : FilterState υ} (hs : policyOf st.ctx = policy) (m m' : Method) :
    cacheKey sha F tls (st.withMethod m) = cacheKey sha F tls (st.withMethod m') ↔
      primaryKey policy { st.request with method := m } = primaryKey policy { st.request with method := m' } := by
  unfold cacheKey FilterState.withMethod
  rw [String.ofList_inj, hs]
  exact ⟨List.append_cancel_left, congrArg _⟩

theorem policyOf_settings {ctx : ProxyContext υ} {config : CacheConfig} {defaultMaxObjectBytes : Nat}
    (hs : ctx.cacheSettings = some (config.settings defaultMaxObjectBytes)) :
    policyOf ctx = config.policy defaultMaxObjectBytes := by
  unfold policyOf
  rw [hs]
  rfl

/-- A purge addresses the entry of `GET` exactly when no `cache_key` template has a `request_method` placeholder,
however it is spelled and whatever stands around it. -/
theorem cacheKey_purge_iff (sha : Sha256) (F : CacheFingerprints υ) (tls : Bool) (config : CacheConfig)
    (defaultMaxObjectBytes : Nat) (st : FilterState υ)
    (hs : st.ctx.cacheSettings = some (config.settings defaultMaxObjectBytes)) :
    cacheKey sha F tls (st.withMethod Method.purge) = cacheKey sha F tls (st.withMethod Method.get) ↔
      ∀ template ∈ config.cacheKey.getD [], asksFor "request_method" template = false :=
  (cacheKey_withMethod_iff (policyOf_settings hs) _ _).trans (primaryKey_purge_iff st.request _)

/-! ## A template that ends in the method -/

def methodTemplates : Json := .obj [("cache_key", .arr [.str "$uri-$request_method"]), ("enable_purge", .bool true)]

def methodConfig : CacheConfig := { cacheKey := some ["$uri-$request_method"], enablePurge := true }

/-- Methods and header names in ordinary letters; no patterns. -/
def letterSyntax : CacheSyntax where
  method s := s ≠ "" && s.toList.all Char.isAlpha
  headerName s := s ≠ "" && s.toList.all fun c => c.isAlpha || c = '-'
  regex _ := none

def purgedPage : FilterState String where
  request := { method := Method.purge, uri := { rawPath := "/a", graphic := by decide }, headers := [] }
  ctx := { cacheSettings := some (methodConfig.settings 1048576) }

theorem cacheKey_purge_iff_methodTemplates :
    cacheKey shaOfNoCredentials languageFingerprints false (purgedPage.withMethod Method.purge) =
        cacheKey shaOfNoCredentials languageFingerprints false (purgedPage.withMethod Method.get) ↔
      ∀ template ∈ methodConfig.cacheKey.getD [], asksFor "request_method" template = false :=
  cacheKey_purge_iff _ _ _ methodConfig 1048576 purgedPage rfl

/-- The checks accept the template, and a purge of its page misses the page. -/
theorem cacheKey_purge_differs :
    ¬∃ (json : JsonCodec) (sha : Sha256) (F : CacheFingerprints String), ∀ (cfg : Json) (config : CacheConfig)
      (defaultMaxObjectBytes : Nat) (tls : Bool) (st : FilterState String),
      CacheConfig.tryFrom json letterSyntax cfg = .ok config →
      st.ctx.cacheSettings = some (config.settings defaultMaxObjectBytes) →
      cacheKey sha F tls (st.withMethod Method.purge) = cacheKey sha F tls (st.withMethod Method.get) := by
  rintro ⟨json, sha, F, h⟩
  have heq := h methodTemplates methodConfig 1048576 false purgedPage rfl rfl
  rw [cacheKey_withMethod_iff (policyOf_settings rfl), primaryKey_purge_iff] at heq
  have hno := heq "$uri-$request_method" (by simp [methodConfig, CacheConfig.policy])
  exact absurd hno (by decide)

end Pingsix
