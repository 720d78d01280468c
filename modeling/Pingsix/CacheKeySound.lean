import Pingsix.CredentialSound

/-!
# Soundness of the cache key

Every part of the key ends where the next begins but the scheme, which the
rendered templates may follow at once: `http` before an `s` is `https`.
-/

namespace Pingsix

open HttpMessage Delimited

/-! ## Rendering -/

/-- How often a line break is rendered does not depend on values that have none. -/
theorem count_renderChars {options : TemplateOptions} {resolve resolve' : ResolveVar}
    (hr : ∀ name, '\n' ∉ (resolve name).toList) (hr' : ∀ name, '\n' ∉ (resolve' name).toList) :
    ∀ (fuel : Nat) (cs : List Char),
      (renderChars options resolve fuel cs).1.count '\n' = (renderChars options resolve' fuel cs).1.count '\n'
  | 0, cs => by simp [renderChars]
  | _ + 1, [] => by simp [renderChars]
  | fuel + 1, ch :: cs => by
    have ih := @count_renderChars options resolve resolve' hr hr' fuel
    have hv : ∀ name, (resolve name).toList.count '\n' = (resolve' name).toList.count '\n' := fun name => by
      rw [List.count_eq_zero_of_not_mem (hr name), List.count_eq_zero_of_not_mem (hr' name)]
    unfold renderChars
    by_cases hesc : (options.escapeDollar && ch == '\\') = true
    · simp only [hesc, if_true]
      split
      · simp only [List.count_cons, ih]
      · simp only [List.count_cons, ih]
    · rw [if_neg hesc, if_neg hesc]
      by_cases hd : ch ≠ '$'
      · rw [if_pos hd, if_pos hd]
        simp only [List.count_cons, ih]
      · rw [if_neg hd, if_neg hd]
        by_cases hn : (placeholder cs).1.isEmpty = true
        · simp only [hn, if_true, List.count_cons, ih]
        · simp only [hn]
          simp only [Bool.false_eq_true, if_false, List.count_append, ih, hv]

theorem graphic_display (u : Uri) : Graphic u.display ∧ Graphic u.path := by
  have part : ∀ s, s ∈ u.scheme.toList ++ u.authority.toList ++ u.rawPath :: u.query.toList → Graphic s := u.graphic
  have happ : ∀ {s t : String}, Graphic s → Graphic t → Graphic (s ++ t) := by
    intro s t hs ht c hc
    rw [String.toList_append, List.mem_append] at hc
    exact hc.elim (hs c) (ht c)
  have hnil : Graphic "" := fun c hc => by simp at hc
  have hpath : Graphic u.path := by
    unfold Uri.path
    split
    · exact hnil
    · split
      · decide
      · exact part _ (by simp)
  refine ⟨happ (happ (happ ?_ ?_) hpath) ?_, hpath⟩
  · cases hs : u.scheme with
    | none => exact hnil
    | some scheme => exact happ (part scheme (by simp [hs])) (by decide)
  · cases ha : u.authority with
    | none => exact hnil
    | some authority => exact part authority (by simp [ha])
  · cases hq : u.query with
    | none => exact hnil
    | some query => exact happ (by decide) (part query (by simp [hq]))

theorem printable_resolveCacheKeyVar (req : RequestHeader) (name : String) : Printable (resolveCacheKeyVar req name) := by
  have hheader : ∀ key, Printable ((getReqHeaderValue req key).getD "") := by
    intro key
    cases hv : getReqHeaderValue req key with
    | none => exact printable_empty
    | some value => exact printable_getReqHeaderValue hv
  have hdata : Graphic req.uri.data := by
    intro c hc
    unfold Uri.data at hc
    rw [String.toList_append, List.mem_append] at hc
    cases hc with
    | inl hc => exact req.uri.graphic _ (by simp) c hc
    | inr hc =>
      cases hq : req.uri.query with
      | none => simp [hq] at hc
      | some query =>
        simp only [hq, Option.map_some, Option.getD_some, String.toList_append, List.mem_append] at hc
        cases hc with
        | inl hc =>
          have hall : Graphic "?" := by decide
          exact hall c hc
        | inr hc => exact req.uri.graphic query (by simp [hq]) c hc
  unfold resolveCacheKeyVar
  split
  · exact printable_getQueryValue
  split
  · exact hheader _
  split_ifs
  · exact printable_getRequestHost
  · unfold Uri.pathAndQuery
    split_ifs
    · have hone : Graphic "/" := by decide
      exact hone.printable
    · exact hdata.printable
    · exact (graphic_display req.uri).2.printable
  · exact (graphic_display req.uri).2.printable
  · cases hq : req.uri.query with
    | none => exact printable_empty
    | some query =>
      have hg : Graphic query := req.uri.graphic query (by simp [hq])
      exact hg.printable
  · exact req.method.graphic.printable
  · exact printable_empty

/-! ## The primary part -/

/-- What the primary part stands for: the renderings of the templates, or the method, the host and the URI. -/
def primaryParts (policy : CachePolicy) (req : RequestHeader) : List String :=
  match policy.cacheKey with
  | some (template :: templates) => renderings (template :: templates) req
  | _ => [cacheKeyMethod req.method.text, hostHeader req, req.uri.display]

theorem renderings_inj (req req' : RequestHeader) (templates : List String)
    (h : join '\n' ((renderings templates req).map String.toList) =
      join '\n' ((renderings templates req').map String.toList)) :
    renderings templates req = renderings templates req' := by
  have hnl : ∀ (r : RequestHeader) name, '\n' ∉ (resolveCacheKeyVar r name).toList :=
    fun r name => (printable_resolveCacheKeyVar r name).no_newline
  have hcount : List.Forall₂ (fun p q : List Char => p.count '\n' = q.count '\n')
      ((renderings templates req).map String.toList) ((renderings templates req').map String.toList) := by
    unfold renderings
    rw [List.forall₂_map_left_iff, List.forall₂_map_left_iff, List.forall₂_map_right_iff, List.forall₂_map_right_iff]
    refine List.forall₂_same.mpr fun template _ => ?_
    unfold renderCacheKeyTemplate renderApisixTemplate renderTemplate renderTemplateWithCount
    rw [String.toList_ofList, String.toList_ofList]
    exact count_renderChars (hnl req) (hnl req') _ _
  exact List.map_injective_iff.mpr (fun _ _ he => String.toList_inj.mp he) (join_inj hcount h)

theorem cacheKeyMethod_no_space (req : RequestHeader) : ' ' ∉ (cacheKeyMethod req.method.text).toList := by
  unfold cacheKeyMethod
  split
  · decide
  · exact req.method.graphic.no_space

theorem primaryKey_inj {policy : CachePolicy} {req req' : RequestHeader} (h : primaryKey policy req = primaryKey policy req') :
    primaryParts policy req = primaryParts policy req' := by
  have plain (h : (cacheKeyMethod req.method.text).toList ++ ' ' :: ((hostHeader req).toList ++ ' ' ::
        req.uri.display.toList) = (cacheKeyMethod req'.method.text).toList ++ ' ' ::
          ((hostHeader req').toList ++ ' ' :: req'.uri.display.toList)) :
      [cacheKeyMethod req.method.text, hostHeader req, req.uri.display] =
        [cacheKeyMethod req'.method.text, hostHeader req', req'.uri.display] := by
    obtain ⟨hm, hrest⟩ := append_sep_inj (cacheKeyMethod_no_space req) (cacheKeyMethod_no_space req') h
    -- A host may hold blanks, so the URI is what follows the last one.
    obtain ⟨hh, hu⟩ := append_last_sep_inj (graphic_display req.uri).1.no_space (graphic_display req'.uri).1.no_space hrest
    rw [String.toList_inj.mp hm, String.toList_inj.mp hh, String.toList_inj.mp hu]
  unfold primaryKey at h
  unfold primaryParts
  cases hk : policy.cacheKey with
  | none =>
    rw [hk] at h
    exact plain h
  | some templates =>
    rw [hk] at h
    cases templates with
    | nil => exact plain h
    | cons template templates => exact renderings_inj req req' _ h

/-! ## The key -/

/-- A request whose entry is looked up under the settings of a cache plugin. -/
structure CachedRequest (υ : Type) where
  tls : Bool
  st : FilterState υ
  settings : CacheSettings
  cached : st.ctx.cacheSettings = some settings

section
variable {υ : Type} (sha : Sha256) (F : CacheFingerprints υ)

def CachedRequest.key (a : CachedRequest υ) : String := cacheKey sha F a.tls a.st

def CachedRequest.policy (a : CachedRequest υ) : CachePolicy := a.settings.policy

/-- The text after the scheme. -/
def CachedRequest.tail (a : CachedRequest υ) : List Char := consumerPart sha a.st.ctx ++ primaryKey a.policy a.st.request

/-- The fingerprints and the digests that go into two keys do not collide. -/
structure NoCollision (a b : CachedRequest υ) : Prop where
  policy : F.policy a.policy = F.policy b.policy → a.policy = b.policy
  consumer : sha (isolationMessage a.st.ctx) = sha (isolationMessage b.st.ctx) →
    isolationMessage a.st.ctx = isolationMessage b.st.ctx

/-- The two requests agree in everything the key is meant to tell apart. -/
structure SameEntry (a b : CachedRequest υ) : Prop where
  route : routeFingerprint a.st.ctx = routeFingerprint b.st.ctx
  policy : policyFingerprint F a.st.ctx = policyFingerprint F b.st.ctx
  upstream : upstreamKey F a.st.ctx = upstreamKey F b.st.ctx
  scheme : a.tls = b.tls
  consumer : a.policy.isolates = true →
    a.st.ctx.originalCredentialDigest = b.st.ctx.originalCredentialDigest ∧
      a.st.ctx.notedCredentialDigest = b.st.ctx.notedCredentialDigest
  primary : primaryParts a.policy a.st.request = primaryParts b.policy b.st.request

/-- The same fingerprints, no isolation, and the text after `http` reads as an `s` and the text after `https`. -/
def MergedWith (plain secure : CachedRequest υ) : Prop :=
  plain.tls = false ∧ secure.tls = true ∧ plain.policy.isolates = false ∧
    routeFingerprint plain.st.ctx = routeFingerprint secure.st.ctx ∧
    policyFingerprint F plain.st.ctx = policyFingerprint F secure.st.ctx ∧
    upstreamKey F plain.st.ctx = upstreamKey F secure.st.ctx ∧
    primaryKey plain.policy plain.st.request = 's' :: primaryKey secure.policy secure.st.request

variable {sha F}

theorem CachedRequest.policyOf_eq (a : CachedRequest υ) : policyOf a.st.ctx = a.policy := by
  unfold policyOf
  rw [a.cached]
  rfl

theorem CachedRequest.policyFingerprint_eq (a : CachedRequest υ) : policyFingerprint F a.st.ctx = F.policy a.policy := by
  unfold policyFingerprint
  rw [a.cached]
  rfl

theorem bar_not_mem_lowerHex (n : Nat) : '|' ∉ lowerHex n := fun h =>
  absurd (isAlphanum_of_mem_lowerHex h) (by decide)

theorem CachedRequest.key_eq_iff {a b : CachedRequest υ} : a.key sha F = b.key sha F ↔
    routeFingerprint a.st.ctx = routeFingerprint b.st.ctx ∧
      policyFingerprint F a.st.ctx = policyFingerprint F b.st.ctx ∧
      upstreamKey F a.st.ctx = upstreamKey F b.st.ctx ∧
      schemeText a.tls ++ a.tail sha = schemeText b.tls ++ b.tail sha := by
  unfold CachedRequest.key cacheKey CachedRequest.tail
  rw [String.ofList_inj, a.policyOf_eq, b.policyOf_eq]
  unfold cacheNamespaceText
  constructor
  · intro h
    simp only [List.append_assoc] at h
    obtain ⟨hr, h⟩ := append_sep_inj (bar_not_mem_lowerHex _) (bar_not_mem_lowerHex _) (List.append_cancel_left h)
    obtain ⟨hc, h⟩ := append_sep_inj (bar_not_mem_lowerHex _) (bar_not_mem_lowerHex _)
      (@List.append_cancel_left _ "c=".toList _ _ h)
    obtain ⟨hu, h⟩ := append_sep_inj (bar_not_mem_lowerHex _) (bar_not_mem_lowerHex _)
      (@List.append_cancel_left _ "u=".toList _ _ h)
    exact ⟨UInt64.toNat_inj.mp (lowerHex_inj hr), UInt64.toNat_inj.mp (lowerHex_inj hc),
      UInt64.toNat_inj.mp (lowerHex_inj hu), @List.append_cancel_left _ "sch=".toList _ _ h⟩
  · rintro ⟨hr, hc, hu, h⟩
    simp only [List.append_assoc, hr, hc, hu, h]

theorem CachedRequest.same_policy {a b : CachedRequest υ} (hc : NoCollision sha F a b)
    (h : policyFingerprint F a.st.ctx = policyFingerprint F b.st.ctx) : a.policy = b.policy := by
  rw [a.policyFingerprint_eq, b.policyFingerprint_eq] at h
  exact hc.policy h

theorem CachedRequest.tail_eq (a : CachedRequest υ) : a.tail sha =
    (if a.policy.isolates then "|cc=".toList ++ (consumerIsolationComponent sha a.st.ctx).chars else []) ++
      primaryKey a.policy a.st.request := by
  unfold CachedRequest.tail consumerPart
  rw [a.policyOf_eq]

/-- The scheme ends where a `|` or nothing that reads as an `s` follows it. -/
theorem schemeText_inj {t u : Bool} {x y : List Char} (h : schemeText t ++ x = schemeText u ++ y)
    (hs : ¬(t = false ∧ u = true ∧ x = 's' :: y)) (hs' : ¬(u = false ∧ t = true ∧ y = 's' :: x)) : t = u ∧ x = y := by
  cases t <;> cases u
  · exact ⟨rfl, List.append_cancel_left h⟩
  · exact absurd ⟨rfl, rfl, @List.append_cancel_left _ "http".toList _ _ h⟩ hs
  · exact absurd ⟨rfl, rfl, (@List.append_cancel_left _ "http".toList _ _ h).symm⟩ hs'
  · exact ⟨rfl, List.append_cancel_left h⟩

/-- Apart from the scheme that swallows a letter, equal keys are keys of the same entry. -/
theorem CachedRequest.same_of_key_eq {a b : CachedRequest υ} (hc : NoCollision sha F a b)
    (h : a.key sha F = b.key sha F) (hm : ¬MergedWith F a b) (hm' : ¬MergedWith F b a) : SameEntry F a b := by
  obtain ⟨hroute, hpolicy, hupstream, htail⟩ := CachedRequest.key_eq_iff.mp h
  have hp := CachedRequest.same_policy hc hpolicy
  rw [a.tail_eq, b.tail_eq, ← hp] at htail
  by_cases hi : a.policy.isolates = true
  · simp only [hi, if_true] at htail
    obtain ⟨htls, hrest⟩ := schemeText_inj htail (by simp) (by simp)
    simp only [List.append_assoc] at hrest
    obtain ⟨hd, hprimary⟩ := List.append_inj (List.append_cancel_left hrest)
      ((HexDigest.length_eq _).trans (HexDigest.length_eq _).symm)
    have hprimary := primaryKey_inj hprimary
    refine ⟨hroute, hpolicy, hupstream, htls, fun _ => ?_, by rw [← hp]; exact hprimary⟩
    exact isolationMessage_inj (hc.consumer (HexDigest.ext_chars hd))
  · simp only [Bool.not_eq_true] at hi
    simp only [hi, Bool.false_eq_true, if_false, List.nil_append] at htail
    obtain ⟨htls, hprimary⟩ := schemeText_inj htail
      (fun hs => hm ⟨hs.1, hs.2.1, hi, hroute, hpolicy, hupstream, by rw [← hp]; exact hs.2.2⟩)
      (fun hs => hm' ⟨hs.1, hs.2.1, hp ▸ hi, hroute.symm, hpolicy.symm, hupstream.symm, by rw [← hp]; exact hs.2.2⟩)
    exact ⟨hroute, hpolicy, hupstream, htls, fun hi' => absurd hi' (by simp [hi]),
      by rw [← hp]; exact primaryKey_inj hprimary⟩

theorem MergedWith.key_eq {a b : CachedRequest υ} (hc : NoCollision sha F a b) (h : MergedWith F a b) :
    a.key sha F = b.key sha F := by
  obtain ⟨ha, hb, hi, hroute, hpolicy, hupstream, hprimary⟩ := h
  have hp := CachedRequest.same_policy hc hpolicy
  refine CachedRequest.key_eq_iff.mpr ⟨hroute, hpolicy, hupstream, ?_⟩
  rw [a.tail_eq, b.tail_eq, ← hp, hi, ha, hb, hprimary, ← hp]
  rfl

theorem NoCollision.symm {a b : CachedRequest υ} (hc : NoCollision sha F a b) : NoCollision sha F b a :=
  ⟨fun h => (hc.policy h.symm).symm, fun h => (hc.consumer h.symm).symm⟩

/-! ## Main result -/

/-- Equal keys are keys of the same entry, exactly unless one request came in the clear and one over TLS, consumers
are not isolated, and the first one's primary text is an `s` and the second one's. -/
theorem cache_key_separates_iff {a b : CachedRequest υ} (hc : NoCollision sha F a b) :
    (a.key sha F = b.key sha F → SameEntry F a b) ↔ ¬(MergedWith F a b ∨ MergedWith F b a) := by
  constructor
  · intro h hm
    cases hm with
    | inl hm =>
      have := (h (hm.key_eq hc)).scheme
      rw [hm.1, hm.2.1] at this
      cases this
    | inr hm =>
      have := (h (hm.key_eq hc.symm).symm).scheme
      rw [hm.1, hm.2.1] at this
      cases this
  · intro hm h
    exact CachedRequest.same_of_key_eq hc h (fun hl => hm (.inl hl)) (fun hr => hm (.inr hr))

end

/-! ## A language and a scheme -/

/-- A request for the front page in a language, on a route whose key is the language. -/
def frontPage (tls : Bool) (language : HeaderValue) : CachedRequest String :=
  let settings : CacheSettings := { policy := { cacheKey := some ["$http_accept_language"] } }
  { tls
    st := {
      request := {
        method := .get
        uri := .root
        headers := [("accept-language", language)] }
      ctx := {
        route := some { cacheNamespaceFingerprint := 7, resolvedUpstream := some "u1", pluginNames := ["proxy-cache"] }
        cacheSettings := some settings } }
    settings
    cached := rfl }

def swedish : HeaderValue := ⟨bytesOf "sv", List.all_eq_true.mp (by decide)⟩

def venda : HeaderValue := ⟨bytesOf "v", List.all_eq_true.mp (by decide)⟩

/-- The hash of the only text hashed for the two requests. -/
def shaOfNoCredentials : Sha256 := fun _ =>
  ⟨"b01e21dd72fa1f0100d2ab0972c00c2c529669a1276e0512f84d6bd6bbac57b7".toList, by decide, List.all_eq_true.mp (by decide)⟩

def languageFingerprints : CacheFingerprints String := { policy := fun _ => 0xe6783c540766521d, cacheIsolationKey := fun _ => 1 }

theorem noCollision_frontPage (sha : Sha256) (F : CacheFingerprints String) (t u : Bool) (v w : HeaderValue) :
    NoCollision sha F (frontPage t v) (frontPage u w) := ⟨fun _ => rfl, fun _ => rfl⟩

theorem cache_key_separates_iff_frontPage :
    ((frontPage false venda).key shaOfNoCredentials languageFingerprints =
        (frontPage true swedish).key shaOfNoCredentials languageFingerprints →
      SameEntry languageFingerprints (frontPage false venda) (frontPage true swedish)) ↔
      ¬(MergedWith languageFingerprints (frontPage false venda) (frontPage true swedish) ∨
        MergedWith languageFingerprints (frontPage true swedish) (frontPage false venda)) :=
  cache_key_separates_iff (noCollision_frontPage _ _ _ _ _ _)

/-- Whatever the hashes, a clear request for Swedish and a TLS request for Venda share an entry. -/
theorem cache_key_merges_schemes :
    ¬∃ (sha : Sha256) (F : CacheFingerprints String), ∀ a b : CachedRequest String, NoCollision sha F a b →
      shouldEnableRequestCache a.st.request.headers a.st.ctx = true →
      shouldEnableRequestCache b.st.request.headers b.st.ctx = true →
      a.key sha F = b.key sha F → SameEntry F a b := by
  rintro ⟨sha, F, h⟩
  have hc := noCollision_frontPage sha F false true swedish venda
  have hm : MergedWith F (frontPage false swedish) (frontPage true venda) :=
    ⟨rfl, rfl, by decide, rfl, rfl, rfl, by decide⟩
  have hs := (h _ _ hc (by decide) (by decide) (hm.key_eq hc)).scheme
  cases hs

end Pingsix
