import Pingsix.CacheKeySound
import Pingsix.PipelineSound

/-!
# Isolation of consumers in the shared cache

What a run over the plugins leaves in the two credential digests determines what
the client sent and what was verified. A key with an identity template goes
without the digests, and the template sees the request the plugins left.
-/

namespace Pingsix

open HttpMessage RequestPlugin

variable {υ : Type}

/-! ## The digests of a run -/

/-- The credentials the plugins verify on a request that passes them all, in order. -/
def verifiedCredentials (env : RequestEnv υ) : List (RequestPlugin υ) → FilterState υ → List String
  | [], _ => []
  | p :: ps, st =>
    match p.requestFilter env st with
    | .ok (.continue, mid) => (p.verifies env.sha st).toList ++ verifiedCredentials env ps mid
    | _ => []

/-- The digest after credentials were noted, the latest first. -/
def notedDigest (sha : Sha256) : List String → Option HexDigest
  | [] => none
  | credential :: earlier => some (sha (noteMessage (notedDigest sha earlier) credential))

/-- What is hashed to note the credentials, the latest first. -/
def noteMessages (sha : Sha256) : List String → List (List UInt8)
  | [] => []
  | credential :: earlier => noteMessage (notedDigest sha earlier) credential :: noteMessages sha earlier

/-- Distinct messages of the two lists have distinct digests. -/
def CollisionFree (sha : Sha256) (messages messages' : List (List UInt8)) : Prop :=
  ∀ m ∈ messages, ∀ m' ∈ messages', sha m = sha m' → m = m'

theorem notedDigest_inj {sha : Sha256} : ∀ {cs cs' : List String}, (∀ c ∈ cs, Printable c) → (∀ c ∈ cs', Printable c) →
    CollisionFree sha (noteMessages sha cs) (noteMessages sha cs') → notedDigest sha cs = notedDigest sha cs' → cs = cs'
  | [], [], _, _, _, _ => rfl
  | [], _ :: _, _, _, _, h => by cases h
  | _ :: _, [], _, _, _, h => by cases h
  | c :: cs, c' :: cs', hp, hp', hc, h => by
    have hm := hc _ List.mem_cons_self _ List.mem_cons_self (Option.some.inj h)
    obtain ⟨hd, hcc⟩ := noteMessage_inj (hp c List.mem_cons_self) (hp' c' List.mem_cons_self) hm
    have ih := notedDigest_inj (fun c hm => hp c (List.mem_cons_of_mem _ hm))
      (fun c hm => hp' c (List.mem_cons_of_mem _ hm))
      (fun m hm m' hm' => hc m (List.mem_cons_of_mem _ hm) m' (List.mem_cons_of_mem _ hm')) hd
    rw [hcc, ih]

/-- What one plugin does to the two digests. -/
theorem Continues.digests {env : RequestEnv υ} {p : RequestPlugin υ} {st : FilterState υ} {ctx : ProxyContext υ}
    (h : Continues env p st ctx) : ctx.originalCredentialDigest = st.ctx.originalCredentialDigest ∧
      (∀ c, p.verifies env.sha st = some c → Printable c) ∧
      ctx.notedCredentialDigest = (p.verifies env.sha st).elim st.ctx.notedCredentialDigest
        fun c => some (env.sha (noteMessage st.ctx.notedCredentialDigest c)) := by
  cases h with
  | verified hv hp =>
    refine ⟨rfl, fun c hc => ?_, by rw [hv]; rfl⟩
    rw [hv] at hc
    cases hc
    exact hp
  | settled => exact ⟨rfl, (fun _ hc => by cases hc), rfl⟩
  | claimed => exact ⟨rfl, (fun _ hc => by cases hc), rfl⟩
  | moved hv => exact ⟨rfl, fun c hc => (Option.some_ne_none c (hc.symm.trans hv)).elim, by rw [hv]; rfl⟩

theorem runFilters_digests {env : RequestEnv υ} : ∀ {ps : List (RequestPlugin υ)} {st st' : FilterState υ}
    {earlier : List String}, runFilters env ps st = .ok (.continue, st') →
      st.ctx.notedCredentialDigest = notedDigest env.sha earlier →
      st'.ctx.originalCredentialDigest = st.ctx.originalCredentialDigest ∧
        (∀ c ∈ verifiedCredentials env ps st, Printable c) ∧
        st'.ctx.notedCredentialDigest = notedDigest env.sha ((verifiedCredentials env ps st).reverse ++ earlier)
  | [], _, _, _, h, hn => by
    cases h
    exact ⟨rfl, (fun _ hc => by cases hc), hn⟩
  | p :: ps, st, st', earlier, h, hn => by
    obtain ⟨mid, hp, h⟩ := runFilters_cons.mp h
    obtain ⟨horiginal, hprintable, hnoted⟩ := (requestFilter_continue hp).digests
    simp only [verifiedCredentials, hp]
    cases hv : p.verifies env.sha st with
    | none =>
      rw [hv] at hnoted
      obtain ⟨ho, hps, hns⟩ := runFilters_digests h (hnoted.trans hn)
      exact ⟨ho.trans horiginal, hps, hns⟩
    | some c =>
      rw [hv, hn] at hnoted
      obtain ⟨ho, hps, hns⟩ := @runFilters_digests env ps mid st' (c :: earlier) h hnoted
      refine ⟨ho.trans horiginal, fun c' hc' => ?_, by rw [hns]; simp⟩
      cases List.mem_append.mp hc' with
      | inl hc' =>
        cases List.mem_singleton.mp hc'
        exact hprintable c hv
      | inr hc' => exact hps c' hc'

/-! ## The original credentials -/

/-- The digest of the credentials as sent, none when there are none. -/
def originalDigest (sha : Sha256) (req : RequestHeader) : Option HexDigest :=
  if headersIndicateSharedCacheCredentials req.headers then some (sha (credentialMessage req)) else none

theorem earlyRequestFilter_digests (env : RequestEnv υ) (req : RequestHeader) (route : Option (RouteContext υ)) :
    (HttpService.earlyRequestFilter env req route).ctx.originalCredentialDigest = originalDigest env.sha req ∧
      (HttpService.earlyRequestFilter env req route).ctx.notedCredentialDigest = none := by
  unfold HttpService.earlyRequestFilter ProxyContext.captureCredentials originalDigest
  split <;> exact ⟨rfl, rfl⟩

/-- Without credentials every credential header is empty. -/
theorem sentCredentials_of_none {req : RequestHeader} (h : headersIndicateSharedCacheCredentials req.headers = false) :
    sentCredentials req = credentialHeaders.map fun _ => [] := by
  have empty : ∀ name, HeaderMap.containsKey req.headers name = false → HeaderMap.getAll req.headers name = [] := by
    intro name hn
    unfold HeaderMap.containsKey at hn
    simpa using hn
  unfold headersIndicateSharedCacheCredentials at h
  simp only [Bool.or_eq_false_iff] at h
  unfold sentCredentials credentialHeaders
  simp only [List.map_cons, List.map_nil, empty _ h.1.1, empty _ h.1.2, empty _ h.2]

theorem originalDigest_inj {sha : Sha256} {req req' : RequestHeader}
    (hc : CollisionFree sha [credentialMessage req] [credentialMessage req'])
    (h : originalDigest sha req = originalDigest sha req') : sentCredentials req = sentCredentials req' := by
  unfold originalDigest at h
  cases hr : headersIndicateSharedCacheCredentials req.headers <;>
    cases hr' : headersIndicateSharedCacheCredentials req'.headers <;>
      simp only [hr, hr', Bool.false_eq_true, if_false, if_true] at h
  · rw [sentCredentials_of_none hr, sentCredentials_of_none hr']
  · cases h
  · cases h
  · exact credentialMessage_inj
      (hc _ (List.mem_singleton_self _) _ (List.mem_singleton_self _) (Option.some.inj h))

/-! ## Requests under isolation -/

/-- A request that passes its plugins to a cache with both options on, which then looks its entry up. -/
structure IsolatedRequest (υ : Type) (sha : Sha256) where
  env : RequestEnv υ
  hashes : env.sha = sha
  pipeline : CompiledPluginPipeline υ
  request : RequestHeader
  route : Option (RouteContext υ)
  passed : CachedRequest υ
  run : pipeline.requestFilter env (HttpService.earlyRequestFilter env request route) = .ok (.continue, passed.st)
  enabled : shouldEnableRequestCache passed.st.request.headers passed.st.ctx = true
  authenticated : passed.policy.cacheAuthenticatedRequests = true
  isolation : passed.policy.consumerIsolation = true

namespace IsolatedRequest

variable {sha : Sha256}

/-- The credentials the plugins of the request verified, in order. -/
def verified (a : IsolatedRequest υ sha) : List String :=
  verifiedCredentials a.env a.pipeline.plugins (HttpService.earlyRequestFilter a.env a.request a.route)

/-- The credential headers as sent and the credentials verified. -/
def credentials (a : IsolatedRequest υ sha) : List (List HeaderValue) × List String :=
  (sentCredentials a.request, a.verified)

/-- The Authorization values as sent. -/
def authorization (a : IsolatedRequest υ sha) : List HeaderValue := HeaderMap.getAll a.request.headers "authorization"

/-- A template of the explicit key is the identity. -/
def HasIdentity (a : IsolatedRequest υ sha) : Prop := a.passed.policy.cacheKey.any cacheKeyHasIdentity = true

def key (F : CacheFingerprints υ) (a : IsolatedRequest υ sha) : String := a.passed.key sha F

/-- Every text hashed for the request. -/
def messages (a : IsolatedRequest υ sha) : List (List UInt8) :=
  [credentialMessage a.request, isolationMessage a.passed.st.ctx] ++ noteMessages sha a.verified.reverse

theorem isolates_iff (a : IsolatedRequest υ sha) : a.passed.policy.isolates = true ↔ ¬a.HasIdentity := by
  unfold CachePolicy.isolates HasIdentity
  rw [a.authenticated, a.isolation]
  simp

theorem digests (a : IsolatedRequest υ sha) :
    a.passed.st.ctx.originalCredentialDigest = originalDigest sha a.request ∧ (∀ c ∈ a.verified, Printable c) ∧
      a.passed.st.ctx.notedCredentialDigest = notedDigest sha a.verified.reverse := by
  obtain ⟨horiginal, hnone⟩ := earlyRequestFilter_digests a.env a.request a.route
  obtain ⟨ho, hp, hn⟩ := @runFilters_digests _ _ _ _ _ [] (CompiledPluginPipeline.requestFilter_continue.mp a.run) hnone
  rw [horiginal, a.hashes] at ho
  rw [List.append_nil, a.hashes] at hn
  exact ⟨ho, hp, hn⟩

theorem credentials_ne {a b : IsolatedRequest υ sha} (h : a.authorization ≠ b.authorization) :
    a.credentials ≠ b.credentials := fun he =>
  h ((List.map_inj_left.mp (Prod.mk.inj he).1) "authorization" (by decide))

/-- The digests in the context determine the credentials. -/
theorem credentials_eq {a b : IsolatedRequest υ sha} (hc : CollisionFree sha a.messages b.messages)
    (ho : a.passed.st.ctx.originalCredentialDigest = b.passed.st.ctx.originalCredentialDigest)
    (hn : a.passed.st.ctx.notedCredentialDigest = b.passed.st.ctx.notedCredentialDigest) :
    a.credentials = b.credentials := by
  obtain ⟨hoa, hpa, hna⟩ := a.digests
  obtain ⟨hob, hpb, hnb⟩ := b.digests
  rw [hoa, hob] at ho
  rw [hna, hnb] at hn
  have hsent := originalDigest_inj (fun m hm m' hm' => by
    rw [List.mem_singleton] at hm hm'
    exact hc m (by simp [hm, messages]) m' (by simp [hm', messages])) ho
  have hverified := notedDigest_inj (fun c hm => hpa c (List.mem_reverse.mp hm))
    (fun c hm => hpb c (List.mem_reverse.mp hm))
    (fun m hm m' hm' => hc m (List.mem_append_right _ hm) m' (List.mem_append_right _ hm')) hn
  unfold credentials
  rw [hsent, List.reverse_inj.mp hverified]

end IsolatedRequest

/-! ## Main result -/

/-- Neither the texts hashed for the two requests nor the fingerprints of their policies collide. -/
structure NoCollisions {sha : Sha256} (F : CacheFingerprints υ) (a b : IsolatedRequest υ sha) : Prop where
  policy : F.policy a.passed.policy = F.policy b.passed.policy → a.passed.policy = b.passed.policy
  digests : CollisionFree sha a.messages b.messages

/-- The requests as the plugins leave them agree in every part of a key without digests: the fingerprints, the scheme
and the rendered templates, but that `http` and an `s` are read as `https`. -/
def SameRenderings (F : CacheFingerprints υ) (a b : CachedRequest υ) : Prop :=
  SameEntry F a b ∨ MergedWith F a b ∨ MergedWith F b a

theorem NoCollisions.passed {sha : Sha256} {F : CacheFingerprints υ} {a b : IsolatedRequest υ sha}
    (hc : NoCollisions F a b) : NoCollision sha F a.passed b.passed :=
  ⟨hc.policy, fun h => hc.digests _ (by simp [IsolatedRequest.messages]) _ (by simp [IsolatedRequest.messages]) h⟩

theorem primaryKey_eq_of_parts {policy : CachePolicy} {req req' : RequestHeader}
    (h : primaryParts policy req = primaryParts policy req') : primaryKey policy req = primaryKey policy req' := by
  have plain (h : [cacheKeyMethod req.method.text, hostHeader req, req.uri.display] =
      [cacheKeyMethod req'.method.text, hostHeader req', req'.uri.display]) :
      (cacheKeyMethod req.method.text).toList ++ ' ' :: ((hostHeader req).toList ++ ' ' :: req.uri.display.toList) =
        (cacheKeyMethod req'.method.text).toList ++ ' ' ::
          ((hostHeader req').toList ++ ' ' :: req'.uri.display.toList) := by
    simp only [List.cons.injEq, and_true] at h
    rw [h.1, h.2.1, h.2.2]
  unfold primaryParts at h
  unfold primaryKey
  cases hk : policy.cacheKey with
  | none => rw [hk] at h; exact plain h
  | some templates =>
    rw [hk] at h
    cases templates with
    | nil => exact plain h
    | cons template templates => exact congrArg (fun parts => Delimited.join '\n' (parts.map String.toList)) h

/-- Without the digests, agreeing in the other parts is having the same key. -/
theorem SameRenderings.key_eq {sha : Sha256} {F : CacheFingerprints υ} {a b : CachedRequest υ}
    (hc : NoCollision sha F a b) (hi : a.policy.isolates = false) (h : SameRenderings F a b) :
    a.key sha F = b.key sha F := by
  cases h with
  | inl h =>
    have hp := CachedRequest.same_policy hc h.policy
    have hprimary := primaryKey_eq_of_parts (h.primary.trans (by rw [← hp]))
    refine CachedRequest.key_eq_iff.mpr ⟨h.route, h.policy, h.upstream, ?_⟩
    rw [a.tail_eq, b.tail_eq, ← hp, hi, h.scheme, hprimary]
    rfl
  | inr h =>
    cases h with
    | inl h => exact h.key_eq hc
    | inr h => exact (h.key_eq hc.symm).symm

theorem CachedRequest.sameRenderings {sha : Sha256} {F : CacheFingerprints υ} {a b : CachedRequest υ}
    (hc : NoCollision sha F a b) (h : a.key sha F = b.key sha F) : SameRenderings F a b := by
  by_cases hm : MergedWith F a b
  · exact .inr (.inl hm)
  · by_cases hm' : MergedWith F b a
    · exact .inr (.inr hm')
    · exact .inl (CachedRequest.same_of_key_eq hc h hm hm')

/-- Requests with different credentials get different keys, or carry the identity in the key and were sent with the same
one, exactly unless the identity is in the key, they were sent with different ones, and the plugins leave requests that
render alike. -/
theorem cache_isolates_consumers_iff {sha : Sha256} {F : CacheFingerprints υ} {a b : IsolatedRequest υ sha}
    (hc : NoCollisions F a b) :
    (a.credentials ≠ b.credentials → a.key F = b.key F → a.HasIdentity ∧ a.authorization = b.authorization) ↔
      (a.HasIdentity → a.authorization ≠ b.authorization → ¬SameRenderings F a.passed b.passed) := by
  constructor
  · intro h hi hauth hsame
    have hnot : a.passed.policy.isolates = false := by
      rw [← Bool.not_eq_true, a.isolates_iff]
      exact fun hn => hn hi
    exact hauth (h (IsolatedRequest.credentials_ne hauth) (hsame.key_eq hc.passed hnot)).2
  · intro h hcred hkey
    have hsame : SameRenderings F a.passed b.passed := CachedRequest.sameRenderings hc.passed hkey
    by_cases hi : a.HasIdentity
    · exact ⟨hi, by_contra fun hauth => h hi hauth hsame⟩
    · have hisolates := a.isolates_iff.mpr hi
      have hentry := CachedRequest.same_of_key_eq hc.passed hkey
        (fun hm => absurd hisolates (by simp [hm.2.2.1]))
        (fun hm => absurd hisolates (by
          have hp := CachedRequest.same_policy hc.passed.symm hm.2.2.2.2.1
          simp [← hp, hm.2.2.1]))
      obtain ⟨ho, hn⟩ := hentry.consumer hisolates
      exact absurd (IsolatedRequest.credentials_eq hc.digests ho hn) hcred

/-! ## Two tenants -/

def tenantRequest (key : HeaderValue) : RequestHeader where
  method := .get
  uri := { rawPath := "/account", graphic := by decide }
  headers := [("authorization", key)]

def tenantRoute : RouteContext String :=
  { cacheNamespaceFingerprint := 7, resolvedUpstream := some "web", pluginNames := ["key-auth", "proxy-cache"] }

def firstKey : HeaderValue := ⟨bytesOf "k1", List.all_eq_true.mp (by decide)⟩

def secondKey : HeaderValue := ⟨bytesOf "k2", List.all_eq_true.mp (by decide)⟩

def tenantEnv (sha : Sha256) : RequestEnv String where
  sha
  matchApisixVars := fun _ vars => vars.isEmpty
  draw := fun _ _ => 0
  parseForm := fun _ => []
  serializeForm := fun pairs => "&".intercalate (pairs.map fun pair => pair.1 ++ "=" ++ pair.2)
  parseUri := fun text => (Uri.ofPathAndQuery text).elim (.error "invalid uri character") .ok
  transformRequest := fun _ body => .ok (body, false)
  selectBackend := fun _ => some {}

def tenantStart (sha : Sha256) (key : HeaderValue) : FilterState String :=
  HttpService.earlyRequestFilter (tenantEnv sha) (tenantRequest key) (some tenantRoute)

/-- Caches for each consumer. -/
def consumerCache : PluginCache where
  cacheSettings := { policy := { cacheAuthenticatedRequests := true } }

/-- A request with a key, under a cache alone. -/
def consumer (sha : Sha256) (key : HeaderValue) : IsolatedRequest String sha where
  env := tenantEnv sha
  hashes := rfl
  pipeline := { route := [.cache consumerCache] }
  request := tenantRequest key
  route := some tenantRoute
  passed := {
    tls := true
    st := { tenantStart sha key with
      ctx := { (tenantStart sha key).ctx with cacheSettings := some consumerCache.cacheSettings } }
    settings := consumerCache.cacheSettings
    cached := rfl }
  run := rfl
  enabled := rfl
  authenticated := rfl
  isolation := rfl

def firstDigest : HexDigest := ⟨"bc986b6f024633ccf40c646e45ddf0484aed75932dad1d652aefbc40e8aa2f94".toList, by decide, List.all_eq_true.mp (by decide)⟩

def secondDigest : HexDigest := ⟨"b78fced9e0ea0d9eb1d7b4da4099776cd50dde5505ee9e097aac1a18f0c7c4bc".toList, by decide, List.all_eq_true.mp (by decide)⟩

def firstIsolated : HexDigest := ⟨"6805a1ae0459c7cb4dcd2330c6d63d660e08475f5472a549acdb95b74cdf82b0".toList, by decide, List.all_eq_true.mp (by decide)⟩

def secondIsolated : HexDigest := ⟨"db14a422dd252bce1b91a28abdeaa2c41ec7777948d1b62d9373d54d67fc6aff".toList, by decide, List.all_eq_true.mp (by decide)⟩

def isolationText (digest : HexDigest) : List UInt8 :=
  isolationMessage ({ originalCredentialDigest := some digest } : ProxyContext String)

/-- SHA-256 on what is hashed for the two consumers. -/
def consumerSha : Sha256 := fun message =>
  if message = credentialMessage (tenantRequest firstKey) then firstDigest
  else if message = credentialMessage (tenantRequest secondKey) then secondDigest
  else if message = isolationText firstDigest then firstIsolated
  else secondIsolated

theorem consumerSha_firstKey : consumerSha (credentialMessage (tenantRequest firstKey)) = firstDigest := if_pos rfl

theorem consumerSha_secondKey : consumerSha (credentialMessage (tenantRequest secondKey)) = secondDigest :=
  (if_neg (by decide)).trans (if_pos rfl)

theorem consumerSha_firstDigest : consumerSha (isolationText firstDigest) = firstIsolated :=
  (if_neg (by decide)).trans ((if_neg (by decide)).trans (if_pos rfl))

theorem consumerSha_secondDigest : consumerSha (isolationText secondDigest) = secondIsolated :=
  (if_neg (by decide)).trans ((if_neg (by decide)).trans (if_neg (by decide)))

theorem messages_consumer {key : HeaderValue} {digest : HexDigest}
    (h : consumerSha (credentialMessage (tenantRequest key)) = digest) :
    (consumer consumerSha key).messages = [credentialMessage (tenantRequest key), isolationText digest] := by
  rw [← h]
  rfl

theorem policy_consumer (sha : Sha256) (key key' : HeaderValue) :
    (consumer sha key).passed.policy = (consumer sha key').passed.policy := rfl

theorem digests_distinct : firstDigest ≠ secondDigest ∧ firstDigest ≠ secondIsolated ∧ firstIsolated ≠ secondDigest ∧
    firstIsolated ≠ secondIsolated := by
  decide +kernel

theorem noCollisions_consumer (F : CacheFingerprints String) :
    NoCollisions F (consumer consumerSha firstKey) (consumer consumerSha secondKey) := by
  refine ⟨fun _ => policy_consumer .., fun m hm m' hm' he => ?_⟩
  rw [messages_consumer consumerSha_firstKey] at hm
  rw [messages_consumer consumerSha_secondKey] at hm'
  simp only [List.mem_cons, List.not_mem_nil, or_false] at hm hm'
  cases hm with
  | inl hm =>
    cases hm' with
    | inl hm' =>
      rw [hm, hm', consumerSha_firstKey, consumerSha_secondKey] at he
      exact absurd he digests_distinct.1
    | inr hm' =>
      rw [hm, hm', consumerSha_firstKey, consumerSha_secondDigest] at he
      exact absurd he digests_distinct.2.1
  | inr hm =>
    cases hm' with
    | inl hm' =>
      rw [hm, hm', consumerSha_firstDigest, consumerSha_secondKey] at he
      exact absurd he digests_distinct.2.2.1
    | inr hm' =>
      rw [hm, hm', consumerSha_firstDigest, consumerSha_secondDigest] at he
      exact absurd he digests_distinct.2.2.2

def consumerFingerprints : CacheFingerprints String := { policy := fun _ => 0x1118a01f459b225, cacheIsolationKey := fun _ => 1 }

theorem cache_isolates_consumers_iff_consumer :
    ((consumer consumerSha firstKey).credentials ≠ (consumer consumerSha secondKey).credentials →
      (consumer consumerSha firstKey).key consumerFingerprints =
        (consumer consumerSha secondKey).key consumerFingerprints →
      (consumer consumerSha firstKey).HasIdentity ∧
        (consumer consumerSha firstKey).authorization = (consumer consumerSha secondKey).authorization) ↔
      ((consumer consumerSha firstKey).HasIdentity →
        (consumer consumerSha firstKey).authorization ≠ (consumer consumerSha secondKey).authorization →
        ¬SameRenderings consumerFingerprints (consumer consumerSha firstKey).passed
          (consumer consumerSha secondKey).passed) :=
  cache_isolates_consumers_iff (noCollisions_consumer _)

/-- Takes the keys of both tenants from the Authorization header and removes it. -/
def tenantAuth : PluginKeyAuth where
  header := "authorization"
  keys := ["k1", "k2"]
  hideCredentials := true

/-- Caches under the Authorization value and the path. -/
def tenantCache : PluginCache where
  cacheSettings := { policy := { cacheAuthenticatedRequests := true, cacheKey := some ["$http_authorization", "$uri"] } }

/-- What both tenants' requests are without their keys. -/
def strippedRequest : RequestHeader where
  method := .get
  uri := { rawPath := "/account", graphic := by decide }
  headers := []

/-- The request under the key of a tenant after its plugins. -/
def tenantPassed (sha : Sha256) (key : HeaderValue) (text : String) : CachedRequest String where
  tls := true
  st := {
    request := strippedRequest
    ctx := { (tenantStart sha key).ctx.markRequestHasCredentials.noteRequestCredential sha text with
      cacheSettings := some tenantCache.cacheSettings } }
  settings := tenantCache.cacheSettings
  cached := rfl

theorem tenant_keyAuth (sha : Sha256) {key : HeaderValue} {text : String}
    (hf : tenantAuth.findKey (tenantRequest key) = some (text, .header)) (ht : text = "k1" ∨ text = "k2") :
    tenantAuth.requestFilter sha (tenantStart sha key) =
      .ok (.continue, (((tenantStart sha key).mark).note sha text).removeHeader "authorization") := by
  have hvalid : tenantAuth.isValidKey sha text = true := by
    cases ht with
    | inl ht => simp [PluginKeyAuth.isValidKey, PluginKeyAuth.getValidKeys, tenantAuth, ht]
    | inr ht => simp [PluginKeyAuth.isValidKey, PluginKeyAuth.getValidKeys, tenantAuth, ht]
  have hne : text ≠ "" := by
    cases ht with
    | inl ht => rw [ht]; decide
    | inr ht => rw [ht]; decide
  have hv : tenantAuth.verified sha (tenantRequest key) = some (text, .header) := by
    unfold PluginKeyAuth.verified
    rw [hf]
    simp [hvalid, hne]
  have hreq : (tenantStart sha key).request = tenantRequest key := rfl
  unfold PluginKeyAuth.requestFilter
  rw [hreq, hf, hv]
  rfl

/-- The request of the tenant whose key it is. -/
def tenant (sha : Sha256) (key : HeaderValue) (text : String)
    (hf : tenantAuth.findKey (tenantRequest key) = some (text, .header)) (ht : text = "k1" ∨ text = "k2")
    (hs : HeaderMap.remove (tenantRequest key).headers "authorization" = []) : IsolatedRequest String sha where
  env := tenantEnv sha
  hashes := rfl
  pipeline := { route := [.keyAuth tenantAuth, .cache tenantCache] }
  request := tenantRequest key
  route := some tenantRoute
  passed := tenantPassed sha key text
  run := by
    have hleft : ((tenantStart sha key).mark.note sha text).removeHeader "authorization" =
        { request := strippedRequest
          ctx := (tenantStart sha key).ctx.markRequestHasCredentials.noteRequestCredential sha text } :=
      congrArg (fun headers => (⟨{ tenantRequest key with headers }, _⟩ : FilterState String)) hs
    exact CompiledPluginPipeline.requestFilter_continue.mpr
      (runFilters_cons.mpr ⟨_, hleft ▸ tenant_keyAuth sha hf ht, runFilters_cons.mpr ⟨_, rfl, rfl⟩⟩)
  enabled := rfl
  authenticated := rfl
  isolation := rfl

def firstTenant (sha : Sha256) : IsolatedRequest String sha :=
  tenant sha firstKey "k1" (by decide) (.inl rfl) (by decide)

def secondTenant (sha : Sha256) : IsolatedRequest String sha :=
  tenant sha secondKey "k2" (by decide) (.inr rfl) (by decide)

/-- Whatever the hashes, the tenants share an entry: the key is removed before the template renders it. -/
theorem hidden_identity_shares_entry :
    ¬∃ (sha : Sha256) (F : CacheFingerprints String), ∀ a b : IsolatedRequest String sha, a.credentials ≠ b.credentials →
      a.key F = b.key F → a.HasIdentity ∧ a.authorization = b.authorization := by
  rintro ⟨sha, F, h⟩
  have hauth : (firstTenant sha).authorization ≠ (secondTenant sha).authorization :=
    (by decide : HeaderMap.getAll (tenantRequest firstKey).headers "authorization" ≠
      HeaderMap.getAll (tenantRequest secondKey).headers "authorization")
  exact hauth (h _ _ (IsolatedRequest.credentials_ne hauth) rfl).2

end Pingsix
