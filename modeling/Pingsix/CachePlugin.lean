import Pingsix.Lib.Delimited
import Pingsix.RequestContext
import Pingsix.Template

/-!
# The proxy cache

When a request may use the shared cache, and the key of its entry: a namespace
of fingerprints and the scheme, the consumer's part when consumers are isolated,
and the rendered templates.
-/

namespace Pingsix

open HttpMessage Delimited

variable {υ : Type}

/-! ## Templates -/

def cacheKeyMethod (method : String) : String := if method = "PURGE" then "GET" else method

/-- The variables of the cache templates; an unknown one is empty. -/
def resolveCacheKeyVar (req : RequestHeader) (name : String) : String :=
  match Text.stripPrefix name "arg_" with
  | some arg => (getQueryValue req arg).getD ""
  | none =>
    match Text.stripPrefix name "http_" with
    | some header => (getReqHeaderValue req (Text.replaceChar header '_' '-')).getD ""
    | none =>
      if name = "host" then (getRequestHost req).getD ""
      else if name = "request_uri" then req.uri.pathAndQuery.getD req.uri.path
      else if name = "uri" then req.uri.path
      else if name = "args" ∨ name = "query_string" then req.uri.query.getD ""
      else if name = "request_method" then req.method.text
      else ""

def renderCacheKeyTemplate (req : RequestHeader) (template : String) : String :=
  renderApisixTemplate template (resolveCacheKeyVar req)

/-- The renderings together are neither empty nor a zero. -/
def apisixTemplatesTruthy (templates : List String) (req : RequestHeader) : Bool :=
  let rendered := String.join (templates.map (renderCacheKeyTemplate req))
  rendered ≠ "" && rendered ≠ "0"

def identityCacheKeyVars : List String := ["$http_authorization"]

def cacheKeyHasIdentity (templates : List String) : Bool := templates.any (identityCacheKeyVars.contains ·)

/-! ## The plugin -/

def shouldBypassAuthenticatedRequest (settings : CacheSettings) (ctx : ProxyContext υ) : Bool :=
  !settings.policy.cacheAuthenticatedRequests && (ctx.originalRequestHadCredentials || ctx.requestHasCredentials)

structure PluginCache where
  methods : List String := ["GET", "HEAD"]
  /-- Which paths the `no_cache_str` patterns match. -/
  noCacheRegex : List (String → Bool) := []
  cacheSettings : CacheSettings

def PluginCache.enables (p : PluginCache) (st : FilterState υ) : Bool :=
  if st.request.method.text = "PURGE" && p.cacheSettings.enablePurge then true
  else p.methods.contains st.request.method.text &&
    !apisixTemplatesTruthy (p.cacheSettings.policy.cacheBypass.getD []) st.request &&
    !shouldBypassAuthenticatedRequest p.cacheSettings st.ctx &&
    !p.noCacheRegex.any fun re => re st.request.uri.path

def PluginCache.requestFilter (p : PluginCache) (st : FilterState υ) : FilterResult υ :=
  .ok (.continue,
    if p.enables st then { st with ctx := { st.ctx with cacheSettings := some p.cacheSettings } } else st)

def shouldEnableRequestCache (headers : HeaderMap) (ctx : ProxyContext υ) : Bool :=
  if HeaderMap.containsKey headers "x-bypass-cache" then false
  else
    let directives := ((HeaderMap.get headers "cache-control").bind (·.toStr)).getD ""
    let refuses := Text.contains directives "no-cache" || Text.contains directives "no-store"
    if refuses && ctx.cacheSettings.all fun s => s.policy.cacheControl ≠ some false then false
    else
      match ctx.cacheSettings with
      | none => false
      | some settings => !shouldBypassAuthenticatedRequest settings ctx

/-! ## The key -/

/-- The fingerprint hashes of a policy and of an upstream. -/
structure CacheFingerprints (υ : Type) where
  policy : CachePolicy → UInt64
  cacheIsolationKey : υ → UInt64

def isolationMessage (ctx : ProxyContext υ) : List UInt8 :=
  bytesOf "pingsix-cache-consumer-isolation-v1" ++
    0 :: (digestBytes ctx.originalCredentialDigest ++ 0 :: digestBytes ctx.notedCredentialDigest)

def consumerIsolationComponent (sha : Sha256) (ctx : ProxyContext υ) : HexDigest := sha (isolationMessage ctx)

/-- Consumer isolation is in force: both options are on and no template carries the identity. -/
def CachePolicy.isolates (policy : CachePolicy) : Bool :=
  policy.cacheAuthenticatedRequests && policy.consumerIsolation &&
    !policy.cacheKey.any cacheKeyHasIdentity

def renderings (templates : List String) (req : RequestHeader) : List String :=
  templates.map (renderCacheKeyTemplate req)

def hostHeader (req : RequestHeader) : String := ((HeaderMap.get req.headers "host").bind (·.toStr)).getD ""

/-- The rendered templates, one a line, or the method, the host and the URI. -/
def primaryKey (policy : CachePolicy) (req : RequestHeader) : List Char :=
  match policy.cacheKey with
  | some (template :: templates) => join '\n' ((renderings (template :: templates) req).map String.toList)
  | _ => (cacheKeyMethod req.method.text).toList ++ ' ' :: ((hostHeader req).toList ++ ' ' :: req.uri.display.toList)

/-- The key of the upstream the override or else the route selects. -/
def upstreamKey (F : CacheFingerprints υ) (ctx : ProxyContext υ) : UInt64 :=
  match ctx.upstreamOverride with
  | some u => F.cacheIsolationKey u
  | none => ((ctx.route.bind (·.resolvedUpstream)).map F.cacheIsolationKey).getD 0

def routeFingerprint (ctx : ProxyContext υ) : UInt64 := (ctx.route.map (·.cacheNamespaceFingerprint)).getD 0

def policyFingerprint (F : CacheFingerprints υ) (ctx : ProxyContext υ) : UInt64 :=
  (ctx.cacheSettings.map fun s => F.policy s.policy).getD 0

def schemeText (tls : Bool) : List Char := if tls then "https".toList else "http".toList

/-- The policy of the settings in the context; the plain key's when there are none. -/
def policyOf (ctx : ProxyContext υ) : CachePolicy := (ctx.cacheSettings.map (·.policy)).getD { consumerIsolation := false }

def consumerPart (sha : Sha256) (ctx : ProxyContext υ) : List Char :=
  if (policyOf ctx).isolates then "|cc=".toList ++ (consumerIsolationComponent sha ctx).chars else []

def cacheNamespaceText (sha : Sha256) (F : CacheFingerprints υ) (tls : Bool) (ctx : ProxyContext υ) : List Char :=
  "rf=".toList ++ (lowerHex (routeFingerprint ctx).toNat ++ "|c=".toList ++ (lowerHex (policyFingerprint F ctx).toNat ++
    "|u=".toList ++ (lowerHex (upstreamKey F ctx).toNat ++ "|sch=".toList ++ (schemeText tls ++ consumerPart sha ctx))))

def cacheKey (sha : Sha256) (F : CacheFingerprints υ) (tls : Bool) (st : FilterState υ) : String :=
  String.ofList (cacheNamespaceText sha F tls st.ctx ++ primaryKey (policyOf st.ctx) st.request)

end Pingsix
