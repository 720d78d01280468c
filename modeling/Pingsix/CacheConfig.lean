import Mathlib.Data.List.Dedup
import Mathlib.Data.List.Sort
import Pingsix.AiProxy
import Pingsix.CachePlugin

/-!
# The proxy-cache configuration

Its schema, its checks with the aliases they apply, and the settings a plugin is
created with. The syntax of methods, header names and patterns is third-party.
-/

namespace Pingsix

inductive CacheScope where
  | localScope
  | cluster
  deriving DecidableEq, Repr

inductive CacheStrategy where
  | disk
  | memory
  deriving DecidableEq, Repr

structure CacheConfig where
  ttl : Nat := 300
  cacheTtl : Option Nat := none
  cacheHttpMethods : List String := ["GET", "HEAD"]
  cacheMethod : Option (List String) := none
  cacheHttpStatuses : List Nat := [200]
  cacheHttpStatus : Option (List Nat) := none
  noCacheStr : List String := []
  noCache : Option (List String) := none
  vary : List String := []
  cacheStrategy : Option CacheStrategy := none
  cacheKey : Option (List String) := none
  cacheBypass : Option (List String) := none
  hideCacheHeaders : Bool := false
  cacheControl : Option Bool := none
  consumerIsolation : Bool := true
  cacheSetCookie : Bool := false
  enablePurge : Bool := false
  scope : CacheScope := .localScope
  maxFileSizeBytes : Option Nat := none
  maxRespBodySize : Option Nat := some 67108864
  /-- The field stands in the document; it is not read from it. -/
  maxRespBodySizeExplicit : Bool := false
  staleWhileRevalidateSecs : Option Nat := none
  respectSMaxage : Bool := true
  cacheAuthenticatedRequests : Bool := false
  cacheSetCookieResponses : Bool := false
  deriving DecidableEq, Repr

/-- Which texts are methods, header names and patterns; a pattern is what it matches. -/
structure CacheSyntax where
  method : String → Bool
  headerName : String → Bool
  regex : String → Option (String → Bool)

namespace CacheConfig

def fromValue : De CacheConfig := fun v => do
  let nm := "PluginConfig with 24 elements"
  let strings := De.vec De.string
  let src ← De.struct "PluginConfig" 24 v
  let ttl ← src.field nm 0 "ttl" (De.unsigned 64) (.default 300)
  let cacheTtl ← src.field nm 1 "cache_ttl" (De.option (De.unsigned 64)) (.default none)
  let cacheHttpMethods ← src.field nm 2 "cache_http_methods" strings (.default ["GET", "HEAD"])
  let cacheMethod ← src.field nm 3 "cache_method" (De.option strings) (.default none)
  let cacheHttpStatuses ← src.field nm 4 "cache_http_statuses" (De.vec (De.unsigned 16)) (.default [200])
  let cacheHttpStatus ← src.field nm 5 "cache_http_status" (De.option (De.vec (De.unsigned 16))) (.default none)
  let noCacheStr ← src.field nm 6 "no_cache_str" strings (.default [])
  let noCache ← src.field nm 7 "no_cache" (De.option strings) (.default none)
  let vary ← src.field nm 8 "vary" strings (.default [])
  let cacheStrategy ← src.field nm 9 "cache_strategy"
    (De.option (De.unitVariant [("disk", .disk), ("memory", .memory)])) (.default none)
  let cacheKey ← src.field nm 10 "cache_key" (De.option strings) (.default none)
  let cacheBypass ← src.field nm 11 "cache_bypass" (De.option strings) (.default none)
  let hideCacheHeaders ← src.field nm 12 "hide_cache_headers" De.bool (.default false)
  let cacheControl ← src.field nm 13 "cache_control" (De.option De.bool) (.default none)
  let consumerIsolation ← src.field nm 14 "consumer_isolation" De.bool (.default true)
  let cacheSetCookie ← src.field nm 15 "cache_set_cookie" De.bool (.default false)
  let enablePurge ← src.field nm 16 "enable_purge" De.bool (.default false)
  let scope ← src.field nm 17 "scope" (De.unitVariant [("local", .localScope), ("cluster", .cluster)])
    (.default .localScope)
  let maxFileSizeBytes ← src.field nm 18 "max_file_size_bytes" (De.option (De.unsigned 64)) (.default none)
  let maxRespBodySize ← src.field nm 19 "max_resp_body_size" (De.option (De.unsigned 64)) (.default (some 67108864))
  let staleWhileRevalidateSecs ← src.field nm 20 "stale_while_revalidate_secs" (De.option (De.unsigned 64))
    (.default none)
  let respectSMaxage ← src.field nm 21 "respect_s_maxage" De.bool (.default true)
  let cacheAuthenticatedRequests ← src.field nm 22 "cache_authenticated_requests" De.bool (.default false)
  let cacheSetCookieResponses ← src.field nm 23 "cache_set_cookie_responses" De.bool (.default false)
  return { ttl, cacheTtl, cacheHttpMethods, cacheMethod, cacheHttpStatuses, cacheHttpStatus, noCacheStr, noCache, vary,
           cacheStrategy, cacheKey, cacheBypass, hideCacheHeaders, cacheControl, consumerIsolation, cacheSetCookie,
           enablePurge, scope, maxFileSizeBytes, maxRespBodySize, staleWhileRevalidateSecs, respectSMaxage,
           cacheAuthenticatedRequests, cacheSetCookieResponses }

section
variable (json : JsonCodec) (syn : CacheSyntax)

/-- Every value of a field passes a check. -/
def checkAll {α : Type} (field code : String) (ok : α → Bool) (values : List α) : List FieldError :=
  if values.all ok then [] else [⟨field, code⟩]

def validateMethods (methods : List String) : List FieldError :=
  checkAll "cache_http_methods" "invalid_http_method" syn.method methods

def validateStatuses (statuses : List Nat) : List FieldError :=
  checkAll "cache_http_statuses" "invalid_http_status" (fun s => 100 ≤ s && s ≤ 599) statuses

def validateRegexes (patterns : List String) : List FieldError :=
  checkAll "no_cache_str" "invalid_regex_pattern" (fun p => (syn.regex p).isSome) patterns

def validateVaryHeaders (headers : List String) : List FieldError :=
  checkAll "vary" "invalid_vary_header" (fun h => Text.trim h ≠ "*" && syn.headerName (Text.trim h)) headers

def validate (config : CacheConfig) : List FieldError :=
  FieldError.range "ttl" 1 none config.ttl ++ validateMethods syn config.cacheHttpMethods ++
    validateStatuses config.cacheHttpStatuses ++ validateRegexes syn config.noCacheStr ++
    validateVaryHeaders syn config.vary

/-- A `ValidationError` without a message, as it is displayed. -/
def refusal (code : String) : ProxyError := .validation s!"Validation error: {code} [\x7b\x7d]"

/-- A list of an alias: not empty, every entry allowed, and each once. -/
def validateApisixEntries {α : Type} [DecidableEq α] (field : String) (ok : α → Bool) (allowed : String) (entries : List α) :
    ProxyResult Unit :=
  if entries = [] then .error (refusal s!"{field} must have at least 1 item")
  else go [] entries
where
  go (seen : List α) : List α → ProxyResult Unit
    | [] => .ok ()
    | entry :: rest =>
      if !ok entry then .error (refusal s!"{field} entries must be {allowed}")
      else if entry ∈ seen then .error (refusal s!"{field} entries must be unique")
      else go (entry :: seen) rest

def validateApisixMethods (methods : List String) : ProxyResult Unit :=
  validateApisixEntries "cache_method" (["GET", "POST", "HEAD"].contains ·) "GET, POST or HEAD" methods

def validateApisixStatuses (statuses : List Nat) : ProxyResult Unit :=
  validateApisixEntries "cache_http_status" (fun s => 200 ≤ s && s ≤ 599) "between 200 and 599" statuses

def validateOptionalTemplates (templates : Option (List String)) : ProxyResult Unit :=
  if templates = some [] then .error (refusal "template list must have at least 1 item") else .ok ()

/-- The checks beyond the declared ones. -/
def check (config : CacheConfig) : ProxyResult Unit := do
  if config.cacheTtl = some 0 then throw (refusal "cache_ttl must be at least 1")
  config.cacheMethod.forM validateApisixMethods
  config.cacheHttpStatus.forM validateApisixStatuses
  validateOptionalTemplates config.cacheKey
  validateOptionalTemplates config.cacheBypass
  validateOptionalTemplates config.noCache
  if (config.cacheKey.getD []).contains "$request_method" then
    throw (.validationError "cache_key variable $request_method unsupported")
  if config.maxRespBodySize = some 0 then throw (refusal "max_resp_body_size must be at least 1")
  if config.cacheStrategy = some .disk then
    throw (.validationError "cache_strategy 'disk' requires a disk cache zone, only 'memory' is supported")
  if config.scope = .cluster then
    throw (.validationError "cache scope 'cluster' requires a distributed backend")

/-- The aliases win over the fields they stand for. -/
def applyAliases (config : CacheConfig) : CacheConfig :=
  { config with
    ttl := config.cacheTtl.getD config.ttl
    cacheHttpMethods := config.cacheMethod.getD config.cacheHttpMethods
    cacheMethod := none
    cacheHttpStatuses := config.cacheHttpStatus.getD config.cacheHttpStatuses
    cacheHttpStatus := none
    cacheSetCookieResponses := config.cacheSetCookie || config.cacheSetCookieResponses }

def tryFrom (value : Json) : ProxyResult CacheConfig := do
  let config ← parseAndValidatePluginConfig json fromValue (validate syn) "Failed to parse cache plugin config" value
  let config := { config with maxRespBodySizeExplicit := (value.get "max_resp_body_size").isSome }
  config.check
  return config.applyAliases

/-! ## Settings -/

def effectiveMaxFileSizeBytes (config : CacheConfig) : Option Nat :=
  if config.maxFileSizeBytes.isSome then config.maxFileSizeBytes
  else if config.maxRespBodySizeExplicit then config.maxRespBodySize
  else none

def normalizeVary (vary : List String) : List String :=
  (((vary.map fun h => Text.toAsciiLowercase (Text.trim h)).filter (· ≠ "")).insertionSort (· ≤ ·)).dedup

def policy (config : CacheConfig) (defaultMaxObjectBytes : Nat) : CachePolicy where
  ttl := config.ttl
  maxFileSizeBytes := config.effectiveMaxFileSizeBytes.getD defaultMaxObjectBytes
  hideCacheHeaders := config.hideCacheHeaders
  respectSMaxage := config.respectSMaxage
  cacheAuthenticatedRequests := config.cacheAuthenticatedRequests
  cacheSetCookieResponses := config.cacheSetCookieResponses
  cacheControl := config.cacheControl
  consumerIsolation := config.consumerIsolation
  staleWhileRevalidateSecs := config.staleWhileRevalidateSecs
  cacheKey := config.cacheKey
  cacheBypass := config.cacheBypass
  noCache := config.noCache
  statuses := (config.cacheHttpStatuses.insertionSort (· ≤ ·)).dedup
  vary := normalizeVary config.vary

def settings (config : CacheConfig) (defaultMaxObjectBytes : Nat) : CacheSettings where
  policy := config.policy defaultMaxObjectBytes
  enablePurge := config.enablePurge

end

end CacheConfig

def createCachePlugin (json : JsonCodec) (syn : CacheSyntax) (defaultMaxObjectBytes : Nat) (cfg : Json) :
    ProxyResult PluginCache := do
  let config ← CacheConfig.tryFrom json syn cfg
  let noCacheRegex ← config.noCacheStr.mapM fun pattern =>
    match syn.regex pattern with
    | some matcher => .ok matcher
    | none => .error (.pingora s!"Invalid regex in no_cache_str '{pattern}'")
  return {
    methods := config.cacheHttpMethods.filter syn.method
    noCacheRegex
    cacheSettings := config.settings defaultMaxObjectBytes }

end Pingsix
