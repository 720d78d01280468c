import Pingsix.Request

/-!
# The context of a request

What the plugins of a request share: the matched route, the upstream they
selected, the credentials seen and the cache settings; and the digests of the
credentials, with SHA-256 as a parameter.
-/

namespace Pingsix

open HttpMessage

/-! ## Digests -/

def isLowerHexDigit (c : Char) : Bool := ('0' ≤ c && c ≤ '9') || ('a' ≤ c && c ≤ 'f')

/-- A SHA-256 digest in lower-case hexadecimal. -/
structure HexDigest where
  chars : List Char
  length_eq : chars.length = 64
  hex : ∀ c ∈ chars, isLowerHexDigit c = true
  deriving DecidableEq, Repr

/-- SHA-256 with its hexadecimal output. -/
abbrev Sha256 := List UInt8 → HexDigest

def bytesOf (s : String) : List UInt8 := s.toList.flatMap String.utf8EncodeChar

def fieldOf (text : String) (h : (bytesOf text).all isValidByte = true) : HeaderValue := .ofBytes (bytesOf text) h

/-- The bytes of a digest's text, none for a missing one. -/
def digestBytes (digest : Option HexDigest) : List UInt8 :=
  (digest.elim [] (·.chars)).flatMap String.utf8EncodeChar

/-- What one header contributes: its name, whether it is there, its values. -/
def credentialPart (headers : HeaderMap) (name : String) : List UInt8 :=
  bytesOf name ++ (if HeaderMap.containsKey headers name then 1 else 0) ::
    (HeaderMap.getAll headers name).flatMap fun value => value.bytes ++ [0]

def credentialHeaders : List String := ["authorization", "proxy-authorization", "cookie"]

def credentialMessage (req : RequestHeader) : List UInt8 :=
  bytesOf "pingsix-cache-consumer-isolation-v1" ++ 0 :: credentialHeaders.flatMap (credentialPart req.headers)

def credentialCacheKeyComponent (sha : Sha256) (req : RequestHeader) : HexDigest := sha (credentialMessage req)

def headersIndicateSharedCacheCredentials (headers : HeaderMap) : Bool :=
  HeaderMap.containsKey headers "authorization" || HeaderMap.containsKey headers "proxy-authorization" ||
    HeaderMap.containsKey headers "cookie"

def noteMessage (previous : Option HexDigest) (credential : String) : List UInt8 :=
  bytesOf "pingsix-request-credential-v1" ++ 0 ::
    (match previous with
      | some digest => digestBytes (some digest) ++ 0 :: bytesOf credential
      | none => bytesOf credential)

/-! ## The context -/

/-- What the cache policy fingerprint hashes of a cache configuration. -/
structure CachePolicy where
  ttl : Nat := 300
  maxFileSizeBytes : Nat := 1048576
  hideCacheHeaders : Bool := false
  respectSMaxage : Bool := true
  cacheAuthenticatedRequests : Bool := false
  cacheSetCookieResponses : Bool := false
  cacheControl : Option Bool := none
  consumerIsolation : Bool := true
  staleWhileRevalidateSecs : Option Nat := none
  cacheKey : Option (List String) := none
  cacheBypass : Option (List String) := none
  noCache : Option (List String) := none
  /-- Sorted, each once. -/
  statuses : List Nat := [200]
  /-- Lower-case names, sorted, each once. -/
  vary : List String := []
  deriving DecidableEq, Repr

structure CacheSettings where
  policy : CachePolicy
  enablePurge : Bool := false
  deriving DecidableEq, Repr

/-- Written by the ai-proxy instance that claims the request. -/
structure AiProxyRequestState where
  token : Nat
  insecureTls : Bool
  streaming : Bool := false
  body : List UInt8 := []
  deriving DecidableEq, Repr

/-- What the request filters read of the matched route; `υ` are the upstream objects. -/
structure RouteContext (υ : Type) where
  cacheNamespaceFingerprint : UInt64
  resolvedUpstream : Option υ
  /-- The names of the plugins in the route's executor. -/
  pluginNames : List String
  deriving DecidableEq, Repr

structure ProxyContext (υ : Type) where
  route : Option (RouteContext υ) := none
  upstreamOverride : Option υ := none
  /-- The upstream selected for the request. -/
  selected : Option υ := none
  originalRequestHadCredentials : Bool := false
  requestHasCredentials : Bool := false
  originalCredentialDigest : Option HexDigest := none
  notedCredentialDigest : Option HexDigest := none
  cacheSettings : Option CacheSettings := none
  aiProxyState : Option AiProxyRequestState := none
  deriving DecidableEq, Repr

namespace ProxyContext

variable {υ : Type}

def markRequestHasCredentials (ctx : ProxyContext υ) : ProxyContext υ :=
  { ctx with requestHasCredentials := true, originalRequestHadCredentials := true }

def noteRequestCredential (sha : Sha256) (ctx : ProxyContext υ) (credential : String) : ProxyContext υ :=
  { ctx with notedCredentialDigest := some (sha (noteMessage ctx.notedCredentialDigest credential)) }

/-- The credentials of the request as the client sent them, recorded before any plugin runs. -/
def captureCredentials (sha : Sha256) (req : RequestHeader) (ctx : ProxyContext υ) : ProxyContext υ :=
  if headersIndicateSharedCacheCredentials req.headers then
    { ctx with
      originalRequestHadCredentials := true
      requestHasCredentials := true
      originalCredentialDigest := some (credentialCacheKeyComponent sha req) }
  else { ctx with originalRequestHadCredentials := false }

end ProxyContext

/-! ## Filters -/

structure Rejection where
  status : Nat
  body : Option String := none
  contentType : Option String := none
  headers : List (String × String) := []
  deriving DecidableEq, Repr

inductive FilterVerdict where
  | continue
  | reject (rejection : Rejection)
  deriving DecidableEq, Repr

/-- The request and its context between two filters. -/
structure FilterState (υ : Type) where
  request : RequestHeader
  ctx : ProxyContext υ
  deriving DecidableEq, Repr

abbrev FilterResult (υ : Type) := ProxyResult (FilterVerdict × FilterState υ)

end Pingsix
