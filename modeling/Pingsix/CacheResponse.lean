import Mathlib.Data.List.Dedup
import Mathlib.Data.List.Sort
import Pingsix.CachePlugin
import Pingsix.Lib.IndexMap

/-!
# Stored responses

Which requests a stored response varies with, whether a response may be stored,
and the directives its freshness is read from. The directives are Pingora's, and
so is what it reads in them.
-/

namespace Pingsix

open HttpMessage

variable {υ : Type}

/-! ## Variance -/

/-- The comma-separated entries of a text, trimmed. -/
def splitTrimmed (text : String) : List String :=
  (Text.splitChars ',' text.toList).map fun cs => Text.trim (String.ofList cs)

def responseHasVaryStar (headers : HeaderMap) : Bool :=
  (HeaderMap.getAll headers "vary").any fun value =>
    value.toStr.any fun text => (splitTrimmed text).any fun token => Text.toAsciiLowercase token = "*"

/-- The header names of the response's `Vary` fields; a field that is not text names none. -/
def varyFieldNames (headers : HeaderMap) : List String :=
  (((HeaderMap.getAll headers "vary").flatMap fun value => splitTrimmed (value.toStr.getD "")).map
    Text.toAsciiLowercase).filter (· ≠ "")

/-- The bytes of the first field of a name, none when there is no field. -/
def firstFieldBytes (req : RequestHeader) (name : String) : List UInt8 :=
  ((HeaderMap.get req.headers name).map (·.bytes)).getD []

/-- `variance` is what the builder makes of the names and values added to it. -/
def cacheVary {η : Type} (variance : List (String × List UInt8) → η) (headers : HeaderMap) (ctx : ProxyContext υ)
    (req : RequestHeader) : Option η :=
  match ctx.cacheSettings with
  | none => none
  | some settings =>
    if responseHasVaryStar headers then none
    else
      let names := varyFieldNames headers ++ settings.policy.vary
      if names = [] then none
      else
        let names := (names.insertionSort (· ≤ ·)).dedup
        some (variance (names.map fun name => (name, firstFieldBytes req name)))

/-! ## Directives -/

inductive DirectiveKey where
  | maxAge
  | sMaxAge
  | staleWhileRevalidate
  | noStore
  | noCache
  | privateResponse
  | other (name : String)
  deriving DecidableEq, Repr

/-- The directives of a response with the bytes of their values. -/
abbrev CacheControl := IndexMap DirectiveKey (Option (List UInt8))

/-- What Pingora reads in headers and directives; lifetimes are in seconds. -/
structure Pingora where
  fromRespHeaders : HeaderMap → Option CacheControl
  noStore : CacheControl → Bool
  isPrivate : CacheControl → Bool
  noCache : CacheControl → Bool
  noCacheFieldNames : CacheControl → Bool
  parseDeltaSeconds : List UInt8 → Option Nat
  freshDuration : CacheControl → Option Nat

def originResponseUncacheable (pingora : Pingora) (control : Option CacheControl) : Bool :=
  control.any fun cc =>
    pingora.noStore cc || pingora.isPrivate cc || pingora.noCache cc || pingora.noCacheFieldNames cc

/-- `n.to_string().into_bytes()` -/
def decimalBytes (n : Nat) : List UInt8 := bytesOf (toString n)

/-- One directive copied; `true` when a `max-age` has been put in. -/
def copyDirective (respectSMaxage : Bool) (state : CacheControl × Bool) (entry : DirectiveKey × Option (List UInt8)) :
    CacheControl × Bool :=
  if respectSMaxage && entry.1 = .sMaxAge then
    match entry.2 with
    | some value => ((state.1.insert .maxAge (some value)).insert .sMaxAge entry.2, true)
    | none => (state.1.insert .sMaxAge entry.2, state.2)
  else (state.1.insert entry.1 entry.2, if entry.1 = .maxAge then true else state.2)

def addStaleWhileRevalidate (policy : CachePolicy) (cc : CacheControl) : CacheControl :=
  match policy.staleWhileRevalidateSecs with
  | some seconds =>
    if cc.containsKey .staleWhileRevalidate then cc else cc.insert .staleWhileRevalidate (some (decimalBytes seconds))
  | none => cc

def ensureMaxAge (policy : CachePolicy) (control : Option CacheControl) : CacheControl :=
  let control :=
    if policy.cacheControl = some false then
      control.map fun cc => (cc.shiftRemove .maxAge).shiftRemove .sMaxAge
    else control
  match control with
  | some existing =>
    let hasMaxAge := existing.containsKey .maxAge
    let rewriteSMaxage := policy.respectSMaxage && existing.containsKey .sMaxAge
    let addSwr := policy.staleWhileRevalidateSecs.any fun _ => !existing.containsKey .staleWhileRevalidate
    if hasMaxAge && !rewriteSMaxage && !addSwr then existing
    else
      let copied := existing.entries.foldl (copyDirective policy.respectSMaxage) (IndexMap.empty, false)
      let directives := if copied.2 then copied.1 else copied.1.insert .maxAge (some (decimalBytes policy.ttl))
      addStaleWhileRevalidate policy directives
  | none => addStaleWhileRevalidate policy (IndexMap.empty.insert .maxAge (some (decimalBytes policy.ttl)))

/-! ## Storing -/

/-- `handed` is what goes to Pingora, which stores the response or not. -/
inductive RespCacheable where
  | neverEnabled
  | originNotCache
  | handed (control : CacheControl) (authorized : Bool)

/-- The refusals that do not look at the directives. -/
def refusesResponse (settings : CacheSettings) (ctx : ProxyContext υ) (noCacheFlag : Bool) (status : Nat)
    (headers : HeaderMap) : Bool :=
  noCacheFlag || shouldBypassAuthenticatedRequest settings ctx || !settings.policy.statuses.contains status ||
    (!settings.policy.cacheSetCookieResponses && HeaderMap.containsKey headers "set-cookie") ||
    responseHasVaryStar headers

/-- `noCacheFlag` is the decision of the request's `no_cache` templates. -/
def responseCacheability (pingora : Pingora) (ctx : ProxyContext υ) (noCacheFlag : Bool) (status : Nat)
    (headers : HeaderMap) : RespCacheable :=
  match ctx.cacheSettings with
  | none => .neverEnabled
  | some settings =>
    if refusesResponse settings ctx noCacheFlag status headers then .originNotCache
    else
      let control := pingora.fromRespHeaders headers
      if originResponseUncacheable pingora control then .originNotCache
      else
        .handed (ensureMaxAge settings.policy control)
          (ctx.originalRequestHadCredentials || ctx.requestHasCredentials)

end Pingsix
