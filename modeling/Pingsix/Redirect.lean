import Pingsix.IpRestriction
import Pingsix.Lib.PercentEncoding
import Pingsix.Lib.UriParts
import Pingsix.Template

/-!
# The redirect plugin

Its configuration, the rewriting of paths by regular expressions, and the
redirects it answers. Regular expressions and the readers of URIs are
third-party.
-/

namespace Pingsix

open HttpMessage

/-! ## Rewriting by regular expressions -/

/-- The text of each group of a match. -/
abbrev Captures := Nat → Option String

/-- The first match in a text. -/
abbrev CaptureRegex := String → Option Captures

/-- `parse::<usize>().unwrap_or(0)` on a run of digits, which may be those of other scripts. -/
def groupIndex (digits : List Char) : Nat :=
  if digits.all Char.isDigit then
    let n := digits.foldl (fun n c => n * 10 + (c.toNat - 48)) 0
    if n < 2 ^ 64 then n else 0
  else 0

/-- The text for `$` and its digits; as written when they name no group. -/
def placeholderText (captures : Captures) (digits : List Char) : List Char :=
  if groupIndex digits = 0 then '$' :: digits else ((captures (groupIndex digits)).getD "").toList

/-- Every `$` before digits replaced; `skip` digits of the last one are left. -/
def replacePlaceholders (isDigit : Char → Bool) (captures : Captures) : (skip : Nat) → List Char → List Char
  | _, [] => []
  | skip + 1, _ :: cs => replacePlaceholders isDigit captures skip cs
  | 0, c :: cs =>
    let digits := cs.takeWhile isDigit
    if c = '$' ∧ digits ≠ [] then
      placeholderText captures digits ++ replacePlaceholders isDigit captures digits.length cs
    else c :: replacePlaceholders isDigit captures 0 cs

def substituted (isDigit : Char → Bool) (captures : Captures) (template : String) : String :=
  String.ofList (replacePlaceholders isDigit captures 0 template.toList)

/-- The rewritten text of the first pattern that matches; the text itself when none does. -/
def applyRegexUriTemplate (isDigit : Char → Bool) (uri : String) : List (CaptureRegex × String) → String
  | [] => uri
  | (re, redirectTemplate) :: patterns =>
    match re uri with
    | some captures => substituted isDigit captures redirectTemplate
    | none => applyRegexUriTemplate isDigit uri patterns

namespace Redirect

open IpRestriction (IpNetwork)

structure RedirectLibraries where
  regexNew : String → Except String CaptureRegex
  /-- The digits of `\d`. -/
  isDigit : Char → Bool
  parseNetwork : String → Except String IpNetwork
  parseUri : String → Option Uri
  parsePathAndQuery : String → Option PathAndQuery
  parseAuthority : String → Except String { authority : String // Graphic authority }

/-! ## Configuration -/

structure PluginConfig where
  httpToHttps : Bool := false
  uri : Option String := none
  regexUri : List String := []
  retCode : Nat := 302
  appendQueryString : Bool := false
  encodeUri : Bool := false
  redirectHost : Option String := none
  trustedProxies : List String := []
  deriving DecidableEq, Repr

namespace PluginConfig

def fromValue : De PluginConfig := fun v => do
  let name := "PluginConfig with 8 elements"
  let src ← De.struct "PluginConfig" 8 v
  let httpToHttps ← src.field name 0 "http_to_https" De.bool (.default false)
  let uri ← src.field name 1 "uri" (De.option De.string) (.optional none)
  let regexUri ← src.field name 2 "regex_uri" (De.vec De.string) (.default [])
  let retCode ← src.field name 3 "ret_code" (De.unsigned 16) (.default 302)
  let appendQueryString ← src.field name 4 "append_query_string" De.bool (.default false)
  let encodeUri ← src.field name 5 "encode_uri" De.bool (.default false)
  let redirectHost ← src.field name 6 "redirect_host" (De.option De.string) (.optional none)
  let trustedProxies ← src.field name 7 "trusted_proxies" (De.vec De.string) (.default [])
  return { httpToHttps, uri, regexUri, retCode, appendQueryString, encodeUri, redirectHost, trustedProxies }

/-- Every first of two texts with the second. -/
def pairs : List String → List (String × String)
  | pattern :: template :: rest => (pattern, template) :: pairs rest
  | _ => []

def validateRegexUri (libs : RedirectLibraries) (regexUri : List String) : List FieldError :=
  if regexUri.length % 2 ≠ 0 then [⟨"regex_uri", "regex_uri_length"⟩]
  else if (pairs regexUri).all fun pair => (libs.regexNew pair.1).isOk then []
  else [⟨"regex_uri", "invalid_regex"⟩]

def tryFrom (json : JsonCodec) (libs : RedirectLibraries) (value : Json) : ProxyResult PluginConfig := do
  let config ← parseAndValidatePluginConfig json fromValue (fun config => validateRegexUri libs config.regexUri)
    "Invalid redirect plugin config" value
  if ¬(config.httpToHttps ∨ config.uri.isSome ∨ config.regexUri ≠ []) then
    throw (.validationError "redirect plugin requires one of 'http_to_https', 'uri', or 'regex_uri'")
  if config.httpToHttps ∧ Text.trim (config.redirectHost.getD "") = "" then
    throw (.configuration
      "redirect plugin: http_to_https requires redirect_host (do not fall back to the request Host header)")
  if config.uri.any fun uri => uri.utf8ByteSize < 2 then
    throw (.validationError "redirect uri must be at least 2 characters")
  return config

end PluginConfig

structure PluginRedirect where
  config : PluginConfig
  regexPatterns : List (CaptureRegex × String)
  trustedProxies : List IpNetwork

def createRedirectPlugin (json : JsonCodec) (libs : RedirectLibraries) (cfg : Json) : ProxyResult PluginRedirect := do
  let config ← PluginConfig.tryFrom json libs cfg
  let regexPatterns ← (PluginConfig.pairs config.regexUri).mapM fun (pattern, template) => do
    let re ← (libs.regexNew pattern).mapError fun e => .plugin s!"Invalid redirect regex pattern '{pattern}': {e}"
    return (re, template)
  let trustedProxies ← config.trustedProxies.mapM fun s =>
    (libs.parseNetwork s).mapError fun e => .validationError s!"Invalid trusted_proxies network '{s}': {e}"
  return { config, regexPatterns, trustedProxies }

/-! ## Targets -/

/-- Letters, digits and `-._~/`. -/
def keptInPath (b : UInt8) : Bool :=
  (48 ≤ b && b ≤ 57) || (65 ≤ b && b ≤ 90) || (97 ≤ b && b ≤ 122) || b == 45 || b == 46 || b == 95 || b == 126 || b == 47

def encodeUriSafePath (path : String) : String :=
  String.ofList ((PercentEncoding.encode keptInPath path.toUTF8.data.toList).map fun b => Char.ofNat b.toNat)

def expandUriTemplate (template : String) (s : Session) : String :=
  renderTemplate template { escapeDollar := true } (resolveVar s)

def mergeQueryString (targetQuery originalQuery : String) (appendQueryString : Bool) : String :=
  if appendQueryString then
    if targetQuery = "" then originalQuery
    else if originalQuery = "" ∨ targetQuery = originalQuery then targetQuery
    else targetQuery ++ "&" ++ originalQuery
  else targetQuery

namespace PluginRedirect

/-- The text of the new path and query. -/
def newPathAndQuery (p : PluginRedirect) (path targetQuery originalQuery : String) : String :=
  let newPath := if p.config.encodeUri then encodeUriSafePath path else path
  let newQuery := mergeQueryString targetQuery originalQuery p.config.appendQueryString
  if newQuery = "" then newPath else newPath ++ "?" ++ newQuery

/-- None when the text is no path and query, or does not fit the other parts. -/
def rebuild (libs : RedirectLibraries) (parts : Uri.Parts) (newPathAndQuery : String) : Option Uri :=
  match libs.parsePathAndQuery newPathAndQuery with
  | some pq => Uri.fromParts { parts with pathAndQuery := some pq }
  | none => none

def buildUriFromPath (libs : RedirectLibraries) (p : PluginRedirect) (path : String) (parts : Uri.Parts)
    (originalQuery : String) : Option Uri :=
  let targetQuery := ((libs.parseUri path).bind (·.query)).getD ""
  let newPath := String.ofList (path.toList.takeWhile (· ≠ '?'))
  rebuild libs parts (p.newPathAndQuery newPath targetQuery originalQuery)

def buildUriFromRegex (libs : RedirectLibraries) (p : PluginRedirect) (parts : Uri.Parts) (originalQuery : String) :
    Option Uri :=
  match parts.pathAndQuery with
  | some pq =>
    let rewritten := applyRegexUriTemplate libs.isDigit pq.path p.regexPatterns
    let (newPath, targetQuery) := (Text.splitOnce rewritten '?').getD (rewritten, "")
    rebuild libs parts (p.newPathAndQuery newPath targetQuery originalQuery)
  | none => none

def originalQuery (req : RequestHeader) : String := (req.uri.pathAndQuery.bind fun _ => req.uri.query).getD ""

def constructUri (libs : RedirectLibraries) (p : PluginRedirect) (s : Session) : Option Uri :=
  match p.config.uri with
  | some path =>
    p.buildUriFromPath libs (expandUriTemplate path s) s.reqHeader.uri.intoParts (originalQuery s.reqHeader)
  | none =>
    if p.regexPatterns ≠ [] then p.buildUriFromRegex libs s.reqHeader.uri.intoParts (originalQuery s.reqHeader)
    else none

/-! ## The request phase -/

def redirectResponse (p : PluginRedirect) (newUri : Uri) : FilterVerdict :=
  .reject {
    status := if 100 ≤ p.config.retCode ∧ p.config.retCode < 1000 then p.config.retCode else 302
    headers := [("location", newUri.display), ("content-type", "text/plain")] }

def isTrustedProxyPeer (p : PluginRedirect) (s : Session) : Bool :=
  match getDirectClientIp s with
  | some ip => p.trustedProxies.any fun net => net.contains ip
  | none => false

end PluginRedirect

/-- Schemes other than `http` and `https` count as none. -/
def reqHeaderNeedsHttpsRedirect (req : RequestHeader) (trustXff : Bool) : Bool :=
  match req.uri.scheme with
  | some "https" => false
  | some "http" => true
  | _ =>
    if !trustXff then true
    else !(getReqHeaderValue req "x-forwarded-proto").any fun v => Text.toAsciiLowercase v = "https"

namespace PluginRedirect

def needsHttpsRedirect (p : PluginRedirect) (s : Session) : Bool :=
  if s.isTls then false else reqHeaderNeedsHttpsRedirect s.reqHeader (p.isTrustedProxyPeer s)

def redirectHttps (libs : RedirectLibraries) (p : PluginRedirect) (s : Session) : ProxyResult FilterVerdict :=
  match (p.config.redirectHost.map Text.trim).filter (· ≠ "") with
  | none => .error (.internal "redirect_host missing for http_to_https (should have been rejected at load)")
  | some authority =>
    match s.reqHeader.uri.pathAndQuery with
    | none => .error (.internal "Missing path and query in URI")
    | some _ =>
      match libs.parseAuthority authority with
      | .error e => .error (.internal s!"Failed to build HTTPS URI: {e}")
      | .ok authority =>
        .ok (p.redirectResponse {
          scheme := some "https"
          authority := some authority.1
          rawPath := s.reqHeader.uri.rawPath
          query := s.reqHeader.uri.query
          graphic := by
            intro part h
            cases List.mem_append.mp h with
            | inl h =>
              have h : part = "https" ∨ part = authority.1 := by simpa using h
              obtain rfl | rfl := h
              · decide
              · exact authority.2
            | inr h => exact s.reqHeader.uri.graphic _ (List.mem_append_right _ h) })

def requestFilter (libs : RedirectLibraries) (p : PluginRedirect) (s : Session) : ProxyResult FilterVerdict :=
  if p.config.httpToHttps && p.needsHttpsRedirect s then p.redirectHttps libs s
  else
    match p.constructUri libs s with
    | some newUri => .ok (p.redirectResponse newUri)
    | none => .ok .continue

end PluginRedirect

end Redirect

end Pingsix
