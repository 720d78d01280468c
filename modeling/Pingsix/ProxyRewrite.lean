import Pingsix.Redirect

/-!
# The proxy-rewrite plugin

Its configuration and what it makes of a request for the upstream: the target,
the method, the host and the headers.
-/

namespace Pingsix.ProxyRewrite

open HttpMessage

structure RewriteLibraries where
  regexNew : String → Except String CaptureRegex
  /-- The digits of `\d`. -/
  isDigit : Char → Bool
  parseUri : String → Option Uri
  isHeaderName : String → Bool
  /-- The text for a name or a value that is no header's. -/
  headerError : String

/-! ## Configuration -/

structure HeaderEntry where
  name : String
  values : List String := []
  deriving DecidableEq, Repr

structure Headers where
  add : List HeaderEntry := []
  set : List HeaderEntry := []
  remove : List String := []
  deriving DecidableEq, Repr

structure PluginConfig where
  uri : Option String := none
  method : Option String := none
  regexUri : Option (List String) := none
  host : Option String := none
  headers : Option Headers := none
  deriving DecidableEq, Repr

def apisixRewriteMethods : List String :=
  ["GET", "POST", "PUT", "DELETE", "PATCH", "HEAD", "OPTIONS", "CONNECT", "TRACE"]

namespace PluginConfig

open Redirect.PluginConfig (pairs)

def validateRegexUri (libs : RewriteLibraries) (regexUri : List String) : Except String Unit :=
  if regexUri.length < 2 ∨ regexUri.length % 2 ≠ 0 then
    .error "regex_uri must have at least 2 entries and an even length"
  else if (pairs regexUri).all fun pair => (libs.regexNew pair.1).isOk then .ok ()
  else .error "invalid_regex"

def validateUri (uri : String) : Except String Unit :=
  if ¬Text.startsWith uri "/" then .error "uri must start with '/' and be at least 1 character long"
  else if 4096 < uri.length then .error "uri must be at most 4096 characters"
  else .ok ()

def validateMethod (method : String) : Except String Unit :=
  if method ∈ apisixRewriteMethods then .ok ()
  else .error "method must be one of GET, POST, PUT, DELETE, PATCH, HEAD, OPTIONS, CONNECT, TRACE"

/-- A schema check: its error is of no field. -/
def validate (libs : RewriteLibraries) (config : PluginConfig) : ProxyResult Unit :=
  let checks : Except String Unit := do
    config.regexUri.elim (.ok ()) (validateRegexUri libs)
    config.uri.elim (.ok ()) validateUri
    config.method.elim (.ok ()) validateMethod
  checks.mapError fun code => .validationStructured [{ path := "__all__", code }]

end PluginConfig

def checkHeaderName (libs : RewriteLibraries) (name : String) : ProxyResult Unit :=
  if libs.isHeaderName name then .ok ()
  else .error (.validationError s!"proxy-rewrite: invalid header name '{name}'")

def checkHeaderEntry (libs : RewriteLibraries) (entry : HeaderEntry) : ProxyResult Unit := do
  checkHeaderName libs entry.name
  entry.values.forM fun value =>
    if (HeaderValue.ofString value).isSome then .ok ()
    else .error (.validationError s!"proxy-rewrite: invalid value for header '{entry.name}'")

def validateConfiguredHeaderEntries (libs : RewriteLibraries) : Option Headers → ProxyResult Unit
  | none => .ok ()
  | some headers => do
    (headers.add ++ headers.set).forM (checkHeaderEntry libs)
    headers.remove.forM (checkHeaderName libs)

structure PluginProxyRewrite where
  config : PluginConfig
  regexPatterns : List (CaptureRegex × String)

def createProxyRewritePlugin (libs : RewriteLibraries) (config : PluginConfig) : ProxyResult PluginProxyRewrite := do
  config.validate libs
  validateConfiguredHeaderEntries libs config.headers
  let regexPatterns ← (Redirect.PluginConfig.pairs (config.regexUri.getD [])).mapM fun (pattern, template) => do
    let re ← (libs.regexNew pattern).mapError fun e => .plugin s!"Invalid proxy-rewrite regex pattern '{pattern}': {e}"
    return (re, template)
  return { config, regexPatterns }

/-! ## The request for the upstream -/

namespace PluginProxyRewrite

/-- None when there is nothing to rewrite, and when the new text is no URI. -/
def constructPathAndQuery (libs : RewriteLibraries) (p : PluginProxyRewrite) (pathAndQuery : Option PathAndQuery) :
    Option Uri :=
  match p.config.uri with
  | some path =>
    let query := (pathAndQuery.bind (·.query)).getD ""
    if query = "" then libs.parseUri path else libs.parseUri (path ++ "?" ++ query)
  | none =>
    if p.regexPatterns ≠ [] then
      match pathAndQuery with
      | some pq =>
        let query := pq.query.getD ""
        let newPath := applyRegexUriTemplate libs.isDigit pq.path p.regexPatterns
        if query = "" then libs.parseUri newPath else libs.parseUri (newPath ++ "?" ++ query)
      | none => none
    else none

/-- The target of the client's request is rewritten, and replaces that of the upstream's. -/
def rewriteTarget (libs : RewriteLibraries) (p : PluginProxyRewrite) (client upstream : RequestHeader) : RequestHeader :=
  if client.uri.pathAndQuery.isSome then
    match p.constructPathAndQuery libs (some client.uri.written) with
    | some uri => { upstream with uri }
    | none => upstream
  else upstream

def rewriteMethod (p : PluginProxyRewrite) (upstream : RequestHeader) : ProxyResult RequestHeader :=
  match p.config.method with
  | none => .ok upstream
  | some method =>
    if graphic : Graphic method then .ok { upstream with method := ⟨method, graphic⟩ }
    else .error (.internal "Invalid method: invalid HTTP method")

def rewriteHost (libs : RewriteLibraries) (p : PluginProxyRewrite) (upstream : RequestHeader) : ProxyResult RequestHeader :=
  match p.config.host with
  | none => .ok upstream
  | some host =>
    match HeaderValue.ofString host with
    | some value => .ok { upstream with headers := HeaderMap.insert upstream.headers "host" value }
    | none => .error (.internal s!"Invalid host: {libs.headerError}")

def appendHeader (libs : RewriteLibraries) (name : String) (headers : HeaderMap) (value : String) : ProxyResult HeaderMap :=
  match HeaderValue.ofString value with
  | some value => if libs.isHeaderName name then .ok (HeaderMap.append headers name value) else .error (.pingora libs.headerError)
  | none => .error (.pingora libs.headerError)

/-- First what is added, then what is set, then what is removed. -/
def applyHeaders (libs : RewriteLibraries) (headers : Headers) (upstream : RequestHeader) : ProxyResult RequestHeader := do
  let added ← headers.add.foldlM (fun m entry => entry.values.foldlM (appendHeader libs entry.name) m) upstream.headers
  let written ← headers.set.foldlM
    (fun m entry => entry.values.foldlM (appendHeader libs entry.name) (HeaderMap.remove m entry.name)) added
  return { upstream with headers := headers.remove.foldl HeaderMap.remove written }

def upstreamRequestFilter (libs : RewriteLibraries) (p : PluginProxyRewrite) (client upstream : RequestHeader) :
    ProxyResult RequestHeader := do
  let upstream ← p.rewriteMethod (p.rewriteTarget libs client upstream)
  let upstream ← p.rewriteHost libs upstream
  p.config.headers.elim (.ok upstream) (applyHeaders libs · upstream)

end PluginProxyRewrite

end Pingsix.ProxyRewrite
