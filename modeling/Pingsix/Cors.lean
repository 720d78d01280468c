import Pingsix.CacheResponse
import Pingsix.RequestPipeline

/-!
# The cors plugin

Its configuration, the headers it adds to a response, and its answers to
preflight requests. Regular expressions and the character classes of Unicode are
the libraries'.
-/

namespace Pingsix

open HttpMessage

namespace Cors

/-! ## Configuration -/

structure CorsLibraries where
  regexNew : String → Except String (String → Bool)
  isAlphanumeric : Char → Bool
  toUppercase : String → String

structure PluginConfig where
  allowOrigins : String := "*"
  allowMethods : String := "*"
  allowHeaders : String := "*"
  exposeHeaders : Option String := none
  maxAge : Int := 5
  allowCredential : Bool := false
  allowOriginsByRegex : Option (List String) := none
  timingAllowOrigins : Option String := none
  timingAllowOriginsByRegex : Option (List String) := none
  allowOriginsByMetadata : Option (List String) := none
  deriving DecidableEq, Repr

structure OptimizedPluginConfig where
  allowOrigins : String
  allowMethods : String
  allowHeaders : String
  exposeHeaders : Option String
  maxAge : Int
  allowCredential : Bool
  allowOriginsByRegex : Option (List (String → Bool))
  allowOriginsSet : Option (List String)
  timingAllowOrigins : Option String
  timingAllowOriginsByRegex : Option (List (String → Bool))
  timingAllowOriginsSet : Option (List String)

def isStar (s : String) : Bool := s = "*" || s = "**"

namespace PluginConfig

def fromValue : De PluginConfig := fun v => do
  let name := "PluginConfig with 10 elements"
  let src ← De.struct "PluginConfig" 10 v
  let allowOrigins ← src.field name 0 "allow_origins" De.string (.default "*")
  let allowMethods ← src.field name 1 "allow_methods" De.string (.default "*")
  let allowHeaders ← src.field name 2 "allow_headers" De.string (.default "*")
  let exposeHeaders ← src.field name 3 "expose_headers" (De.option De.string) (.optional none)
  let maxAge ← src.field name 4 "max_age" (De.signed 32) (.default 5)
  let allowCredential ← src.field name 5 "allow_credential" De.bool (.default false)
  let allowOriginsByRegex ← src.field name 6 "allow_origins_by_regex" (De.option (De.vec De.string)) (.optional none)
  let timingAllowOrigins ← src.field name 7 "timing_allow_origins" (De.option De.string) (.optional none)
  let timingAllowOriginsByRegex ←
    src.field name 8 "timing_allow_origins_by_regex" (De.option (De.vec De.string)) (.optional none)
  let allowOriginsByMetadata ←
    src.field name 9 "allow_origins_by_metadata" (De.option (De.vec De.string)) (.optional none)
  return { allowOrigins, allowMethods, allowHeaders, exposeHeaders, maxAge, allowCredential, allowOriginsByRegex,
           timingAllowOrigins, timingAllowOriginsByRegex, allowOriginsByMetadata }

/-- A list without empty origins, or a star; `field` names it in the error. -/
def validateOriginList (value field : String) : Except String Unit :=
  if value = "" then .error s!"{field} cannot be empty"
  else if isStar value then .ok ()
  else if (splitTrimmed value).any (· = "") then .error s!"{field} contains empty origin"
  else .ok ()

def methods : List String := ["GET", "POST", "PUT", "DELETE", "PATCH", "OPTIONS", "HEAD"]

def validateMethods (libs : CorsLibraries) (value : String) : Except String Unit :=
  if isStar value then .ok ()
  else if (splitTrimmed value).all fun method => methods.contains (libs.toUppercase method) then .ok ()
  else .error "invalid HTTP method"

def validateHeaders (libs : CorsLibraries) (value : String) : Except String Unit :=
  if isStar value then .ok ()
  else if (splitTrimmed value).all fun header => header.toList.all fun c => libs.isAlphanumeric c || c = '-' then .ok ()
  else .error "invalid header name"

/-- The regular expressions in order: each not empty, not too long and not seen before. -/
def validateTimingRegexes : (seen : List String) → List String → Except String Unit
  | _, [] => .ok ()
  | seen, regex :: regexes =>
    if regex = "" then .error "timing_allow_origins_by_regex entries must not be empty"
    else if 4096 < regex.length then .error "timing_allow_origins_by_regex entries must be at most 4096 characters"
    else if seen.contains regex then .error "timing_allow_origins_by_regex entries must be unique"
    else validateTimingRegexes (regex :: seen) regexes

def validateSchema (config : PluginConfig) : Except String Unit := do
  if config.allowCredential ∧ isStar config.allowOrigins then
    throw "allow_credential cannot be used with allow_origins='*' or '**'"
  if config.allowCredential ∧ config.allowHeaders = "*" then
    throw "allow_credential cannot be used with allow_headers='*'; use '**' to reflect request headers"
  if config.allowCredential ∧ config.allowMethods = "*" then
    throw "allow_credential cannot be used with allow_methods='*'"
  if config.allowCredential ∧ config.exposeHeaders = some "*" then
    throw "allow_credential cannot be used with expose_headers='*'"
  if config.allowCredential ∧ config.timingAllowOrigins = some "*" then
    throw "allow_credential cannot be used with timing_allow_origins='*'"
  match config.timingAllowOrigins with
  | some origins => validateOriginList origins "timing_allow_origins"
  | none => pure ()
  match config.timingAllowOriginsByRegex with
  | some [] => throw "timing_allow_origins_by_regex must not be empty"
  | some regexes => validateTimingRegexes [] regexes
  | none => pure ()
  if config.allowOriginsByMetadata.any (· ≠ []) then throw "plugin metadata is not supported"

/-- The error of one field. -/
def fieldError (field : String) : Except String Unit → List FieldError
  | .ok () => []
  | .error code => [⟨field, code⟩]

def validate (libs : CorsLibraries) (config : PluginConfig) : List FieldError :=
  FieldError.schema
    (fieldError "allow_origins" (validateOriginList config.allowOrigins "allow_origins") ++
      fieldError "allow_methods" (validateMethods libs config.allowMethods) ++
      fieldError "allow_headers" (validateHeaders libs config.allowHeaders))
    config.validateSchema

/-- The origins of a list; none for a star. -/
def compileOriginsSet (origins : String) : Option (List String) :=
  if origins = "" ∨ isStar origins then none else some ((splitTrimmed origins).filter (· ≠ ""))

def compileRegexes (libs : CorsLibraries) (label : String) : Option (List String) → ProxyResult (Option (List (String → Bool)))
  | none => .ok none
  | some patterns => do
    let compiled ← patterns.mapM fun re =>
      (libs.regexNew re).mapError fun e => .validationError s!"Invalid {label}regex pattern '{re}': {e}"
    return some compiled

def compileAndOptimize (libs : CorsLibraries) (config : PluginConfig) : ProxyResult OptimizedPluginConfig := do
  if config.allowOriginsByMetadata.any (· ≠ []) then throw (.validationError "plugin metadata is not supported")
  let allowOriginsByRegex ← compileRegexes libs "" config.allowOriginsByRegex
  let timingAllowOriginsByRegex ← compileRegexes libs "timing " config.timingAllowOriginsByRegex
  return { allowOrigins := config.allowOrigins
           allowMethods := config.allowMethods
           allowHeaders := config.allowHeaders
           exposeHeaders := config.exposeHeaders
           maxAge := config.maxAge
           allowCredential := config.allowCredential
           allowOriginsByRegex
           allowOriginsSet := compileOriginsSet config.allowOrigins
           timingAllowOrigins := config.timingAllowOrigins
           timingAllowOriginsByRegex
           timingAllowOriginsSet := config.timingAllowOrigins.bind compileOriginsSet }

def create (json : JsonCodec) (libs : CorsLibraries) (cfg : Json) : ProxyResult OptimizedPluginConfig := do
  let config ← parseAndValidatePluginConfig json fromValue (validate libs) "Failed to parse CORS plugin config" cfg
  config.compileAndOptimize libs

end PluginConfig

/-! ## Response headers -/

open PluginAiProxy (insertHeader)

/-- The values whose lower-case form was not seen before. -/
def retainUnseen : (seen : List String) → List String → List String
  | _, [] => []
  | seen, v :: values =>
    if seen.contains (Text.toAsciiLowercase v) then retainUnseen seen values
    else v :: retainUnseen (Text.toAsciiLowercase v :: seen) values

/-- The tokens of the `Vary` fields and the name in one field, each once. -/
def mergeVary (resp : HeaderMap) (name : String) : ProxyResult HeaderMap :=
  let values := ((HeaderMap.getAll resp "vary").flatMap fun v => splitTrimmed (v.toStr.getD "")).filter (· ≠ "")
  let hasName := values.any fun v => Text.toAsciiLowercase v = Text.toAsciiLowercase name
  let values := if hasName then values else values ++ [name]
  insertHeader resp "vary" (", ".intercalate (retainUnseen [] values))

namespace OptimizedPluginConfig

def isOriginAllowed (config : OptimizedPluginConfig) (origin : String) : Bool :=
  if config.allowOrigins = "" then false
  else if isStar config.allowOrigins then true
  else (config.allowOriginsSet.any (·.contains origin)) || config.allowOriginsByRegex.any (·.any fun re => re origin)

/-- The value of `Timing-Allow-Origin`, none when the header stays unset. -/
def timingAllowOriginValue (config : OptimizedPluginConfig) (origin : Option String) : Option String :=
  match config.timingAllowOriginsByRegex with
  | some regexList => origin.filter fun origin => regexList.any fun re => re origin
  | none =>
    match config.timingAllowOrigins with
    | none => none
    | some configured =>
      if configured = "*" then some "*"
      else
        match origin with
        | none => none
        | some origin =>
          if configured = "**" then some origin
          else if config.timingAllowOriginsSet.any (·.contains origin) then some origin else none

def applyTimingAllowOrigin (config : OptimizedPluginConfig) (resp : HeaderMap) (origin : Option String) :
    ProxyResult HeaderMap :=
  match config.timingAllowOriginValue origin with
  | some timingOrigin => insertHeader resp "timing-allow-origin" timingOrigin
  | none => .ok resp

/-- The origin is named instead of a star. -/
def reflectingOrigin (config : OptimizedPluginConfig) : Bool :=
  !(!config.allowCredential && isStar config.allowOrigins)

def dynamicAllowHeaders (config : OptimizedPluginConfig) : Bool := config.allowHeaders = "**"

def applyCorsHeadersWithOrigin (config : OptimizedPluginConfig) (req : RequestHeader) (resp : HeaderMap) (origin : String) :
    ProxyResult HeaderMap := do
  let resp ← insertHeader resp "access-control-allow-origin" (if config.reflectingOrigin then origin else "*")
  let resp ← if config.allowCredential then insertHeader resp "access-control-allow-credentials" "true" else .ok resp
  let methods := if config.allowMethods = "**" then "GET,POST,PUT,DELETE,PATCH,OPTIONS,HEAD" else config.allowMethods
  let resp ← insertHeader resp "access-control-allow-methods" methods
  let headers := if config.dynamicAllowHeaders then (getReqHeaderValue req "access-control-request-headers").getD ""
    else config.allowHeaders
  let resp ← insertHeader resp "access-control-allow-headers" headers
  let resp ← insertHeader resp "access-control-max-age" (toString config.maxAge)
  let resp ← match config.exposeHeaders with
    | some expose => insertHeader resp "access-control-expose-headers" expose
    | none => .ok resp
  let resp ← if config.reflectingOrigin then mergeVary resp "Origin" else .ok resp
  if config.dynamicAllowHeaders then mergeVary resp "Access-Control-Request-Headers" else .ok resp

def applyCorsHeaders (config : OptimizedPluginConfig) (req : RequestHeader) (resp : HeaderMap) : ProxyResult HeaderMap := do
  let origin := getReqHeaderValue req "origin"
  let resp ← match origin.filter config.isOriginAllowed with
    | some origin => config.applyCorsHeadersWithOrigin req resp origin
    | none => .ok resp
  config.applyTimingAllowOrigin resp origin

/-! ## Preflight requests -/

def methodIsAllowed (allowed requested : String) : Bool :=
  (PluginConfig.methods.any fun method => Text.toAsciiLowercase method = Text.toAsciiLowercase requested) &&
    (isStar allowed ||
      (splitTrimmed allowed).any fun method => Text.toAsciiLowercase method = Text.toAsciiLowercase requested)

def headersAreAllowed (allowed requested : String) : Bool :=
  isStar allowed ||
    (splitTrimmed requested).all fun requested => requested ≠ "" &&
      (splitTrimmed allowed).any fun header => Text.toAsciiLowercase header = Text.toAsciiLowercase requested

/-- The status and headers of the answer; none for an ordinary request. -/
def handleOptionsRequest (config : OptimizedPluginConfig) (req : RequestHeader) : ProxyResult (Option (Nat × HeaderMap)) :=
  match getReqHeaderValue req "access-control-request-method" with
  | none => .ok none
  | some requestedMethod =>
    let origin := (getReqHeaderValue req "origin").filter config.isOriginAllowed
    let headersAllowed := (getReqHeaderValue req "access-control-request-headers").all
      (headersAreAllowed config.allowHeaders)
    match origin with
    | some origin =>
      if methodIsAllowed config.allowMethods requestedMethod && headersAllowed then do
        let resp ← config.applyCorsHeadersWithOrigin req [] origin
        let resp ← config.applyTimingAllowOrigin resp (some origin)
        return some (204, resp)
      else .ok (some (403, []))
    | none => .ok (some (403, []))

def requestFilter (config : OptimizedPluginConfig) (req : RequestHeader) : ProxyResult FilterVerdict :=
  if req.method.text = "OPTIONS" then do
    match ← config.handleOptionsRequest req with
    | some (status, headers) =>
      return .reject { status, headers := headers.map fun entry => (entry.1, Utf8.fromUtf8Lossy ⟨entry.2.bytes.toArray⟩) }
    | none => return .continue
  else .ok .continue

def responseFilter (config : OptimizedPluginConfig) (req : RequestHeader) (upstreamResponse : HeaderMap) :
    ProxyResult HeaderMap := config.applyCorsHeaders req upstreamResponse

end OptimizedPluginConfig

end Cors

end Pingsix
