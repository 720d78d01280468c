import Pingsix.Lib.Base64
import Pingsix.Lib.Utf8
import Pingsix.RequestContext

/-!
# The authentication plugins

Basic, key and JWT authentication on one request. Each notes the credential it
verified; whether it then removes it from the request is an option.
-/

namespace Pingsix

open HttpMessage

variable {υ : Type}

def unauthorized (body challenge : String) : FilterVerdict :=
  .reject { status := 401, body := some body, contentType := some "text/plain",
            headers := [("WWW-Authenticate", challenge)] }

def secretDigest (sha : Sha256) (secret : String) : HexDigest := sha (bytesOf secret)

def FilterState.removeHeader (st : FilterState υ) (name : String) : FilterState υ :=
  { st with request := { st.request with headers := HeaderMap.remove st.request.headers name } }

def FilterState.mark (st : FilterState υ) : FilterState υ := { st with ctx := st.ctx.markRequestHasCredentials }

def FilterState.note (sha : Sha256) (st : FilterState υ) (credential : String) : FilterState υ :=
  { st with ctx := st.ctx.noteRequestCredential sha credential }

/-! ## Basic authentication -/

structure PluginBasicAuth where
  username : String
  password : String
  hideCredentials : Bool := false
  realm : Option String := none
  deriving DecidableEq, Repr

namespace PluginBasicAuth

def buildChallenge (p : PluginBasicAuth) : String :=
  match p.realm with
  | some realm => s!"Basic realm=\"{realm}\""
  | none => "Basic realm=\"pingsix\""

/-- The user and the password of a header value. -/
def credentials (authValue : String) : Option (String × String) :=
  if authValue.length < 6 ∨ Text.toAsciiLowercase (String.ofList (authValue.toList.take 6)) ≠ "basic " then none
  else do
    let decoded ← Base64.decode (String.ofList (authValue.toList.drop 6))
    let text ← (Utf8.fromUtf8 decoded).toOption
    Text.splitOnce text ':'

def validateCredentials (sha : Sha256) (p : PluginBasicAuth) (authValue : String) : Bool :=
  match credentials authValue with
  | some (user, pass) =>
    secretDigest sha user = secretDigest sha p.username && secretDigest sha pass = secretDigest sha p.password
  | none => false

/-- The credential that passes, if one does. -/
def verified (sha : Sha256) (p : PluginBasicAuth) (req : RequestHeader) : Option String :=
  (getReqHeaderValue req "authorization").filter (validateCredentials sha p)

def requestFilter (sha : Sha256) (p : PluginBasicAuth) (st : FilterState υ) : FilterResult υ :=
  let marked := if (getReqHeaderValue st.request "authorization").isSome then st.mark else st
  match verified sha p st.request with
  | none => .ok (unauthorized "Invalid user authorization" p.buildChallenge, marked)
  | some credential =>
    let noted := marked.note sha credential
    .ok (.continue, if p.hideCredentials then noted.removeHeader "authorization" else noted)

end PluginBasicAuth

/-! ## Key authentication -/

inductive KeySource where
  | header
  | query
  deriving DecidableEq, Repr

structure PluginKeyAuth where
  header : String := "apikey"
  query : String := ""
  key : Option String := none
  keys : List String := []
  hideCredentials : Bool := false
  realm : Option String := none
  deriving DecidableEq, Repr

namespace PluginKeyAuth

def getValidKeys (p : PluginKeyAuth) : List String := if p.keys ≠ [] then p.keys else p.key.toList

def buildChallenge (p : PluginKeyAuth) : String :=
  match p.realm with
  | some realm => s!"apikey realm=\"{realm}\""
  | none => "ApiKey error=\"invalid_key\""

def isValidKey (sha : Sha256) (p : PluginKeyAuth) (provided : String) : Bool :=
  p.getValidKeys.any fun key => secretDigest sha provided = secretDigest sha key

def findKey (p : PluginKeyAuth) (req : RequestHeader) : Option (String × KeySource) :=
  match getReqHeaderValue req p.header with
  | some value => some (value, .header)
  | none => if p.query = "" then none else (getQueryValue req p.query).map fun value => (value, .query)

def verified (sha : Sha256) (p : PluginKeyAuth) (req : RequestHeader) : Option (String × KeySource) :=
  (p.findKey req).filter fun found => found.1 ≠ "" && p.isValidKey sha found.1

def requestFilter (sha : Sha256) (p : PluginKeyAuth) (st : FilterState υ) : FilterResult υ :=
  let marked := if (p.findKey st.request).isSome then st.mark else st
  match verified sha p st.request with
  | none => .ok (unauthorized "Invalid user authorization" p.buildChallenge, marked)
  | some (value, source) =>
    let noted := marked.note sha value
    if p.hideCredentials then
      match source with
      | .header => .ok (.continue, noted.removeHeader p.header)
      | .query =>
        match removeQueryFromHeader noted.request p.query with
        | .ok request => .ok (.continue, { noted with request })
        | .error () => .error (.validationError "Failed to hide API key query credential")
    else .ok (.continue, noted)

end PluginKeyAuth

/-! ## JWT authentication -/

/-- The token check is the library's: nothing, or the error text of the challenge. -/
structure PluginJWTAuth where
  header : String := "authorization"
  query : String := ""
  cookie : String := "jwt"
  hideCredentials : Bool := false
  realm : Option String := none
  decode : String → Except String Unit

namespace PluginJWTAuth

def challengeFor (p : PluginJWTAuth) (errorMsg : String) : String :=
  match p.realm with
  | some realm => s!"Bearer realm=\"{realm}\""
  | none => s!"Bearer error=\"invalid_token\", error_description=\"{errorMsg}\""

def stripBearer (value : String) : String :=
  if 7 ≤ value.length ∧ Text.toAsciiLowercase (String.ofList (value.toList.take 7)) = "bearer " then
    String.ofList (value.toList.drop 7)
  else value

/-- The token of the header, else of the query, else of a cookie, removed from the request when so configured. -/
def extractToken (p : PluginJWTAuth) (st : FilterState υ) : ProxyResult (Option String × FilterState υ) :=
  match (getReqHeaderValue st.request p.header).map stripBearer with
  | some token => .ok (some token, if p.hideCredentials then st.removeHeader p.header else st)
  | none =>
    match if p.query = "" then none else getQueryValue st.request p.query with
    | some token =>
      if p.hideCredentials then
        match removeQueryFromHeader st.request p.query with
        | .ok request => .ok (some token, { st with request })
        | .error () => .error (.validationError "Failed to hide JWT query credential")
      else .ok (some token, st)
    | none =>
      match getCookieValue st.request p.cookie with
      | some token =>
        if p.hideCredentials then
          match removeCookieFromHeader st.request p.cookie with
          | .ok request => .ok (some token, { st with request })
          | .error e => .error (.validationError s!"Failed to hide JWT cookie credential: {e.display}")
        else .ok (some token, st)
      | none => .ok (none, st)

def requestFilter (sha : Sha256) (p : PluginJWTAuth) (st : FilterState υ) : FilterResult υ :=
  match p.extractToken st with
  | .error e => .error e
  | .ok (none, left) => .ok (unauthorized "Token not found" (p.challengeFor "Token not found"), left)
  | .ok (some token, left) =>
    match p.decode token with
    | .error errorMsg => .ok (unauthorized errorMsg (p.challengeFor errorMsg), left.mark)
    | .ok () => .ok (.continue, left.mark.note sha token)

end PluginJWTAuth

end Pingsix
