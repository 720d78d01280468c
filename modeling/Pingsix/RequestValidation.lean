import Pingsix.Lib.BodyStream
import Pingsix.RequestPipeline

/-!
# The request-validation plugin

Its configuration, the check of the request headers, and the body phase, in
which all instances of a request share one buffer. JSON Schema validation and
the form parser are third-party.
-/

namespace Pingsix

open HttpMessage

namespace RequestValidation

open BodyStream (Chunk Filter Arrival Emission)

/-! ## Configuration -/

/-- A compiled schema: what it accepts, and its first complaint about the rest. -/
structure Validator where
  isValid : Json → Bool
  firstError : Json → Option String

structure ValidationLibraries where
  json : JsonCodec
  validatorFor : Json → Except String Validator
  parseForm : List UInt8 → List (String × String)

structure PluginConfig where
  headerSchema : Option Json := none
  bodySchema : Option Json := none
  maxReqBodySize : Nat := 67108864
  rejectedCode : Nat := 400
  rejectedMsg : Option String := none
  deriving DecidableEq

structure Compiled where
  headerValidator : Option Validator
  bodyValidator : Option Validator
  maxReqBodySize : Nat
  rejectedCode : Nat
  rejectedMsg : Option String

namespace PluginConfig

def fromValue : De PluginConfig := fun v => do
  let name := "PluginConfig with 5 elements"
  let src ← De.struct "PluginConfig" 5 v
  let headerSchema ← src.field name 0 "header_schema" (De.option De.value) (.optional none)
  let bodySchema ← src.field name 1 "body_schema" (De.option De.value) (.optional none)
  let maxReqBodySize ← src.field name 2 "max_req_body_size" (De.unsigned 64) (.default 67108864)
  let rejectedCode ← src.field name 3 "rejected_code" (De.unsigned 16) (.default 400)
  let rejectedMsg ← src.field name 4 "rejected_msg" (De.option De.string) (.optional none)
  return { headerSchema, bodySchema, maxReqBodySize, rejectedCode, rejectedMsg }

open FieldError (range)

def validate (config : PluginConfig) : List FieldError :=
  range "max_req_body_size" 1 none config.maxReqBodySize ++ range "rejected_code" 200 (some 599) config.rejectedCode ++
    config.rejectedMsg.elim [] fun msg => if 1 ≤ msg.length ∧ msg.length ≤ 256 then [] else [⟨"rejected_msg", "length"⟩]

/-- A schema that is there and not null. -/
def declares (value : Json) (field : String) : Bool := (value.get field).any (· ≠ .null)

def tryFrom (json : JsonCodec) (value : Json) : ProxyResult PluginConfig :=
  if ¬declares value "header_schema" ∧ ¬declares value "body_schema" then
    .error (.validationError "request-validation requires at least one of header_schema or body_schema")
  else parseAndValidatePluginConfig json fromValue validate "Invalid request-validation plugin config" value

def compileSchema (libs : ValidationLibraries) (field : String) : Option Json → ProxyResult (Option Validator)
  | none => .ok none
  | some schema =>
    match libs.validatorFor schema with
    | .ok validator => .ok (some validator)
    | .error e => .error (.validationError s!"request-validation {field} is not a valid JSON Schema: {e}")

def compile (libs : ValidationLibraries) (config : PluginConfig) : ProxyResult Compiled := do
  let headerValidator ← compileSchema libs "header_schema" config.headerSchema
  let bodyValidator ← compileSchema libs "body_schema" config.bodySchema
  return { headerValidator, bodyValidator, maxReqBodySize := config.maxReqBodySize,
           rejectedCode := config.rejectedCode, rejectedMsg := config.rejectedMsg }

end PluginConfig

/-! ## What is validated -/

/-- A name in title case: `content-type` becomes `Content-Type`. -/
def titledChars : Bool → List Char → List Char
  | _, [] => []
  | uppercaseNext, ch :: cs => (if uppercaseNext then ch.toUpper else ch.toLower) :: titledChars (ch = '-') cs

def titledHeaderName (name : String) : String := String.ofList (titledChars true name.toList)

/-- A name with one value holds a string, with more an array; none when it held anything else. -/
def addValue (members : List (String × Json)) (key value : String) : Option (List (String × Json)) :=
  match Json.lookup members key with
  | none => some (Json.insertMember key (.str value) members)
  | some (.str existing) => some (Json.insertMember key (.arr [.str existing, .str value]) members)
  | some (.arr values) => some (Json.insertMember key (.arr (values ++ [.str value])) members)
  | some _ => none

def headersToJson (headers : HeaderMap) : Option Json :=
  (headers.foldlM (fun members (entry : String × HeaderValue) =>
    addValue members (titledHeaderName entry.1) (entry.2.toStr.getD "")) []).map .obj

def formBodyToJson (libs : ValidationLibraries) (body : List UInt8) : Option Json :=
  ((libs.parseForm body).foldlM (fun members entry => addValue members entry.1 entry.2) []).map .obj

/-- By the content type: a form, or else JSON. -/
def decodeBody (libs : ValidationLibraries) (body : List UInt8) (contentType : Option String) : Option Json :=
  let isForm := contentType.any fun ct => Text.startsWith
    (Text.toAsciiLowercase (String.ofList (ct.toList.dropWhile Text.isWhitespace))) "application/x-www-form-urlencoded"
  if isForm then formBodyToJson libs body
  else
    match libs.json.fromSlice ⟨body.toArray⟩ with
    | .ok instance' => some instance'
    | .error _ => none

/-! ## The phases -/

/-- What the instances of a request share. -/
structure ValidationContext where
  bodyBuffer : Option (List UInt8) := none
  /-- Another plugin replaced the body. -/
  requestBodyReplaced : Bool := false
  deriving DecidableEq, Repr

def requestDeclaresBody (headers : HeaderMap) : Bool := PluginAiProxy.requestDeclaresBody headers

namespace Compiled

def rejection (p : Compiled) (detail : Option String) : Rejection where
  status := if 100 ≤ p.rejectedCode ∧ p.rejectedCode < 1000 then p.rejectedCode else 400
  body := some ((p.rejectedMsg.orElse fun _ => detail).getD "")

/-- The complaint of the header schema. -/
def headerViolation (p : Compiled) (headers : HeaderMap) : Option (Option String) :=
  match p.headerValidator with
  | none => none
  | some validator =>
    let view := (headersToJson headers).getD .null
    if validator.isValid view then none else some (validator.firstError view)

def requestFilter (p : Compiled) (req : RequestHeader) (ctx : ValidationContext) : FilterVerdict :=
  match p.headerViolation req.headers with
  | some detail => .reject (p.rejection detail)
  | none =>
    if p.bodyValidator.isSome ∧ ctx.requestBodyReplaced = false then
      if 1 < (HeaderMap.getAll req.headers "content-type").length then .reject (p.rejection none)
      else if requestDeclaresBody req.headers then .continue
      else .reject (p.rejection none)
    else .continue

/-- The buffer with the chunk, when there is one. -/
def swallow (ctx : ValidationContext) : Chunk UInt8 → Option (List UInt8)
  | some chunk => some (ctx.bodyBuffer.getD [] ++ chunk)
  | none => ctx.bodyBuffer

def contentType (req : RequestHeader) : Option String := getReqHeaderValue req "content-type"

/-- One chunk of the body; an error carries the status and a text. -/
def requestBodyFilter (libs : ValidationLibraries) (req : RequestHeader) (p : Compiled) :
    Filter ValidationContext (Nat × String) UInt8 := fun ctx body endOfStream =>
  match p.bodyValidator with
  | none => .ok (body, ctx)
  | some validator =>
    if ctx.requestBodyReplaced then .ok (body, ctx)
    else if body.isSome ∧ p.maxReqBodySize < ((swallow ctx body).getD []).length then
      .error (p.rejectedCode, "request body too large")
    else if endOfStream = false then .ok (some [], { ctx with bodyBuffer := swallow ctx body })
    else
      let buffer := (swallow ctx body).getD []
      match decodeBody libs buffer (contentType req) with
      | none => .error (p.rejectedCode, "request body failed to decode")
      | some instance' =>
        if validator.isValid instance' then
          .ok (if buffer = [] then none else some buffer, { ctx with bodyBuffer := none })
        else .error (p.rejectedCode, "request body failed schema validation")

end Compiled

/-- The instances of a request one after another over its body. -/
def validateBody (libs : ValidationLibraries) (req : RequestHeader) (instances : List Compiled) (a : Arrival UInt8) :
    Emission ValidationContext (Nat × String) UInt8 :=
  BodyStream.run (BodyStream.chain (instances.map (Compiled.requestBodyFilter libs req))) {} a

end RequestValidation

end Pingsix
