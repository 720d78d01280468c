import Pingsix.AiProxy
import Pingsix.Lib.JsonMembers

/-!
# The ai-proxy body transformation

From the client's chat request to the body for the provider: the checks of its
shape, the options merged over it, the forced limit of tokens and the conversion
for Anthropic.
-/

namespace Pingsix.AiProxy

/-- The field that a forced limit is written to. -/
inductive MaxTokensField where
  | maxCompletionTokens
  | maxTokens
  deriving DecidableEq, Repr

def maxTokensField : Provider → MaxTokensField
  | .openai => .maxCompletionTokens
  | .openaiCompatible | .deepseek | .anthropic => .maxTokens

structure TransformedRequest where
  body : ByteArray
  streaming : Bool

inductive TransformError where
  | invalidJson (message : String)
  | missingField (field : String)
  | badMessagesShape (message : String)
  | invalidField (message : String)
  deriving DecidableEq, Repr

def TransformError.detail : TransformError → String
  | .invalidJson message => message
  | .missingField field => s!"request body is missing required field '{field}'"
  | .badMessagesShape message => message
  | .invalidField message => message

/-! ## Checks -/

def validateMessage (index : Nat) : Json → Except TransformError Unit
  | .obj object =>
    match (Json.lookup object "role").bind Json.asStr with
    | none => .error (.badMessagesShape s!"messages[{index}].role must be a string")
    | some role =>
      if role = "" then .error (.badMessagesShape s!"messages[{index}].role must not be empty")
      else if ((Json.lookup object "content").bind Json.asStr).isNone then
        .error (.badMessagesShape s!"messages[{index}].content must be a string")
      else .ok ()
  | _ => .error (.badMessagesShape s!"messages[{index}] must be an object")

def validateMessagesShape (body : Json) : Except TransformError Unit :=
  match body.get "messages" with
  | none => .error (.missingField "messages")
  | some messages =>
    match messages.asArray with
    | none => .error (.badMessagesShape "messages must be an array")
    | some [] => .error (.badMessagesShape "messages must contain at least one message")
    | some array => array.zipIdx.forM fun message => validateMessage message.2 message.1

def validateFieldTypes (body : Json) : Except TransformError Unit :=
  if (body.get "stream").any fun stream => !stream.isBoolean then
    .error (.invalidField "'stream' must be a boolean")
  else
    ["max_tokens", "max_completion_tokens"].forM fun field =>
      if (body.get field).any fun value => !value.asU64.any (1 ≤ ·) then
        .error (.invalidField s!"'{field}' must be an integer >= 1")
      else .ok ()

/-- The member is there and valid. -/
def requireMember (body : List (String × Json)) (field : String) (valid : Json → Bool) (expected : String) :
    Except TransformError Unit :=
  match Json.lookup body field with
  | some value => if valid value then .ok () else .error (.invalidField s!"'{field}' must be {expected}")
  | none => .error (.missingField field)

def validateAnthropicRequirements (body : List (String × Json)) : Except TransformError Unit := do
  requireMember body "model" Json.isString "a string"
  requireMember body "max_tokens" (fun maxTokens => maxTokens.asU64.any (1 ≤ ·)) "an integer >= 1"
  if ((Json.lookup body "messages").bind Json.asArray).any (· ≠ []) then pure ()
  else throw (.badMessagesShape "messages must contain at least one non-system message")

/-! ## The merge and the forced limit -/

mutual
/-- Objects recurse, everything else is replaced by the patch. -/
def deepMerge : (target patch : Json) → Json
  | .obj target, .obj patch => .obj (mergeMembers target patch)
  | _, patch => patch

def mergeMembers : (target patch : List (String × Json)) → List (String × Json)
  | target, [] => target
  | target, (key, patchValue) :: patch =>
    let value :=
      match Json.lookup target key with
      | some targetValue =>
        if targetValue.isObject && patchValue.isObject then deepMerge targetValue patchValue else patchValue
      | none => patchValue
    mergeMembers (Json.insertMember key value target) patch
end

/-- The number as a value. -/
def tokens (maxTokens : Nat) : Json := .num (.posInt maxTokens)

def applyMaxTokens (body : Json) (maxTokens : Nat) (provider : Provider) : Json :=
  match body with
  | .obj object =>
    match maxTokensField provider with
    | .maxCompletionTokens =>
      .obj (Json.removeMember "max_tokens" (Json.insertMember "max_completion_tokens" (tokens maxTokens) object))
    | .maxTokens => .obj (Json.insertMember "max_tokens" (tokens maxTokens) object)
  | body => body

/-! ## The conversion for Anthropic -/

/-- One message: a system text is set aside, a message of the user or the assistant is kept. -/
def convertMessage (index : Nat) (message : Json) (acc : List String × List Json) :
    Except TransformError (List String × List Json) :=
  match (message.get "role").bind Json.asStr, (message.get "content").bind Json.asStr with
  | some role, some content =>
    if role = "system" then .ok (acc.1 ++ [content], acc.2)
    else if role = "user" ∨ role = "assistant" then
      .ok (acc.1, acc.2 ++ [.obj (Json.insertMember "content" (.str content) (Json.insertMember "role" (.str role) []))])
    else .error (.badMessagesShape (s!"messages[{index}].role '{role}' is not supported by provider " ++
      "anthropic (supported: system, user, assistant)"))
  | some _, none => .error (.badMessagesShape s!"messages[{index}].content must be a string")
  | none, _ => .error (.badMessagesShape s!"messages[{index}].role must be a string")

/-- The value of a member that is not null. -/
def present (body : Json) (field : String) : Option Json := (body.get field).filter (· ≠ .null)

/-- Set the member, when there is a value. -/
def setOption (field : String) (value : Option Json) (out : List (String × Json)) : List (String × Json) :=
  match value with
  | some value => Json.insertMember field value out
  | none => out

def convertToAnthropic (body : Json) : Except TransformError (List (String × Json)) := do
  let (systemParts, messages) ← (((body.get "messages").bind Json.asArray).getD []).zipIdx.foldlM
    (fun acc message => convertMessage message.2 message.1 acc) ([], [])
  let out := setOption "model" (present body "model") []
  let out := if systemParts = [] then out else Json.insertMember "system" (.str ("\n\n".intercalate systemParts)) out
  let out := Json.insertMember "messages" (.arr messages) out
  let out := setOption "max_tokens" ((present body "max_tokens").or (present body "max_completion_tokens")) out
  let out := ["stream", "temperature", "top_p", "top_k"].foldl
    (fun out field => setOption field (present body field) out) out
  return setOption "stop_sequences" (present body "stop") out

/-! ## The transformation -/

/-- The options over the client's body, when they are an object. -/
def mergeOptions (body : Json) (options : Option Json) : Json :=
  match options.filter Json.isObject with
  | some options => deepMerge body options
  | none => body

/-- The document sent to the provider. -/
def transformDocument (json : JsonCodec) (clientBody : ByteArray) (options : Option Json) (maxTokens : Option Nat)
    (provider : Provider) : Except TransformError Json := do
  let body ← (json.fromSlice clientBody).mapError fun error =>
    .invalidJson s!"request body is not valid JSON: {json.render error}"
  if !body.isObject then throw (.invalidJson "request body must be a JSON object")
  validateMessagesShape body
  let body := mergeOptions body options
  let body := match maxTokens with
    | some maxTokens => applyMaxTokens body maxTokens provider
    | none => body
  validateMessagesShape body
  validateFieldTypes body
  if provider = .anthropic then
    let converted ← convertToAnthropic body
    validateAnthropicRequirements converted
    return .obj converted
  else return body

def transformRequest (json : JsonCodec) (clientBody : ByteArray) (options : Option Json) (maxTokens : Option Nat)
    (provider : Provider) : Except TransformError TransformedRequest := do
  let body ← transformDocument json clientBody options maxTokens provider
  return { body := json.toVec body, streaming := body.get "stream" = some (.bool true) }

end Pingsix.AiProxy
