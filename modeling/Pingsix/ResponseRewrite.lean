import Pingsix.AiProxy
import Pingsix.Lib.BodyStream

/-!
# The body phase of response-rewrite

The part of the configuration that rewrites bodies, compiled, and what becomes
of each chunk of a response body. Regular expressions and base64 are
third-party.
-/

namespace Pingsix

namespace ResponseRewrite

open BodyStream (Chunk Arrival Emission)

/-! ## Configuration -/

/-- A compiled expression: the text with every match, or the first one, replaced. -/
structure BytesRegex where
  replaceAll : (text : List UInt8) → (replacement : String) → List UInt8
  replaceFirst : (text : List UInt8) → (replacement : String) → List UInt8

structure BodyLibraries where
  buildRegex : (pattern : String) → (caseInsensitive : Bool) → Except String BytesRegex
  base64Standard : String → Except String (List UInt8)
  base64StandardNoPad : String → Except String (List UInt8)

inductive RegexScope where
  | once
  | global
  deriving DecidableEq, Repr

structure FilterConfig where
  regex : String
  scope : RegexScope := .once
  replace : String
  options : String := "jo"
  deriving DecidableEq, Repr

/-- The members that concern bodies. -/
structure PluginConfig where
  maxRespBodySize : Nat := 67108864
  body : Option String := none
  bodyBase64 : Bool := false
  filters : Option (List FilterConfig) := none
  deriving DecidableEq, Repr

/-- `(regex, replacement, global)`. -/
abbrev CompiledFilter := BytesRegex × String × Bool

structure Compiled where
  replacementBody : Option (List UInt8)
  /-- In configuration order. -/
  filters : List CompiledFilter
  maxRespBodySize : Nat
  positive : 0 < maxRespBodySize

section
variable (libs : BodyLibraries)

/-- Without padding when it is not standard base64 with padding. -/
def decodeBodyBase64 (encoded : String) : Except String (List UInt8) :=
  if encoded = "" then .error "Invalid input length: 0"
  else
    match libs.base64Standard encoded with
    | .ok bytes => .ok bytes
    | .error paddedError =>
      match libs.base64StandardNoPad encoded with
      | .ok bytes => .ok bytes
      | .error _ => .error paddedError

/-- Whether one of the options asks for case-insensitive matching. -/
def regexOptions : Bool → List Char → ProxyResult Bool
  | insensitive, [] => .ok insensitive
  | insensitive, option :: options =>
    if option = 'j' ∨ option = 'o' then regexOptions insensitive options
    else if option = 'i' then regexOptions true options
    else .error (.validationError s!"response-rewrite: unsupported regex option '{option}'")

def compileFilter (filter : FilterConfig) : ProxyResult CompiledFilter := do
  let insensitive ← regexOptions false filter.options.toList
  match libs.buildRegex filter.regex insensitive with
  | .error error =>
    throw (.validationError s!"response-rewrite filter regex \"{filter.regex}\" does not compile: {error}")
  | .ok regex => return (regex, filter.replace, filter.scope = .global)

open FieldError (range)

/-- The range check of the schema. -/
def PluginConfig.validate (config : PluginConfig) : List FieldError :=
  range "max_resp_body_size" 1 none config.maxRespBodySize

def PluginConfig.replacementBody (config : PluginConfig) : ProxyResult (Option (List UInt8)) :=
  match config.body with
  | some body =>
    if config.bodyBase64 then
      match decodeBodyBase64 libs body with
      | .ok bytes => .ok (some bytes)
      | .error error => .error (.validationError s!"response-rewrite body is not valid base64: {error}")
    else .ok (some body.toUTF8.data.toList)
  | none =>
    if config.bodyBase64 then .error (.validationError "response-rewrite body_base64 requires a body") else .ok none

/-- The checks in their order, and what they leave compiled. -/
def PluginConfig.build (config : PluginConfig) : ProxyResult Compiled :=
  if h : 0 < config.maxRespBodySize then
    if config.body.isSome ∧ config.filters.isSome then
      .error (.validationError "response-rewrite body and filters are mutually exclusive")
    else if config.filters = some [] then
      .error (.validationError "response-rewrite filters must contain at least one filter")
    else if (config.filters.getD []).any (·.regex = "") then
      .error (.validationError "response-rewrite filter regex must not be empty")
    else do
      let replacementBody ← config.replacementBody libs
      let filters ← (config.filters.getD []).mapM (compileFilter libs)
      return { replacementBody, filters, maxRespBodySize := config.maxRespBodySize, positive := h }
  else .error (.validationStructured config.validate)

end

/-! ## Chunks -/

/-- What an instance keeps under its keys while a response passes. -/
structure RewriteContext where
  matched : Bool := false
  bodyBuffer : Option (List UInt8) := none
  bodyTooLarge : Bool := false
  skipBodyRewrite : Bool := false
  deriving DecidableEq, Repr

namespace Compiled

def rewritesBody (c : Compiled) : Bool := c.replacementBody.isSome || !c.filters.isEmpty

def applyFilter (current : List UInt8) (filter : CompiledFilter) : List UInt8 :=
  if filter.2.2 then filter.1.replaceAll current filter.2.1 else filter.1.replaceFirst current filter.2.1

def applyFiltersBytes (c : Compiled) (body : List UInt8) : List UInt8 := c.filters.foldl applyFilter body

/-- Nothing until the end, and then the replacement. -/
def processReplacement (replacement : List UInt8) (endOfStream : Bool) : Chunk UInt8 :=
  if endOfStream then some replacement else some []

def processFilters (c : Compiled) (ctx : RewriteContext) (body : Chunk UInt8) (endOfStream : Bool) :
    Chunk UInt8 × RewriteContext :=
  if ctx.bodyTooLarge then (body, ctx)
  else
    let buffered := ctx.bodyBuffer.getD []
    match body with
    | none =>
      if endOfStream then (some (c.applyFiltersBytes buffered), { ctx with bodyBuffer := none })
      else (some [], ctx)
    | some chunk =>
      if c.maxRespBodySize ≤ buffered.length + chunk.length then
        (some (c.applyFiltersBytes ((buffered ++ chunk).take c.maxRespBodySize)),
          { ctx with bodyBuffer := none, bodyTooLarge := true })
      else if endOfStream = false then (some [], { ctx with bodyBuffer := some (buffered ++ chunk) })
      else (some (c.applyFiltersBytes (buffered ++ chunk)), { ctx with bodyBuffer := none })

def processBodyChunk (c : Compiled) (ctx : RewriteContext) (body : Chunk UInt8) (endOfStream : Bool) :
    Chunk UInt8 × RewriteContext :=
  if !ctx.matched || !c.rewritesBody then (body, ctx)
  else if ctx.skipBodyRewrite then (body, ctx)
  else
    match c.replacementBody with
    | some replacement => (processReplacement replacement endOfStream, ctx)
    | none => c.processFilters ctx body endOfStream

/-- The chunks of a response body one after another; no call fails. -/
def respond (c : Compiled) (ctx : RewriteContext) (a : Arrival UInt8) : Emission RewriteContext Empty UInt8 :=
  BodyStream.run (fun ctx chunk endOfStream => .ok (c.processBodyChunk ctx chunk endOfStream)) ctx a

end Compiled

end ResponseRewrite

end Pingsix
