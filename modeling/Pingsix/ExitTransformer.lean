import Pingsix.Lib.Placeholders
import Pingsix.RequestPipeline

/-!
# Gateway exits

A response of the gateway itself, rewritten by the first rule of the
exit-transformer that names its status, and the header that is sent of it.
-/

namespace Pingsix.ExitTransformer

open HttpMessage

structure ExitTransformRule where
  codes : List Nat
  statusCode : Option Nat := none
  body : Option String := none
  headers : List (String × String) := []
  deriving DecidableEq, Repr

structure ExitTransform where
  rules : List ExitTransformRule
  deriving DecidableEq, Repr

/-- The first rule for the status. -/
def ExitTransform.matching (transform : ExitTransform) (status : Nat) : Option ExitTransformRule :=
  transform.rules.find? fun rule => rule.codes.contains status

structure ResolvedExitResponse where
  status : Nat
  body : Option ByteArray
  contentType : Option String
  headers : List (String × String)

def eqIgnoreAsciiCase (a b : String) : Bool := Text.toAsciiLowercase a = Text.toAsciiLowercase b

def isFramingHeader (name : String) : Bool :=
  eqIgnoreAsciiCase name "content-length" || eqIgnoreAsciiCase name "transfer-encoding"

/-- The occurrences of a pattern replaced, from left to right. -/
def replace (s pattern value : String) : String :=
  String.ofList (Placeholders.replaceAll pattern.toList value.toList s.toList)

def substituteExitVars (template : String) (status : Nat) (message requestId : Option String) : String :=
  replace (replace (replace template "$status" (toString status)) "$message" (message.getD "")) "$request_id"
    (requestId.getD "")

/-- One header of the original response: a content type is set aside, framing is dropped. -/
def normalizeHeader (acc : Option String × List (String × String)) (header : String × String) :
    Option String × List (String × String) :=
  if eqIgnoreAsciiCase header.1 "content-type" then (some header.2, acc.2)
  else if isFramingHeader header.1 then acc
  else (acc.1, acc.2 ++ [header])

/-- One header of a rule, its value already substituted. -/
def applyRuleHeader (resolved : ResolvedExitResponse) (name value : String) : ResolvedExitResponse :=
  if eqIgnoreAsciiCase name "content-type" then { resolved with contentType := some value }
  else if isFramingHeader name then resolved
  else
    { resolved with
      headers := (resolved.headers.filter fun existing => !eqIgnoreAsciiCase existing.1 name) ++ [(name, value)] }

def resolveExitResponse (transform : Option ExitTransform) (status : Nat) (body contentType : Option String)
    (extraHeaders : List (String × String)) (requestId : Option String) : ResolvedExitResponse :=
  let normalized := extraHeaders.foldl normalizeHeader (contentType, [])
  let resolved : ResolvedExitResponse :=
    { status, body := body.map String.toUTF8, contentType := normalized.1, headers := normalized.2 }
  match transform.bind (·.matching status) with
  | none => resolved
  | some rule =>
    let status := rule.statusCode.getD status
    let resolved := { resolved with status }
    let resolved :=
      match rule.body with
      | some template =>
        { resolved with
          body := some (substituteExitVars template status body requestId).toUTF8
          contentType := none }
      | none => resolved
    rule.headers.foldl
      (fun resolved header =>
        applyRuleHeader resolved header.1 (substituteExitVars header.2 status body requestId)) resolved

/-- Statuses whose responses have no body. -/
def bodyForbidden (status : Nat) : Bool := (100 ≤ status && status ≤ 199) || status = 204 || status = 304

/-- The body that is sent, none when it is empty. -/
def exitBody (resolved : ResolvedExitResponse) : Option ByteArray :=
  if bodyForbidden resolved.status then none else resolved.body.filter fun body => body.size ≠ 0

/-- The content type and the length, before the other headers. -/
def exitFraming (resolved : ResolvedExitResponse) : ProxyResult HeaderMap :=
  if bodyForbidden resolved.status then .ok []
  else do
    let typed ← resolved.contentType.elim (.ok []) (PluginAiProxy.insertHeader [] "content-type")
    PluginAiProxy.insertHeader typed "content-length" (toString ((exitBody resolved).elim 0 ByteArray.size))

/-- The header and the body that are sent. -/
def exitResponse (resolved : ResolvedExitResponse) : ProxyResult (HeaderMap × Option ByteArray) :=
  if resolved.status < 100 ∨ 999 < resolved.status then .error (.pingora "InternalError: invalid exit-transformer status")
  else do
    let framing ← exitFraming resolved
    let headers ← resolved.headers.foldlM (fun headers header => PluginAiProxy.insertHeader headers header.1 header.2) framing
    return (headers, exitBody resolved)

end Pingsix.ExitTransformer
