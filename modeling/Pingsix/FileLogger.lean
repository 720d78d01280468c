import Mathlib.Data.Nat.Digits.Defs
import Pingsix.Lib.Delimited
import Pingsix.Request
import Pingsix.Template

/-!
# The file logger's line

The line of `log_format`: the variables that the logging phase resolves, with
the listed parameters of the query hidden and control characters escaped.
-/

namespace Pingsix.FileLogger

open HttpMessage

/-! ## Texts -/

def isControl (c : Char) : Bool := c.toNat < 32 || (127 ≤ c.toNat && c.toNat < 160)

/-- At least four hexadecimal digits. -/
def hexDigits (n : Nat) : List Char :=
  let digits := Nat.toDigits 16 n
  List.replicate (4 - digits.length) '0' ++ digits

def escaped (character : Char) : List Char :=
  match character with
  | '\\' => ['\\', '\\']
  | '\n' => ['\\', 'n']
  | '\r' => ['\\', 'r']
  | '\t' => ['\\', 't']
  | character =>
    if isControl character then '\\' :: 'u' :: '\x7b' :: (hexDigits character.toNat ++ ['\x7d']) else [character]

def pushEscaped (output value : String) : String := output ++ String.ofList (value.toList.flatMap escaped)

/-- A part of the query, with three stars for its value when its name is one of `names`. -/
def redactPart (names : List String) (part : List Char) : List Char :=
  match Text.splitOnceChars '=' part with
  | some (name, _) => if String.ofList name ∈ names then name ++ "=***".toList else part
  | none => part

def redactQuery (query : String) (names : List String) : String :=
  String.ofList (Delimited.join '&' ((Text.splitChars '&' query.toList).map (redactPart names)))

example : redactQuery "a=1&token=secret&b" ["token"] = "a=1&token=***&b" := by decide +kernel

/-! ## The line -/

/-- A peer as it is displayed, and its port when it has an IP address. -/
structure PeerAddr where
  text : String
  port : Option Nat

/-- What the logging phase reads of the session, of the context and of the error. -/
structure LogSession where
  reqHeader : RequestHeader
  clientAddr : Option PeerAddr
  serverAddr : Option String
  /-- The status of the response that was written. -/
  status : Option Nat
  isHttp2 : Bool
  bodyBytesSent : Nat
  getStr : String → Option String
  requestId : Option String
  elapsedMs : Nat
  error : Option String

def decimal (n : Nat) : String := String.ofList (Nat.toDigits 10 n)

def resolveLogVar (s : LogSession) (redactQueryParams : List String) (var : String) : String :=
  match Text.stripPrefix var "var_" with
  | some customVarName => pushEscaped "" ((s.getStr customVarName).getD "")
  | none =>
    match var with
    | "request_method" => pushEscaped "" s.reqHeader.method.text
    | "uri" => pushEscaped "" s.reqHeader.uri.path
    | "query_string" =>
      let query := s.reqHeader.uri.query.getD ""
      if redactQueryParams.isEmpty then pushEscaped "" query
      else pushEscaped "" (redactQuery query redactQueryParams)
    | "http_host" => pushEscaped "" (s.reqHeader.uri.host.getD "")
    | "request_time" => decimal s.elapsedMs
    | "http_user_agent" => pushEscaped "" ((getReqHeaderValue s.reqHeader "user-agent").getD "")
    | "http_referer" => pushEscaped "" ((getReqHeaderValue s.reqHeader "referer").getD "")
    | "remote_addr" => (s.clientAddr.map (·.text)).getD ""
    | "remote_port" => ((s.clientAddr.bind (·.port)).map decimal).getD ""
    | "server_addr" => s.serverAddr.getD ""
    | "status" => (s.status.map decimal).getD ""
    | "server_protocol" => if s.isHttp2 then "http/2" else "http/1.1"
    | "request_id" => pushEscaped "" (s.requestId.getD "")
    | "body_bytes_sent" => decimal s.bodyBytesSent
    | "error" => (s.error.map (pushEscaped "")).getD ""
    | _ => ""

structure LogFormat where
  format : String

def LogFormat.render (logFormat : LogFormat) (s : LogSession) (redactQueryParams : List String) : String :=
  renderTemplate logFormat.format {} (resolveLogVar s redactQueryParams)

end Pingsix.FileLogger
