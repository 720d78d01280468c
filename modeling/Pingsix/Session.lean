import Pingsix.Discovery
import Pingsix.Request

/-!
# Sessions and their variables

What the request filters read of a session, the nginx-style variables it
resolves, and the `vars` conditions evaluated on them.
-/

namespace Pingsix

open HttpMessage

/-! ## Addresses as text -/

namespace IpAddr

/-- Where the first longest run of zeros starts, and its length. -/
def longestZeros (groups : List Nat) : Nat × Nat :=
  (groups.zipIdx.foldl (fun (longest, current) (group, i) =>
    if group = 0 then
      let grown : Nat × Nat := if current.2 = 0 then (i, 1) else (current.1, current.2 + 1)
      (if longest.2 < grown.2 then grown else longest, grown)
    else (longest, (0, 0))) (((0, 0), (0, 0)) : (Nat × Nat) × (Nat × Nat))).1

def octetsText (octets : List Nat) : String := ".".intercalate (octets.map fun o => String.ofList (Nat.toDigits 10 o))

def groupsText (groups : List Nat) : String := ":".intercalate (groups.map fun g => String.ofList (Nat.toDigits 16 g))

def display : IpAddr → String
  | v4 octets => octetsText octets
  | v6 [0, 0, 0, 0, 0, 65535, g, h] => "::ffff:" ++ octetsText [g / 256, g % 256, h / 256, h % 256]
  | v6 groups =>
    let (start, len) := longestZeros groups
    if 1 < len then groupsText (groups.take start) ++ "::" ++ groupsText (groups.drop (start + len))
    else groupsText groups

example : display (.v6 [8193, 3512, 0, 0, 1, 0, 0, 0]) = "2001:db8:0:0:1::" := by decide

end IpAddr

/-! ## Sessions -/

structure Session where
  reqHeader : RequestHeader
  /-- None when the peer has no IP address. -/
  clientAddr : Option SocketAddr
  /-- The local address as it is displayed. -/
  serverAddr : Option String
  isTls : Bool
  deriving DecidableEq, Repr

def getDirectClientIp (s : Session) : Option IpAddr := s.clientAddr.map (·.ip)

/-! ## Variables -/

/-- A variable of the request alone; none for the connection's and unknown ones. -/
def resolveRequestVar (req : RequestHeader) (isTls : Bool) (name : String) : Option String :=
  match Text.stripPrefix name "arg_" with
  | some arg => some ((getQueryValue req arg).getD "")
  | none =>
    match Text.stripPrefix name "http_" with
    | some header => some ((getReqHeaderValue req (Text.replaceChar header '_' '-')).getD "")
    | none =>
      match name with
      | "uri" => some req.uri.path
      | "request_uri" => some (req.uri.pathAndQuery.getD req.uri.path)
      | "query_string" => some (req.uri.query.getD "")
      | "host" => some ((getRequestHost req).getD "")
      | "scheme" => some (req.uri.scheme.getD (if isTls then "https" else "http"))
      | "request_method" => some req.method.text
      | _ => none

/-- Unknown variables are empty. -/
def resolveVar (s : Session) (name : String) : String :=
  match name with
  | "remote_addr" => ((getDirectClientIp s).map IpAddr.display).getD ""
  | "remote_port" => (s.clientAddr.map fun addr => String.ofList (Nat.toDigits 10 addr.port)).getD ""
  | "server_addr" => s.serverAddr.getD ""
  | name => (resolveRequestVar s.reqHeader s.isTls name).getD ""

def requestSelectorKey (s : Session) (hashOn : UpstreamHashOn) (key : String) : String :=
  match hashOn with
  | .vars => resolveVar s key
  | .head => (getReqHeaderValue s.reqHeader key).getD ""
  | .cookie => (getCookieValue s.reqHeader key).getD ""

/-! ## Conditions -/

/-- The value a condition on the variable is compared with. -/
def conditionValue (s : Session) (varName : String) : String :=
  match Text.stripPrefix varName "http_" with
  | some headerName => requestSelectorKey s .head headerName
  | none => requestSelectorKey s .vars varName

/-- One condition `[name, op, value, ...]`; a shorter one is skipped. -/
def conditionHolds (s : Session) : List String → Bool
  | varName :: op :: val :: _ =>
    match op with
    | "==" => conditionValue s varName = val
    | "!=" => conditionValue s varName ≠ val
    | _ => false
  | _ => true

def matchApisixVars (s : Session) (vars : List (List String)) : Bool := vars.all (conditionHolds s)

end Pingsix
