import Pingsix.Error
import Pingsix.Lib.Json
import Pingsix.Lib.Net
import Mathlib.Data.List.Sort

/-!
# Upstream nodes

Node hosts and addresses, and the two forms a node list is written in: an
object from addresses to weights, or an array of node objects.
-/

namespace Pingsix

inductive UpstreamScheme where
  | http
  | https
  | grpc
  | grpcs
  deriving DecidableEq, Repr

/-! ## Hosts -/

/-- What `[a-z0-9]` matches case-insensitively; two letters outside ASCII fold into it. -/
def isHostAlnum (c : Char) : Bool := c.isAlphanum || c = '\u017F' || c = '\u212A'

def isHostLabel (label : List Char) : Bool :=
  label.head?.any isHostAlnum && label.getLast?.any isHostAlnum && label.all fun c => isHostAlnum c || c = '-'

/-- `HOST_FQDN_REGEX` -/
def matchesHostFqdn (host : List Char) : Bool := (Text.splitChars '.' host).all isHostLabel

/-- Four all-digit labels. -/
def isIpv4Shaped (s : List Char) : Bool :=
  let parts := Text.splitChars '.' s
  parts.length = 4 && parts.all fun part => part ≠ [] && part.all Char.isDigit

/-- `[x]` without its brackets, when something stands between them. -/
def bracketed (host : List Char) : Option (List Char) :=
  if host.head? = some '[' ∧ host.getLast? = some ']' ∧ 2 < host.length then some ((host.drop 1).dropLast)
  else none

def validateNodeHost (host : String) : Except String Unit :=
  let host := host.toList
  if host = [] then .error "invalid_host"
  else if host.head? = some '[' ∧ bracketed host = none then .error "invalid_host"
  else
    let bare := (bracketed host).getD host
    if (Net.parseIpv4 bare).isSome ∨ (Net.parseIpv6 bare).isSome then .ok ()
    else if isIpv4Shaped bare then .error "invalid_host"
    else if matchesHostFqdn host then .ok ()
    else .error "invalid_host"

def stripIpv6Brackets (host : String) : String :=
  match bracketed host.toList with
  | some bare => String.ofList bare
  | none => host

/-! ## Addresses -/

/-- What may follow the host of an address: nothing, or a colon and digits. -/
def portSuffix : List Char → Option (Option (List Char))
  | [] => some none
  | ':' :: ds => if ds ≠ [] ∧ ds.all Char.isDigit then some (some ds) else none
  | _ => none

/-- The shortest bracketed host after which the address may end. -/
def captureBracketed : (acc : List Char) → List Char → Option (List Char × Option (List Char))
  | _, [] => none
  | acc, c :: cs =>
    match if c = ']' ∧ acc ≠ [] then portSuffix cs else none with
    | some port => some (acc.reverse, port)
    | none => if c = '\n' then none else captureBracketed (c :: acc) cs

/-- `HOST_PORT_REGEX`: the host and the port digits of an address. -/
def captureHostPort (addr : List Char) : Option (List Char × Option (List Char)) :=
  let plain :=
    let host := addr.takeWhile (· ≠ ':')
    if host = [] then none else (portSuffix (addr.drop host.length)).map (host, ·)
  match addr with
  | '[' :: rest => (captureBracketed [] rest).orElse fun _ => plain
  | _ => plain

def splitHostPort (addr : String) : Except String (String × Option Nat) := do
  match captureHostPort addr.toList with
  | none => throw "invalid_address_format"
  | some (host, port) =>
    validateNodeHost (String.ofList host)
    match port with
    | none => return (String.ofList host, none)
    | some ds =>
      let port := Net.digitsValue 10 ds
      if 65536 ≤ port ∨ port = 0 then throw "invalid_port"
      return (String.ofList host, some port)

/-! ## Nodes -/

structure Node where
  host : String
  port : Option Nat
  weight : Nat
  priority : Int
  deriving DecidableEq, Repr

namespace Node

def defaultWeight : Nat := 1

def isEnabled (node : Node) : Bool := 0 < node.weight

def bareHost (node : Node) : String := stripIpv6Brackets node.host

def effectivePort (node : Node) (scheme : UpstreamScheme) : Nat :=
  node.port.getD (match scheme with
    | .https | .grpcs => 443
    | .http | .grpc => 80)

def writeAddr (host : String) (port : Option Nat) : String :=
  let host := if Text.containsChar host ':' then "[" ++ host ++ "]" else host
  match port with
  | some port => host ++ ":" ++ toString port
  | none => host

/-- The text a node is displayed as. -/
def addrKey (node : Node) : String := writeAddr node.bareHost node.port

def effectiveAddrKey (node : Node) (scheme : UpstreamScheme) : String :=
  writeAddr node.bareHost (some (node.effectivePort scheme))

def fromStr (addr : String) : Except String Node := do
  let (host, port) ← splitHostPort addr
  return { host, port, weight := defaultWeight, priority := 0 }

/-- `a ≤ b` in the order of `sort_key`. -/
def sortKeyLe (a b : Node) : Bool :=
  if a.bareHost ≠ b.bareHost then a.bareHost < b.bareHost
  else if a.port.getD 0 ≠ b.port.getD 0 then a.port.getD 0 < b.port.getD 0
  else if a.weight ≠ b.weight then a.weight < b.weight
  else a.priority ≤ b.priority

def deserializePort : De (Option Nat) := fun v => do
  let port ← De.option (De.unsigned 16) v
  if port = some 0 then throw (.custom "node port must be 1..=65535, or omitted to use the scheme default")
  return port

def fromValue : De Node := fun v => do
  let name := "Node with 4 elements"
  let src ← De.struct "Node" 4 v
  let host ← src.field name 0 "host" De.string .required
  let port ← src.field name 1 "port" deserializePort (.default none)
  let weight ← src.field name 2 "weight" (De.unsigned 32) (.default defaultWeight)
  let priority ← src.field name 3 "priority" (De.signed 8) (.default 0)
  return { host, port, weight, priority }

end Node

/-! ## Node lists -/

structure Nodes where
  nodes : List Node
  deriving DecidableEq, Repr

namespace Nodes

def displayErrors (errors : List FieldError) : String :=
  String.intercalate "\n" (errors.map fun e => s!"{e.path}: {e.code}")

/-- Every address must parse; the nodes are sorted. -/
def tryFrom (map : HashMap String Nat) : Except (List FieldError) Nodes :=
  let parsed := map.entries.map fun e => (Node.fromStr e.1).map fun node => { node with weight := e.2 }
  let errors := parsed.filterMap fun
    | .error code => some ⟨"nodes", code⟩
    | .ok _ => none
  if errors = [] then
    .ok ⟨(parsed.filterMap Except.toOption).insertionSort fun a b => Node.sortKeyLe a b⟩
  else .error errors

def fromValue : De Nodes
  | .arr items => (items.mapM Node.fromValue).map Nodes.mk
  | .obj members => do
    let map ← De.map (De.unsigned 32) (.obj members)
    match tryFrom map with
    | .ok nodes => return nodes
    | .error errors => throw (.custom (displayErrors errors))
  | v => .error (.invalidType v "a map of \"address:port\" to weight, or an array of node objects")

def validate (nodes : Nodes) : List FieldError :=
  if nodes.nodes = [] then [⟨"nodes", "nodes_empty"⟩]
  else
    (if nodes.nodes.any Node.isEnabled then [] else [⟨"nodes", "nodes_all_disabled"⟩]) ++
      nodes.nodes.filterMap fun node =>
        match validateNodeHost node.host with
        | .error code => some ⟨"nodes", code⟩
        | .ok () => none

example : Nodes.fromValue (.obj [("127.0.0.1:8080", .num (.posInt 1))]) =
    .ok ⟨[⟨"127.0.0.1", some 8080, 1, 0⟩]⟩ := by decide

end Nodes

end Pingsix
