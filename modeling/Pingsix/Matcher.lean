import Mathlib.Data.List.Sort
import Pingsix.Error
import Pingsix.Lib.Pattern

/-!
# The route matcher

Two nested routers, reversed host patterns over URI patterns, and a router of
URI patterns for the routes without hosts. A pattern is stored by looking its
text up as a path first: the route joins the value found, and only when nothing
is found the pattern gets a slot of its own.
-/

namespace Pingsix

/-- What the matcher reads of a compiled route. -/
class MatchedRoute (ρ : Type) where
  routeId : ρ → String
  priority : ρ → Nat
  /-- The effective hosts: the route's own or else its service's. -/
  getHosts : ρ → List String
  getUris : ρ → List String
  methods : ρ → List String
  servesPreflight : ρ → Bool

namespace MatchedRoute

variable {ρ : Type} [MatchedRoute ρ]

def allowsMethod (route : ρ) (method : String) : Bool :=
  (methods route).isEmpty || (methods route).any (· = method)

end MatchedRoute

/-- How inserting into the matcher fails: an error of the router library, or an unwrap of a failed lookup. -/
inductive InsertFailure where
  | insertError (display : String)
  | panic
  deriving DecidableEq, Repr

/-- How a compilation fails. -/
inductive CompileFailure where
  | error (e : ProxyError)
  | panic
  deriving DecidableEq, Repr

abbrev RouteRouter (ρ : Type) := Router (List ρ)

structure MatchEntry (ρ : Type) where
  nonHostUri : RouteRouter ρ := {}
  hostUris : Router (RouteRouter ρ) := {}
  globalCors : Bool := false

namespace MatchEntry

/-! ## Host patterns -/

def reverseAsciiLowercase (input : String) : String := String.ofList (input.toList.reverse.map Char.toLower)

def reverseHost (host : String) : String :=
  match Text.stripPrefix host "*" with
  | some domainPart => reverseAsciiLowercase domainPart ++ "\x7b*subdomain\x7d"
  | none => reverseAsciiLowercase host

/-! ## Insertion -/

section
variable {ρ : Type} [MatchedRoute ρ] (M : Matchit)

open MatchedRoute

/-- Higher priorities first, routes of one priority in the order they had. -/
def sortByPriority (routes : List ρ) : List ρ := routes.insertionSort fun a b => priority b ≤ priority a

def insertIntoRouter (router : RouteRouter ρ) (uri : String) (proxyRoute : ρ) : Except InsertFailure (RouteRouter ρ) :=
  match router.atPath M uri with
  | some found => .ok (router.set found.pattern (sortByPriority (found.value ++ [proxyRoute])))
  | none => (router.insert M uri [proxyRoute]).mapError .insertError

def insertUris (router : RouteRouter ρ) (uris : List String) (proxyRoute : ρ) :
    Except InsertFailure (RouteRouter ρ) :=
  uris.foldlM (fun router uri => insertIntoRouter M router uri proxyRoute) router

/-- The inner router of a processed host, stored first when the lookup fails; the lookup after storing is
unwrapped. -/
def innerRouter (hostUris : Router (RouteRouter ρ)) (processedHost : String) :
    Except InsertFailure (Router (RouteRouter ρ) × Match (RouteRouter ρ)) :=
  match hostUris.atPath M processedHost with
  | some found => .ok (hostUris, found)
  | none =>
    match hostUris.insert M processedHost {} with
    | .error display => .error (.insertError display)
    | .ok hostUris =>
      match hostUris.atPath M processedHost with
      | some found => .ok (hostUris, found)
      | none => .error .panic

def insertHostUri (uris : List String) (proxyRoute : ρ) (hostUris : Router (RouteRouter ρ)) (host : String) :
    Except InsertFailure (Router (RouteRouter ρ)) := do
  let (hostUris, found) ← innerRouter M hostUris (reverseHost host)
  let inner ← insertUris M found.value uris proxyRoute
  return hostUris.set found.pattern inner

def insertHostUris (hostUris : Router (RouteRouter ρ)) (hosts uris : List String) (proxyRoute : ρ) :
    Except InsertFailure (Router (RouteRouter ρ)) :=
  hosts.foldlM (insertHostUri M uris proxyRoute) hostUris

def insertRoute (m : MatchEntry ρ) (proxyRoute : ρ) : Except InsertFailure (MatchEntry ρ) :=
  match getHosts proxyRoute with
  | [] => do
    let nonHostUri ← insertUris M m.nonHostUri (getUris proxyRoute) proxyRoute
    return { m with nonHostUri }
  | host :: hosts => do
    let hostUris ← insertHostUris M m.hostUris (host :: hosts) (getUris proxyRoute) proxyRoute
    return { m with hostUris }

/-- Higher priorities first, routes of one priority by identifier. -/
def insertionOrder (routes : List ρ) : List ρ :=
  routes.insertionSort fun a b => priority b < priority a ∨ priority a = priority b ∧ routeId a ≤ routeId b

def insertOrdered (m : MatchEntry ρ) (proxyRoute : ρ) : Except CompileFailure (MatchEntry ρ) :=
  (insertRoute M m proxyRoute).mapError fun
    | .insertError e =>
      .error (.configuration s!"Failed to build route matcher for '{routeId proxyRoute}': {e}")
    | .panic => .panic

/-- The matcher of the routes, whether the global rules enable CORS given. -/
def build (routes : HashMap String ρ) (globalCors : Bool) : Except CompileFailure (MatchEntry ρ) :=
  (insertionOrder routes.values).foldlM (insertOrdered M) { globalCors }

/-! ## Matching -/

/-- The captured parameters and the route. -/
abbrev RouteMatchResult (ρ : Type) := Option (List (String × String) × ρ)

def matchUriMethod (matchRouter : RouteRouter ρ) (uri method : String) : RouteMatchResult ρ :=
  match matchRouter.atPath M uri with
  | some v => (v.value.find? (allowsMethod · method)).map fun route => (v.params, route)
  | none => none

/-- The first of the two results, where the host routers are asked only for a nonempty host. -/
def matchHosted (m : MatchEntry ρ) (host : Option String) (matchRouter : RouteRouter ρ → RouteMatchResult ρ) :
    RouteMatchResult ρ :=
  match host.filter (· ≠ "") with
  | none => matchRouter m.nonHostUri
  | some hostStr =>
    match m.hostUris.atPath M (reverseAsciiLowercase hostStr) with
    | none => matchRouter m.nonHostUri
    | some v =>
      match matchRouter v.value with
      | some result => some result
      | none => matchRouter m.nonHostUri

def matchHostUriMethod (m : MatchEntry ρ) (host : Option String) (uri method : String) : RouteMatchResult ρ :=
  matchHosted M m host (matchUriMethod M · uri method)

def matchPreflightUri (matchRouter : RouteRouter ρ) (uri method : String) (globalCors : Bool) :
    RouteMatchResult ρ :=
  match matchRouter.atPath M uri with
  | some matched =>
    (matched.value.find? fun route => (globalCors || servesPreflight route) && allowsMethod route method).map
      fun route => (matched.params, route)
  | none => none

/-- Matching a preflight by the method it asks for, after the request's own method matched nothing. -/
def matchPreflight (m : MatchEntry ρ) (host : Option String) (uri method : String) : RouteMatchResult ρ :=
  matchHosted M m host (matchPreflightUri M · uri method m.globalCors)

/-- What routing reads of a request; the method a preflight asks for only when its value is text. -/
structure RoutedRequest where
  method : String
  host : Option String
  path : String
  origin : Bool := false
  requestMethod : Option String := none
  deriving DecidableEq, Repr

def matchRequest (m : MatchEntry ρ) (request : RoutedRequest) : RouteMatchResult ρ :=
  matchHostUriMethod M m request.host request.path request.method

/-- The preflight fallback; `isMethod` tells which texts the HTTP library accepts as methods. -/
def matchPreflightRequest (isMethod : String → Bool) (m : MatchEntry ρ) (request : RoutedRequest) :
    RouteMatchResult ρ :=
  if request.method ≠ "OPTIONS" ∨ request.origin = false then none
  else
    match request.requestMethod with
    | some method => if isMethod method then matchPreflight M m request.host request.path method else none
    | none => none

/-- The route of a request: the one it matches, or else the one its preflight matches. -/
def routeMatch (isMethod : String → Bool) (m : MatchEntry ρ) (request : RoutedRequest) : RouteMatchResult ρ :=
  match matchRequest M m request with
  | some result => some result
  | none => matchPreflightRequest M isMethod m request

end

end MatchEntry

end Pingsix
