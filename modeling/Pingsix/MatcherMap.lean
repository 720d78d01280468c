import Pingsix.Lib.Naturality
import Pingsix.Matcher

/-!
# Route matchers under a change of routes

A map of routes that keeps everything the matcher reads commutes with building a
matcher and with every lookup in it.
-/

namespace Pingsix

open MatchedRoute

/-- Everything the matcher reads of a route is kept. -/
structure KeepsRoute {ρ ρ' : Type} [MatchedRoute ρ] [MatchedRoute ρ'] (g : ρ → ρ') : Prop where
  routeId : ∀ r, routeId (g r) = routeId r
  priority : ∀ r, priority (g r) = priority r
  getHosts : ∀ r, getHosts (g r) = getHosts r
  getUris : ∀ r, getUris (g r) = getUris r
  methods : ∀ r, methods (g r) = methods r
  servesPreflight : ∀ r, servesPreflight (g r) = servesPreflight r

namespace MatchEntry

section
variable {ρ ρ' : Type} [MatchedRoute ρ] [MatchedRoute ρ'] {g : ρ → ρ'} (hg : KeepsRoute g) (M : Matchit)

def mapRouter (g : ρ → ρ') : RouteRouter ρ → RouteRouter ρ' := Router.map (List.map g)

def map (g : ρ → ρ') (m : MatchEntry ρ) : MatchEntry ρ' where
  nonHostUri := mapRouter g m.nonHostUri
  hostUris := m.hostUris.map (mapRouter g)
  globalCors := m.globalCors

/-! ## Insertion -/

include hg

theorem sortByPriority_map (routes : List ρ) : sortByPriority (routes.map g) = (sortByPriority routes).map g :=
  (List.map_insertionSort _ _ _ _ fun a _ b _ => by rw [hg.priority, hg.priority]).symm

theorem insertIntoRouter_map (router : RouteRouter ρ) (uri : String) (r : ρ) :
    insertIntoRouter M (mapRouter g router) uri (g r) = (insertIntoRouter M router uri r).map (mapRouter g) := by
  unfold insertIntoRouter mapRouter
  rw [Router.atPath_map]
  cases router.atPath M uri with
  | some found =>
    show Except.ok _ = Except.ok _
    rw [Router.map_set, ← sortByPriority_map hg, List.map_append]
    rfl
  | none =>
    simp only [Option.map_none]
    rw [show [g r] = List.map g [r] from rfl, Router.insert_map]
    cases router.insert M uri [r] with
    | error e => rfl
    | ok router' => rfl

theorem insertUris_map (router : RouteRouter ρ) (uris : List String) (r : ρ) :
    insertUris M (mapRouter g router) uris (g r) = (insertUris M router uris r).map (mapRouter g) :=
  Except.foldlM_map (fun router uri => insertIntoRouter_map hg M router uri r) uris router

end

section
variable {ρ ρ' : Type} {g : ρ → ρ'} (M : Matchit)

theorem innerRouter_map (hostUris : Router (RouteRouter ρ)) (host : String) :
    innerRouter M (hostUris.map (mapRouter g)) host =
      (innerRouter M hostUris host).map fun x => (x.1.map (mapRouter g), x.2.map (mapRouter g)) := by
  have hempty : ({} : RouteRouter ρ') = mapRouter g {} := rfl
  unfold innerRouter
  rw [Router.atPath_map, hempty, Router.insert_map]
  cases hostUris.atPath M host with
  | some found => rfl
  | none =>
    simp only [Option.map_none]
    cases hostUris.insert M host {} with
    | error e => rfl
    | ok hosts =>
      simp only [Except.map, Router.atPath_map]
      cases hosts.atPath M host with
      | some found => rfl
      | none => rfl

end

section
variable {ρ ρ' : Type} [MatchedRoute ρ] [MatchedRoute ρ'] {g : ρ → ρ'} (hg : KeepsRoute g) (M : Matchit)
include hg

theorem insertHostUri_map (uris : List String) (r : ρ) (hostUris : Router (RouteRouter ρ)) (host : String) :
    insertHostUri M uris (g r) (hostUris.map (mapRouter g)) host =
      (insertHostUri M uris r hostUris host).map (Router.map (mapRouter g)) := by
  unfold insertHostUri
  rw [innerRouter_map]
  cases innerRouter M hostUris (reverseHost host) with
  | error e => rfl
  | ok x =>
    show (insertUris M (mapRouter g x.2.value) uris (g r) >>= fun inner => _) = _
    rw [insertUris_map hg]
    show _ = Except.map _ (insertUris M x.2.value uris r >>= fun inner => pure (x.1.set x.2.pattern inner))
    cases insertUris M x.2.value uris r with
    | error e => rfl
    | ok inner => exact congrArg Except.ok (Router.map_set (mapRouter g) x.1 x.2.pattern inner).symm

theorem insertRoute_map (m : MatchEntry ρ) (r : ρ) :
    insertRoute M (m.map g) (g r) = (insertRoute M m r).map (MatchEntry.map g) := by
  unfold insertRoute
  rw [hg.getHosts, hg.getUris]
  cases getHosts r with
  | nil =>
    show (insertUris M (mapRouter g m.nonHostUri) (getUris r) (g r) >>= fun nonHostUri => _) = _
    rw [insertUris_map hg]
    show _ = Except.map _ (insertUris M m.nonHostUri (getUris r) r >>= fun nonHostUri => pure { m with nonHostUri })
    cases insertUris M m.nonHostUri (getUris r) r with
    | error e => rfl
    | ok nonHostUri => rfl
  | cons host hosts =>
    have hfold : insertHostUris M (m.map g).hostUris (host :: hosts) (getUris r) (g r) =
        (insertHostUris M m.hostUris (host :: hosts) (getUris r) r).map (Router.map (mapRouter g)) :=
      Except.foldlM_map (fun hostUris host => insertHostUri_map hg M (getUris r) r hostUris host) _ m.hostUris
    show (insertHostUris M (m.map g).hostUris (host :: hosts) (getUris r) (g r) >>= fun hostUris => _) = _
    rw [hfold]
    show _ = Except.map _ (insertHostUris M m.hostUris (host :: hosts) (getUris r) r >>= fun hostUris =>
      pure { m with hostUris })
    cases insertHostUris M m.hostUris (host :: hosts) (getUris r) r with
    | error e => rfl
    | ok hostUris => rfl

theorem insertOrdered_map (m : MatchEntry ρ) (r : ρ) :
    insertOrdered M (m.map g) (g r) = (insertOrdered M m r).map (MatchEntry.map g) := by
  unfold insertOrdered
  rw [insertRoute_map hg, hg.routeId]
  cases insertRoute M m r with
  | error e => rfl
  | ok m' => rfl

theorem insertionOrder_map (routes : List ρ) : insertionOrder (routes.map g) = (insertionOrder routes).map g :=
  (List.map_insertionSort _ _ _ _ fun a _ b _ => by
    rw [hg.priority, hg.priority, hg.routeId, hg.routeId]).symm

/-- The matcher of the mapped routes is the mapped matcher. -/
theorem build_map (routes : HashMap String ρ) (globalCors : Bool) :
    build M (routes.mapValues fun _ => g) globalCors = (build M routes globalCors).map (MatchEntry.map g) := by
  have hvalues : (routes.mapValues fun _ => g).values = routes.values.map g := by
    unfold HashMap.values
    rw [HashMap.entries_mapValues, List.map_map, List.map_map]
    rfl
  unfold build
  rw [hvalues, insertionOrder_map hg, List.foldlM_map]
  exact @Except.foldlM_map _ _ _ _ (insertOrdered M) (fun m r => insertOrdered M m (g r)) (MatchEntry.map g)
    (fun m r => insertOrdered_map hg M m r) (insertionOrder routes.values) { globalCors }

/-! ## Matching -/

theorem allowsMethod_map (r : ρ) (method : String) : allowsMethod (g r) method = allowsMethod r method := by
  unfold allowsMethod
  rw [hg.methods]

theorem matchUriMethod_map (router : RouteRouter ρ) (uri method : String) :
    matchUriMethod M (mapRouter g router) uri method = (matchUriMethod M router uri method).map (Prod.map id g) := by
  unfold matchUriMethod mapRouter
  rw [Router.atPath_map]
  cases router.atPath M uri with
  | none => rfl
  | some found =>
    show (List.find? _ (found.value.map g)).map _ = _
    rw [List.find?_map, Option.map_map, Option.map_map]
    simp only [Function.comp_def, allowsMethod_map hg]
    rfl

theorem matchPreflightUri_map (router : RouteRouter ρ) (uri method : String) (globalCors : Bool) :
    matchPreflightUri M (mapRouter g router) uri method globalCors =
      (matchPreflightUri M router uri method globalCors).map (Prod.map id g) := by
  unfold matchPreflightUri mapRouter
  rw [Router.atPath_map]
  cases router.atPath M uri with
  | none => rfl
  | some found =>
    show (List.find? _ (found.value.map g)).map _ = _
    rw [List.find?_map, Option.map_map, Option.map_map]
    simp only [Function.comp_def, allowsMethod_map hg, hg.servesPreflight]
    rfl

end

section
variable {ρ ρ' : Type} {g : ρ → ρ'} (M : Matchit)

theorem matchHosted_map (m : MatchEntry ρ) (host : Option String) {look : RouteRouter ρ → RouteMatchResult ρ}
    {look' : RouteRouter ρ' → RouteMatchResult ρ'}
    (h : ∀ router, look' (mapRouter g router) = (look router).map (Prod.map id g)) :
    matchHosted M (m.map g) host look' = (matchHosted M m host look).map (Prod.map id g) := by
  unfold matchHosted
  cases host.filter (· ≠ "") with
  | none => exact h m.nonHostUri
  | some hostStr =>
    unfold MatchEntry.map
    simp only [Router.atPath_map]
    cases m.hostUris.atPath M (reverseAsciiLowercase hostStr) with
    | none => exact h m.nonHostUri
    | some found =>
      simp only [Option.map_some, Match.map, h]
      cases look found.value with
      | none => rfl
      | some result => rfl

end

section
variable {ρ ρ' : Type} [MatchedRoute ρ] [MatchedRoute ρ'] {g : ρ → ρ'} (hg : KeepsRoute g) (M : Matchit)
include hg

/-- A request's route in the mapped matcher is its mapped route. -/
theorem routeMatch_map (isMethod : String → Bool) (m : MatchEntry ρ) (request : RoutedRequest) :
    routeMatch M isMethod (m.map g) request = (routeMatch M isMethod m request).map (Prod.map id g) := by
  have hrequest : matchRequest M (m.map g) request = (matchRequest M m request).map (Prod.map id g) :=
    @matchHosted_map _ _ g M m request.host (matchUriMethod M · request.path request.method)
      (matchUriMethod M · request.path request.method) fun router =>
        matchUriMethod_map hg M router request.path request.method
  have hpreflight (method : String) : matchPreflight M (m.map g) request.host request.path method =
      (matchPreflight M m request.host request.path method).map (Prod.map id g) :=
    @matchHosted_map _ _ g M m request.host (matchPreflightUri M · request.path method m.globalCors)
      (matchPreflightUri M · request.path method m.globalCors) fun router =>
        matchPreflightUri_map hg M router request.path method m.globalCors
  unfold routeMatch
  rw [hrequest]
  cases matchRequest M m request with
  | some result => rfl
  | none =>
    simp only [Option.map_none]
    unfold matchPreflightRequest
    split
    · rfl
    · cases request.requestMethod with
      | none => rfl
      | some method =>
        simp only [hpreflight]
        split
        · rfl
        · rfl

end

end MatchEntry

end Pingsix
