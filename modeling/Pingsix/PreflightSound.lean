import Pingsix.MatcherSound

/-!
# Soundness of the preflight fallback

Both matchers search the same list of routes, those at the request's path under
its host and then those without a host: the one for the first route that allows
the method, the other for the first that also enables CORS.
-/

namespace Pingsix.MatchEntry

open MatchedRoute

/-! ## A search and a stricter one -/

theorem find?_split {α : Type} {q : α → Bool} {before after : List α} {a : α} (hb : ∀ b ∈ before, q b = false)
    (ha : q a = true) : (before ++ a :: after).find? q = some a :=
  List.find?_eq_some_iff_append.mpr ⟨ha, before, after, rfl, fun b h => by simp [hb b h]⟩

/-- A search by two conditions finds what the search by the second finds, exactly when the first element that
meets the second meets both or no later one does. -/
theorem find?_and_agrees {α : Type} {p q : α → Bool} {l : List α} :
    (∀ a, l.find? (fun a => p a && q a) = some a → l.find? q = some a) ↔
      ∀ before a after, l = before ++ a :: after → (∀ b ∈ before, q b = false) → q a = true →
        p a = true ∨ ∀ b ∈ after, q b = true → p b = false := by
  constructor
  · rintro h before a after rfl hb ha
    rw [find?_split hb ha] at h
    by_cases hp : p a = true
    · exact .inl hp
    · refine .inr fun b hm hq => Bool.eq_false_iff.mpr fun hpb => ?_
      -- A later element that meets both makes the stricter search succeed, and only past the first one.
      have hs : ((before ++ a :: after).find? fun a => p a && q a).isSome = true :=
        List.find?_isSome.mpr ⟨b, by simp [hm], by simp [hpb, hq]⟩
      obtain ⟨c, hc⟩ := Option.isSome_iff_exists.mp hs
      have hpc : (p c && q c) = true := List.find?_some (p := fun a => p a && q a) hc
      cases h c hc
      simp [hp] at hpc
  · intro h a hf
    obtain ⟨hpq, before, after, hl, -⟩ := List.find?_eq_some_iff_append.mp hf
    rw [Bool.and_eq_true] at hpq
    cases hq : l.find? q with
    | none => exact absurd hpq.2 (List.find?_eq_none.mp hq a (by simp [hl]))
    | some c =>
      obtain ⟨hqc, before', after', hl', hb'⟩ := List.find?_eq_some_iff_append.mp hq
      have hb' : ∀ b ∈ before', q b = false := fun b hm => by simpa using hb' b hm
      cases h before' c after' hl' hb' hqc with
      | inl hpc =>
        have hs : l.find? (fun a => p a && q a) = some c := by
          rw [hl']
          exact find?_split (q := fun a => p a && q a) (fun b hm => by simp [hb' b hm]) (by simp [hpc, hqc])
        rw [hf] at hs
        exact hs.symm
      | inr hn =>
        have hm : a ∈ before' ++ c :: after' := by rw [← hl', hl]; simp
        rcases List.mem_append.mp hm with hm | hm
        · rw [hb' a hm] at hpq
          cases hpq.2
        · cases hm with
          | head => rfl
          | tail _ hm =>
            rw [hn a hm hpq.2] at hpq
            cases hpq.1

/-! ## The routes both matchers search -/

section
variable {ρ : Type} [MatchedRoute ρ] (M : Matchit)

def routesAt (router : RouteRouter ρ) (uri : String) : List ρ :=
  match router.atPath M uri with
  | some found => found.value
  | none => []

/-- The routes at the path under the host's pattern, then those at the path without a host. -/
def consulted (m : MatchEntry ρ) (host : Option String) (uri : String) : List ρ :=
  let hosted :=
    match (host.filter (· ≠ "")).bind fun hostStr => m.hostUris.atPath M (reverseAsciiLowercase hostStr) with
    | some found => routesAt M found.value uri
    | none => []
  hosted ++ routesAt M m.nonHostUri uri

/-- The preflight asks for a method it may ask for. -/
def RoutedRequest.AsksFor (isMethod : String → Bool) (request : RoutedRequest) (method : String) : Prop :=
  request.method = "OPTIONS" ∧ request.origin = true ∧ request.requestMethod = some method ∧ isMethod method = true

/-- CORS is enabled for the route, by its own plugins or by the global ones. -/
def eligible (m : MatchEntry ρ) (route : ρ) : Bool := m.globalCors || servesPreflight route

/-- The first consulted route that allows the method enables CORS, or no later one that allows it does. -/
def FirstAllowedServes (m : MatchEntry ρ) (host : Option String) (uri method : String) : Prop :=
  ∀ before route after, consulted M m host uri = before ++ route :: after →
    (∀ other ∈ before, allowsMethod other method = false) → allowsMethod route method = true →
      eligible m route = true ∨ ∀ other ∈ after, allowsMethod other method = true → eligible m other = false

variable {M}

omit [MatchedRoute ρ] in
theorem matchHosted_eq (m : MatchEntry ρ) (host : Option String) (uri : String) {q : ρ → Bool}
    {matchRouter : RouteRouter ρ → RouteMatchResult ρ}
    (h : ∀ router, (matchRouter router).map Prod.snd = (routesAt M router uri).find? q) :
    (matchHosted M m host matchRouter).map Prod.snd = (consulted M m host uri).find? q := by
  unfold matchHosted consulted
  cases host.filter (· ≠ "") with
  | none => simp [h]
  | some hostStr =>
    simp only [Option.bind_some]
    cases m.hostUris.atPath M (reverseAsciiLowercase hostStr) with
    | none => simp [h]
    | some found =>
      have hv := h found.value
      simp only [List.find?_append, ← hv]
      cases matchRouter found.value with
      | some result => simp
      | none => simp [h]

theorem matchHostUriMethod_route (m : MatchEntry ρ) (host : Option String) (uri method : String) :
    (matchHostUriMethod M m host uri method).map Prod.snd = (consulted M m host uri).find? (allowsMethod · method) := by
  refine matchHosted_eq m host uri fun router => ?_
  unfold matchUriMethod routesAt
  cases router.atPath M uri with
  | none => rfl
  | some found => simp

theorem matchPreflight_route (m : MatchEntry ρ) (host : Option String) (uri method : String) :
    (matchPreflight M m host uri method).map Prod.snd =
      (consulted M m host uri).find? fun route => eligible m route && allowsMethod route method := by
  refine matchHosted_eq m host uri fun router => ?_
  unfold matchPreflightUri routesAt
  cases router.atPath M uri with
  | none => rfl
  | some found => simp [eligible]

theorem matchPreflight_agrees (m : MatchEntry ρ) (host : Option String) (uri method : String) :
    (∀ params route, matchPreflight M m host uri method = some (params, route) →
      ∃ params', matchHostUriMethod M m host uri method = some (params', route)) ↔
      FirstAllowedServes M m host uri method := by
  unfold FirstAllowedServes
  rw [← find?_and_agrees (p := eligible m) (q := (allowsMethod · method)), ← matchHostUriMethod_route,
    ← matchPreflight_route]
  simp only [Option.map_eq_some_iff, Prod.exists, exists_eq_right, forall_exists_index]
  exact forall_comm

theorem matchPreflightRequest_eq_some {isMethod : String → Bool} {m : MatchEntry ρ} {request : RoutedRequest}
    {result : List (String × String) × ρ} :
    matchPreflightRequest M isMethod m request = some result ↔
      ∃ method, request.AsksFor isMethod method ∧ matchPreflight M m request.host request.path method = some result := by
  unfold matchPreflightRequest RoutedRequest.AsksFor
  cases request.requestMethod with
  | none => simp
  | some method => grind

/-! ## Main result -/

/-- The route of a preflight is the one that a request with the method it asks for is routed to, exactly when the
first consulted route that allows this method enables CORS or no later one that allows it does. -/
theorem preflight_agrees_iff (isMethod : String → Bool) (m : MatchEntry ρ) (request : RoutedRequest) :
    (∀ params route, matchPreflightRequest M isMethod m request = some (params, route) →
      ∃ method, request.AsksFor isMethod method ∧
        ∃ params', matchRequest M m { request with method } = some (params', route)) ↔
      ∀ method, request.AsksFor isMethod method → FirstAllowedServes M m request.host request.path method := by
  constructor
  · intro h method ha
    refine (matchPreflight_agrees m request.host request.path method).mp fun params route hp => ?_
    obtain ⟨method', ha', params', hr⟩ := h params route (matchPreflightRequest_eq_some.mpr ⟨method, ha, hp⟩)
    cases ha.2.2.1.symm.trans ha'.2.2.1
    exact ⟨params', hr⟩
  · intro h params route hp
    obtain ⟨method, ha, hp⟩ := matchPreflightRequest_eq_some.mp hp
    exact ⟨method, ha, (matchPreflight_agrees m request.host request.path method).mpr (h method ha) params route hp⟩

end

/-! ## A route without CORS before one with it -/

/-- A compiled route whose only plugin is CORS with its defaults. -/
def corsRoute (id uri : String) (methods : List String) : ProxyRoute ProxyUpstream :=
  let config := Json.obj ∅
  let entry : PluginEntry ProxyUpstream :=
    { generation := 1, owner := .route id, name := "cors", priority := 4000, plugin := .plain config }
  let route := plainRoute id uri methods
  { route with
    inner := { route.inner with plugins := AList.insert "cors" config ∅ }
    plugins := [entry]
    pluginExecutor := .fromSorted [entry]
    servesPreflight := true }

/-- The route that comes first has no CORS, and both allow the method asked for and not OPTIONS. -/
def shadowed : HashMap String (ProxyRoute ProxyUpstream) :=
  (AList.insert "public" (corsRoute "public" "/items" ["PUT"]) ∅).insert "admin" (plainRoute "admin" "/items" ["PUT"])

/-- The preflight of a request matches no route itself and is answered by the CORS route, while the request is
served by the other. -/
theorem preflight_of_shadowed :
    ¬∀ (routes : HashMap String (ProxyRoute ProxyUpstream)) (globalCors : Bool)
      (m : MatchEntry (ProxyRoute ProxyUpstream)) (isMethod : String → Bool) (request : RoutedRequest),
      build Matchit.staticFirst routes globalCors = .ok m → matchRequest Matchit.staticFirst m request = none →
        ∀ params route, matchPreflightRequest Matchit.staticFirst isMethod m request = some (params, route) →
          ∃ method, request.AsksFor isMethod method ∧
            ∃ params', matchRequest Matchit.staticFirst m { request with method } = some (params', route) := by
  intro h
  let m : MatchEntry (ProxyRoute ProxyUpstream) := { nonHostUri := ⟨AList.insert "/items"
    [plainRoute "admin" "/items" ["PUT"], corsRoute "public" "/items" ["PUT"]] ∅⟩ }
  have hp : matchPreflight Matchit.staticFirst m none "/items" "PUT" =
    some ([], corsRoute "public" "/items" ["PUT"]) := rfl
  have hs : matchHostUriMethod Matchit.staticFirst m none "/items" "PUT" =
    some ([], plainRoute "admin" "/items" ["PUT"]) := rfl
  let request : RoutedRequest :=
    { method := "OPTIONS", host := none, path := "/items", origin := true, requestMethod := some "PUT" }
  have ha : request.AsksFor (fun text => text = "PUT") "PUT" := ⟨rfl, rfl, rfl, rfl⟩
  have hn : matchRequest Matchit.staticFirst m request = none := Option.isNone_iff_eq_none.mp (by decide)
  obtain ⟨method, ha', params, hr⟩ :=
    h shadowed false m _ request rfl hn [] _ (matchPreflightRequest_eq_some.mpr ⟨"PUT", ha, hp⟩)
  cases ha'.2.2.1
  have he := hs.symm.trans hr
  rw [Option.some.injEq, Prod.mk.injEq] at he
  exact absurd (congrArg (·.servesPreflight) he.2) (by decide)

end Pingsix.MatchEntry
