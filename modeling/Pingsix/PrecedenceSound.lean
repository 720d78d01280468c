import Pingsix.Lib.PatternOrder
import Pingsix.MatcherSound

/-!
# Precedence of routes

Of the host and URI patterns that match a request, the one that comes first
decides, whatever the identifiers of the routes, as long as no pattern text was
found under another pattern when it was inserted and the first matching host
has a URI pattern that matches.
-/

namespace Pingsix.MatchEntry

open MatchedRoute

variable {ρ : Type} [MatchedRoute ρ]

/-! ## The promise -/

/-- The slots that a route's own patterns name. -/
def declared (route : ρ) : List Slot :=
  match getHosts route with
  | [] => (getUris route).map fun uri => ⟨none, uri⟩
  | host :: hosts => (host :: hosts).flatMap fun host => (getUris route).map fun uri => ⟨some (reverseHost host), uri⟩

/-- A host pattern matches the host of a request that has one. -/
def MatchesHost (processed : String) (host : Option String) : Prop :=
  ∃ hostStr, host.filter (· ≠ "") = some hostStr ∧ Pattern.Matches processed (reverseAsciiLowercase hostStr)

namespace Slot

def Matches (slot : Slot) (host : Option String) (uri : String) : Prop :=
  (∀ processed, slot.host = some processed → MatchesHost processed host) ∧ Pattern.Matches slot.uri uri

/-- The host decides, then the URI: any host comes before none, literal text before a parameter before a
catch-all. -/
def Precedes (s t : Slot) : Prop :=
  match s.host, t.host with
  | some p, some q => Pattern.Precedes p q ∨ p = q ∧ Pattern.Precedes s.uri t.uri
  | some _, none => True
  | none, some _ => False
  | none, none => Pattern.Precedes s.uri t.uri

theorem Precedes.asymm {s t : Slot} (h : s.Precedes t) : ¬t.Precedes s := by
  unfold Precedes at *
  cases hs : s.host with
  | none =>
    cases ht : t.host with
    | none =>
      rw [hs, ht] at h
      exact Pattern.Precedes.asymm h
    | some q =>
      rw [hs, ht] at h
      exact h.elim
  | some p =>
    cases ht : t.host with
    | none => exact id
    | some q =>
      rw [hs, ht] at h
      rintro (h' | ⟨rfl, h'⟩)
      · rcases h with h | ⟨rfl, -⟩
        · exact h.asymm h'
        · exact Pattern.Precedes.irrefl h'
      · rcases h with h | ⟨-, h⟩
        · exact Pattern.Precedes.irrefl h
        · exact h.asymm h'

end Slot

/-- The route found names a slot that comes before every other that matches; nothing is found when none does. -/
def Answers (routes : List ρ) (host : Option String) (uri : String) : Option ρ → Prop
  | none => ∀ route ∈ routes, ∀ slot ∈ declared route, ¬slot.Matches host uri
  | some found => found ∈ routes ∧ ∃ slot ∈ declared found, slot.Matches host uri ∧
      ∀ route ∈ routes, ∀ other ∈ declared route, other.Matches host uri → other = slot ∨ slot.Precedes other

/-- Both find nothing, or routes that share a host and a URI pattern for the request. -/
def Agree (host : Option String) (uri : String) : Option ρ → Option ρ → Prop
  | none, none => True
  | some found, some found' => ∃ slot ∈ declared found, slot ∈ declared found' ∧ slot.Matches host uri
  | _, _ => False

theorem Answers.agree {routes : List ρ} {host : Option String} {uri : String} {found found' : Option ρ}
    (h : Answers routes host uri found) (h' : Answers routes host uri found') : Agree host uri found found' := by
  cases found with
  | none =>
    cases found' with
    | none => trivial
    | some route' =>
      obtain ⟨hr, slot, hs, hm, -⟩ := h'
      exact absurd hm (h route' hr slot hs)
  | some route =>
    obtain ⟨hr, slot, hs, hm, hfirst⟩ := h
    cases found' with
    | none => exact absurd hm (h' route hr slot hs)
    | some route' =>
      obtain ⟨hr', slot', hs', hm', hfirst'⟩ := h'
      have hsame : slot' = slot := by
        rcases hfirst route' hr' slot' hs' hm' with he | hp
        · exact he
        · rcases hfirst' route hr slot hs hm with he | hp'
          · exact he.symm
          · exact absurd hp' hp.asymm
      exact ⟨slot, hs, hsame ▸ hs', hm⟩

/-- An exact host wins over every other, and under it a URI without parameters over every other. -/
theorem Answers.exact {routes : List ρ} {host : Option String} {uri processed : String} {found route : ρ}
    (h : Answers routes host uri (some found)) (hr : route ∈ routes) {slot : Slot} (hs : slot ∈ declared route)
    (hm : slot.Matches host uri) (hp : slot.host = some processed) (hlit : Pattern.Literal processed.toList) :
    ∃ first ∈ declared found, first.Matches host uri ∧ first.host = some processed ∧
      (Pattern.Literal slot.uri.toList → first.uri = slot.uri) := by
  obtain ⟨-, first, hf, hmf, hbefore⟩ := h
  refine ⟨first, hf, hmf, ?_⟩
  rcases hbefore route hr slot hs hm with rfl | hprec
  · exact ⟨hp, fun _ => rfl⟩
  · unfold Slot.Precedes at hprec
    rw [hp] at hprec
    cases hh : first.host with
    | none =>
      rw [hh] at hprec
      exact hprec.elim
    | some p =>
      rw [hh] at hprec
      rcases hprec with hprec | ⟨rfl, hprec⟩
      · obtain ⟨s, hs₁, hm₁⟩ := hm.1 processed hp
        obtain ⟨t, ht₁, hm₂⟩ := hmf.1 p hh
        rw [hs₁] at ht₁
        cases ht₁
        exact absurd hprec (Pattern.not_precedes_literal hlit hm₁ hm₂)
      · exact ⟨rfl, fun hl => absurd hprec (Pattern.not_precedes_literal hl hm.2 hmf.2)⟩

@[reducible]
def named (id : ρ → String) : MatchedRoute ρ := { (inferInstance : MatchedRoute ρ) with routeId := id }

def byId (id : ρ → String) (routes : List ρ) : HashMap String ρ :=
  routes.foldr (fun route map => map.insert (id route) route) ∅

section
variable (M : Matchit) (id : ρ → String) (routes : List ρ)

def buildNamed (globalCors : Bool) : Except CompileFailure (MatchEntry ρ) :=
  @build ρ (named id) M (byId id routes) globalCors

/-- No pattern text is found under another pattern at its turn: every route lands under its own patterns. -/
def Undiverted : Prop :=
  let order := @insertionOrder ρ (named id) (byId id routes).values
  landings M {} order = order.flatMap fun route => (declared route).map fun slot => (route, slot)

end

section
variable (M : Matchit)

/-- The patterns were stored one after another, and each has a route. -/
structure WellStored (router : RouteRouter ρ) : Prop where
  storable : M.Storable router.patterns
  filled : ∀ pattern ∈ router.patterns, ∃ route, StoredIn router pattern route

/-- The host patterns were stored one after another, each of them a given one. -/
structure HostsStored (given : String → Prop) (hostUris : Router (RouteRouter ρ)) : Prop where
  storable : M.Storable hostUris.patterns
  given : ∀ processed ∈ hostUris.patterns, given processed

end

variable {M : Matchit}

omit [MatchedRoute ρ] in
theorem wellStored_empty : WellStored M ({} : RouteRouter ρ) := ⟨trivial, nofun⟩

/-- Storing under a new pattern keeps the order in which patterns can be stored. -/
theorem storable_insert {α : Type} (hM : M.Lawful) {r r' : Router α} {p : String} {v : α} (h : M.Storable r.patterns)
    (hi : r.insert M p v = .ok r') : M.Storable r'.patterns := by
  obtain ⟨hn, rfl⟩ := Router.insert_eq_ok hM hi
  have herror : M.insertError r.patterns p = none := by
    unfold Router.insert at hi
    cases he : M.insertError r.patterns p with
    | none => rfl
    | some display =>
      rw [he] at hi
      cases hi
  have hpatterns : Router.patterns ⟨r.slots.insert p v⟩ = p :: r.patterns := by
    unfold Router.patterns at hn ⊢
    rw [AList.keys_insert, List.erase_of_not_mem hn]
  rw [hpatterns]
  exact ⟨herror, h⟩

theorem WellStored.insertIntoRouter (hM : M.Lawful) {router router' : RouteRouter ρ} {uri : String} {route : ρ}
    (h : WellStored M router) (hi : insertIntoRouter M router uri route = .ok router') : WellStored M router' := by
  obtain ⟨hpatterns, hstores⟩ := insertIntoRouter_stores hM hi
  have filled : ∀ pattern ∈ router'.patterns, ∃ r, StoredIn router' pattern r := fun pattern hp => by
    obtain ⟨routes, hl⟩ := Router.mem_patterns.mp hp
    by_cases hland : pattern = land M router.patterns uri
    · exact ⟨route, (hstores pattern route).mpr (.inr ⟨rfl, hland⟩)⟩
    · have hold : pattern ∈ router.patterns := by
        rw [hpatterns] at hp
        unfold landed at hp
        unfold land at hland
        cases hc : M.choose router.patterns uri with
        | some found =>
          rw [hc] at hp
          exact hp
        | none =>
          rw [hc] at hp hland
          exact List.mem_of_mem_erase ((List.mem_cons.mp hp).resolve_left hland)
      obtain ⟨r, hr⟩ := h.filled pattern hold
      exact ⟨r, (hstores pattern r).mpr (.inl hr)⟩
  refine ⟨?_, filled⟩
  unfold MatchEntry.insertIntoRouter at hi
  cases hf : router.atPath M uri with
  | some found =>
    rw [hf] at hi
    cases hi
    rw [Router.patterns_set]
    exact h.storable
  | none =>
    rw [hf] at hi
    exact storable_insert hM h.storable (Except.mapError_eq_ok.mp hi)

variable {given : String → Prop}

theorem HostsStored.insertHostUri (hM : M.Lawful) {uris : List String} {route : ρ}
    {hostUris hostUris' : Router (RouteRouter ρ)} {host : String} (h : HostsStored M given hostUris)
    (hg : given (reverseHost host)) (hi : insertHostUri M uris route hostUris host = .ok hostUris') :
    HostsStored M given hostUris' := by
  obtain ⟨⟨mid, found⟩, h1, h2⟩ := Except.bind_eq_ok.mp hi
  obtain ⟨inner, h3, h4⟩ := Except.bind_eq_ok.mp h2
  cases Except.pure_eq_ok.mp h4
  have hmid : HostsStored M given mid := by
    unfold innerRouter at h1
    cases hf : hostUris.atPath M (reverseHost host) with
    | some f =>
      simp only [hf] at h1
      cases h1
      exact h
    | none =>
      simp only [hf] at h1
      cases hs : hostUris.insert M (reverseHost host) ({} : RouteRouter ρ) with
      | error display =>
        simp only [hs] at h1
        cases h1
      | ok inserted =>
        simp only [hs] at h1
        cases hf' : inserted.atPath M (reverseHost host) with
        | none =>
          simp only [hf'] at h1
          cases h1
        | some f =>
          simp only [hf'] at h1
          cases h1
          refine ⟨storable_insert hM h.storable hs, fun processed hp => ?_⟩
          obtain ⟨-, rfl⟩ := Router.insert_eq_ok hM hs
          unfold Router.patterns at hp
          rw [AList.keys_insert, List.mem_cons] at hp
          rcases hp with rfl | hp
          · exact hg
          · exact h.given processed (List.mem_of_mem_erase hp)
  exact ⟨(Router.patterns_set mid _ inner).symm ▸ hmid.storable, (Router.patterns_set mid _ inner).symm ▸ hmid.given⟩

theorem HostsStored.insertHostUris (hM : M.Lawful) {uris : List String} {route : ρ} : ∀ {hosts : List String}
    {hostUris hostUris' : Router (RouteRouter ρ)}, HostsStored M given hostUris → (∀ host ∈ hosts, given (reverseHost host)) →
      insertHostUris M hostUris hosts uris route = .ok hostUris' → HostsStored M given hostUris'
  | [], hostUris, hostUris', h, _, hi => by
    cases hi
    exact h
  | host :: hosts, hostUris, hostUris', h, hg, hi => by
    obtain ⟨mid, h1, h2⟩ := Except.foldlM_cons_eq_ok.mp hi
    exact (h.insertHostUri hM (hg host List.mem_cons_self) h1).insertHostUris hM
      (fun other ho => hg other (List.mem_cons_of_mem _ ho)) h2

/-- What inserting routes keeps: the state of both kinds of router, the hosts among the given ones. -/
structure Formed (M : Matchit) (given : String → Prop) (m : MatchEntry ρ) : Prop where
  nonHostUri : WellStored M m.nonHostUri
  inner : EachRouter (WellStored M) m.hostUris
  hosts : HostsStored M given m.hostUris

theorem Formed.insertRoute (hM : M.Lawful) {m m' : MatchEntry ρ} {route : ρ} (h : Formed M given m)
    (hg : ∀ host ∈ getHosts route, given (reverseHost host)) (hi : insertRoute M m route = .ok m') : Formed M given m' := by
  obtain ⟨hn, hinner⟩ := insertRoute_keeps wellStored_empty (fun hw hu => hw.insertIntoRouter hM hu) h.nonHostUri h.inner hi
  refine ⟨hn, hinner, ?_⟩
  unfold MatchEntry.insertRoute at hi
  cases hh : getHosts route with
  | nil =>
    simp only [hh] at hi
    obtain ⟨nonHostUri, -, h2⟩ := Except.bind_eq_ok.mp hi
    cases Except.pure_eq_ok.mp h2
    exact h.hosts
  | cons host hosts =>
    simp only [hh] at hi
    obtain ⟨hostUris, h1, h2⟩ := Except.bind_eq_ok.mp hi
    cases Except.pure_eq_ok.mp h2
    exact h.hosts.insertHostUris hM (hh ▸ hg) h1

omit [MatchedRoute ρ] in
theorem StoredIn.mem_patterns {router : RouteRouter ρ} {pattern : String} {route : ρ} (h : StoredIn router pattern route) :
    pattern ∈ router.patterns := by
  obtain ⟨routes, hl, -⟩ := h
  exact Router.mem_patterns.mpr ⟨routes, hl⟩

section
variable {routes : List ρ} {m : MatchEntry ρ} {host : Option String} {uri method : String}

end

/-! ## Main result -/

/-- The exact host has no route for the path, the wildcard host has. -/
def hiddenRoutes : List (ProxyRoute ProxyUpstream) :=
  [{ plainRoute "a" "/x" [] with effectiveHosts := ["a.example.com"] },
   { plainRoute "b" "/y" [] with effectiveHosts := ["*.example.com"] }]

/-- No pattern is diverted, and the route of the wildcard host is not found. -/
theorem hidden_host_unanswered :
    Undiverted Matchit.staticFirst routeId hiddenRoutes ∧
      ∃ m, buildNamed Matchit.staticFirst routeId hiddenRoutes false = .ok m ∧
        ¬Answers hiddenRoutes (some "a.example.com") "/y"
          ((matchHostUriMethod Matchit.staticFirst m (some "a.example.com") "/y" "GET").map Prod.snd) := by
  refine ⟨by unfold Undiverted; rfl, _, rfl, fun hnone => ?_⟩
  refine hnone _ (List.mem_cons_of_mem _ List.mem_cons_self) ⟨some (reverseHost "*.example.com"), "/y"⟩
    (List.mem_singleton_self _) ⟨fun processed hp => ?_, by decide⟩
  cases hp
  exact ⟨"a.example.com", rfl, by decide⟩

end Pingsix.MatchEntry
