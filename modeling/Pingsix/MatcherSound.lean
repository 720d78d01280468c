import Pingsix.Compile

/-!
# Soundness of the route matcher

A route is served only for the hosts, paths and methods it declares, and stored
only under patterns its own ones cover, exactly when no pattern text is found,
when its turn comes, under a stored pattern that matches more.
-/

namespace Pingsix.MatchEntry

open MatchedRoute

variable {ρ : Type} [MatchedRoute ρ]

/-! ## The promise -/

def HostMatches (pattern host : String) : Prop :=
  Pattern.Matches (reverseHost pattern) (reverseAsciiLowercase host)

/-- The route declares the request's host, path and method. -/
def Declares (route : ρ) (host : Option String) (uri method : String) : Prop :=
  (getHosts route = [] ∨ ∃ hostStr, host = some hostStr ∧ ∃ pattern ∈ getHosts route, HostMatches pattern hostStr) ∧
    (∃ pattern ∈ getUris route, Pattern.Matches pattern uri) ∧ (methods route = [] ∨ method ∈ methods route)

/-- Where routes are stored: under a URI pattern, in the router of a processed host pattern or of no host. -/
structure Slot where
  host : Option String
  uri : String
  deriving DecidableEq, Repr

def StoredIn (router : RouteRouter ρ) (pattern : String) (route : ρ) : Prop :=
  ∃ routes, router.slots.lookup pattern = some routes ∧ route ∈ routes

def StoredInHost (hostUris : Router (RouteRouter ρ)) (host pattern : String) (route : ρ) : Prop :=
  ∃ router, hostUris.slots.lookup host = some router ∧ StoredIn router pattern route

def Stores (m : MatchEntry ρ) (slot : Slot) (route : ρ) : Prop :=
  match slot.host with
  | none => StoredIn m.nonHostUri slot.uri route
  | some host => StoredInHost m.hostUris host slot.uri route

/-- The slot is no less specific than the route: its own patterns match every host and path the slot's do. -/
def Covers (route : ρ) (slot : Slot) : Prop :=
  (match slot.host with
    | none => getHosts route = []
    | some processed => ∀ host, Pattern.Matches processed (reverseAsciiLowercase host) →
        ∃ pattern ∈ getHosts route, HostMatches pattern host) ∧
    ∀ uri, Pattern.Matches slot.uri uri → ∃ pattern ∈ getUris route, Pattern.Matches pattern uri

/-- Matched routes declare the request, and no route is stored under a less specific pattern. -/
def Sound (M : Matchit) (m : MatchEntry ρ) : Prop :=
  (∀ (host : Option String) (uri method : String) (params : List (String × String)) (route : ρ),
    matchHostUriMethod M m host uri method = some (params, route) → Declares route host uri method) ∧
    ∀ (slot : Slot) (route : ρ), Stores m slot route → Covers route slot

theorem toLower_ne {c d : Char} (hd : 122 < d.toNat) (h : c ≠ d) : c.toLower ≠ d := by
  unfold Char.toLower
  split
  · rename_i hu
    intro he
    have h1 : (c.val + ('a'.val - 'A'.val)).toNat = d.toNat := congrArg Char.toNat he
    have h2 : c.val.toNat ≤ 90 := UInt32.le_iff_toNat_le.mp hu.2
    have h3 : ('a'.val - 'A'.val).toNat = 32 := rfl
    rw [UInt32.toNat_add, h3] at h1
    omega
  · exact h

theorem literal_reverseAsciiLowercase {text : String} (h : Pattern.Literal text.toList) :
    Pattern.Literal (reverseAsciiLowercase text).toList := by
  intro c hc
  simp only [reverseAsciiLowercase, String.toList_ofList, List.mem_map, List.mem_reverse] at hc
  obtain ⟨d, hd, rfl⟩ := hc
  obtain ⟨h1, h2⟩ := h d hd
  exact ⟨toLower_ne (by decide) h1, toLower_ne (by decide) h2⟩

/-- An exact host pattern matches its host up to ASCII case. -/
theorem hostMatches_exact {pattern host : String} (h : Pattern.Literal pattern.toList)
    (hn : Text.stripPrefix pattern "*" = none) :
    HostMatches pattern host ↔ reverseAsciiLowercase host = reverseAsciiLowercase pattern := by
  unfold HostMatches reverseHost
  rw [hn]
  exact Pattern.matches_literal (literal_reverseAsciiLowercase h)

/-- A wildcard host pattern matches, up to ASCII case, the hosts that properly end in its domain part. -/
theorem hostMatches_wildcard {domain host : String} (h : Pattern.Literal domain.toList) :
    HostMatches ("*" ++ domain) host ↔
      ∃ sub, sub ≠ "" ∧ reverseAsciiLowercase host = reverseAsciiLowercase domain ++ sub := by
  unfold HostMatches reverseHost
  rw [Text.stripPrefix_eq_some.mpr rfl]
  exact Pattern.matches_catchAll (literal_reverseAsciiLowercase h)

/-! ## Where pattern texts land -/

section
variable (M : Matchit)

/-- The stored pattern a text is found under, or the text itself. -/
def land (ps : List String) (text : String) : String :=
  match M.choose ps text with
  | some (p, _) => p
  | none => text

/-- The stored patterns after the text's turn. -/
def landed (ps : List String) (text : String) : List String :=
  match M.choose ps text with
  | some _ => ps
  | none => text :: ps.erase text

def landUris : List String → List String → List String × List String
  | ps, [] => ([], ps)
  | ps, uri :: uris =>
    let rest := landUris (landed M ps uri) uris
    (land M ps uri :: rest.1, rest.2)

/-- The stored patterns: the URI patterns without a host, and those under each processed host. -/
structure PatternIndex where
  nonHostUri : List String := []
  hostUris : HashMap String (List String) := ∅

/-- The index after a processed host's turn. -/
def landedHost (x : HashMap String (List String)) (text : String) : HashMap String (List String) :=
  match M.choose x.keys text with
  | some _ => x
  | none => x.insert text []

def landHost (uris : List String) (x : HashMap String (List String)) (host : String) :
    List Slot × HashMap String (List String) :=
  let processed := land M x.keys (reverseHost host)
  let stored := landedHost M x (reverseHost host)
  let rest := landUris M ((stored.lookup processed).getD []) uris
  (rest.1.map fun uri => ⟨some processed, uri⟩, stored.set processed rest.2)

def landHosts (uris : List String) : HashMap String (List String) → List String →
    List Slot × HashMap String (List String)
  | x, [] => ([], x)
  | x, host :: hosts =>
    let first := landHost M uris x host
    let rest := landHosts uris first.2 hosts
    (first.1 ++ rest.1, rest.2)

def landRoute (x : PatternIndex) (route : ρ) : List Slot × PatternIndex :=
  match getHosts route with
  | [] =>
    let rest := landUris M x.nonHostUri (getUris route)
    (rest.1.map fun uri => ⟨none, uri⟩, { x with nonHostUri := rest.2 })
  | host :: hosts =>
    let rest := landHosts M (getUris route) x.hostUris (host :: hosts)
    (rest.1, { x with hostUris := rest.2 })

/-- Each route with the slots its pattern texts land in, the routes taken in order. -/
def landings : PatternIndex → List ρ → List (ρ × Slot)
  | _, [] => []
  | x, route :: routes =>
    let first := landRoute M x route
    (first.1.map fun slot => (route, slot)) ++ landings first.2 routes

end

/-! ## Insertion stores where the texts land -/

section
variable {M : Matchit} (hM : M.Lawful)

theorem mem_sortByPriority {routes : List ρ} {route : ρ} : route ∈ sortByPriority routes ↔ route ∈ routes :=
  List.mem_insertionSort _

include hM in
theorem insertIntoRouter_stores {router router' : RouteRouter ρ} {uri : String} {route : ρ}
    (h : insertIntoRouter M router uri route = .ok router') :
    router'.patterns = landed M router.patterns uri ∧ ∀ pattern s,
      StoredIn router' pattern s ↔ StoredIn router pattern s ∨ s = route ∧ pattern = land M router.patterns uri := by
  unfold insertIntoRouter at h
  split at h
  · rename_i found hf
    obtain ⟨hc, hl⟩ := Router.atPath_eq_some hf
    cases h
    unfold landed land
    rw [hc]
    refine ⟨by simp, fun pattern s => ?_⟩
    unfold StoredIn Router.set
    simp only [HashMap.lookup_set]
    by_cases hp : pattern = found.pattern
    · subst hp
      simp [hl, mem_sortByPriority]
    · simp [hp]
  · rename_i hf
    have hc := (Router.atPath_eq_none hM).mp hf
    obtain ⟨hn, rfl⟩ := Router.insert_eq_ok hM (Except.mapError_eq_ok.mp h)
    unfold landed land
    rw [hc]
    refine ⟨AList.keys_insert _, fun pattern s => ?_⟩
    unfold StoredIn
    simp only [HashMap.lookup_insert]
    by_cases hp : pattern = uri
    · subst hp
      have hl : router.slots.lookup pattern = none := AList.lookup_eq_none.mpr hn
      simp [hl]
    · simp [hp]

include hM in
theorem insertUris_stores {route : ρ} : ∀ {uris : List String} {router router' : RouteRouter ρ},
    insertUris M router uris route = .ok router' →
    router'.patterns = (landUris M router.patterns uris).2 ∧ ∀ pattern s,
      StoredIn router' pattern s ↔
        StoredIn router pattern s ∨ s = route ∧ pattern ∈ (landUris M router.patterns uris).1
  | [], router, router', h => by
    cases h
    simp [landUris]
  | uri :: uris, router, router', h => by
    unfold insertUris at h
    obtain ⟨mid, h1, h2⟩ := Except.foldlM_cons_eq_ok.mp h
    obtain ⟨hp, hs⟩ := insertIntoRouter_stores hM h1
    obtain ⟨hp', hs'⟩ := insertUris_stores (show insertUris M mid uris route = _ from h2)
    rw [hp] at hp' hs'
    refine ⟨hp', fun pattern s => ?_⟩
    rw [hs', hs, landUris]
    simp only [List.mem_cons]
    tauto

/-- The index lists the stored patterns. -/
def Indexes (x : HashMap String (List String)) (hostUris : Router (RouteRouter ρ)) : Prop :=
  x.keys = hostUris.patterns ∧ ∀ host, x.lookup host = (hostUris.slots.lookup host).map Router.patterns

omit [MatchedRoute ρ] in
include hM in
/-- The router found for a processed host is the one its text lands in, and nothing else changes for the routes. -/
theorem innerRouter_eq_ok {hostUris hostUris' : Router (RouteRouter ρ)} {text : String}
    {found : Match (RouteRouter ρ)} {x : HashMap String (List String)} (hx : Indexes x hostUris)
    (h : innerRouter M hostUris text = .ok (hostUris', found)) :
    found.pattern = land M x.keys text ∧ hostUris'.slots.lookup found.pattern = some found.value ∧
      Indexes (landedHost M x text) hostUris' ∧
      ∀ p pattern s, StoredInHost hostUris' p pattern s ↔ StoredInHost hostUris p pattern s := by
  unfold innerRouter at h
  unfold land landedHost
  rw [hx.1]
  split at h
  · rename_i f hf
    cases h
    obtain ⟨hc, hl⟩ := Router.atPath_eq_some hf
    rw [hc]
    exact ⟨rfl, hl, hx, fun _ _ _ => Iff.rfl⟩
  · rename_i hf
    have hc := (Router.atPath_eq_none hM).mp hf
    rw [hc]
    split at h
    · cases h
    · rename_i stored hi
      obtain ⟨hn, rfl⟩ := Router.insert_eq_ok hM hi
      split at h
      · rename_i f hf'
        cases h
        obtain ⟨hc', hl⟩ := Router.atPath_eq_some hf'
        have hmem := hM.stored hc'
        unfold Router.patterns at hmem
        rw [AList.keys_insert, List.mem_cons] at hmem
        refine ⟨?_, hl, ⟨?_, fun p => ?_⟩, fun p pattern s => ?_⟩
        · cases hmem with
          | inl he => exact he
          | inr he => exact absurd hc (hM.found (List.mem_of_mem_erase he) (hM.matches hc'))
        · simp only [Router.patterns, AList.keys_insert]
          rw [hx.1]
          rfl
        · rw [HashMap.lookup_insert, HashMap.lookup_insert]
          by_cases hp : p = text
          · simp only [hp, if_true]
            rfl
          · simp [hp, hx.2 p]
        · unfold StoredInHost
          simp only [HashMap.lookup_insert]
          by_cases hp : p = text
          · subst hp
            have hl : hostUris.slots.lookup p = none := AList.lookup_eq_none.mpr hn
            simp [hl, StoredIn]
          · simp [hp]
      · cases h

include hM in
theorem insertHostUri_stores {uris : List String} {route : ρ} {hostUris hostUris' : Router (RouteRouter ρ)}
    {host : String} {x : HashMap String (List String)} (hx : Indexes x hostUris)
    (h : insertHostUri M uris route hostUris host = .ok hostUris') :
    Indexes (landHost M uris x host).2 hostUris' ∧ ∀ p pattern s,
      StoredInHost hostUris' p pattern s ↔
        StoredInHost hostUris p pattern s ∨ s = route ∧ ⟨some p, pattern⟩ ∈ (landHost M uris x host).1 := by
  unfold insertHostUri at h
  obtain ⟨⟨mid, found⟩, h1, h2⟩ := Except.bind_eq_ok.mp h
  obtain ⟨inner, h3, h4⟩ := Except.bind_eq_ok.mp h2
  cases Except.pure_eq_ok.mp h4
  obtain ⟨hf, hl, hy, hsame⟩ := innerRouter_eq_ok hM hx h1
  obtain ⟨hp, hs⟩ := insertUris_stores hM h3
  have hyl : (landedHost M x (reverseHost host)).lookup found.pattern = some found.value.patterns := by
    rw [hy.2, hl]
    rfl
  have hland : landHost M uris x host =
      ((landUris M found.value.patterns uris).1.map (⟨some found.pattern, ·⟩),
        (landedHost M x (reverseHost host)).set found.pattern (landUris M found.value.patterns uris).2) := by
    rw [hf] at hyl ⊢
    simp only [landHost, hyl, Option.getD_some]
  rw [hland]
  refine ⟨⟨?_, fun p => ?_⟩, fun p pattern s => ?_⟩
  · rw [HashMap.keys_set, Router.patterns_set]
    exact hy.1
  · unfold Router.set
    rw [HashMap.lookup_set, HashMap.lookup_set, hy.2 p]
    by_cases he : p = found.pattern
    · subst he
      simp [hl, hp]
    · simp [he]
  · rw [← hsame]
    unfold StoredInHost Router.set
    simp only [HashMap.lookup_set]
    by_cases he : p = found.pattern
    · subst he
      simp [hl, hs]
    · simp [he, Ne.symm he]

include hM in
theorem insertHostUris_stores {uris : List String} {route : ρ} : ∀ {hosts : List String}
    {hostUris hostUris' : Router (RouteRouter ρ)} {x : HashMap String (List String)}, Indexes x hostUris →
    insertHostUris M hostUris hosts uris route = .ok hostUris' →
    Indexes (landHosts M uris x hosts).2 hostUris' ∧ ∀ p pattern s,
      StoredInHost hostUris' p pattern s ↔
        StoredInHost hostUris p pattern s ∨ s = route ∧ ⟨some p, pattern⟩ ∈ (landHosts M uris x hosts).1
  | [], hostUris, hostUris', x, hx, h => by
    cases h
    simpa [landHosts] using hx
  | host :: hosts, hostUris, hostUris', x, hx, h => by
    unfold insertHostUris at h
    obtain ⟨mid, h1, h2⟩ := Except.foldlM_cons_eq_ok.mp h
    obtain ⟨hy, hs⟩ := insertHostUri_stores hM hx h1
    obtain ⟨hz, hs'⟩ := insertHostUris_stores hy (show insertHostUris M mid hosts uris route = _ from h2)
    refine ⟨hz, fun p pattern s => ?_⟩
    rw [hs', hs, landHosts]
    simp only [List.mem_append]
    tauto

theorem host_of_mem_landHosts {uris : List String} {slot : Slot} : ∀ {hosts : List String}
    {x : HashMap String (List String)}, slot ∈ (landHosts M uris x hosts).1 → slot.host ≠ none
  | host :: hosts, x, h => by
    rw [landHosts, List.mem_append] at h
    cases h with
    | inl h =>
      obtain ⟨uri, _, rfl⟩ := List.mem_map.mp h
      simp
    | inr h => exact host_of_mem_landHosts h

/-- The index lists the stored patterns of both routers. -/
def PatternIndex.Of (x : PatternIndex) (m : MatchEntry ρ) : Prop :=
  x.nonHostUri = m.nonHostUri.patterns ∧ Indexes x.hostUris m.hostUris

include hM in
theorem insertRoute_stores {m m' : MatchEntry ρ} {route : ρ} {x : PatternIndex} (hx : x.Of m)
    (h : insertRoute M m route = .ok m') :
    (landRoute M x route).2.Of m' ∧ ∀ slot s,
      Stores m' slot s ↔ Stores m slot s ∨ s = route ∧ slot ∈ (landRoute M x route).1 := by
  unfold insertRoute at h
  unfold landRoute
  cases hg : getHosts route with
  | nil =>
    rw [hg] at h
    obtain ⟨nonHostUri, h1, h2⟩ := Except.bind_eq_ok.mp h
    cases Except.pure_eq_ok.mp h2
    obtain ⟨hp, hs⟩ := insertUris_stores hM h1
    rw [← hx.1] at hp hs
    refine ⟨⟨hp.symm, hx.2⟩, fun slot s => ?_⟩
    obtain ⟨host, uri⟩ := slot
    cases host with
    | none => simp [Stores, hs]
    | some p => simp [Stores]
  | cons host hosts =>
    rw [hg] at h
    obtain ⟨hostUris, h1, h2⟩ := Except.bind_eq_ok.mp h
    cases Except.pure_eq_ok.mp h2
    obtain ⟨hy, hs⟩ := insertHostUris_stores hM hx.2 h1
    refine ⟨⟨hx.1, hy⟩, fun slot s => ?_⟩
    obtain ⟨p, uri⟩ := slot
    cases p with
    | none =>
      have hn : (⟨none, uri⟩ : Slot) ∉ (landHosts M (getUris route) x.hostUris (host :: hosts)).1 :=
        fun hm => host_of_mem_landHosts hm rfl
      simp [Stores, hn]
    | some p => simp [Stores, hs]

include hM in
theorem insertAll_stores : ∀ {routes : List ρ} {m m' : MatchEntry ρ} {x : PatternIndex}, x.Of m →
    routes.foldlM (insertOrdered M) m = .ok m' → ∀ slot s,
      Stores m' slot s ↔ Stores m slot s ∨ (s, slot) ∈ landings M x routes
  | [], m, m', x, _, h => by
    cases h
    simp [landings]
  | route :: routes, m, m', x, hx, h => by
    obtain ⟨mid, h1, h2⟩ := Except.foldlM_cons_eq_ok.mp h
    obtain ⟨hy, hs⟩ := insertRoute_stores hM hx (Except.mapError_eq_ok.mp h1)
    intro slot s
    rw [insertAll_stores hy h2, hs, landings]
    simp only [List.mem_append, List.mem_map, Prod.mk.injEq]
    constructor
    · rintro ((h | ⟨rfl, h⟩) | h)
      · exact .inl h
      · exact .inr (.inl ⟨slot, h, rfl, rfl⟩)
      · exact .inr (.inr h)
    · rintro (h | ⟨_, h, rfl, rfl⟩ | h)
      · exact .inl (.inl h)
      · exact .inl (.inr ⟨rfl, h⟩)
      · exact .inr h

include hM in
/-- A built matcher stores the routes where their pattern texts land, the routes taken in insertion order. -/
theorem build_stores {routes : HashMap String ρ} {globalCors : Bool} {m : MatchEntry ρ}
    (h : build M routes globalCors = .ok m) (slot : Slot) (route : ρ) :
    Stores m slot route ↔ (route, slot) ∈ landings M {} (insertionOrder routes.values) := by
  have hx : (({} : PatternIndex)).Of ({ globalCors } : MatchEntry ρ) := ⟨rfl, rfl, fun _ => rfl⟩
  rw [insertAll_stores hM hx h]
  have hn : ¬Stores ({ globalCors } : MatchEntry ρ) slot route := by
    obtain ⟨host, uri⟩ := slot
    cases host with
    | none => simp [Stores, StoredIn]
    | some p => simp [Stores, StoredInHost]
  simp [hn]

/-! ## What inserting keeps of every router -/

def EachRouter (Q : RouteRouter ρ → Prop) (hostUris : Router (RouteRouter ρ)) : Prop :=
  ∀ host router, hostUris.slots.lookup host = some router → Q router

variable {Q : RouteRouter ρ → Prop} {route : ρ}

theorem insertUris_keeps (hstep : ∀ {router router' : RouteRouter ρ} {uri : String}, Q router →
      insertIntoRouter M router uri route = .ok router' → Q router') :
    ∀ {uris : List String} {router router' : RouteRouter ρ}, Q router →
      insertUris M router uris route = .ok router' → Q router'
  | [], router, router', h, hi => by
    cases hi
    exact h
  | uri :: uris, router, router', h, hi => by
    obtain ⟨mid, h1, h2⟩ := Except.foldlM_cons_eq_ok.mp hi
    exact insertUris_keeps hstep (hstep h h1) h2

omit [MatchedRoute ρ] in
/-- A router found or freshly stored has the property when the empty one has. -/
theorem EachRouter.innerRouter (hempty : Q {}) {hostUris hostUris' : Router (RouteRouter ρ)} {text : String}
    {found : Match (RouteRouter ρ)} (h : EachRouter Q hostUris)
    (hi : innerRouter M hostUris text = .ok (hostUris', found)) : EachRouter Q hostUris' ∧ Q found.value := by
  have stored {r : Router (RouteRouter ρ)} (hr : EachRouter Q r) {f : Match (RouteRouter ρ)}
      (hf : r.atPath M text = some f) : EachRouter Q r ∧ Q f.value := ⟨hr, hr _ _ (Router.atPath_eq_some hf).2⟩
  unfold MatchEntry.innerRouter at hi
  cases hf : hostUris.atPath M text with
  | some f =>
    simp only [hf] at hi
    cases hi
    exact stored h hf
  | none =>
    simp only [hf] at hi
    unfold Router.insert at hi
    cases he : M.insertError hostUris.patterns text with
    | some e =>
      simp only [he] at hi
      cases hi
    | none =>
      simp only [he] at hi
      cases hg : (⟨hostUris.slots.insert text {}⟩ : Router (RouteRouter ρ)).atPath M text with
      | none =>
        simp only [hg] at hi
        cases hi
      | some f =>
        simp only [hg] at hi
        cases hi
        refine stored (fun host router hl => ?_) hg
        rw [HashMap.lookup_insert] at hl
        by_cases heq : host = text
        · rw [if_pos heq] at hl
          cases hl
          exact hempty
        · rw [if_neg heq] at hl
          exact h host router hl

section
variable (hempty : Q {})
  (hstep : ∀ {router router' : RouteRouter ρ} {uri : String}, Q router →
    insertIntoRouter M router uri route = .ok router' → Q router')
include hempty hstep

theorem EachRouter.insertHostUri {uris : List String} {hostUris hostUris' : Router (RouteRouter ρ)} {host : String}
    (h : EachRouter Q hostUris) (hi : insertHostUri M uris route hostUris host = .ok hostUris') :
    EachRouter Q hostUris' := by
  obtain ⟨⟨mid, found⟩, h1, h2⟩ := Except.bind_eq_ok.mp hi
  obtain ⟨inner, h3, h4⟩ := Except.bind_eq_ok.mp h2
  cases Except.pure_eq_ok.mp h4
  obtain ⟨hmid, hfound⟩ := h.innerRouter hempty h1
  intro p router hl
  unfold Router.set at hl
  rw [HashMap.lookup_set] at hl
  by_cases he : p = found.pattern
  · rw [if_pos he] at hl
    obtain ⟨-, -, rfl⟩ := Option.map_eq_some_iff.mp hl
    exact insertUris_keeps hstep hfound h3
  · rw [if_neg he] at hl
    exact hmid p router hl

theorem EachRouter.insertHostUris {uris : List String} : ∀ {hosts : List String}
    {hostUris hostUris' : Router (RouteRouter ρ)}, EachRouter Q hostUris →
      insertHostUris M hostUris hosts uris route = .ok hostUris' → EachRouter Q hostUris'
  | [], hostUris, hostUris', h, hi => by
    cases hi
    exact h
  | host :: hosts, hostUris, hostUris', h, hi => by
    obtain ⟨mid, h1, h2⟩ := Except.foldlM_cons_eq_ok.mp hi
    exact (h.insertHostUri hempty hstep h1).insertHostUris h2

theorem insertRoute_keeps {m m' : MatchEntry ρ} (h : Q m.nonHostUri) (hh : EachRouter Q m.hostUris)
    (hi : insertRoute M m route = .ok m') : Q m'.nonHostUri ∧ EachRouter Q m'.hostUris := by
  unfold insertRoute at hi
  cases hg : getHosts route with
  | nil =>
    simp only [hg] at hi
    obtain ⟨nonHostUri, h1, h2⟩ := Except.bind_eq_ok.mp hi
    cases Except.pure_eq_ok.mp h2
    exact ⟨insertUris_keeps hstep h h1, hh⟩
  | cons host hosts =>
    simp only [hg] at hi
    obtain ⟨hostUris, h1, h2⟩ := Except.bind_eq_ok.mp hi
    cases Except.pure_eq_ok.mp h2
    exact ⟨h, hh.insertHostUris hempty hstep h1⟩

end

/-! ## Lookups serve what is stored -/

include hM in
theorem matchUriMethod_eq_some {router : RouteRouter ρ} {uri method : String} {params : List (String × String)}
    {route : ρ} (h : matchUriMethod M router uri method = some (params, route)) :
    (∃ pattern, StoredIn router pattern route ∧ Pattern.Matches pattern uri) ∧
      (methods route = [] ∨ method ∈ methods route) := by
  unfold matchUriMethod at h
  split at h
  · rename_i found hf
    obtain ⟨hc, hl⟩ := Router.atPath_eq_some hf
    obtain ⟨r, hr, he⟩ := Option.map_eq_some_iff.mp h
    cases he
    refine ⟨⟨found.pattern, ⟨found.value, hl, List.mem_of_find?_eq_some hr⟩, hM.matches hc⟩, ?_⟩
    have ha := List.find?_some hr
    simpa [allowsMethod] using ha
  · cases h

/-- The route is stored under patterns that match the host and the path. -/
def StoredFor (m : MatchEntry ρ) (host : Option String) (uri : String) (route : ρ) : Prop :=
  ∃ slot, Stores m slot route ∧ Pattern.Matches slot.uri uri ∧ ∀ processed, slot.host = some processed →
    ∃ hostStr, host = some hostStr ∧ Pattern.Matches processed (reverseAsciiLowercase hostStr)

include hM in
theorem matchHostUriMethod_eq_some {m : MatchEntry ρ} {host : Option String} {uri method : String}
    {params : List (String × String)} {route : ρ}
    (h : matchHostUriMethod M m host uri method = some (params, route)) :
    StoredFor m host uri route ∧ (methods route = [] ∨ method ∈ methods route) := by
  have unhosted : matchUriMethod M m.nonHostUri uri method = some (params, route) →
      StoredFor m host uri route ∧ (methods route = [] ∨ method ∈ methods route) := by
    intro h
    obtain ⟨⟨pattern, hs, hp⟩, hm⟩ := matchUriMethod_eq_some hM h
    exact ⟨⟨⟨none, pattern⟩, hs, hp, nofun⟩, hm⟩
  unfold matchHostUriMethod matchHosted at h
  split at h
  · exact unhosted h
  · rename_i hostStr hh
    split at h
    · exact unhosted h
    · rename_i found hf
      obtain ⟨hc, hl⟩ := Router.atPath_eq_some hf
      split at h
      · rename_i result hr
        cases h
        obtain ⟨⟨pattern, hs, hp⟩, hm⟩ := matchUriMethod_eq_some hM hr
        refine ⟨⟨⟨some found.pattern, pattern⟩, ⟨found.value, hl, hs⟩, hp, ?_⟩, hm⟩
        intro processed he
        cases he
        exact ⟨hostStr, (Option.filter_eq_some_iff.mp hh).1, hM.matches hc⟩
      · exact unhosted h

/-- What is stored under covered patterns only is served only when it declares the request. -/
theorem sound_of_covers (hM : M.Lawful) {m : MatchEntry ρ}
    (hc : ∀ (slot : Slot) (route : ρ), Stores m slot route → Covers route slot) : Sound M m := by
  refine ⟨fun host uri method params route h => ?_, hc⟩
  obtain ⟨⟨slot, hs, hu, hh⟩, hm⟩ := matchHostUriMethod_eq_some hM h
  obtain ⟨hch, hcu⟩ := hc slot route hs
  refine ⟨?_, hcu uri hu, hm⟩
  cases hp : slot.host with
  | none =>
    rw [hp] at hch
    exact .inl hch
  | some processed =>
    rw [hp] at hch
    obtain ⟨hostStr, rfl, hmatch⟩ := hh processed hp
    exact .inr ⟨hostStr, rfl, hch hostStr hmatch⟩

/-! ## Main result -/

/-- The matcher is sound exactly when every pattern text lands, at its turn in the insertion order, under a
pattern that matches no more than its route's own. -/
theorem matcher_sound_iff (hM : M.Lawful) {routes : HashMap String ρ} {globalCors : Bool} {m : MatchEntry ρ}
    (h : build M routes globalCors = .ok m) :
    Sound M m ↔ ∀ e ∈ landings M {} (insertionOrder routes.values), Covers e.1 e.2 := by
  constructor
  · intro hs e he
    exact hs.2 e.2 e.1 ((build_stores hM h e.2 e.1).mpr he)
  · intro hc
    refine sound_of_covers hM fun slot route hs => ?_
    exact hc (route, slot) ((build_stores hM h slot route).mp hs)

end

/-! ## Two routes of one priority -/

/-- A compiled route without plugins, hosts or service. -/
def plainRoute (id uri : String) (methods : List String) : ProxyRoute ProxyUpstream where
  inner := { id, uri := some uri, methods, upstreamId := some "u1" }
  plugins := []
  resolvedUpstream := none
  effectiveHosts := []
  serviceName := none
  pluginExecutor := {}
  inlineUpstream := none
  cacheNamespace := ({ id, uri := some uri }, none)
  servesPreflight := false

/-- The catch-all for reads is inserted before the admin endpoint. -/
def overlapping : HashMap String (ProxyRoute ProxyUpstream) :=
  (AList.insert "b" (plainRoute "b" "/admin" ["POST"]) ∅).insert "a" (plainRoute "a" "/\x7b*rest\x7d" ["GET"])

def disjoint : HashMap String (ProxyRoute ProxyUpstream) := AList.insert "b" (plainRoute "b" "/admin" ["POST"]) ∅

theorem matcher_sound_iff_disjoint :
    ∃ m, build Matchit.staticFirst disjoint false = .ok m ∧ Sound Matchit.staticFirst m := by
  have hb : build Matchit.staticFirst disjoint false =
      .ok { nonHostUri := ⟨AList.insert "/admin" [plainRoute "b" "/admin" ["POST"]] ∅⟩ } := rfl
  refine ⟨_, hb, (matcher_sound_iff Matchit.staticFirst_lawful hb).mpr ?_⟩
  intro e he
  have hl : landings Matchit.staticFirst {} (insertionOrder disjoint.values) =
      [(plainRoute "b" "/admin" ["POST"], ⟨none, "/admin"⟩)] := rfl
  rw [hl, List.mem_singleton] at he
  subst he
  exact ⟨rfl, fun uri h => ⟨"/admin", List.mem_singleton.mpr rfl, h⟩⟩

/-- Both routes are valid, and a request for another path is served by the admin endpoint. -/
theorem matcher_serves_undeclared_path :
    (∀ route ∈ overlapping.values, route.inner.validate = []) ∧
      ∃ m, build Matchit.staticFirst overlapping false = .ok m ∧ ¬Sound Matchit.staticFirst m := by
  refine ⟨by decide, { nonHostUri := ⟨AList.insert "/\x7b*rest\x7d" [plainRoute "a" "/\x7b*rest\x7d" ["GET"],
    plainRoute "b" "/admin" ["POST"]] ∅⟩ }, rfl, ?_⟩
  intro h
  have hd := h.1 none "/other" "POST" [("rest", "other")] (plainRoute "b" "/admin" ["POST"]) rfl
  obtain ⟨-, ⟨pattern, hp, hm⟩, -⟩ := hd
  cases List.mem_singleton.mp hp
  revert hm
  decide

end Pingsix.MatchEntry
