import Pingsix.AdminSound
import Pingsix.Lib.PatternOrder
import Pingsix.PlanSound
import Pingsix.PreflightSound
import Pingsix.SniSound

/-!
# Independence of the map order

A set of resources compiles to the same answers whatever the iteration order of
the maps that hold it: each stage that depends on an order sorts first, and what
is stored for a server name is independent of what was stored before it.
-/

namespace Pingsix

open HashMap (SameEntries)

/-- Permutations sort to one list when the order tells their elements apart. -/
theorem insertionSort_perm {α : Type} (r : α → α → Prop) [DecidableRel r] [Std.Total r] [IsTrans α r] {l l' : List α}
    (h : l.Perm l') (hr : ∀ a ∈ l, ∀ b ∈ l, r a b → r b a → a = b) : l.insertionSort r = l'.insertionSort r := by
  have hperm := (List.perm_insertionSort r l).trans (h.trans (List.perm_insertionSort r l').symm)
  refine List.Perm.eq_of_pairwise (fun a b ha hb hab hba => ?_) (List.pairwise_insertionSort r l)
    (List.pairwise_insertionSort r l') hperm
  have ha' := (List.mem_insertionSort r).mp ha
  have hb' := h.mem_iff.mpr ((List.mem_insertionSort r).mp hb)
  exact hr a ha' b hb' hab hba

/-! ## Routes -/

namespace MatchEntry

open MatchedRoute

section
variable {ρ : Type} [MatchedRoute ρ]

/-- A higher priority first, then the smaller id. -/
def Ranks (a b : ρ) : Prop := priority b < priority a ∨ priority a = priority b ∧ routeId a ≤ routeId b

instance : DecidableRel (Ranks (ρ := ρ)) := fun a b =>
  inferInstanceAs (Decidable (priority b < priority a ∨ priority a = priority b ∧ routeId a ≤ routeId b))

theorem Ranks.refl (a : ρ) : Ranks a a := .inr ⟨rfl, String.le_refl (routeId a)⟩

theorem Ranks.trans {a b c : ρ} (h : Ranks a b) (h' : Ranks b c) : Ranks a c := by
  unfold Ranks at *
  obtain h | ⟨h, hid⟩ := h
  · obtain h' | ⟨h', -⟩ := h'
    · exact .inl (h'.trans h)
    · exact .inl (h' ▸ h)
  · obtain h' | ⟨h', hid'⟩ := h'
    · exact .inl (h ▸ h')
    · exact .inr ⟨h.trans h', String.le_trans hid hid'⟩

instance : IsTrans ρ Ranks := ⟨fun _ _ _ => Ranks.trans⟩

instance : Std.Total (Ranks (ρ := ρ)) where
  total a b := by
    unfold Ranks
    rcases Nat.lt_trichotomy (priority a) (priority b) with h | h | h
    · exact .inr (.inl h)
    · exact (String.le_total (routeId a) (routeId b)).imp (fun hid => .inr ⟨h, hid⟩) fun hid => .inr ⟨h.symm, hid⟩
    · exact .inl (.inl h)

theorem Ranks.priority_le {a b : ρ} (h : Ranks a b) : priority b ≤ priority a := by
  obtain h | ⟨h, -⟩ := h
  · exact Nat.le_of_lt h
  · exact Nat.le_of_eq h.symm

/-- Every route is held under its own id. -/
def Identified (routes : HashMap String ρ) : Prop := ∀ id route, routes.lookup id = some route → routeId route = id

theorem insertionOrder_perm {routes routes' : HashMap String ρ} (h : SameEntries routes routes')
    (hid : Identified routes) : insertionOrder routes.values = insertionOrder routes'.values := by
  refine insertionSort_perm Ranks h.perm_values fun a ha b hb hab hba => ?_
  obtain ⟨i, hi⟩ := (HashMap.mem_values_iff routes a).mp ha
  obtain ⟨j, hj⟩ := (HashMap.mem_values_iff routes b).mp hb
  have heq : routeId a = routeId b := by
    obtain h1 | ⟨h1, h2⟩ := hab
    · exact absurd hba.priority_le (Nat.not_le.mpr h1)
    · obtain h3 | ⟨-, h4⟩ := hba
      · exact absurd h3 (h1 ▸ Nat.lt_irrefl _)
      · exact String.le_antisymm h2 h4
  rw [hid i a hi, hid j b hj] at heq
  subst heq
  rw [hi] at hj
  exact Option.some.inj hj

theorem build_perm {M : Matchit} {routes routes' : HashMap String ρ} (h : SameEntries routes routes')
    (hid : Identified routes) (globalCors : Bool) : build M routes globalCors = build M routes' globalCors := by
  unfold build
  rw [insertionOrder_perm h hid]

/-! ## Ranked slots -/

/-- The routes of every slot are ranked, and the route comes after them. -/
def Below (router : RouteRouter ρ) (route : ρ) : Prop :=
  ∀ pattern routes, router.slots.lookup pattern = some routes → routes.Pairwise Ranks ∧ ∀ other ∈ routes, Ranks other route

def HostsBelow (hostUris : Router (RouteRouter ρ)) (route : ρ) : Prop :=
  ∀ host router, hostUris.slots.lookup host = some router → Below router route

variable {M : Matchit} {route : ρ}

theorem sortByPriority_snoc {routes : List ρ} (h : routes.Pairwise Ranks) (hr : ∀ other ∈ routes, Ranks other route) :
    sortByPriority (routes ++ [route]) = routes ++ [route] ∧ (routes ++ [route]).Pairwise Ranks := by
  have hpair : (routes ++ [route]).Pairwise Ranks := by
    refine List.pairwise_append.mpr ⟨h, List.pairwise_singleton _ _, fun a ha b hb => ?_⟩
    rw [List.mem_singleton.mp hb]
    exact hr a ha
  exact ⟨(hpair.imp Ranks.priority_le).insertionSort_eq, hpair⟩

theorem Below.insertIntoRouter {router router' : RouteRouter ρ} {uri : String} (h : Below router route)
    (hi : insertIntoRouter M router uri route = .ok router') : Below router' route := by
  unfold MatchEntry.insertIntoRouter at hi
  cases hf : router.atPath M uri with
  | some found =>
    simp only [hf] at hi
    cases hi
    obtain ⟨-, hl⟩ := Router.atPath_eq_some hf
    obtain ⟨hpair, hr⟩ := h _ _ hl
    obtain ⟨hsort, hpair'⟩ := sortByPriority_snoc hpair hr
    intro pattern routes hp
    unfold Router.set at hp
    rw [HashMap.lookup_set] at hp
    by_cases he : pattern = found.pattern
    · rw [if_pos he, he, hl, hsort] at hp
      cases hp
      refine ⟨hpair', fun other ho => ?_⟩
      cases List.mem_append.mp ho with
      | inl ho => exact hr other ho
      | inr ho =>
        rw [List.mem_singleton.mp ho]
        exact .refl route
    · rw [if_neg he] at hp
      exact h pattern routes hp
  | none =>
    simp only [hf] at hi
    have hi := Except.mapError_eq_ok.mp hi
    unfold Router.insert at hi
    cases he : M.insertError router.patterns uri with
    | some e =>
      simp only [he] at hi
      cases hi
    | none =>
      simp only [he] at hi
      cases hi
      intro pattern routes hp
      rw [HashMap.lookup_insert] at hp
      by_cases heq : pattern = uri
      · rw [if_pos heq] at hp
        cases hp
        refine ⟨List.pairwise_singleton _ _, fun other ho => ?_⟩
        rw [List.mem_singleton.mp ho]
        exact .refl route
      · rw [if_neg heq] at hp
        exact h pattern routes hp

theorem Below.empty : Below ({} : RouteRouter ρ) route := by
  intro pattern routes hp
  rw [HashMap.lookup_empty] at hp
  cases hp

/-- Nothing in the matcher is above the route. -/
structure AllBelow (m : MatchEntry ρ) (route : ρ) : Prop where
  nonHostUri : Below m.nonHostUri route
  hostUris : HostsBelow m.hostUris route

theorem AllBelow.next {m : MatchEntry ρ} {next : ρ} (h : AllBelow m route) (hr : Ranks route next) : AllBelow m next where
  nonHostUri pattern routes hp :=
    ⟨(h.nonHostUri pattern routes hp).1, fun other ho => ((h.nonHostUri pattern routes hp).2 other ho).trans hr⟩
  hostUris host router hl pattern routes hp :=
    ⟨(h.hostUris host router hl pattern routes hp).1,
      fun other ho => ((h.hostUris host router hl pattern routes hp).2 other ho).trans hr⟩

theorem AllBelow.insertRoute {m m' : MatchEntry ρ} (h : AllBelow m route) (hi : insertRoute M m route = .ok m') :
    AllBelow m' route := by
  obtain ⟨hn, hh⟩ := @insertRoute_keeps ρ _ M (Below · route) route Below.empty (fun hb hu => hb.insertIntoRouter hu)
    m m' h.nonHostUri h.hostUris hi
  exact ⟨hn, hh⟩

/-- The routes of every slot are ranked. -/
structure Ranked (m : MatchEntry ρ) : Prop where
  nonHostUri : ∀ pattern routes, m.nonHostUri.slots.lookup pattern = some routes → routes.Pairwise Ranks
  hostUris : ∀ host router, m.hostUris.slots.lookup host = some router →
    ∀ pattern routes, router.slots.lookup pattern = some routes → routes.Pairwise Ranks

theorem AllBelow.ranked {m : MatchEntry ρ} (h : AllBelow m route) : Ranked m where
  nonHostUri pattern routes hp := (h.nonHostUri pattern routes hp).1
  hostUris host router hl pattern routes hp := (h.hostUris host router hl pattern routes hp).1

theorem ranked_foldlM : ∀ {routes : List ρ} {m m' : MatchEntry ρ}, routes.Pairwise Ranks →
    (∀ route ∈ routes, AllBelow m route) → Ranked m → routes.foldlM (insertOrdered M) m = .ok m' → Ranked m'
  | [], m, m', _, _, hm, hi => by
    cases hi
    exact hm
  | route :: routes, m, m', hpair, h, hm, hi => by
    obtain ⟨hr, hpair⟩ := List.pairwise_cons.mp hpair
    obtain ⟨mid, h1, h2⟩ := Except.foldlM_cons_eq_ok.mp hi
    have hmid : AllBelow mid route := (h route List.mem_cons_self).insertRoute (Except.mapError_eq_ok.mp h1)
    exact ranked_foldlM hpair (fun other ho => hmid.next (hr other ho)) hmid.ranked h2

theorem ranked_build {routes : HashMap String ρ} {globalCors : Bool} {m : MatchEntry ρ}
    (h : build M routes globalCors = .ok m) : Ranked m := by
  have hhosts {host : String} {router : RouteRouter ρ}
      (hl : ({ globalCors } : MatchEntry ρ).hostUris.slots.lookup host = some router) : False := by
    rw [HashMap.lookup_empty] at hl
    cases hl
  refine ranked_foldlM (List.pairwise_insertionSort Ranks routes.values)
    (fun route _ => ⟨.empty, fun _ _ hl => (hhosts hl).elim⟩) ⟨?_, fun _ _ hl => (hhosts hl).elim⟩ h
  intro pattern routes hp
  rw [HashMap.lookup_empty] at hp
  cases hp

theorem routesAt_pairwise {router : RouteRouter ρ}
    (h : ∀ pattern routes, router.slots.lookup pattern = some routes → routes.Pairwise Ranks) (uri : String) :
    (routesAt M router uri).Pairwise Ranks := by
  unfold routesAt
  cases hf : router.atPath M uri with
  | none => exact .nil
  | some found => exact h _ _ (Router.atPath_eq_some hf).2

/-- The routes consulted are ranked, those under the host's pattern apart from those without a host. -/
theorem consulted_ranked {m : MatchEntry ρ} (h : Ranked m) (host : Option String) (uri : String) :
    ∃ hosted unhosted, consulted M m host uri = hosted ++ unhosted ∧ hosted.Pairwise Ranks ∧ unhosted.Pairwise Ranks := by
  refine ⟨_, _, rfl, ?_, routesAt_pairwise h.nonHostUri uri⟩
  cases hf : (host.filter (· ≠ "")).bind fun hostStr => m.hostUris.atPath M (reverseAsciiLowercase hostStr) with
  | none => exact .nil
  | some found =>
    obtain ⟨hostStr, -, hf⟩ := Option.bind_eq_some_iff.mp hf
    exact routesAt_pairwise (h.hostUris _ _ (Router.atPath_eq_some hf).2) uri

end

end MatchEntry

/-! ## Global rules -/

theorem buildGlobalPluginExecutor_perm {υ : Type} {rules rules' : HashMap String (ProxyGlobalRule υ)}
    (h : SameEntries rules rules') (hid : ∀ id rule, rules.lookup id = some rule → rule.inner.id = id) :
    buildGlobalPluginExecutor rules = buildGlobalPluginExecutor rules' := by
  have : IsTrans (ProxyGlobalRule υ) fun a b => a.inner.id ≤ b.inner.id := ⟨fun _ _ _ => String.le_trans⟩
  have : Std.Total fun a b : ProxyGlobalRule υ => a.inner.id ≤ b.inner.id :=
    ⟨fun a b => String.le_total a.inner.id b.inner.id⟩
  have hsort : rules.values.insertionSort (fun a b => a.inner.id ≤ b.inner.id) =
      rules'.values.insertionSort fun a b => a.inner.id ≤ b.inner.id := by
    refine insertionSort_perm _ h.perm_values fun a ha b hb hab hba => ?_
    obtain ⟨i, hi⟩ := (HashMap.mem_values_iff rules a).mp ha
    obtain ⟨j, hj⟩ := (HashMap.mem_values_iff rules b).mp hb
    have heq : a.inner.id = b.inner.id := String.le_antisymm hab hba
    rw [hid i a hi, hid j b hj] at heq
    subst heq
    rw [hi] at hj
    exact Option.some.inj hj
  unfold buildGlobalPluginExecutor
  simp only [hsort]

/-! ## Server names -/

/-- The suffixes of the wildcards among the patterns. -/
def suffixes : List SniPattern → List String
  | [] => []
  | .wildcard suffix :: patterns => suffix :: suffixes patterns
  | _ :: patterns => suffixes patterns

/-- The reversed texts of the exact names among the patterns. -/
def reversedHosts : List SniPattern → List String
  | [] => []
  | .exact host :: patterns => reversed host :: reversedHosts patterns
  | _ :: patterns => reversedHosts patterns

theorem suffixes_perm {patterns patterns' : List SniPattern} (h : patterns.Perm patterns') :
    (suffixes patterns).Perm (suffixes patterns') := by
  induction h with
  | nil => exact .nil
  | cons pattern _ ih =>
    cases pattern with
    | wildcard suffix => exact ih.cons suffix
    | exact host => exact ih
    | catchAll => exact ih
  | swap a b patterns =>
    cases a <;> cases b <;> first | exact .swap _ _ _ | exact .refl _
  | trans _ _ ih ih' => exact ih.trans ih'

theorem reversedHosts_perm {patterns patterns' : List SniPattern} (h : patterns.Perm patterns') :
    (reversedHosts patterns).Perm (reversedHosts patterns') := by
  induction h with
  | nil => exact .nil
  | cons pattern _ ih =>
    cases pattern with
    | exact host => exact ih.cons (reversed host)
    | wildcard suffix => exact ih
    | catchAll => exact ih
  | swap a b patterns =>
    cases a <;> cases b <;> first | exact .swap _ _ _ | exact .refl _
  | trans _ _ ih ih' => exact ih.trans ih'

/-- The patterns can be registered one after another, the last one first. -/
def Registrable (M : Matchit) (patterns : List SniPattern) : Prop :=
  (suffixes patterns).Nodup ∧ patterns.count .catchAll ≤ 1 ∧ M.Storable (reversedHosts patterns)

theorem Registrable.perm {M : Matchit} (hO : M.OrderFree) {patterns patterns' : List SniPattern}
    (h : patterns.Perm patterns') (hr : Registrable M patterns) : Registrable M patterns' :=
  ⟨(suffixes_perm h).nodup_iff.mp hr.1, h.count_eq _ ▸ hr.2.1, hO.storable (reversedHosts_perm h) hr.2.2⟩

namespace SslMatcher

variable {M : Matchit}

/-- The matcher was filled with the patterns, the last one first. -/
structure Registers (m : SslMatcher) (patterns : List SniPattern) : Prop where
  snis : m.snis.patterns = reversedHosts patterns
  wildcards : ∀ suffix, suffix ∈ m.wildcards.map (·.1) ↔ suffix ∈ suffixes patterns
  catchAll : m.catchAll = none ↔ .catchAll ∉ patterns

theorem Registers.start : Registers {} [] where
  snis := rfl
  wildcards _ := Iff.rfl
  catchAll := by simp

theorem registrable_cons {pattern : SniPattern} {patterns : List SniPattern} (hr : Registrable M patterns) :
    Registrable M (pattern :: patterns) ↔
      match pattern with
      | .catchAll => SniPattern.catchAll ∉ patterns
      | .wildcard suffix => suffix ∉ suffixes patterns
      | .exact host => M.insertError (reversedHosts patterns) (reversed host) = none := by
  obtain ⟨hn, hc, hs⟩ := hr
  cases pattern with
  | catchAll =>
    rw [← List.count_eq_zero]
    have hcount : (SniPattern.catchAll :: patterns).count .catchAll = patterns.count .catchAll + 1 := List.count_cons_self
    exact ⟨fun h => by have := h.2.1; omega, fun h => ⟨hn, by omega, hs⟩⟩
  | wildcard suffix =>
    have hcount : (SniPattern.wildcard suffix :: patterns).count .catchAll = patterns.count .catchAll :=
      List.count_cons_of_ne SniPattern.noConfusion
    exact ⟨fun h => (List.nodup_cons.mp h.1).1, fun h => ⟨List.nodup_cons.mpr ⟨h, hn⟩, hcount ▸ hc, hs⟩⟩
  | exact host =>
    have hcount : (SniPattern.exact host :: patterns).count .catchAll = patterns.count .catchAll :=
      List.count_cons_of_ne SniPattern.noConfusion
    exact ⟨fun h => h.2.2.1, fun h => ⟨hn, hcount ▸ hc, h, hs⟩⟩

theorem registrable_tail {pattern : SniPattern} {patterns : List SniPattern}
    (hr : Registrable M (pattern :: patterns)) : Registrable M patterns := by
  obtain ⟨hn, hc, hs⟩ := hr
  have hcount : patterns.count .catchAll ≤ 1 := Nat.le_trans (List.count_le_count_cons) hc
  cases pattern with
  | catchAll => exact ⟨hn, hcount, hs⟩
  | wildcard suffix => exact ⟨(List.nodup_cons.mp hn).2, hcount, hs⟩
  | exact host => exact ⟨hn, hcount, hs.2⟩

/-- A name is inserted exactly when its pattern can still be registered. -/
theorem insertSni_isOk {m : SslMatcher} {p : ProxySSL} {sni : String} {patterns : List SniPattern}
    (hm : m.Registers patterns) (hr : Registrable M patterns) :
    (∃ m', insertSni M p m sni = .ok m') ↔ Registrable M (SniPattern.of sni :: patterns) := by
  rw [registrable_cons hr]
  unfold insertSni SniPattern.of
  by_cases hs : toAsciiLowercase sni = "*"
  · simp only [hs, if_true, ← hm.catchAll]
    cases m.catchAll <;> simp
  · simp only [if_neg hs]
    cases hp : Text.stripPrefix (toAsciiLowercase sni) "*." with
    | some suffix =>
      simp only [← hm.wildcards]
      by_cases hw : (m.wildcards.any fun w => w.1 = suffix) = true
      · rw [if_pos hw]
        obtain ⟨w, hmem, he⟩ := List.any_eq_true.mp hw
        simp only [reduceCtorEq, exists_false, false_iff, not_not]
        exact List.mem_map.mpr ⟨w, hmem, of_decide_eq_true he⟩
      · rw [if_neg hw]
        simp only [Except.ok.injEq, exists_eq', true_iff]
        intro hmem
        obtain ⟨w, hmem, he⟩ := List.mem_map.mp hmem
        exact hw (List.any_eq_true.mpr ⟨w, hmem, decide_eq_true he⟩)
    | none =>
      simp only [← hm.snis]
      unfold Router.insert reversed
      cases M.insertError m.snis.patterns (String.ofList (toAsciiLowercase sni).toList.reverse) <;> simp

theorem Registers.insertSni (hM : M.Lawful) {m m' : SslMatcher} {p : ProxySSL} {sni : String}
    {patterns : List SniPattern} (hm : m.Registers patterns) (hi : insertSni M p m sni = .ok m') :
    m'.Registers (SniPattern.of sni :: patterns) := by
  obtain ⟨hof, -, rfl⟩ | ⟨suffix, hof, -, rfl⟩ | ⟨host, hof, hnew, rfl⟩ := insertSni_cases hM hi
  · rw [hof]
    exact ⟨hm.snis, hm.wildcards, by simp⟩
  · rw [hof]
    refine ⟨hm.snis, fun other => ?_, by simp [hm.catchAll]⟩
    rw [List.map_append, List.mem_append, hm.wildcards, suffixes, List.mem_cons, or_comm]
    simp
  · rw [hof]
    refine ⟨?_, hm.wildcards, by simp [hm.catchAll]⟩
    rw [reversedHosts, ← hm.snis]
    exact (AList.keys_insert _).trans (congrArg (reversed host :: ·) (List.erase_of_not_mem hnew))

/-- The names are inserted exactly when their patterns can be registered one after another. -/
theorem insertAll_isOk (hM : M.Lawful) : ∀ {entries : List (String × ProxySSL)} {m : SslMatcher}
    {patterns : List SniPattern}, m.Registers patterns → Registrable M patterns →
      ((∃ m', entries.foldlM (fun m e => insertSni M e.2 m e.1) m = .ok m') ↔
        Registrable M ((entries.map fun e => SniPattern.of e.1).reverse ++ patterns))
  | [], m, patterns, _, hr => by simp [hr, pure, Except.pure]
  | e :: entries, m, patterns, hm, hr => by
    have hfront : ((e :: entries).map fun e => SniPattern.of e.1).reverse ++ patterns =
        (entries.map fun e => SniPattern.of e.1).reverse ++ SniPattern.of e.1 :: patterns := by simp
    rw [hfront]
    constructor
    · rintro ⟨m', h⟩
      obtain ⟨mid, h1, h2⟩ := Except.foldlM_cons_eq_ok.mp h
      exact (insertAll_isOk hM (hm.insertSni hM h1) ((insertSni_isOk hm hr).mp ⟨mid, h1⟩)).mp ⟨m', h2⟩
    · intro hall
      have hnext : Registrable M (SniPattern.of e.1 :: patterns) := by
        generalize (entries.map fun e => SniPattern.of e.1).reverse = front at hall
        induction front with
        | nil => exact hall
        | cons a front ih => exact ih (registrable_tail hall)
      obtain ⟨mid, h1⟩ := (insertSni_isOk hm hr).mpr hnext
      obtain ⟨m', h2⟩ := (insertAll_isOk hM (hm.insertSni hM h1) hnext).mpr hall
      exact ⟨m', Except.foldlM_cons_eq_ok.mpr ⟨mid, h1, h2⟩⟩

theorem foldlM_insertSsl : ∀ (ps : List ProxySSL) (m : SslMatcher), ps.foldlM (insertSsl M) m =
    (ps.flatMap fun p => p.inner.snis.map fun sni => (sni, p)).foldlM (fun m e => insertSni M e.2 m e.1) m
  | [], m => rfl
  | p :: ps, m => by
    rw [List.foldlM_cons, List.flatMap_cons, List.foldlM_append, List.foldlM_map]
    exact congrArg (insertSsl M m p >>= ·) (funext fun mid => foldlM_insertSsl ps mid)

theorem build_isOk (hM : M.Lawful) {ssls : HashMap String ProxySSL} :
    (∃ m, build M ssls = .ok m) ↔ Registrable M ((insertions ssls).map fun e => SniPattern.of e.1).reverse := by
  have hempty : Registrable M [] := ⟨List.nodup_nil, Nat.zero_le 1, trivial⟩
  have hall := @insertAll_isOk M hM (insertions ssls) _ _ .start hempty
  rw [List.append_nil] at hall
  rw [← hall]
  unfold build insertions
  rw [foldlM_insertSsl]
  constructor
  · rintro ⟨m, h⟩
    obtain ⟨m1, h1, -⟩ := Except.bind_eq_ok.mp h
    exact ⟨m1, h1⟩
  · rintro ⟨m1, h1⟩
    exact ⟨_, Except.bind_eq_ok.mpr ⟨m1, h1, rfl⟩⟩

theorem registers_foldlM (hM : M.Lawful) : ∀ {entries : List (String × ProxySSL)} {m m' : SslMatcher}
    {patterns : List SniPattern}, m.Registers patterns →
      entries.foldlM (fun m e => insertSni M e.2 m e.1) m = .ok m' →
        m'.Registers ((entries.map fun e => SniPattern.of e.1).reverse ++ patterns)
  | [], m, m', patterns, hm, h => by
    cases h
    exact hm
  | e :: entries, m, m', patterns, hm, h => by
    obtain ⟨mid, h1, h2⟩ := Except.foldlM_cons_eq_ok.mp h
    simpa using registers_foldlM hM (hm.insertSni hM h1) h2

theorem build_registers (hM : M.Lawful) {ssls : HashMap String ProxySSL} {m : SslMatcher} (h : build M ssls = .ok m) :
    m.snis.patterns = reversedHosts ((insertions ssls).map fun e => SniPattern.of e.1).reverse := by
  unfold build at h
  rw [foldlM_insertSsl] at h
  obtain ⟨m1, h1, h2⟩ := Except.bind_eq_ok.mp h
  cases Except.pure_eq_ok.mp h2
  have hr := registers_foldlM hM .start h1
  rw [List.append_nil] at hr
  exact hr.snis

/-- At most one wildcard matches a name, also when its suffix is empty. -/
theorem hostMatchesWildcard_unique {host suffix other : String} (h : hostMatchesWildcard host suffix = true)
    (h' : hostMatchesWildcard host other = true) : suffix = other := by
  have dotted {suffix : String} (hne : suffix ≠ "") (h : hostMatchesWildcard host suffix = true) :
      '.' ∈ host.toList := by
    obtain ⟨label, -, -, he⟩ := (hostMatchesWildcard_iff hne).mp h
    rw [he]
    simp
  have undotted (h : hostMatchesWildcard host "" = true) : '.' ∉ host.toList := by
    unfold hostMatchesWildcard at h
    rw [if_pos rfl, Bool.and_eq_true] at h
    simpa using h.2
  by_cases hs : suffix = ""
  · by_cases ho : other = ""
    · rw [hs, ho]
    · subst hs
      exact absurd (dotted ho h') (undotted h)
  · by_cases ho : other = ""
    · subst ho
      exact absurd (dotted hs h) (undotted h')
    · exact ((hostMatchesWildcard_iff hs).mp h).unique ((hostMatchesWildcard_iff ho).mp h')

theorem find?_wildcard_eq_some {entries : List (String × ProxySSL)} {m : SslMatcher} (h : m.Holds entries)
    {host suffix : String} {p : ProxySSL} :
    m.wildcards.find? (fun w => hostMatchesWildcard host w.1) = some (suffix, p) ↔
      Serves entries (.wildcard suffix) p ∧ hostMatchesWildcard host suffix = true := by
  rw [← h.wildcard]
  constructor
  · intro hf
    exact ⟨List.mem_of_find?_eq_some hf, (List.find?_eq_some_iff_append.mp hf).1⟩
  · rintro ⟨hm, hmatch⟩
    cases hf : m.wildcards.find? fun w => hostMatchesWildcard host w.1 with
    | none => exact absurd hmatch (List.find?_eq_none.mp hf _ hm)
    | some w =>
      have hw : hostMatchesWildcard host w.1 = true := (List.find?_eq_some_iff_append.mp hf).1
      exact congrArg some (List.inj_on_of_nodup_map h.distinct (List.mem_of_find?_eq_some hf) hm
        (hostMatchesWildcard_unique hw hmatch))

variable {ssls ssls' : HashMap String ProxySSL} {m m' : SslMatcher}

theorem atPath_perm (hM : M.Lawful) (hO : M.OrderFree) (hp : (insertions ssls).Perm (insertions ssls'))
    (hb : build M ssls = .ok m) (hb' : build M ssls' = .ok m') (path : String) :
    m.snis.atPath M path = m'.snis.atPath M path := by
  have hserves (pattern : SniPattern) (q : ProxySSL) :
      Serves (insertions ssls) pattern q ↔ Serves (insertions ssls') pattern q :=
    exists_congr fun sni => and_congr_left fun _ => hp.mem_iff
  have hpatterns : (((insertions ssls).map fun e => SniPattern.of e.1).reverse).Perm
      (((insertions ssls').map fun e => SniPattern.of e.1).reverse) :=
    (List.reverse_perm _).trans ((hp.map _).trans (List.reverse_perm _).symm)
  have hlookup (pattern : String) : m.snis.slots.lookup pattern = m'.snis.slots.lookup pattern := by
    refine Option.ext fun q => ?_
    rw [(build_spec hM hb).1.exact, (build_spec hM hb').1.exact]
    exact exists_congr fun host => and_congr_right fun _ => hserves _ q
  have hchoose : M.choose m.snis.patterns path = M.choose m'.snis.patterns path := by
    rw [build_registers hM hb, build_registers hM hb']
    exact hO.choose (reversedHosts_perm hpatterns) ((build_isOk hM).mp ⟨m, hb⟩).2.2 path
  unfold Router.atPath
  simp only [hchoose, hlookup]

/-- The certificate for a server name does not depend on the order of insertion. -/
theorem matchSniSlicing_perm (hM : M.Lawful) (hO : M.OrderFree) (hp : (insertions ssls).Perm (insertions ssls'))
    (hb : build M ssls = .ok m) (hb' : build M ssls' = .ok m') (sni : String) :
    m.matchSniSlicing M sni = m'.matchSniSlicing M sni := by
  have hserves (pattern : SniPattern) (q : ProxySSL) :
      Serves (insertions ssls) pattern q ↔ Serves (insertions ssls') pattern q :=
    exists_congr fun sni => and_congr_left fun _ => hp.mem_iff
  have h := (build_spec hM hb).1
  have h' := (build_spec hM hb').1
  have hwildcards : m.wildcards.find? (fun w => hostMatchesWildcard (toAsciiLowercase sni) w.1) =
      m'.wildcards.find? fun w => hostMatchesWildcard (toAsciiLowercase sni) w.1 := by
    refine Option.ext fun w => ?_
    rw [find?_wildcard_eq_some h, find?_wildcard_eq_some h', hserves]
  have hcatch : m.catchAll = m'.catchAll := by
    refine Option.ext fun q => ?_
    rw [h.catchAll, h'.catchAll, hserves]
  have hmatch : m.matchSni M sni = m'.matchSni M sni := by
    unfold matchSni
    simp only [atPath_perm hM hO hp hb hb', hwildcards, hcatch]
  have hsome : (m.matchSniSlicing M sni).isSome = (m'.matchSniSlicing M sni).isSome := by
    refine Bool.eq_iff_iff.mpr ?_
    rw [match_sni_total_iff hM hb, match_sni_total_iff hM hb']
    unfold Spared
    simp only [hserves]
  cases hr : m.matchSniSlicing M sni with
  | none =>
    rw [hr] at hsome
    exact (Option.isNone_iff_eq_none.mp (by simpa using hsome.symm)).symm
  | some r =>
    rw [hr] at hsome
    obtain ⟨r', hr'⟩ := Option.isSome_iff_exists.mp hsome.symm
    rw [hr', matchSniSlicing_eq_some hr, matchSniSlicing_eq_some hr', hmatch]

end SslMatcher

/-! ## Sets of resources -/

namespace ResourceConfigSet

/-- The two sets hold the same resources, their maps in any order. -/
def SameEntries (set set' : ResourceConfigSet) : Prop := ∀ kind, HashMap.SameEntries (set.slot kind) (set'.slot kind)

variable {ext : Externals} {set set' : ResourceConfigSet}

theorem SameEntries.validatePluginUpstreamRefs (h : set.SameEntries set') (owner : String)
    (plugins : HashMap String Json) : validatePluginUpstreamRefs ext owner plugins set.upstreams =
      Pingsix.validatePluginUpstreamRefs ext owner plugins set'.upstreams := by
  have hcontains (id : String) : set.upstreams.containsKey id = set'.upstreams.containsKey id :=
    HashMap.SameEntries.containsKey (h .upstream) id
  unfold Pingsix.validatePluginUpstreamRefs
  simp only [hcontains]

theorem SameEntries.validate (h : set.SameEntries set') (hv : validateRuntimeForm ext set = .ok ()) :
    validateRuntimeForm ext set' = .ok () := by
  obtain ⟨hups, hsvcs, hrules, hroutes, hssls, hrouteRefs, hserviceRefs, hruleRefs⟩ := validateConfigSet_eq_ok.mp hv
  have upstreams (id : String) : set'.upstreams.lookup id = set.upstreams.lookup id := (h .upstream id).symm
  have services (id : String) : set'.services.lookup id = set.services.lookup id := (h .service id).symm
  have globalRules (id : String) : set'.globalRules.lookup id = set.globalRules.lookup id := (h .globalRule id).symm
  have routes (id : String) : set'.routes.lookup id = set.routes.lookup id := (h .route id).symm
  have ssls (id : String) : set'.ssls.lookup id = set.ssls.lookup id := (h .ssl id).symm
  have hupContains (id : String) : set'.upstreams.containsKey id = set.upstreams.containsKey id := by
    rw [HashMap.containsKey, HashMap.containsKey, upstreams]
  have hsvcContains (id : String) : set'.services.containsKey id = set.services.containsKey id := by
    rw [HashMap.containsKey, HashMap.containsKey, services]
  refine validateConfigSet_eq_ok.mpr ⟨?_, ?_, ?_, ?_, ?_, ?_, ?_, ?_⟩
  · simpa only [upstreams] using hups
  · simpa only [services] using hsvcs
  · simpa only [globalRules] using hrules
  · simpa only [routes] using hroutes
  · simpa only [ssls] using hssls
  · intro id r hr
    rw [routes] at hr
    obtain ⟨h1, h2, h3⟩ := validateRouteRefs_eq_ok.mp (hrouteRefs id r hr)
    refine validateRouteRefs_eq_ok.mpr ⟨fun i hi => hsvcContains i ▸ h1 i hi, fun hn i hi => hupContains i ▸ h2 hn i hi, ?_⟩
    rw [← h.validatePluginUpstreamRefs]
    exact h3
  · intro id s hs
    rw [services] at hs
    obtain ⟨h1, h2⟩ := validateServiceRefs_eq_ok.mp (hserviceRefs id s hs)
    refine validateServiceRefs_eq_ok.mpr ⟨fun hn i hi => hupContains i ▸ h1 hn i hi, ?_⟩
    rw [← h.validatePluginUpstreamRefs]
    exact h2
  · intro id g hg
    rw [globalRules] at hg
    have h1 := validateGlobalRuleRefs_eq_ok.mp (hruleRefs id g hg)
    refine validateGlobalRuleRefs_eq_ok.mpr ?_
    rw [← h.validatePluginUpstreamRefs]
    exact h1

end ResourceConfigSet

/-! ## Plans and candidates -/

/-- The two candidates hold the same objects, their maps in any order. -/
structure CandidateSnapshot.SameEntries (c c' : CandidateSnapshot) : Prop where
  upstreams : HashMap.SameEntries c.upstreams c'.upstreams
  services : HashMap.SameEntries c.services c'.services
  globalRules : HashMap.SameEntries c.globalRules c'.globalRules
  routes : HashMap.SameEntries c.routes c'.routes
  ssls : HashMap.SameEntries c.ssls c'.ssls

/-- The two plans reuse the same objects and ask for the same jobs, in any order. -/
structure CandidatePlan.SameEntries (p p' : CandidatePlan) : Prop where
  upstreams : HashMap.SameEntries p.reusedUpstreams p'.reusedUpstreams
  services : HashMap.SameEntries p.reusedServices p'.reusedServices
  globalRules : HashMap.SameEntries p.reusedGlobalRules p'.reusedGlobalRules
  routes : HashMap.SameEntries p.reusedRoutes p'.reusedRoutes
  ssls : HashMap.SameEntries p.reusedSsls p'.reusedSsls
  jobs : p.jobs.Perm p'.jobs

theorem depsReused_congr {reused reused' : HashMap String ProxyUpstream} (h : SameEntries reused reused') (same : Bool)
    (deps : ProxyResult (List String)) : depsReused same deps reused = depsReused same deps reused' := by
  unfold depsReused
  rw [funext h.containsKey]

theorem CandidatePlan.build_perm {ext : Externals} {config config' : ResourceConfigSet} {previous : RuntimeSnapshot}
    {plan : CandidatePlan} (h : config.SameEntries config') (hp : CandidatePlan.build ext config previous = .ok plan) :
    ∃ plan', CandidatePlan.build ext config' previous = .ok plan' ∧ plan.SameEntries plan' := by
  obtain ⟨hups, hsvcs, hrules, hroutes, hssls, n, s, g, r, hn, hs, hg, hr, hj⟩ := CandidatePlan.build_eq_ok.mp hp
  obtain ⟨ups, hups', hu⟩ := reuseEntries_congr (h .upstream) (fun _ _ => rfl) hups
  obtain ⟨svcs, hsvcs', hv⟩ := reuseEntries_congr (h .service) (fun _ _ => depsReused_congr hu _ _) hsvcs
  obtain ⟨rules, hrules', hw⟩ := reuseEntries_congr (h .globalRule) (fun _ _ => depsReused_congr hu _ _) hrules
  have hkeep (route : Route) (existing : ProxyRoute ProxyUpstream) :
      keepsRoute ext plan.reusedUpstreams plan.reusedServices route existing = keepsRoute ext ups svcs route existing := by
    unfold keepsRoute
    rw [depsReused_congr hu]
    unfold routeServiceReused
    rw [funext hv.containsKey]
  obtain ⟨routes, hroutes', hx⟩ := reuseEntries_congr (h .route) hkeep hroutes
  obtain ⟨ssls, hssls', hy⟩ := reuseEntries_congr (h .ssl) (fun _ _ => rfl) hssls
  obtain ⟨n', hn', pn⟩ := collectJobs_congr (h .upstream) hu.containsKey hn
  obtain ⟨s', hs', ps⟩ := collectJobs_congr (h .service) hv.containsKey hs
  obtain ⟨g', hg', pg⟩ := collectJobs_congr (h .globalRule) hw.containsKey hg
  obtain ⟨r', hr', pr⟩ := collectJobs_congr (h .route) hx.containsKey hr
  refine ⟨⟨ups, svcs, rules, routes, ssls, n' ++ s' ++ g' ++ r'⟩, CandidatePlan.build_eq_ok.mpr
    ⟨hups', hsvcs', hrules', hroutes', hssls', n', s', g', r', hn', hs', hg', hr', rfl⟩, hu, hv, hw, hx, hy, ?_⟩
  rw [hj]
  exact ((pn.append ps).append pg).append pr

theorem CandidateSnapshot.buildPrepared_perm {ctx : BuildContext} {config config' : ResourceConfigSet}
    {plan plan' : CandidatePlan} {candidate : CandidateSnapshot} (h : config.SameEntries config')
    (hp : plan.SameEntries plan') (hb : CandidateSnapshot.buildPrepared ctx config plan = .ok candidate) :
    ∃ candidate', CandidateSnapshot.buildPrepared ctx config' plan' = .ok candidate' ∧
      candidate.SameEntries candidate' := by
  obtain ⟨hv, hups, hsvcs, hrules, hroutes, hssls⟩ := CandidateSnapshot.buildPrepared_eq_ok.mp hb
  obtain ⟨ups, hups', hu⟩ := buildEntries_congr (h .upstream) hp.upstreams (fun _ _ => rfl) hups
  obtain ⟨svcs, hsvcs', hs⟩ := buildEntries_congr (h .service) hp.services
    (fun _ service => ProxyService.build_congr hu service) hsvcs
  obtain ⟨rules, hrules', hr⟩ := buildEntries_congr (h .globalRule) hp.globalRules
    (fun _ rule => ProxyGlobalRule.build_congr hu rule) hrules
  obtain ⟨routes, hroutes', hx⟩ := buildEntries_congr (h .route) hp.routes
    (fun _ route => ProxyRoute.build_congr hu hs route) hroutes
  obtain ⟨ssls, hssls', hy⟩ := buildEntries_congr (h .ssl) hp.ssls (fun _ _ => rfl) hssls
  exact ⟨⟨ups, svcs, rules, routes, ssls⟩, CandidateSnapshot.buildPrepared_eq_ok.mpr
    ⟨h.validate hv, hups', hsvcs', hrules', hroutes', hssls'⟩, hu, hs, hr, hx, hy⟩

/-! ## Compiled snapshots -/

/-- Every request and every server name gets the same answer. -/
structure RuntimeSnapshot.SameAnswers (M : Matchit) (s s' : RuntimeSnapshot) : Prop where
  routes : ∀ isMethod request,
    MatchEntry.routeMatch M isMethod s.routeMatcher request = MatchEntry.routeMatch M isMethod s'.routeMatcher request
  globalPlugins : s.globalPlugins = s'.globalPlugins
  certificates : ∀ sni, s.sslMatcher.matchSniSlicing M sni = s'.sslMatcher.matchSniSlicing M sni

theorem RuntimeSnapshot.compile_perm {M : Matchit} (hM : M.Lawful) (hO : M.OrderFree) {c c' : CandidateSnapshot}
    {revision : Int} {s : RuntimeSnapshot} (h : c.SameEntries c')
    (hrules : ∀ id rule, c.globalRules.lookup id = some rule → rule.inner.id = id)
    (hroutes : MatchEntry.Identified c.routes) (hc : RuntimeSnapshot.compile M c revision = .ok s) :
    ∃ s', RuntimeSnapshot.compile M c' revision = .ok s' ∧ s.SameAnswers M s' := by
  unfold RuntimeSnapshot.compile at hc ⊢
  obtain ⟨routeMatcher, h1, hc⟩ := Except.bind_eq_ok.mp hc
  obtain ⟨sslMatcher, h2, hc⟩ := Except.bind_eq_ok.mp hc
  cases Except.pure_eq_ok.mp hc
  have h2 := Except.mapError_eq_ok.mp h2
  have hperm : (insertions c.ssls).Perm (insertions c'.ssls) := h.ssls.perm_values.flatMap_right _
  obtain ⟨sslMatcher', h2'⟩ := (SslMatcher.build_isOk hM).mpr
    (((SslMatcher.build_isOk hM).mp ⟨sslMatcher, h2⟩).perm hO
      ((List.reverse_perm _).trans ((hperm.map _).trans (List.reverse_perm _).symm)))
  have hglobal := buildGlobalPluginExecutor_perm h.globalRules hrules
  rw [MatchEntry.build_perm h.routes hroutes, hglobal] at h1
  refine ⟨_, Except.bind_eq_ok.mpr ⟨routeMatcher, h1, Except.bind_eq_ok.mpr
    ⟨sslMatcher', Except.mapError_eq_ok.mpr h2', rfl⟩⟩, fun _ _ => rfl, hglobal, ?_⟩
  exact SslMatcher.matchSniSlicing_perm hM hO hperm h2 h2'

theorem reusedOr_eq_ok {ν ο : Type} {reused : HashMap String ο} {build : String → ν → BuildResult ο} {id : String}
    {v : ν} {o : ο} :
    reusedOr reused build id v = .ok o ↔ reused.lookup id = some o ∨ reused.lookup id = none ∧ build id v = .ok o := by
  unfold reusedOr
  cases reused.lookup id with
  | none => simp
  | some existing => simp

/-- The objects of a candidate stand under the ids of their configuration, reused or built. -/
theorem CandidateSnapshot.identified {ctx : BuildContext} {config : ResourceConfigSet} {previous : RuntimeSnapshot}
    {plan : CandidatePlan} {candidate : CandidateSnapshot} (hid : config.Identified)
    (hp : CandidatePlan.build ctx.ext config previous = .ok plan)
    (hb : CandidateSnapshot.buildPrepared ctx config plan = .ok candidate) :
    (∀ id rule, candidate.globalRules.lookup id = some rule → rule.inner.id = id) ∧
      MatchEntry.Identified candidate.routes := by
  have hplan := CandidatePlan.build_eq_ok.mp hp
  have hbuilt := CandidateSnapshot.buildPrepared_eq_ok.mp hb
  constructor
  · intro id rule hl
    obtain ⟨config, hconfig, ho⟩ := (lookup_buildEntries hbuilt.globalRules).mp hl
    have hcid : config.id = id := (congrArg GlobalRule.id (hid .globalRule id config hconfig)).symm
    cases reusedOr_eq_ok.mp ho with
    | inl hr =>
      obtain ⟨config', hconfig', -, hk⟩ := (lookup_reuseEntries hplan.globalRules).mp hr
      cases Option.some.inj (hconfig.symm.trans hconfig')
      unfold keepsGlobalRule depsReused at hk
      by_cases hsame : rule.inner.same config = true
      · unfold GlobalRule.same at hsame
        rw [Bool.and_eq_true, decide_eq_true_eq] at hsame
        exact hsame.1.trans hcid
      · rw [if_neg hsame] at hk
        cases hk
    | inr hb =>
      obtain ⟨plugins, -, he⟩ := Except.bind_eq_ok.mp hb.2
      cases Except.pure_eq_ok.mp he
      exact hcid
  · intro id route hl
    obtain ⟨config, hconfig, ho⟩ := (lookup_buildEntries hbuilt.routes).mp hl
    have hcid : config.id = id := (congrArg Route.id (hid .route id config hconfig)).symm
    cases reusedOr_eq_ok.mp ho with
    | inl hr =>
      obtain ⟨config', hconfig', -, hk⟩ := (lookup_reuseEntries hplan.routes).mp hr
      cases Option.some.inj (hconfig.symm.trans hconfig')
      unfold keepsRoute depsReused at hk
      by_cases hsame : (routeServiceReused config plan.reusedServices && route.inner.same config) = true
      · have hfields := (Bool.and_eq_true_iff.mp hsame).2
        unfold Route.same at hfields
        simp only [Bool.and_eq_true, decide_eq_true_eq] at hfields
        have hrid : route.inner.id = config.id := by tauto
        exact hrid.trans hcid
      · rw [if_neg hsame] at hk
        cases hk
    | inr hb =>
      have hinner : route.inner = config := by
        obtain ⟨service, inline, upstream, plugins, -, -, -, -, rfl⟩ := ProxyRoute.build_eq_ok.mp hb.2
        rfl
      exact (congrArg Route.id hinner).trans hcid

/-! ## Main result -/

/-- Whatever the iteration order of its maps, a set compiles to the same answers; the routes consulted for a request
are ranked by priority and then id. -/
theorem compilation_order_independent {M : Matchit} (hM : M.Lawful) (hO : M.OrderFree) {ctx : BuildContext}
    {config config' : ResourceConfigSet} {previous : RuntimeSnapshot} {plan : CandidatePlan}
    {candidate : CandidateSnapshot} {revision : Int} {s : RuntimeSnapshot} (hid : config.Identified)
    (hsame : config.SameEntries config') (hp : CandidatePlan.build ctx.ext config previous = .ok plan)
    (hb : CandidateSnapshot.buildPrepared ctx config plan = .ok candidate)
    (hc : RuntimeSnapshot.compile M candidate revision = .ok s) :
    (∃ plan' candidate' s', CandidatePlan.build ctx.ext config' previous = .ok plan' ∧ plan.SameEntries plan' ∧
      CandidateSnapshot.buildPrepared ctx config' plan' = .ok candidate' ∧ candidate.SameEntries candidate' ∧
        RuntimeSnapshot.compile M candidate' revision = .ok s' ∧ s.SameAnswers M s') ∧
    ∀ host uri, ∃ hosted unhosted : List (ProxyRoute ProxyUpstream),
      hosted.Pairwise MatchEntry.Ranks ∧ unhosted.Pairwise MatchEntry.Ranks ∧
        ∀ method, (MatchEntry.matchHostUriMethod M s.routeMatcher host uri method).map Prod.snd =
          (hosted ++ unhosted).find? (MatchedRoute.allowsMethod · method) := by
  obtain ⟨hrules, hroutes⟩ := CandidateSnapshot.identified hid hp hb
  obtain ⟨plan', hp', hplan⟩ := CandidatePlan.build_perm hsame hp
  obtain ⟨candidate', hb', hcandidate⟩ := CandidateSnapshot.buildPrepared_perm hsame hplan hb
  obtain ⟨s', hc', hanswers⟩ := RuntimeSnapshot.compile_perm hM hO hcandidate hrules hroutes hc
  refine ⟨⟨plan', candidate', s', hp', hplan, hb', hcandidate, hc', hanswers⟩, fun host uri => ?_⟩
  unfold RuntimeSnapshot.compile at hc
  obtain ⟨routeMatcher, h1, hc⟩ := Except.bind_eq_ok.mp hc
  obtain ⟨sslMatcher, -, hc⟩ := Except.bind_eq_ok.mp hc
  cases Except.pure_eq_ok.mp hc
  obtain ⟨hosted, unhosted, he, hranked, hranked'⟩ :=
    MatchEntry.consulted_ranked (M := M) (MatchEntry.ranked_build h1) host uri
  exact ⟨hosted, unhosted, hranked, hranked', fun method =>
    he ▸ MatchEntry.matchHostUriMethod_route routeMatcher host uri method⟩

/-! ## Two routes of one path -/

def tiedRoute (id : String) : Route := { id, uri := some "/account", upstreamId := some "u1" }

/-- The resources of a set with two routes and two certificates, given the order of its maps. -/
def tiedSet (routes : HashMap String Route) (ssls : HashMap String SSL) : ResourceConfigSet where
  upstreams := AList.singleton "u1" { id := "u1", nodes := ⟨[{ host := "127.0.0.1", port := some 80, weight := 1,
                                                               priority := 0 }]⟩ }
  routes
  ssls

def tiedFirst : ResourceConfigSet :=
  tiedSet ((AList.singleton "b" (tiedRoute "b")).insert "a" (tiedRoute "a"))
    ((AList.singleton "2" (plainSsl "2" ["*.example.com"]).inner).insert "1" (plainSsl "1" ["api.example.com", "*"]).inner)

def tiedSecond : ResourceConfigSet :=
  tiedSet ((AList.singleton "a" (tiedRoute "a")).insert "b" (tiedRoute "b"))
    ((AList.singleton "1" (plainSsl "1" ["api.example.com", "*"]).inner).insert "2" (plainSsl "2" ["*.example.com"]).inner)

def tiedContext : BuildContext where
  ext := { Admin.sampleExternals [] with x509 := plainX509 }
  prepared := AList.singleton (.named "u1") ⟨["127.0.0.1:80"]⟩
  generation := 1
  uuid _ := ""

theorem lookup_pair {ν : Type} {k k' id : String} {v v' w : ν}
    (h : ((AList.singleton k v : HashMap String ν).insert k' v').lookup id = some w) :
    id = k' ∧ w = v' ∨ id = k ∧ w = v := by
  rw [HashMap.lookup_insert] at h
  by_cases hk : id = k'
  · rw [if_pos hk] at h
    exact .inl ⟨hk, (Option.some.inj h).symm⟩
  · rw [if_neg hk] at h
    have hm := (HashMap.mem_entries_iff _ _ _).mpr h
    cases List.mem_singleton.mp hm
    exact .inr ⟨rfl, rfl⟩

theorem identified_tiedFirst : tiedFirst.Identified := by
  intro kind id r h
  cases kind with
  | upstream =>
    cases List.mem_singleton.mp ((HashMap.mem_entries_iff _ _ _).mpr h)
    rfl
  | service =>
    rw [show (tiedFirst.slot .service).lookup id = none from HashMap.lookup_empty id] at h
    cases h
  | globalRule =>
    rw [show (tiedFirst.slot .globalRule).lookup id = none from HashMap.lookup_empty id] at h
    cases h
  | route =>
    obtain ⟨rfl, rfl⟩ | ⟨rfl, rfl⟩ := lookup_pair h
    · rfl
    · rfl
  | ssl =>
    obtain ⟨rfl, rfl⟩ | ⟨rfl, rfl⟩ := lookup_pair h
    · rfl
    · rfl

theorem sameEntries_tied : tiedFirst.SameEntries tiedSecond := by
  have pair {ν : Type} {k k' : String} (v v' : ν) (hne : k ≠ k') : HashMap.SameEntries
      ((AList.singleton k v : HashMap String ν).insert k' v') ((AList.singleton k' v' : HashMap String ν).insert k v) :=
    fun id => AList.perm_lookup (AList.insert_insert_of_ne ∅ hne)
  intro kind
  cases kind with
  | upstream => exact .refl _
  | service => exact .refl _
  | globalRule => exact .refl _
  | route => exact pair _ _ (by decide)
  | ssl => exact pair _ _ (by decide)

theorem compilation_order_independent_tied : ∃ plan candidate s,
    CandidatePlan.build tiedContext.ext tiedFirst .empty = .ok plan ∧
      CandidateSnapshot.buildPrepared tiedContext tiedFirst plan = .ok candidate ∧
        RuntimeSnapshot.compile Matchit.staticFirst candidate 1 = .ok s ∧
          ∃ plan' candidate' s', CandidatePlan.build tiedContext.ext tiedSecond .empty = .ok plan' ∧
            CandidateSnapshot.buildPrepared tiedContext tiedSecond plan' = .ok candidate' ∧
              RuntimeSnapshot.compile Matchit.staticFirst candidate' 1 = .ok s' ∧ s.SameAnswers Matchit.staticFirst s' := by
  obtain ⟨⟨plan', candidate', s', hp, -, hb, -, hc, hs⟩, -⟩ := @compilation_order_independent Matchit.staticFirst
    Matchit.staticFirst_lawful Matchit.staticFirst_orderFree tiedContext tiedFirst tiedSecond .empty _ _ 1 _
    identified_tiedFirst sameEntries_tied rfl rfl rfl
  exact ⟨_, _, _, rfl, rfl, rfl, plan', candidate', s', hp, hb, hc, hs⟩

end Pingsix
