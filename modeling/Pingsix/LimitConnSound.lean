import Pingsix.Lib.Sums
import Pingsix.LimitConn
import Pingsix.LimitingSound

/-!
# The cap of limit-conn

A counter is worth as many slots as requests hold on it, and the counter a
request holds stays the one its key leads to: by its own entry, or by the
overflow entry while it has none. From these the number of live requests stays
under the limit. Two orders of steps break the second fact: a sweep that takes
a counter between its lookup and its count, and a regular slot given to a key
whose overflow slot is in use.
-/

namespace Pingsix

namespace LimitConn

/-! ## What requests hold -/

namespace Request

/-- The slots of the request that are counted and not released. -/
def guards : Request → List ConnGuard
  | selecting guards _ | admitting guards _ _ _ _ | counting guards _ _ _ | sleeping guards _ | rejecting guards _ |
    live guards | releasing guards => guards

/-- Its guards and the counter it has found but not counted up. -/
def holds : Request → List ConnGuard
  | counting guards limit _ state => ⟨state, limit⟩ :: guards
  | request => request.guards

/-- The guards of a request that is admitted and not yet logged. -/
def liveGuards : Request → List ConnGuard
  | live guards => guards
  | _ => []

/-- How often the request is in the count of a counter: its guards, and a refused slot it has not given back. -/
def slots (state : Nat) : Request → Nat
  | rejecting guards s => guards.countP (·.state = state) + if s = state then 1 else 0
  | request => request.guards.countP (·.state = state)

/-- The counter it has found but not counted up. -/
def pending : Request → Option Nat
  | counting _ _ _ state => some state
  | _ => none

/-- The shard whose lock the request has. -/
def locks (hash : String → Nat) : Request → Option Nat
  | admitting _ limit _ _ _ => some (shardIdx hash limit.key)
  | _ => none

/-- Admitted under the limit and not yet logged. -/
def liveUnder (limit : LimitSelection) (request : Request) : Bool := request.liveGuards.any (·.limit = limit)

theorem liveGuards_subset (request : Request) : ∀ g ∈ request.liveGuards, g ∈ request.guards := by
  cases request <;> simp [liveGuards, guards]

theorem guards_subset (request : Request) : ∀ g ∈ request.guards, g ∈ request.holds := by
  cases request <;> simp +contextual [holds, guards]

theorem guards_le_slots (request : Request) (state : Nat) :
    request.guards.countP (·.state = state) ≤ request.slots state := by
  cases request <;> simp [slots, guards]

end Request

namespace PluginLimitConn

def slots (s : PluginLimitConn) (state : Nat) : Nat := (s.requests.map (·.slots state)).sum

/-- The guards taken for a limit. -/
def taken (s : PluginLimitConn) (limit : LimitSelection) : Nat :=
  (s.requests.map fun p => p.guards.countP (·.limit = limit)).sum

/-- The counter that a key leads to. -/
def counterOf (hash : String → Nat) (s : PluginLimitConn) (key : String) : Option Nat :=
  let entries := (s.counters (shardIdx hash key)).entries
  (entries.lookup key).or (entries.lookup limitConnOverflow)

/-- What the limiter is for. -/
structure Capped (s : PluginLimitConn) : Prop where
  cap : ∀ limit : LimitSelection, s.requests.countP (·.liveUnder limit) ≤ limit.conn + limit.burst
  exact : ∀ state, s.count state = s.slots state
  nonneg : ∀ state, 0 ≤ s.count state
  drained : (∀ p ∈ s.requests, p = .releasing []) → ∀ state, s.count state = 0
  single : ∀ p ∈ s.requests, ∀ q ∈ s.requests, ∀ g ∈ p.liveGuards, ∀ g' ∈ q.liveGuards,
    g.limit.key = g'.limit.key → g.state = g'.state

/-- The step leaves every key with the counter its requests hold: a sweep takes no counter that was looked up and
not counted, and a key gets a regular slot only when no request holds an overflow slot for it. -/
def KeepsCounters (hash : String → Nat) (s : PluginLimitConn) : Action → Prop
  | .examine r => ∀ guards limit limits newKey budget,
      s.requests[r]? = some (.admitting guards limit limits newKey (budget + 1)) → ∀ key state,
      (s.counters (shardIdx hash limit.key)).touchOrder.oldest.head? = some key →
      (s.counters (shardIdx hash limit.key)).entries.lookup key = some state → s.count state = 0 →
      ∀ p ∈ s.requests, p.pending ≠ some state
  | .settle r => ∀ guards limit limits, s.requests[r]? = some (.admitting guards limit limits true 0) →
      (s.counters (shardIdx hash limit.key)).len < perShardRegularMax →
      ∀ p ∈ s.requests, ∀ g ∈ p.holds, g.limit.key ≠ limit.key
  | _ => True

/-! ## The invariant -/

structure Inv (hash : String → Nat) (s : PluginLimitConn) : Prop where
  exact : ∀ state, s.count state = s.slots state
  placed : ∀ p ∈ s.requests, ∀ g ∈ p.holds, s.counterOf hash g.limit.key = some g.state
  capped : ∀ limit : LimitSelection, s.taken limit ≤ limit.conn + limit.burst
  made : ∀ i key state, (s.counters i).entries.lookup key = some state → state < s.states
  fresh : ∀ state, s.states ≤ state → s.slots state = 0
  settled : ∀ p ∈ s.requests, ∀ guards limit limits newKey budget,
    p = .admitting guards limit limits newKey budget →
    (s.counters (shardIdx hash limit.key)).containsKey limit.key = !newKey ∧ (0 < budget → newKey = true)
  exclusive : ∀ (r r' : Nat) (p p' : Request), s.requests[r]? = some p → s.requests[r']? = some p' →
    ∀ i, p.locks hash = some i → p'.locks hash = some i → r = r'

variable {config : PluginConfig} {hash : String → Nat} {s s' : PluginLimitConn}

theorem inv_initial (h : Initial s) : Inv hash s := by
  rw [h]
  constructor <;> simp [slots, taken]

theorem counterOf_eq {i : Nat} {key : String} (h : shardIdx hash key = i) :
    s.counterOf hash key =
      ((s.counters i).entries.lookup key).or ((s.counters i).entries.lookup limitConnOverflow) := by
  rw [← h]
  rfl

/-- A counter some request holds is the value of an entry. -/
theorem counterOf_entry {key : String} {state : Nat} (h : s.counterOf hash key = some state) :
    ∃ i k, (s.counters i).entries.lookup k = some state := by
  unfold counterOf at h
  rw [Option.or_eq_some_iff] at h
  rcases h with h | ⟨-, h⟩
  · exact ⟨_, _, h⟩
  · exact ⟨_, _, h⟩

theorem Inv.holds_lt (hi : Inv hash s) {p : Request} (hp : p ∈ s.requests) {g : ConnGuard} (hg : g ∈ p.holds) :
    g.state < s.states := by
  obtain ⟨i, k, h⟩ := counterOf_entry (hi.placed p hp g hg)
  exact hi.made i k g.state h

/-- Guards keep the count of their counter above zero. -/
theorem Inv.count_pos (hi : Inv hash s) {p : Request} (hp : p ∈ s.requests) {g : ConnGuard} (hg : g ∈ p.guards) :
    0 < s.count g.state := by
  have h1 : 0 < p.guards.countP (·.state = g.state) := List.countP_pos_iff.mpr ⟨g, hg, by simp⟩
  have h2 : p.slots g.state ≤ s.slots g.state := Sums.le_sum_map _ hp
  have h3 := p.guards_le_slots g.state
  rw [hi.exact]
  omega

/-- All guards of one limit are in the count of the counter of its key. -/
theorem Inv.taken_le (hi : Inv hash s) {limit : LimitSelection} {state : Nat}
    (h : s.counterOf hash limit.key = some state) : s.taken limit ≤ s.slots state := by
  refine Sums.sum_map_le fun p hp => le_trans ?_ (p.guards_le_slots state)
  refine List.countP_mono_left fun g hg hl => ?_
  have hl : g.limit = limit := by simpa using hl
  have hg := hi.placed p hp g (p.guards_subset g hg)
  rw [hl, h, Option.some.injEq] at hg
  simpa using hg.symm

theorem Inv.toCapped (hi : Inv hash s) : Capped s where
  cap limit := by
    refine le_trans (Sums.countP_le_sum_map fun p _ hl => ?_) (hi.capped limit)
    obtain ⟨g, hg, hgl⟩ := List.any_eq_true.mp hl
    exact List.countP_pos_iff.mpr ⟨g, p.liveGuards_subset g hg, hgl⟩
  exact := hi.exact
  nonneg state := by
    rw [hi.exact]
    omega
  drained h state := by
    rw [hi.exact]
    have : s.slots state = 0 := Sums.sum_map_eq_zero fun p hp => by rw [h p hp]; rfl
    omega
  single p hp q hq g hg g' hg' he := by
    have h1 := hi.placed p hp g (p.guards_subset g (p.liveGuards_subset g hg))
    have h2 := hi.placed q hq g' (q.guards_subset g' (q.liveGuards_subset g' hg'))
    rw [he, h2, Option.some.injEq] at h1
    exact h1.symm

/-! ## A request goes on -/

theorem add_zero (s : PluginLimitConn) (state : Nat) : s.add state 0 = s := by
  unfold add
  rw [Int.add_zero, Function.update_eq_self]

theorem mem_setRequest {r : Nat} {p' q : Request} (h : q ∈ (s.setRequest r p').requests) : q = p' ∨ q ∈ s.requests :=
  (List.mem_or_eq_of_mem_set h).symm

theorem getElem?_setRequest {r : Nat} {p p' : Request} (hr : s.requests[r]? = some p) (r' : Nat) :
    (s.setRequest r p').requests[r']? = if r = r' then some p' else s.requests[r']? := by
  have hlt : r < s.requests.length := (List.getElem?_eq_some_iff.mp hr).1
  unfold setRequest
  rw [List.getElem?_set]
  simp [hlt]

/-- The request goes from `p` to `p'` and changes the count of one counter by `d`. -/
theorem Inv.goOn (hi : Inv hash s) {r : Nat} {p p' : Request} (hr : s.requests[r]? = some p) (state : Nat) (d : Int)
    (hholds : ∀ g ∈ p'.holds, s.counterOf hash g.limit.key = some g.state)
    (hslots : ∀ st, (p'.slots st : Int) = p.slots st + if st = state then d else 0)
    (hstate : state < s.states ∨ d = 0)
    (hcap : ∀ limit : LimitSelection, s.taken limit + p'.guards.countP (·.limit = limit) ≤
      limit.conn + limit.burst + p.guards.countP (·.limit = limit))
    (hset : ∀ guards limit limits newKey budget, p' = .admitting guards limit limits newKey budget →
      (s.counters (shardIdx hash limit.key)).containsKey limit.key = !newKey ∧ (0 < budget → newKey = true))
    (hlocks : ∀ i, p'.locks hash = some i → p.locks hash = some i ∨ s.unlocked hash i = true) :
    Inv hash ((s.add state d).setRequest r p') := by
  have hsum : ∀ st, ((s.add state d).setRequest r p').slots st + p.slots st = s.slots st + p'.slots st :=
    fun st => Sums.sum_map_set (·.slots st) p' hr
  have hmem : ∀ {q}, q ∈ ((s.add state d).setRequest r p').requests → q = p' ∨ q ∈ s.requests :=
    fun h => mem_setRequest (s := s) h
  constructor
  · intro st
    have h1 := hsum st
    have h2 := hslots st
    have h3 := hi.exact st
    have h4 : ((s.add state d).setRequest r p').count st = s.count st + if st = state then d else 0 := by
      unfold setRequest add
      by_cases he : st = state
      · simp [he]
      · simp [he]
    omega
  · intro q hq g hg
    rcases hmem hq with rfl | hq
    · exact hholds g hg
    · exact hi.placed q hq g hg
  · intro limit
    have h1 : ((s.add state d).setRequest r p').taken limit + p.guards.countP (·.limit = limit) =
        s.taken limit + p'.guards.countP (·.limit = limit) := Sums.sum_map_set _ p' hr
    have h2 := hcap limit
    omega
  · exact hi.made
  · intro st hst
    have h1 := hsum st
    have h2 := hslots st
    have h3 := hi.fresh st hst
    have h4 : p.slots st ≤ s.slots st := Sums.le_sum_map _ (List.mem_of_getElem? hr)
    have h5 : (if st = state then d else 0) = 0 := by
      by_cases he : st = state
      · rcases hstate with h | h
        · have : s.states ≤ st := hst
          omega
        · simp [h]
      · simp [he]
    omega
  · intro q hq
    rcases hmem hq with rfl | hq
    · exact hset
    · exact hi.settled q hq
  · intro a b q q' ha hb i hqi hqi'
    have ha' : (s.setRequest r p').requests[a]? = some q := ha
    have hb' : (s.setRequest r p').requests[b]? = some q' := hb
    rw [getElem?_setRequest hr] at ha' hb'
    -- a lock that `p'` has is one `p` had or one that was free
    have hother : ∀ {c q'}, p'.locks hash = some i → s.requests[c]? = some q' → q'.locks hash = some i → r = c := by
      intro c q' hp' hc hq'
      rcases hlocks i hp' with h | h
      · exact hi.exclusive r c p q' hr hc i h hq'
      · have := List.all_eq_true.mp h q' (List.mem_of_getElem? hc)
        cases q' <;> simp [Request.locks] at hq'
        simp [hq'] at this
    by_cases h1 : r = a
    · by_cases h2 : r = b
      · omega
      · rw [if_pos h1, Option.some.injEq] at ha'
        rw [if_neg h2] at hb'
        subst ha'
        exact absurd (hother hqi hb' hqi') h2
    · rw [if_neg h1] at ha'
      by_cases h2 : r = b
      · rw [if_pos h2, Option.some.injEq] at hb'
        subst hb'
        exact absurd (hother hqi' ha' hqi) h1
      · rw [if_neg h2] at hb'
        exact hi.exclusive a b q q' ha' hb' i hqi hqi'

/-- The request goes on with the slots it has. -/
theorem Inv.pass (hi : Inv hash s) {r : Nat} {p p' : Request} (hr : s.requests[r]? = some p)
    (hholds : ∀ g ∈ p'.holds, s.counterOf hash g.limit.key = some g.state) (hslots : ∀ st, p'.slots st = p.slots st)
    (hguards : p'.guards = p.guards)
    (hset : ∀ guards limit limits newKey budget, p' = .admitting guards limit limits newKey budget →
      (s.counters (shardIdx hash limit.key)).containsKey limit.key = !newKey ∧ (0 < budget → newKey = true))
    (hlocks : ∀ i, p'.locks hash = some i → p.locks hash = some i ∨ s.unlocked hash i = true) :
    Inv hash (s.setRequest r p') := by
  have h := hi.goOn hr 0 0 hholds (by simp [hslots]) (.inr rfl)
    (fun limit => by have := hi.capped limit; rw [hguards]; omega) hset hlocks
  rw [add_zero] at h
  exact h

/-! ## A shard changes -/

@[simp] theorem requests_setShard (i : Nat) (shard : Shard Nat) : (s.setShard i shard).requests = s.requests := rfl

theorem counters_setShard (i : Nat) (shard : Shard Nat) (j : Nat) :
    (s.setShard i shard).counters j = if j = i then shard else s.counters j := by
  unfold setShard
  by_cases h : j = i
  · subst h; simp
  · simp [h]

/-- Entries that nobody holds may go. -/
theorem Inv.setShard (hi : Inv hash s) {i : Nat} {shard : Shard Nat} {evict : Nat → Bool}
    (hswept : ∀ key, Shard.Swept evict (s.counters i) shard key)
    (hevict : ∀ p ∈ s.requests, ∀ g ∈ p.holds, shardIdx hash g.limit.key = i →
      ∀ key, (s.counters i).entries.lookup key = some g.state → shard.entries.lookup key = some g.state)
    (hset : ∀ p ∈ s.requests, ∀ guards limit limits newKey budget, p = .admitting guards limit limits newKey budget →
      shardIdx hash limit.key = i → shard.containsKey limit.key = (s.counters i).containsKey limit.key) :
    Inv hash (s.setShard i shard) where
  exact := hi.exact
  placed p hp g hg := by
    have h := hi.placed p hp g hg
    by_cases hk : shardIdx hash g.limit.key = i
    · rw [counterOf_eq hk] at h ⊢
      rw [counters_setShard, if_pos rfl]
      rw [Option.or_eq_some_iff] at h ⊢
      rcases h with h | ⟨h1, h2⟩
      · exact .inl (hevict p hp g hg hk _ h)
      · exact .inr ⟨(hswept _).absent h1, hevict p hp g hg hk _ h2⟩
    · rw [counterOf_eq rfl] at h ⊢
      rw [counters_setShard, if_neg hk]
      exact h
  capped := hi.capped
  made j key state h := by
    rw [counters_setShard] at h
    by_cases hj : j = i
    · rw [if_pos hj] at h
      exact hi.made i key state ((hswept key).present h)
    · rw [if_neg hj] at h
      exact hi.made j key state h
  fresh := hi.fresh
  settled p hp guards limit limits newKey budget he := by
    have h := hi.settled p hp guards limit limits newKey budget he
    rw [counters_setShard]
    by_cases hk : shardIdx hash limit.key = i
    · rw [if_pos hk, hset p hp guards limit limits newKey budget he hk, ← hk]
      exact h
    · rw [if_neg hk]
      exact h
  exclusive := hi.exclusive

theorem Inv.touch (hi : Inv hash s) (i : Nat) (key : String) :
    Inv hash (s.setShard i ((s.counters i).touch key)) := by
  have hswept : ∀ k, Shard.Swept (fun _ => false) (s.counters i) ((s.counters i).touch key) k := fun _ => .inl rfl
  exact hi.setShard hswept (fun _ _ _ _ _ _ h => h) (fun _ _ _ _ _ _ _ _ _ => rfl)

/-- A counter of its own for a slot that nobody holds yet. -/
theorem Inv.insert (hi : Inv hash s) {i : Nat} {slot : String} (hslot : (s.counters i).entries.lookup slot = none)
    (hfree : slot ≠ limitConnOverflow → ∀ p ∈ s.requests, ∀ g ∈ p.holds, g.limit.key ≠ slot)
    (hlock : ∀ p ∈ s.requests, p.locks hash ≠ some i) : Inv hash (s.orInsert i slot).2 := by
  unfold orInsert
  simp only [hslot]
  have hcounters : ∀ j, Function.update s.counters i ((s.counters i).insert slot s.states) j =
      if j = i then (s.counters i).insert slot s.states else s.counters j := fun j => counters_setShard (s := s) i _ j
  have hlookup : ∀ k, ((s.counters i).insert slot s.states).entries.lookup k =
      if k = slot then some s.states else (s.counters i).entries.lookup k := fun k => HashMap.lookup_insert _ _ _ _
  constructor
  · intro state
    have h := hi.exact state
    change Function.update s.count s.states 0 state = s.slots state
    by_cases he : state = s.states
    · subst he
      simp [hi.fresh s.states (le_refl _)]
    · rw [Function.update_of_ne he, h]
  · intro p hp g hg
    have h := hi.placed p hp g hg
    by_cases hk : shardIdx hash g.limit.key = i
    · rw [counterOf_eq hk] at h
      rw [counterOf_eq hk]
      change (Option.or (AList.lookup _ (Function.update s.counters i _ i).entries)
        (AList.lookup _ (Function.update s.counters i _ i).entries)) = some g.state
      rw [hcounters, if_pos rfl, hlookup, hlookup]
      by_cases hs : g.limit.key = slot
      · -- the key had no entry, so its counter is the overflow one and the slot is not
        rw [hs, hslot, Option.none_or] at h
        by_cases ho : slot = limitConnOverflow
        · rw [← ho, hslot] at h
          cases h
        · exact absurd hs (hfree ho p hp g hg)
      · rw [if_neg hs]
        rw [Option.or_eq_some_iff] at h ⊢
        rcases h with h | ⟨h1, h2⟩
        · exact .inl h
        · have ho : limitConnOverflow ≠ slot := by
            intro ho
            rw [ho, hslot] at h2
            cases h2
          exact .inr ⟨h1, by rw [if_neg ho]; exact h2⟩
    · rw [counterOf_eq rfl] at h
      rw [counterOf_eq rfl]
      change (Option.or (AList.lookup _ (Function.update s.counters i _ _).entries)
        (AList.lookup _ (Function.update s.counters i _ _).entries)) = some g.state
      rw [hcounters, if_neg hk]
      exact h
  · exact hi.capped
  · intro j key state h
    change state < s.states + 1
    change (Function.update s.counters i _ j).entries.lookup key = some state at h
    rw [hcounters] at h
    by_cases hj : j = i
    · rw [if_pos hj, hlookup] at h
      by_cases hs : key = slot
      · rw [if_pos hs, Option.some.injEq] at h
        omega
      · rw [if_neg hs] at h
        have := hi.made i key state h
        omega
    · rw [if_neg hj] at h
      have := hi.made j key state h
      omega
  · intro state hst
    have hst : s.states + 1 ≤ state := hst
    exact hi.fresh state (by omega)
  · intro p hp guards limit limits newKey budget he
    change (Function.update s.counters i _ _).containsKey _ = _ ∧ _
    have hk : shardIdx hash limit.key ≠ i := by
      intro hk
      have := hlock p hp
      rw [he] at this
      exact this (by rw [Request.locks, hk])
    rw [hcounters, if_neg hk]
    exact hi.settled p hp guards limit limits newKey budget he
  · exact hi.exclusive

/-! ## Every step keeps it -/

theorem Inv.start (hi : Inv hash s) (limits : List LimitSelection) :
    Inv hash { s with requests := s.requests ++ [.selecting [] limits] } where
  exact state := by
    rw [hi.exact]
    simp [slots, Request.slots, Request.guards]
  placed p hp g hg := by
    rcases List.mem_append.mp hp with hp | hp
    · exact hi.placed p hp g hg
    · rw [List.mem_singleton] at hp
      subst hp
      cases hg
  capped limit := by
    have := hi.capped limit
    simpa [taken, Request.guards] using this
  made := hi.made
  fresh state h := by
    have := hi.fresh state h
    simpa [slots, Request.slots, Request.guards] using this
  settled p hp guards limit limits newKey budget he := by
    rcases List.mem_append.mp hp with hp | hp
    · exact hi.settled p hp guards limit limits newKey budget he
    · rw [List.mem_singleton] at hp
      subst hp
      cases he
  exclusive r r' p p' hr hr' i hi1 hi2 := by
    have hold : ∀ {r : Nat} {p : Request}, (s.requests ++ [Request.selecting [] limits])[r]? = some p → p.locks hash = some i →
        s.requests[r]? = some p := by
      intro r p hr hp
      rw [List.getElem?_append] at hr
      by_cases hl : r < s.requests.length
      · rwa [if_pos hl] at hr
      · rw [if_neg hl] at hr
        have := List.mem_of_getElem? hr
        rw [List.mem_singleton] at this
        subst this
        cases hp
    exact hi.exclusive r r' p p' (hold hr hi1) (hold hr' hi2) i hi1 hi2

theorem Inv.lookup (hi : Inv hash s) {r : Nat} (h : s.act config hash (.lookup r) = some s') : Inv hash s' := by
  simp only [act] at h
  split at h
  · rename_i guards limit limits hr
    by_cases hu : s.unlocked hash (shardIdx hash limit.key) = true
    · simp only [hu, if_true, Option.some.injEq] at h
      subst h
      refine hi.pass hr (fun g hg => hi.placed _ (List.mem_of_getElem? hr) g hg) (fun _ => rfl) rfl ?_ ?_
      · intro _ _ _ _ budget he
        cases he
        refine ⟨by simp, fun hb => ?_⟩
        by_cases hn : (s.counters (shardIdx hash limit.key)).containsKey limit.key = true
        · simp [hn, Shard.isFullFor] at hb
        · simp [hn]
      · intro i hl
        simp only [Request.locks, Option.some.injEq] at hl
        exact .inr (hl ▸ hu)
    · rw [if_neg hu] at h
      cases h
  · cases h

theorem Inv.examine (hi : Inv hash s) {r : Nat} (hok : s.KeepsCounters hash (.examine r))
    (h : s.act config hash (.examine r) = some s') : Inv hash s' := by
  simp only [act] at h
  split at h
  · rename_i guards limit limits newKey budget hr
    have hp := List.mem_of_getElem? hr
    have hset := hi.settled _ hp _ _ _ _ _ rfl
    have hnew : newKey = true := hset.2 (Nat.succ_pos _)
    cases he : (s.counters (shardIdx hash limit.key)).examine (fun state => s.count state = 0) .pushBack with
    | none =>
      simp only [he, Option.some.injEq] at h
      subst h
      refine hi.pass hr (fun g hg => hi.placed _ hp g hg) (fun _ => rfl) rfl ?_ fun i hl => .inl hl
      intro _ _ _ _ _ he
      cases he
      exact ⟨hset.1, fun h => absurd h (lt_irrefl 0)⟩
    | some shard =>
      simp only [he, Option.some.injEq] at h
      subst h
      have hswept := fun key => Shard.swept_examine he key
      have hi1 : Inv hash (s.setShard (shardIdx hash limit.key) shard) := by
        refine hi.setShard hswept ?_ ?_
        · intro p hp g hg hk key hl
          have hne : s.count g.state ≠ 0 ∨ p.pending = some g.state := by
            cases p with
            | counting gs l ls st =>
              rcases List.mem_cons.mp hg with rfl | hg
              · exact .inr rfl
              · exact .inl (ne_of_gt (hi.count_pos hp (g := g) hg))
            | _ => exact .inl (ne_of_gt (hi.count_pos hp hg))
          rcases Shard.examine_cases he with heq | ⟨k, ho, hall, heq⟩
          · rw [heq]
            exact hl
          · rw [heq, HashMap.lookup_erase]
            by_cases hkk : key = k
            · subst hkk
              rw [hl] at hall
              have hz : s.count g.state = 0 := by simpa using hall
              rcases hne with hne | hne
              · exact absurd hz hne
              · exact absurd hne (hok guards limit limits newKey budget hr key g.state ho hl hz p hp)
            · rw [if_neg hkk]
              exact hl
        · intro p hp gs l ls nk b hpe hk
          obtain ⟨c, hc⟩ := List.getElem?_of_mem hp
          have hrc := hi.exclusive r c _ p hr hc _ rfl (by rw [hpe, Request.locks, hk])
          rw [← hrc, hr, Option.some.injEq] at hc
          rw [hpe] at hc
          cases hc
          rw [hset.1, hnew]
          rw [hnew, Bool.not_true, Shard.containsKey_eq_false] at hset
          exact Shard.containsKey_eq_false.mpr ((hswept _).absent hset.1)
      refine hi1.pass hr (fun g hg => hi1.placed _ hp g hg) (fun _ => rfl) rfl ?_ fun i hl => .inl hl
      intro _ _ _ _ _ he
      cases he
      exact ⟨(hi1.settled _ hp _ _ _ _ _ rfl).1, fun _ => hnew⟩
  · cases h

theorem setRequest_setRequest (r : Nat) (p p' : Request) : (s.setRequest r p).setRequest r p' = s.setRequest r p' := by
  unfold setRequest
  simp

theorem orInsert_setRequest (r : Nat) (p : Request) (i : Nat) (slot : String) :
    ((s.setRequest r p).orInsert i slot).1 = (s.orInsert i slot).1 ∧
      ((s.setRequest r p).orInsert i slot).2 = (s.orInsert i slot).2.setRequest r p := by
  unfold orInsert
  have : (s.setRequest r p).counters = s.counters := rfl
  rw [this]
  split
  · exact ⟨rfl, rfl⟩
  · exact ⟨rfl, rfl⟩

theorem requests_orInsert (i : Nat) (slot : String) : (s.orInsert i slot).2.requests = s.requests := by
  unfold orInsert
  split <;> rfl

theorem lookup_orInsert (i : Nat) (slot k : String) :
    ((s.orInsert i slot).2.counters i).entries.lookup k =
      if k = slot then some (s.orInsert i slot).1 else (s.counters i).entries.lookup k := by
  unfold orInsert
  cases hl : (s.counters i).entries.lookup slot with
  | some state =>
    by_cases hk : k = slot
    · subst hk; simp [hl]
    · simp [hk]
  | none =>
    change (Function.update s.counters i _ i).entries.lookup k = _
    rw [Function.update_self]
    exact HashMap.lookup_insert _ _ _ _

theorem Inv.settle (hi : Inv hash s) {r : Nat} (hok : s.KeepsCounters hash (.settle r))
    (h : s.act config hash (.settle r) = some s') : Inv hash s' := by
  simp only [act] at h
  split at h
  · rename_i guards limit limits newKey hr
    have hp := List.mem_of_getElem? hr
    have hset := (hi.settled _ hp _ _ _ _ _ rfl).1
    simp only [Option.some.injEq] at h
    subst h
    generalize hidx : shardIdx hash limit.key = i at *
    generalize hs : (s.counters i).storageKey newKey limit.key limitConnOverflow = slot at *
    -- the lock is given up first, then the counter is found, then the request goes on
    have hi0 : Inv hash (s.setRequest r (.selecting guards (limit :: limits))) :=
      hi.pass hr (fun g hg => hi.placed _ hp g hg) (fun _ => rfl) rfl (fun _ _ _ _ _ he => by cases he)
        (fun _ hl => by cases hl)
    have hi1 := hi0.touch i slot
    have hlock : ∀ p ∈ (s.setRequest r (.selecting guards (limit :: limits))).requests, p.locks hash ≠ some i := by
      intro p hpm hl
      obtain ⟨c, hc⟩ := List.getElem?_of_mem hpm
      rw [getElem?_setRequest hr] at hc
      by_cases hrc : r = c
      · rw [if_pos hrc, Option.some.injEq] at hc
        subst hc
        cases hl
      · rw [if_neg hrc] at hc
        exact hrc (hi.exclusive r c _ p hr hc i (by rw [Request.locks, hidx]) hl)
    have habsent : newKey = true → (s.counters i).entries.lookup limit.key = none := by
      intro hn
      rw [hn, Bool.not_true, Shard.containsKey_eq_false] at hset
      exact hset
    have hfree : (s.counters i).entries.lookup slot = none → slot ≠ limitConnOverflow →
        ∀ p ∈ (s.setRequest r (.selecting guards (limit :: limits))).requests, ∀ g ∈ p.holds,
          g.limit.key ≠ slot := by
      intro hnone hne p hpm g hg
      have hslot : slot = limit.key := by
        rcases Shard.storageKey_cases (s.counters i) newKey limit.key limitConnOverflow with h | h
        · rw [← hs, h]
        · exact absurd (hs.symm.trans h) hne
      cases newKey with
      | false =>
        rw [hslot] at hnone
        rw [Shard.containsKey_eq_false.mpr hnone] at hset
        cases hset
      | true =>
        have hlen : (s.counters i).len < perShardRegularMax := by
          by_cases hl : (s.counters i).len < perShardRegularMax
          · exact hl
          · simp only [Shard.storageKey, hl, Bool.not_true, decide_false, Bool.or_false] at hs
            exact absurd hs.symm hne
        have hkeeps := hok guards limit limits hr (by rw [hidx]; exact hlen)
        rw [hslot]
        rcases mem_setRequest hpm with rfl | hpm
        · exact hkeeps _ hp g hg
        · exact hkeeps p hpm g hg
    have hi2 : Inv hash ((((s.setRequest r (.selecting guards (limit :: limits))).setShard i
        ((s.counters i).touch slot)).orInsert i slot).2) := by
      cases hl : (s.counters i).entries.lookup slot with
      | none => exact hi1.insert (by rw [counters_setShard, if_pos rfl]; exact hl) (hfree hl) hlock
      | some state =>
        unfold orInsert
        rw [counters_setShard, if_pos rfl, Shard.entries_touch, hl]
        exact hi1
    have heq : (s.setRequest r (.selecting guards (limit :: limits))).setShard i ((s.counters i).touch slot) =
        (s.setShard i ((s.counters i).touch slot)).setRequest r (.selecting guards (limit :: limits)) := rfl
    rw [heq, (orInsert_setRequest _ _ _ _).2] at hi2
    generalize hf : (s.setShard i ((s.counters i).touch slot)).orInsert i slot = found at *
    have hrf : found.2.requests = s.requests := by
      rw [← hf, requests_orInsert]
      rfl
    have hfl : ∀ k, (found.2.counters i).entries.lookup k =
        if k = slot then some found.1 else (s.counters i).entries.lookup k := by
      intro k
      rw [← hf, lookup_orInsert, counters_setShard, if_pos rfl, Shard.entries_touch]
    have hr2 : (found.2.setRequest r (.selecting guards (limit :: limits))).requests[r]? =
        some (.selecting guards (limit :: limits)) := by
      rw [getElem?_setRequest (p := _) (by rw [hrf]; exact hr), if_pos rfl]
    have hi3 : Inv hash ((found.2.setRequest r (.selecting guards (limit :: limits))).setRequest r
        (.counting guards limit limits found.1)) := by
      refine hi2.pass hr2 ?_ (fun _ => rfl) rfl (fun _ _ _ _ _ he => by cases he) (fun _ hl => by cases hl)
      intro g hg
      rcases List.mem_cons.mp hg with rfl | hg
      · rw [counterOf_eq hidx]
        change Option.or ((found.2.counters i).entries.lookup limit.key)
          ((found.2.counters i).entries.lookup limitConnOverflow) = some found.1
        rw [hfl, hfl]
        by_cases hk : limit.key = slot
        · rw [if_pos hk, Option.some_or]
        · rcases Shard.storageKey_cases (s.counters i) newKey limit.key limitConnOverflow with h | h
          · exact absurd (h.symm.trans hs) hk
          · cases newKey with
            | false => exact absurd (by rw [← hs]; simp [Shard.storageKey]) hk
            | true => rw [if_neg hk, habsent rfl, Option.none_or, if_pos (h.symm.trans hs)]
      · exact hi2.placed _ (List.mem_of_getElem? hr2) g hg
    rw [setRequest_setRequest] at hi3
    exact hi3
  · cases h

theorem Inv.count (hi : Inv hash s) {r : Nat} (h : s.act config hash (.count r) = some s') : Inv hash s' := by
  simp only [act] at h
  split at h
  · rename_i guards limit limits state hr
    have hp := List.mem_of_getElem? hr
    have hplaced := fun g hg => hi.placed _ hp g hg
    have hstate : state < s.states := hi.holds_lt hp (g := ⟨state, limit⟩) List.mem_cons_self
    have htaken : s.taken limit ≤ s.slots state :=
      hi.taken_le (hi.placed _ hp ⟨state, limit⟩ List.mem_cons_self)
    have hexact := hi.exact state
    simp only [Option.some.injEq] at h
    subst h
    -- a slot that is kept was within the limit when it was counted
    have hkept : ∀ p' : Request, p'.guards = guards ++ [⟨state, limit⟩] → p'.holds = p'.guards →
        (∀ st, p'.slots st = p'.guards.countP (·.state = st)) → p'.locks hash = none →
        s.count state + 1 ≤ limit.conn + limit.burst → Inv hash ((s.add state 1).setRequest r p') := by
      intro p' hg hh hs hl hle
      refine hi.goOn hr state 1 ?_ ?_ (.inl hstate) ?_ ?_ ?_
      · intro g hgm
        rw [hh, hg, List.mem_append, List.mem_singleton] at hgm
        rcases hgm with hgm | rfl
        · exact hplaced g (List.mem_cons_of_mem _ hgm)
        · exact hplaced _ List.mem_cons_self
      · intro st
        rw [hs, hg, List.countP_append]
        by_cases he : st = state
        · subst he
          simp [Request.slots, Request.guards]
        · simp [Request.slots, Request.guards, he, Ne.symm he]
      · intro l
        rw [hg, List.countP_append]
        have := hi.capped l
        by_cases he : limit = l
        · subst he
          simp only [List.countP_singleton, decide_true, if_true, Request.guards]
          omega
        · simp only [List.countP_singleton, he, decide_false, Request.guards]
          simp
          omega
      · intro _ _ _ _ _ he
        rw [he] at hl
        cases hl
      · intro i hli
        rw [hl] at hli
        cases hli
    unfold decide
    by_cases h1 : s.count state + 1 > limit.conn + limit.burst
    · rw [if_pos h1]
      refine hi.goOn hr state 1 (fun g hg => hplaced g (List.mem_cons_of_mem _ hg)) ?_ (.inl hstate) ?_
        (fun _ _ _ _ _ he => by cases he) (fun _ hl => by cases hl)
      · intro st
        by_cases he : st = state
        · subst he
          simp [Request.slots, Request.guards]
        · simp [Request.slots, Request.guards, he, Ne.symm he]
      · intro l
        have := hi.capped l
        simp only [Request.guards]
        omega
    · rw [if_neg h1]
      by_cases h2 : s.count state + 1 > limit.conn
      · rw [if_pos h2]
        exact hkept _ rfl rfl (fun _ => rfl) rfl (not_lt.mp h1)
      · rw [if_neg h2]
        exact hkept _ rfl rfl (fun _ => rfl) rfl (not_lt.mp h1)
  · cases h

/-- The request gives a slot of `state` back. -/
theorem Inv.leave (hi : Inv hash s) {r state : Nat} {p p' : Request} (hr : s.requests[r]? = some p)
    (hholds : ∀ g ∈ p'.holds, g ∈ p.holds) (hslots : ∀ st, p.slots st = p'.slots st + if st = state then 1 else 0)
    (hguards : ∀ limit : LimitSelection, p'.guards.countP (·.limit = limit) ≤ p.guards.countP (·.limit = limit))
    (hlocks : p'.locks hash = none) : Inv hash ((s.add state (-1)).setRequest r p') := by
  have hp := List.mem_of_getElem? hr
  have hstate : state < s.states := by
    by_cases h : s.states ≤ state
    · have h1 := hi.fresh state h
      have h2 : p.slots state ≤ s.slots state := Sums.le_sum_map _ hp
      have h3 := hslots state
      rw [if_pos rfl] at h3
      omega
    · omega
  refine hi.goOn hr state (-1) (fun g hg => hi.placed p hp g (hholds g hg)) ?_ (.inl hstate) ?_ ?_ ?_
  · intro st
    have := hslots st
    by_cases he : st = state
    · rw [if_pos he] at this ⊢
      omega
    · rw [if_neg he] at this ⊢
      omega
  · intro l
    have h1 := hi.capped l
    have h2 := hguards l
    omega
  · intro _ _ _ _ _ he
    rw [he] at hlocks
    cases hlocks
  · intro i hl
    rw [hlocks] at hl
    cases hl

theorem Inv.giveBack (hi : Inv hash s) {r : Nat} (h : s.act config hash (.giveBack r) = some s') : Inv hash s' := by
  simp only [act] at h
  split at h
  · rename_i guards state hr
    cases h
    refine hi.leave hr (fun g hg => hg) ?_ (fun _ => le_refl _) rfl
    intro st
    by_cases he : st = state
    · subst he; simp [Request.slots, Request.guards]
    · simp [Request.slots, Request.guards, he, Ne.symm he]
  · cases h

theorem Inv.release (hi : Inv hash s) {r : Nat} (h : s.act config hash (.release r) = some s') : Inv hash s' := by
  simp only [act] at h
  split at h
  · rename_i guard guards hr
    cases h
    refine hi.leave hr (fun g hg => List.mem_cons_of_mem _ hg) ?_ ?_ rfl
    · intro st
      simp only [Request.slots, Request.guards, List.countP_cons]
      by_cases he : st = guard.state
      · simp [he]
      · simp [he, Ne.symm he]
    · intro l
      simp only [Request.guards, List.countP_cons]
      omega
  · cases h

/-- The request only changes its phase. -/
theorem Inv.proceed (hi : Inv hash s) {r : Nat} {p p' : Request} (hr : s.requests[r]? = some p)
    (hholds : p'.holds = p.holds) (hslots : ∀ st, p'.slots st = p.slots st) (hguards : p'.guards = p.guards)
    (hlocks : p'.locks hash = none) : Inv hash (s.setRequest r p') := by
  refine hi.pass hr ?_ hslots hguards ?_ ?_
  · rw [hholds]
    exact fun g hg => hi.placed p (List.mem_of_getElem? hr) g hg
  · intro _ _ _ _ _ he
    rw [he] at hlocks
    cases hlocks
  · intro i hl
    rw [hlocks] at hl
    cases hl

theorem Inv.step (hi : Inv hash s) {a : Action} (hok : s.KeepsCounters hash a) (h : Step config hash s a s') :
    Inv hash s' := by
  unfold Step at h
  cases a with
  | start resolve =>
    simp only [act] at h
    split at h
    · cases h
      exact hi
    · cases h
      exact hi.start _
  | lookup r => exact hi.lookup h
  | examine r => exact hi.examine hok h
  | settle r => exact hi.settle hok h
  | count r => exact hi.count h
  | giveBack r => exact hi.giveBack h
  | release r => exact hi.release h
  | wake r | finish r | log r | cancel r =>
    simp only [act] at h
    split at h <;> cases h <;> · rename_i hr; exact hi.proceed hr rfl (fun _ => rfl) rfl rfl

/-- In every run whose sweeps and regular slots leave the requests their counters the limiter keeps its cap. -/
theorem cap_holds {as : List Action}
    (run : RunMeeting (Step config hash) Initial (fun _ t a => t.KeepsCounters hash a) as s) : Capped s := by
  have hi : Inv hash s := by
    refine run.invariant (I := fun _ t => Inv hash t) (fun _ h => inv_initial h) ?_
    intro _ _ _ _ _ hi hok h
    exact hi.step hok h
  exact hi.toCapped

/-- One request that is admitted meets the condition. -/
theorem cap_holds_sample : ∃ s : PluginLimitConn,
    s.requests = [.live [⟨0, { key := "10.0.0.1", conn := 1, burst := 0 }⟩]] ∧ Capped s := by
  obtain ⟨s, run, hs⟩ : ∃ s : PluginLimitConn, RunMeeting (Step { conn := some 1, key := some "remote_addr" } fun _ => 0)
      Initial (fun _ t a => t.KeepsCounters (fun _ => 0) a)
      ([] ++ [.start fun _ => "10.0.0.1"] ++ [.lookup 0] ++ [.settle 0] ++ [.count 0] ++ [.finish 0]) s ∧
      s.requests = [.live [⟨0, { key := "10.0.0.1", conn := 1, burst := 0 }⟩]] := by
    refine ⟨_, .snoc (.snoc (.snoc (.snoc (.snoc (.start rfl) rfl trivial) rfl trivial) rfl ?_) rfl trivial) rfl trivial,
      rfl⟩
    intro _ _ _ _ _ p hp g hg
    obtain rfl := List.mem_singleton.mp hp
    cases hg
  exact ⟨s, hs, cap_holds run⟩

end PluginLimitConn

end LimitConn

end Pingsix
