import Pingsix.ApiBreaker
import Pingsix.Lib.System
import Pingsix.LimitingSound

/-!
# Soundness of the api-breaker

The state of a key in every run against the log of its responses, the newest
first. The breaker trips at every so many unhealthy responses since the last
reset, not at as many in a row, and is still open at the end of its window. The
state of the least recently used key is evicted when there are too many.
-/

namespace Pingsix

namespace ApiBreaker

/-! ## Configurations that pass -/

/-- What the checks leave of a configuration. -/
structure PluginConfig.Valid (config : PluginConfig) : Prop where
  unhealthy : ∀ s ∈ config.unhealthy.httpStatuses, 500 ≤ s ∧ s ≤ 599
  healthy : ∀ s ∈ config.healthy.httpStatuses, 200 ≤ s ∧ s ≤ 499
  failures : 1 ≤ config.unhealthy.failures
  successes : 1 ≤ config.healthy.successes
  maxBreakerSec : 3 ≤ config.maxBreakerSec

/-- A plugin with the sets of a configuration that passes. -/
structure PluginApiBreaker.Created (plugin : PluginApiBreaker) : Prop where
  valid : plugin.config.Valid
  unhealthySet : plugin.unhealthySet = .fromStatuses plugin.config.unhealthy.httpStatuses
  healthySet : plugin.healthySet = .fromStatuses plugin.config.healthy.httpStatuses

theorem range_eq_nil {field : String} {min n : Nat} {max : Option Nat} (h : FieldError.range field min max n = []) : min ≤ n := by
  unfold FieldError.range at h
  by_cases hr : min ≤ n ∧ max.all (n ≤ ·)
  · exact hr.1
  · rw [if_neg hr] at h
    cases h

theorem created_of_create {json : JsonCodec} {headerName : String → Bool} {cfg : Json} {plugin : PluginApiBreaker}
    (h : createApiBreakerPlugin json headerName cfg = .ok plugin) : plugin.Created := by
  obtain ⟨config, hconfig, h⟩ := Except.bind_eq_ok.mp h
  cases h
  obtain ⟨parsed, hparsed, hconfig⟩ := Except.bind_eq_ok.mp hconfig
  obtain ⟨hcheck, hconfig⟩ := Except.bind_unit_eq_ok.mp hconfig
  cases hconfig
  have hvalidate : config.validate headerName = [] := by
    unfold parseAndValidatePluginConfig at hparsed
    split at hparsed
    · cases hparsed
    · split at hparsed
      · rename_i hnil
        cases hparsed
        exact hnil
      · cases hparsed
  have hrange := (List.append_eq_nil_iff.mp hvalidate).2
  obtain ⟨-, hcheck⟩ := Except.ite_throw_eq_ok.mp hcheck
  obtain ⟨hunhealthy, hcheck⟩ := Except.ite_throw_eq_ok.mp hcheck
  obtain ⟨hhealthy, hcheck⟩ := Except.ite_throw_eq_ok.mp hcheck
  obtain ⟨hfailures, hcheck⟩ := Except.ite_throw_eq_ok.mp hcheck
  obtain ⟨hsuccesses, -⟩ := Except.ite_throw_eq_ok.mp hcheck
  have hall : ∀ {statuses : List Nat} {low high : Nat}, ¬(statuses.any fun s => !(low ≤ s && s ≤ high)) = true →
      ∀ s ∈ statuses, low ≤ s ∧ s ≤ high := by
    intro statuses low high h s hs
    by_contra hn
    refine h (List.any_eq_true.mpr ⟨s, hs, ?_⟩)
    simp only [Bool.not_eq_true', Bool.and_eq_false_iff, decide_eq_false_iff_not]
    omega
  exact ⟨⟨hall hunhealthy, hall hhealthy, Nat.not_lt.mp hfailures, Nat.not_lt.mp hsuccesses, range_eq_nil hrange⟩, rfl, rfl⟩

/-! ## Status sets -/

theorem holds_fromStatuses (statuses : List Nat) :
    ∃ indices, Bitset.Holds 640 (StatusCodeSet.fromStatuses statuses).words indices ∧
      ∀ s, s ∈ indices ↔ s ∈ statuses ∧ s < 640 := by
  have hfold : ∀ (rest : List Nat) {bits : List (BitVec 64)} {indices : List Nat}, Bitset.Holds 640 bits indices →
      ∃ indices', Bitset.Holds 640 (rest.foldl
        (fun bits status => if status < 640 then Bitset.mark bits status else bits) bits) indices' ∧
        ∀ s, s ∈ indices' ↔ s ∈ indices ∨ s ∈ rest ∧ s < 640 := by
    intro rest
    induction rest with
    | nil => exact fun h => ⟨_, h, by simp⟩
    | cons status rest ih =>
      intro bits indices h
      rw [List.foldl_cons]
      by_cases hs : status < 640
      · rw [if_pos hs]
        obtain ⟨indices', hholds, hmem⟩ := ih (h.mark hs)
        refine ⟨indices', hholds, fun s => ?_⟩
        rw [hmem s, List.mem_cons, List.mem_cons]
        constructor
        · rintro ((rfl | h) | ⟨h, hlt⟩)
          · exact .inr ⟨.inl rfl, hs⟩
          · exact .inl h
          · exact .inr ⟨.inr h, hlt⟩
        · rintro (h | ⟨rfl | h, hlt⟩)
          · exact .inl (.inr h)
          · exact .inl (.inl rfl)
          · exact .inr ⟨h, hlt⟩
      · rw [if_neg hs]
        obtain ⟨indices', hholds, hmem⟩ := ih h
        refine ⟨indices', hholds, fun s => ?_⟩
        rw [hmem s, List.mem_cons]
        refine or_congr_right ⟨fun h => ⟨.inr h.1, h.2⟩, ?_⟩
        rintro ⟨rfl | h, hlt⟩
        · exact absurd hlt hs
        · exact ⟨h, hlt⟩
  obtain ⟨indices, hholds, hmem⟩ := hfold statuses (Bitset.holds_zeros 640)
  exact ⟨indices, hholds, fun s => by simpa using hmem s⟩

theorem contains_fromStatuses {statuses : List Nat} {status : Nat} (h : ∀ s ∈ statuses, s ≤ 599) :
    (StatusCodeSet.fromStatuses statuses).contains status = true ↔ status ∈ statuses := by
  obtain ⟨indices, hholds, hmem⟩ := holds_fromStatuses statuses
  unfold StatusCodeSet.contains
  rw [Bool.and_eq_true, decide_eq_true_eq]
  constructor
  · rintro ⟨hlt, hmarked⟩
    exact ((hmem status).mp ((hholds.marked status hlt).mp hmarked)).1
  · intro hs
    have hlt : status < 640 := Nat.lt_of_le_of_lt (h status hs) (by decide)
    exact ⟨hlt, (hholds.marked status hlt).mpr ((hmem status).mpr ⟨hs, hlt⟩)⟩

/-! ## The states of the keys -/

/-- The state of a key, the initial one when there is none. -/
def BreakerStates.view (states : BreakerStates) (key : String) : BreakerState := (states.shard.entries.lookup key).getD {}

/-- The order of use holds each key that has a state, once. -/
structure BreakerStates.Tracked (states : BreakerStates) : Prop where
  nodup : states.shard.touchOrder.oldest.Nodup
  mem : ∀ key, key ∈ states.shard.touchOrder.oldest ↔ states.shard.containsKey key = true

namespace BreakerStates

variable {states : BreakerStates}

theorem tracked_initial : Tracked {} where
  nodup := List.nodup_nil
  mem _ := ⟨nofun, nofun⟩

theorem Tracked.len (h : states.Tracked) : states.shard.len = states.shard.touchOrder.oldest.length := by
  refine (List.Perm.length_eq ?_).symm
  refine (List.perm_ext_iff_of_nodup h.nodup states.shard.entries.keys_nodup).mpr fun key => ?_
  rw [h.mem, Shard.containsKey, AList.lookup_isSome]
  rfl

/-- The key evicted for another is the least recently used one, and has a state. -/
theorem Tracked.evicted_eq_some (h : states.Tracked) {key other : String} (he : states.evicted key = some other) :
    states.shard.containsKey key = false ∧ maxBreakerKeys ≤ states.shard.len ∧
      states.shard.touchOrder.oldest.head? = some other ∧ other ≠ key := by
  unfold evicted at he
  by_cases hc : (!states.shard.containsKey key && decide (maxBreakerKeys ≤ states.shard.len)) = true
  · rw [if_pos hc] at he
    obtain ⟨hkey, hlen⟩ := Bool.and_eq_true_iff.mp hc
    have hkey : states.shard.containsKey key = false := by simpa using hkey
    unfold TouchOrder.popOldest at he
    cases ho : states.shard.touchOrder.oldest with
    | nil =>
      rw [ho] at he
      cases he
    | cons first rest =>
      rw [ho] at he
      cases he
      refine ⟨hkey, of_decide_eq_true hlen, rfl, ?_⟩
      rintro rfl
      have hmem := (h.mem first).mp (by rw [ho]; exact List.mem_cons_self)
      rw [hkey] at hmem
      cases hmem
  · rw [if_neg hc] at he
    cases he

/-- The shard of an entry before its key is marked as used. -/
def makeRoom (states : BreakerStates) (key : String) : Shard BreakerState :=
  if !states.shard.containsKey key && decide (maxBreakerKeys ≤ states.shard.len) then evictOldest states.shard
  else states.shard

theorem lookup_makeRoom (states : BreakerStates) (key k : String) :
    (states.makeRoom key).entries.lookup k =
      if states.evicted key = some k then none else states.shard.entries.lookup k := by
  unfold makeRoom evicted
  by_cases hc : (!states.shard.containsKey key && decide (maxBreakerKeys ≤ states.shard.len)) = true
  · rw [if_pos hc, if_pos hc]
    unfold evictOldest
    cases hp : states.shard.touchOrder.popOldest with
    | none => rw [Option.map_none, if_neg nofun]
    | some popped =>
      obtain ⟨first, order⟩ := popped
      simp only [Option.map_some, Option.some.injEq]
      rw [Shard.lookup_remove]
      by_cases hk : k = first
      · rw [if_pos hk, if_pos hk.symm]
      · rw [if_neg hk, if_neg (Ne.symm hk)]
  · rw [if_neg hc, if_neg hc, if_neg nofun]

/-- What `entry` does: the state of the key is the one it had, and only the evicted key loses its own. -/
theorem Tracked.entry_spec (h : states.Tracked) (key : String) :
    (states.entry key).1 = states.view key ∧ (states.entry key).2.view key = states.view key ∧
      ∀ k ≠ key, (states.entry key).2.view k = if states.evicted key = some k then {} else states.view k := by
  have hfirst : ((states.makeRoom key).entries.lookup key).getD {} = states.view key := by
    rw [lookup_makeRoom, if_neg fun he => (h.evicted_eq_some he).2.2.2 rfl]
    rfl
  have hview : ∀ k, (states.entry key).2.view k =
      if k = key then states.view key else ((states.makeRoom key).entries.lookup k).getD {} := by
    intro k
    show ((((states.makeRoom key).touch key).insert key (((states.makeRoom key).entries.lookup key).getD {})).entries.lookup k).getD {} = _
    rw [Shard.lookup_insert, hfirst]
    by_cases hk : k = key
    · rw [if_pos hk, if_pos hk]
      rfl
    · rw [if_neg hk, if_neg hk]
      rfl
  refine ⟨hfirst, by rw [hview, if_pos rfl], fun k hk => ?_⟩
  rw [hview, if_neg hk, lookup_makeRoom]
  by_cases he : states.evicted key = some k
  · rw [if_pos he, if_pos he]
    rfl
  · rw [if_neg he, if_neg he]
    rfl

theorem view_set (states : BreakerStates) (key k : String) (state : BreakerState) :
    (states.set key state).view k = if k = key then state else states.view k := by
  unfold view set
  rw [Shard.lookup_insert]
  by_cases hk : k = key
  · rw [if_pos hk, if_pos hk]
    rfl
  · rw [if_neg hk, if_neg hk]

theorem containsKey_insert (shard : Shard BreakerState) (key k : String) (state : BreakerState) :
    (shard.insert key state).containsKey k = true ↔ k = key ∨ shard.containsKey k = true := by
  unfold Shard.containsKey
  rw [Shard.lookup_insert]
  by_cases hk : k = key
  · simp [hk]
  · simp [hk]

theorem tracked_makeRoom (h : states.Tracked) (key : String) : Tracked ⟨states.makeRoom key⟩ := by
  unfold makeRoom
  by_cases hc : (!states.shard.containsKey key && decide (maxBreakerKeys ≤ states.shard.len)) = true
  · rw [if_pos hc]
    unfold evictOldest
    cases ho : states.shard.touchOrder.oldest with
    | nil =>
      have hp : states.shard.touchOrder.popOldest = none := by
        unfold TouchOrder.popOldest
        rw [ho]
      rw [hp]
      exact h
    | cons first rest =>
      have hp : states.shard.touchOrder.popOldest = some (first, ⟨rest⟩) := by
        unfold TouchOrder.popOldest
        rw [ho]
      rw [hp]
      have hnodup := h.nodup
      rw [ho, List.nodup_cons] at hnodup
      refine ⟨hnodup.2, fun k => ?_⟩
      have hmem := h.mem k
      rw [ho, List.mem_cons] at hmem
      show k ∈ rest ↔ _
      unfold Shard.containsKey
      simp only
      rw [Shard.lookup_remove]
      by_cases hk : k = first
      · rw [if_pos hk, hk]
        exact ⟨fun hm => absurd hm hnodup.1, nofun⟩
      · rw [if_neg hk]
        rw [or_iff_right hk] at hmem
        exact hmem
  · rw [if_neg hc]
    exact h

theorem tracked_touch_insert {shard : Shard BreakerState} (h : Tracked ⟨shard⟩) (key : String) (state : BreakerState) :
    Tracked ⟨(shard.touch key).insert key state⟩ where
  nodup := by
    show (shard.touchOrder.oldest.erase key ++ [key]).Nodup
    refine List.nodup_append.mpr ⟨h.nodup.erase key, List.nodup_singleton key, ?_⟩
    intro a ha b hb he
    rw [List.mem_singleton.mp hb] at he
    exact h.nodup.not_mem_erase (he ▸ ha)
  mem k := by
    rw [containsKey_insert, Shard.containsKey_touch]
    show k ∈ shard.touchOrder.oldest.erase key ++ [key] ↔ _
    rw [List.mem_append, List.mem_singleton, ← (h.mem k), or_comm]
    by_cases hk : k = key
    · simp [hk]
    · simp [hk, List.mem_erase_of_ne hk]

theorem tracked_entry (h : states.Tracked) (key : String) : (states.entry key).2.Tracked :=
  tracked_touch_insert (tracked_makeRoom h key) key _

theorem containsKey_entry (states : BreakerStates) (key : String) : (states.entry key).2.shard.containsKey key = true :=
  (containsKey_insert _ key key _).mpr (.inl rfl)

/-- Writing back the state of a key that is there. -/
theorem tracked_set (h : states.Tracked) {key : String} (hk : states.shard.containsKey key = true) (state : BreakerState) :
    (states.set key state).Tracked where
  nodup := h.nodup
  mem k := by
    show k ∈ states.shard.touchOrder.oldest ↔ _
    rw [h.mem, BreakerStates.set, containsKey_insert]
    exact ⟨.inr, fun hor => hor.elim (fun he => he ▸ hk) id⟩

end BreakerStates

/-! ## What the responses of a key add up to -/

structure Response where
  status : Nat
  now : Nat
  deriving DecidableEq, Repr

namespace PluginApiBreaker

variable (plugin : PluginApiBreaker)

def unhealthy (r : Response) : Bool := decide (r.status ∈ plugin.config.unhealthy.httpStatuses)

def healthy (r : Response) : Bool := decide (r.status ∈ plugin.config.healthy.httpStatuses)

/-- How many responses of a log were unhealthy, in a row or not. -/
def unhealthyIn (log : List Response) : Nat := log.countP plugin.unhealthy

/-- When the unhealthy responses of a log were last a multiple of those that trip the breaker. -/
def lastTrip : List Response → Option Nat
  | [] => none
  | r :: older =>
    if plugin.unhealthy r ∧ plugin.config.unhealthy.failures ∣ plugin.unhealthyIn (r :: older) then some r.now
    else lastTrip older

/-- The healthy responses since the last unhealthy one. -/
def healthyStreak (log : List Response) : Nat := (log.takeWhile fun r => !plugin.unhealthy r).countP plugin.healthy

/-- A response with which a tripped breaker has had enough healthy ones since the last unhealthy one. -/
def Recovers (r : Response) (log : List Response) : Prop :=
  plugin.healthy r = true ∧ plugin.lastTrip log ≠ none ∧ plugin.config.healthy.successes ≤ plugin.healthyStreak (r :: log)

instance (r : Response) (log : List Response) : Decidable (plugin.Recovers r log) := inferInstanceAs (Decidable (_ ∧ _ ∧ _))

/-- The responses of a log since the breaker last recovered. -/
def sinceReset : List Response → List Response
  | [] => []
  | r :: older => if plugin.Recovers r (sinceReset older) then [] else r :: sinceReset older

/-- The state that a log without a reset leads to. -/
def stateOf (log : List Response) : BreakerState where
  unhealthyCount := plugin.unhealthyIn log
  healthyCount := if plugin.lastTrip log = none then 0 else plugin.healthyStreak log
  lasttime := plugin.lastTrip log

variable {plugin}

theorem Created.contains_unhealthy (h : plugin.Created) (r : Response) :
    plugin.unhealthySet.contains r.status = plugin.unhealthy r := by
  rw [h.unhealthySet, Bool.eq_iff_iff, contains_fromStatuses fun s hs => (h.valid.unhealthy s hs).2]
  exact (decide_eq_true_iff).symm

theorem Created.contains_healthy (h : plugin.Created) (r : Response) :
    plugin.healthySet.contains r.status = plugin.healthy r := by
  rw [h.healthySet, Bool.eq_iff_iff, contains_fromStatuses fun s hs => Nat.le_trans (h.valid.healthy s hs).2 (by decide)]
  exact (decide_eq_true_iff).symm

/-- No status is both. -/
theorem Created.not_healthy (h : plugin.Created) {r : Response} (hr : plugin.unhealthy r = true) : plugin.healthy r = false := by
  unfold healthy
  rw [decide_eq_false_iff_not]
  intro hh
  have hlow := (h.valid.unhealthy _ (of_decide_eq_true hr)).1
  have hhigh := (h.valid.healthy _ hh).2
  omega

theorem healthyStreak_unhealthy {r : Response} (hr : plugin.unhealthy r = true) (log : List Response) :
    plugin.healthyStreak (r :: log) = 0 := by
  unfold healthyStreak
  simp [hr]

theorem healthyStreak_cons {r : Response} (hr : plugin.unhealthy r = false) (log : List Response) :
    plugin.healthyStreak (r :: log) = plugin.healthyStreak log + if plugin.healthy r then 1 else 0 := by
  unfold healthyStreak
  rw [List.takeWhile_cons_of_pos (by simp [hr]), List.countP_cons]

theorem lastTrip_of_not_unhealthy {r : Response} (hr : plugin.unhealthy r = false) (log : List Response) :
    plugin.lastTrip (r :: log) = plugin.lastTrip log := by
  rw [lastTrip, if_neg (by simp [hr])]

theorem unhealthyIn_cons (r : Response) (log : List Response) :
    plugin.unhealthyIn (r :: log) = plugin.unhealthyIn log + if plugin.unhealthy r then 1 else 0 := List.countP_cons

/-- A response takes the state of a log to the state of the log with it, or to the initial one when the breaker recovers. -/
theorem observe_stateOf (hc : plugin.Created) {log : List Response} {r : Response} {state : BreakerState}
    (h : plugin.observe .checked (plugin.stateOf log) r.status r.now = .ok state) :
    state = plugin.stateOf (if plugin.Recovers r log then [] else r :: log) := by
  have hfailures : max plugin.config.unhealthy.failures 1 = plugin.config.unhealthy.failures := Nat.max_eq_left hc.valid.failures
  have hsuccesses : max plugin.config.healthy.successes 1 = plugin.config.healthy.successes := Nat.max_eq_left hc.valid.successes
  unfold observe at h
  rw [hc.contains_unhealthy, hc.contains_healthy, hfailures, hsuccesses] at h
  by_cases hu : plugin.unhealthy r = true
  · rw [if_pos hu] at h
    obtain ⟨count, hcount, h⟩ := Except.bind_eq_ok.mp h
    obtain ⟨rfl, -⟩ := Arithmetic.fit_checked_eq_ok hcount
    cases h
    have hnot : ¬plugin.Recovers r log := fun hr => by
      have := hc.not_healthy hu
      rw [hr.1] at this
      cases this
    have hin : plugin.unhealthyIn (r :: log) = plugin.unhealthyIn log + 1 := by rw [unhealthyIn_cons, if_pos hu]
    rw [if_neg hnot]
    unfold stateOf
    rw [hin, healthyStreak_unhealthy hu, ite_self]
    congr 1
    rw [lastTrip, hin]
    simp only [hu, true_and, Nat.dvd_iff_mod_eq_zero]
  · have hu : plugin.unhealthy r = false := by simpa using hu
    rw [if_neg (by simp [hu])] at h
    by_cases hh : plugin.healthy r = true ∧ (plugin.stateOf log).lasttime ≠ none
    · rw [if_pos hh] at h
      obtain ⟨count, hcount, h⟩ := Except.bind_eq_ok.mp h
      obtain ⟨rfl, -⟩ := Arithmetic.fit_checked_eq_ok hcount
      have hstreak : (plugin.stateOf log).healthyCount + 1 = plugin.healthyStreak (r :: log) := by
        rw [healthyStreak_cons hu, if_pos hh.1]
        unfold stateOf
        simp only
        rw [if_neg (show ¬plugin.lastTrip log = none from hh.2)]
      rw [hstreak] at h
      by_cases hr : plugin.config.healthy.successes ≤ plugin.healthyStreak (r :: log)
      · rw [if_pos hr] at h
        cases h
        rw [if_pos (show plugin.Recovers r log from ⟨hh.1, hh.2, hr⟩)]
        rfl
      · rw [if_neg hr] at h
        cases h
        rw [if_neg fun hrec : plugin.Recovers r log => hr hrec.2.2]
        unfold stateOf
        have htripped : plugin.lastTrip log ≠ none := hh.2
        rw [unhealthyIn_cons, lastTrip_of_not_unhealthy hu]
        simp [hu, htripped]
    · rw [if_neg hh] at h
      cases h
      have hnot : ¬plugin.Recovers r log := fun hrec => hh ⟨hrec.1, hrec.2.1⟩
      rw [if_neg hnot]
      unfold stateOf
      rw [unhealthyIn_cons, lastTrip_of_not_unhealthy hu, healthyStreak_cons hu]
      by_cases hl : plugin.lastTrip log = none
      · simp [hl, hu]
      · have hhealthy : plugin.healthy r = false := by
          by_contra hn
          exact hh ⟨by simpa using hn, hl⟩
        simp [hl, hu, hhealthy]

end PluginApiBreaker

/-! ## Runs -/

/-- The responses on a key since its state was created, the newest first. -/
def logStep (key : String) (log : List Response) (event : Event) : List Response :=
  let log := if event.evicted = some key then [] else log
  match event.occurrence with
  | .response status now => if event.key = key then ⟨status, now⟩ :: log else log
  | .check _ _ => log

def logOf (key : String) (events : List Event) : List Response := events.foldl (logStep key) []

theorem logOf_append (key : String) (events : List Event) (event : Event) :
    logOf key (events ++ [event]) = logStep key (logOf key events) event := by
  unfold logOf
  rw [List.foldl_append]
  rfl

namespace PluginApiBreaker

variable {plugin : PluginApiBreaker} {states states' : BreakerStates} {event : Event}

theorem isOpen_snd (states : BreakerStates) (key : String) (now : Nat) :
    (plugin.isOpen states key now).2 = (states.entry key).2 := by
  unfold isOpen
  simp only
  cases (states.entry key).1.lasttime with
  | none => rfl
  | some lasttime => rfl

theorem responseFilter_eq_ok {arithmetic : Arithmetic} {key : String} {status now : Nat} :
    plugin.responseFilter arithmetic states key status now = .ok states' ↔
      ∃ state, plugin.observe arithmetic (states.entry key).1 status now = .ok state ∧
        states' = (states.entry key).2.set key state := by
  unfold responseFilter
  rw [Except.bind_eq_ok]
  exact exists_congr fun state => and_congr_right fun _ => by rw [Except.pure_eq_ok, eq_comm]

/-- What one step does to the keys: the evicted key starts anew, and the key of a response observes it. -/
theorem step_view (ht : states.Tracked) (h : Step plugin states event states') :
    states'.Tracked ∧ event.evicted ≠ some event.key ∧
      (∀ k ≠ event.key, states'.view k = if event.evicted = some k then {} else states.view k) ∧
      match event.occurrence with
      | .check now answer => states'.view event.key = states.view event.key ∧ answer = (plugin.isOpen states event.key now).1
      | .response status now => plugin.observe .checked (states.view event.key) status now = .ok (states'.view event.key) := by
  cases h with
  | check key now =>
    obtain ⟨-, hself, hother⟩ := ht.entry_spec key
    simp only
    rw [isOpen_snd]
    exact ⟨BreakerStates.tracked_entry ht key, fun he => (ht.evicted_eq_some he).2.2.2 rfl, hother, hself, trivial⟩
  | response key status now hr =>
    obtain ⟨state, hobserve, rfl⟩ := responseFilter_eq_ok.mp hr
    obtain ⟨hentry, -, hother⟩ := ht.entry_spec key
    simp only
    refine ⟨BreakerStates.tracked_set (BreakerStates.tracked_entry ht key) (BreakerStates.containsKey_entry states key) state,
      fun he => (ht.evicted_eq_some he).2.2.2 rfl, fun k hk => ?_, ?_⟩
    · rw [BreakerStates.view_set, if_neg hk]
      exact hother k hk
    · rw [BreakerStates.view_set, if_pos rfl, ← hentry]
      exact hobserve

variable (plugin) in
/-- The responses since the last reset after one more event. -/
def next (key : String) (log : List Response) (event : Event) : List Response :=
  if event.evicted = some key then []
  else if event.key = key then
    match event.occurrence with
    | .response status now => if plugin.Recovers ⟨status, now⟩ log then [] else ⟨status, now⟩ :: log
    | .check _ _ => log
  else log

theorem sinceReset_logStep (key : String) (log : List Response) (h : event.evicted ≠ some event.key) :
    plugin.sinceReset (logStep key log event) = plugin.next key (plugin.sinceReset log) event := by
  unfold logStep next
  by_cases hk : event.key = key
  · rw [← hk, if_neg h, if_neg h, if_pos rfl]
    cases event.occurrence with
    | check now answer => rfl
    | response status now =>
      simp only
      rw [if_pos trivial, sinceReset]
  · rw [if_neg hk]
    cases event.occurrence with
    | check now answer =>
      simp only
      rw [apply_ite plugin.sinceReset]
      rfl
    | response status now =>
      simp only
      rw [if_neg hk, apply_ite plugin.sinceReset]
      rfl

theorem step_stateOf (hc : plugin.Created) (ht : states.Tracked) (h : Step plugin states event states') {key : String}
    {log : List Response} (hview : states.view key = plugin.stateOf log) :
    states'.view key = plugin.stateOf (plugin.next key log event) := by
  obtain ⟨-, hself, hother, hocc⟩ := step_view ht h
  unfold next
  by_cases hk : event.key = key
  · rw [if_neg (hk ▸ hself), if_pos hk]
    cases hoccurrence : event.occurrence with
    | check now answer =>
      rw [hoccurrence] at hocc
      rw [← hk, hocc.1, hk, hview]
    | response status now =>
      rw [hoccurrence] at hocc
      simp only at hocc ⊢
      rw [hk, hview] at hocc
      exact observe_stateOf (r := ⟨status, now⟩) hc hocc
  · rw [hother key (Ne.symm hk), if_neg hk]
    by_cases he : event.evicted = some key
    · rw [if_pos he, if_pos he]
      rfl
    · rw [if_neg he, if_neg he, hview]

/-- In every run, the state of a key is the one its log leads to. -/
theorem view_eq (hc : plugin.Created) {events : List Event} (r : Run (Step plugin) (fun s => s = {}) events states) :
    states.Tracked ∧ ∀ key, states.view key = plugin.stateOf (plugin.sinceReset (logOf key events)) := by
  induction r with
  | start h =>
    rw [h]
    exact ⟨BreakerStates.tracked_initial, fun _ => rfl⟩
  | snoc r h ih =>
    obtain ⟨ht, hview⟩ := ih
    refine ⟨(step_view ht h).1, fun key => ?_⟩
    rw [logOf_append, sinceReset_logStep key _ (step_view ht h).2.1]
    exact step_stateOf hc ht h (hview key)

/-! ## The window -/

theorem breakerSecs_eq (count failures maxBreakerSec : Nat) :
    breakerSecs count failures maxBreakerSec = min (2 ^ min (max (count / max failures 1) 1) maxExponent) maxBreakerSec := by
  have hlt : min (max (count / max failures 1) 1) maxExponent < 64 := Nat.lt_of_le_of_lt (Nat.min_le_right _ _) (by decide)
  unfold breakerSecs
  simp only
  rw [if_pos hlt]

theorem breakerSecs_bounds {count failures maxBreakerSec : Nat} (h : 3 ≤ maxBreakerSec) :
    2 ≤ breakerSecs count failures maxBreakerSec ∧ breakerSecs count failures maxBreakerSec ≤ maxBreakerSec := by
  rw [breakerSecs_eq]
  refine ⟨Nat.le_min.mpr ⟨?_, by omega⟩, Nat.min_le_right _ _⟩
  have hone : 1 ≤ min (max (count / max failures 1) 1) maxExponent := Nat.le_min.mpr ⟨Nat.le_max_right _ _, by decide⟩
  exact Nat.pow_le_pow_right (show 0 < 2 by decide) hone

theorem breakerSecs_mono {count count' : Nat} (h : count ≤ count') (failures maxBreakerSec : Nat) :
    breakerSecs count failures maxBreakerSec ≤ breakerSecs count' failures maxBreakerSec := by
  have hdiv : count / max failures 1 ≤ count' / max failures 1 := Nat.div_le_div_right h
  have htimes : min (max (count / max failures 1) 1) maxExponent ≤ min (max (count' / max failures 1) 1) maxExponent := by
    omega
  rw [breakerSecs_eq, breakerSecs_eq]
  have hpow := Nat.pow_le_pow_right (show 0 < 2 by decide) htimes
  omega

/-! ## What holds of a key in every run -/

variable (plugin)

/-- An unhealthy response with which the unhealthy ones since the last reset are a multiple of those that trip the breaker. -/
def Trips (key : String) (log : List Response) (event : Event) (now : Nat) : Prop :=
  ∃ status, event.key = key ∧ event.occurrence = .response status now ∧
    status ∈ plugin.config.unhealthy.httpStatuses ∧ plugin.config.unhealthy.failures ∣ plugin.unhealthyIn log + 1

/-- A healthy response with which a tripped breaker has had enough of them since the last unhealthy one. -/
def Resets (key : String) (log : List Response) (event : Event) : Prop :=
  ∃ status now, event.key = key ∧ event.occurrence = .response status now ∧ plugin.Recovers ⟨status, now⟩ log

/-- What a step after a run does to a key with the given responses since its last reset. -/
structure StepLaws (key : String) (log : List Response) (states : BreakerStates) (event : Event) (states' : BreakerStates) :
    Prop where
  trips : ∀ now, plugin.Trips key log event now → (states'.view key).lasttime = some now
  stays : (∀ now, ¬plugin.Trips key log event now) → ¬plugin.Resets key log event → event.evicted ≠ some key →
    (states'.view key).lasttime = (states.view key).lasttime
  window : ¬plugin.Resets key log event → event.evicted ≠ some key →
    plugin.window (states.view key) ≤ plugin.window (states'.view key)
  resets : plugin.Resets key log event ∨ event.evicted = some key → states'.view key = {}
  evicted : event.evicted = some key → event.key ≠ key ∧ maxBreakerKeys ≤ states.shard.len ∧
    states.shard.touchOrder.oldest.head? = some key

/-- What holds of a key at the end of a run, with the given responses since its last reset, and of the next step. -/
structure BreakerLaws (key : String) (log : List Response) (states : BreakerStates) : Prop where
  count : (states.view key).unhealthyCount = plugin.unhealthyIn log
  lasttime : (states.view key).lasttime = plugin.lastTrip log
  window : 2 ≤ plugin.window (states.view key) ∧ plugin.window (states.view key) ≤ plugin.config.maxBreakerSec
  isOpen : ∀ now, (plugin.isOpen states key now).1 = true ↔
    ∃ trip, (states.view key).lasttime = some trip ∧ now ≤ trip + nanosOfSecs (plugin.window (states.view key))
  step : ∀ event states', Step plugin states event states' → plugin.StepLaws key log states event states'

variable {plugin}

theorem window_mono {state state' : BreakerState} (h : state.unhealthyCount ≤ state'.unhealthyCount) :
    plugin.window state ≤ plugin.window state' := breakerSecs_mono h _ _

theorem not_resets_cases {key : String} {log : List Response} (hr : ¬plugin.Resets key log event)
    (he : event.evicted ≠ some key) :
    plugin.next key log event = log ∨ ∃ status now, event.key = key ∧ event.occurrence = .response status now ∧
      plugin.next key log event = ⟨status, now⟩ :: log := by
  unfold next
  rw [if_neg he]
  by_cases hk : event.key = key
  · rw [if_pos hk]
    cases hoccurrence : event.occurrence with
    | check now answer => exact .inl rfl
    | response status now =>
      have hnot : ¬plugin.Recovers ⟨status, now⟩ log := fun hrec => hr ⟨status, now, hk, hoccurrence, hrec⟩
      simp only
      rw [if_neg hnot]
      exact .inr ⟨status, now, hk, rfl, rfl⟩
  · rw [if_neg hk]
    exact .inl rfl

theorem stepLaws (hc : plugin.Created) (ht : states.Tracked) (h : Step plugin states event states') {key : String}
    {log : List Response} (hview : states.view key = plugin.stateOf log) : plugin.StepLaws key log states event states' := by
  have hview' := step_stateOf hc ht h hview
  obtain ⟨-, hself, -⟩ := step_view ht h
  refine ⟨?_, ?_, ?_, ?_, ?_⟩
  · rintro now ⟨status, hk, hoccurrence, hstatus, hdvd⟩
    have hu : plugin.unhealthy ⟨status, now⟩ = true := decide_eq_true hstatus
    have hnot : ¬plugin.Recovers ⟨status, now⟩ log := fun hr => by
      have := hc.not_healthy hu
      rw [hr.1] at this
      cases this
    have hnext : plugin.next key log event = ⟨status, now⟩ :: log := by
      unfold next
      rw [if_neg (hk ▸ hself), if_pos hk, hoccurrence]
      exact if_neg hnot
    rw [hview', hnext]
    show plugin.lastTrip (⟨status, now⟩ :: log) = some now
    rw [lastTrip, unhealthyIn_cons, if_pos hu, if_pos ⟨hu, hdvd⟩]
  · intro htrips hr he
    rw [hview', hview]
    obtain hnext | ⟨status, now, hk, hoccurrence, hnext⟩ := not_resets_cases hr he
    · rw [hnext]
    · rw [hnext]
      show plugin.lastTrip (⟨status, now⟩ :: log) = plugin.lastTrip log
      by_cases hu : plugin.unhealthy ⟨status, now⟩ = true
      · rw [lastTrip, unhealthyIn_cons, if_pos hu, if_neg]
        rintro ⟨-, hdvd⟩
        exact htrips now ⟨status, hk, hoccurrence, of_decide_eq_true hu, hdvd⟩
      · exact lastTrip_of_not_unhealthy (by simpa using hu) log
  · intro hr he
    rw [hview', hview]
    refine window_mono ?_
    show plugin.unhealthyIn log ≤ plugin.unhealthyIn (plugin.next key log event)
    obtain hnext | ⟨status, now, -, -, hnext⟩ := not_resets_cases hr he
    · rw [hnext]
    · rw [hnext, unhealthyIn_cons]
      exact Nat.le_add_right _ _
  · intro hor
    rw [hview']
    have hnext : plugin.next key log event = [] := by
      unfold next
      cases hor with
      | inr he => rw [if_pos he]
      | inl hr =>
        obtain ⟨status, now, hk, hoccurrence, hrec⟩ := hr
        rw [if_neg (hk ▸ hself), if_pos hk, hoccurrence]
        exact if_pos hrec
    rw [hnext]
    rfl
  · intro he
    refine ⟨fun hk => hself (hk ▸ he), ?_⟩
    cases h with
    | check key' now => exact ⟨(ht.evicted_eq_some he).2.1, (ht.evicted_eq_some he).2.2.1⟩
    | response key' status now hr => exact ⟨(ht.evicted_eq_some he).2.1, (ht.evicted_eq_some he).2.2.1⟩

/-- The laws of every key in every run, over the responses since its last reset. -/
theorem breakerLaws_of_run {json : JsonCodec} {headerName : String → Bool} {cfg : Json}
    (h : createApiBreakerPlugin json headerName cfg = .ok plugin) {events : List Event}
    (r : Run (Step plugin) (fun s => s = {}) events states) (key : String) :
    plugin.BreakerLaws key (plugin.sinceReset (logOf key events)) states := by
  have hc := created_of_create h
  obtain ⟨ht, hview⟩ := view_eq hc r
  have hkey := hview key
  refine ⟨by rw [hkey]; rfl, by rw [hkey]; rfl, breakerSecs_bounds hc.valid.maxBreakerSec, fun now => ?_,
    fun event states' hstep => stepLaws hc ht hstep hkey⟩
  unfold isOpen
  simp only
  rw [(ht.entry_spec key).1]
  cases (states.view key).lasttime with
  | none => simp
  | some lasttime => simp

/-- What a build with checks does with a response, one without them does too. -/
theorem observe_arithmetic {state state' : BreakerState} {status now : Nat}
    (h : plugin.observe .checked state status now = .ok state') (arithmetic : Arithmetic) :
    plugin.observe arithmetic state status now = .ok state' := by
  unfold observe at h ⊢
  by_cases hu : plugin.unhealthySet.contains status = true
  · rw [if_pos hu] at h ⊢
    obtain ⟨count, hcount, h⟩ := Except.bind_eq_ok.mp h
    obtain ⟨rfl, hsame⟩ := Arithmetic.fit_checked_eq_ok hcount
    rw [hsame arithmetic]
    exact h
  · rw [if_neg hu] at h ⊢
    by_cases hh : plugin.healthySet.contains status = true ∧ state.lasttime ≠ none
    · rw [if_pos hh] at h ⊢
      obtain ⟨count, hcount, h⟩ := Except.bind_eq_ok.mp h
      obtain ⟨rfl, hsame⟩ := Arithmetic.fit_checked_eq_ok hcount
      rw [hsame arithmetic]
      exact h
    · rw [if_neg hh] at h ⊢
      exact h

/-- A run goes on with responses on one key. -/
theorem run_responses (key : String) : ∀ {responses : List Response} {events : List Event} {states states' : BreakerStates},
    Run (Step plugin) (fun s => s = {}) events states →
    responses.foldlM (fun s r => plugin.responseFilter .checked s key r.status r.now) states = .ok states' →
      ∃ more, Run (Step plugin) (fun s => s = {}) (events ++ more) states' ∧
        more.map (fun e => (e.key, e.occurrence)) = responses.map fun r => (key, .response r.status r.now)
  | [], events, states, states', r, h => by
    cases h
    exact ⟨[], by rwa [List.append_nil], rfl⟩
  | x :: responses, events, states, states', r, h => by
    obtain ⟨middle, hfirst, hrest⟩ := Except.foldlM_cons_eq_ok.mp h
    obtain ⟨more, hrun, hmore⟩ := run_responses key (.snoc r (.response key x.status x.now hfirst)) hrest
    refine ⟨⟨key, .response x.status x.now, states.evicted key⟩ :: more, ?_, by rw [List.map_cons, List.map_cons, hmore]⟩
    rwa [List.append_assoc, List.singleton_append] at hrun

end PluginApiBreaker

/-- No document is read or written. -/
def noDocuments : JsonCodec where
  fromSlice _ := .error (.malformed "")
  toVec _ := .empty
  render _ := ""

/-- Two unhealthy responses trip the breaker. -/
def twoFailures : PluginApiBreaker where
  config := { breakResponseCode := 502, unhealthy := { failures := 2 } }
  unhealthySet := .fromStatuses [500]
  healthySet := .fromStatuses [200]

theorem create_twoFailures : createApiBreakerPlugin noDocuments (fun _ => true)
    (.obj [("break_response_code", .num (.posInt 502)), ("unhealthy", .obj [("failures", .num (.posInt 2))])]) =
      .ok twoFailures := by decide

/-- Two unhealthy responses with a healthy one between them. -/
def alternating : List Response := [⟨500, 0⟩, ⟨200, 1⟩, ⟨500, 2⟩]

def afterAlternating : Except Overflow BreakerStates :=
  alternating.foldlM (fun s r => twoFailures.responseFilter .checked s "r" r.status r.now) {}

theorem breakerLaws_of_run_alternating : ∃ events states, Run (Step twoFailures) (fun s => s = {}) events states ∧
    events.map (fun e => (e.key, e.occurrence)) = alternating.map (fun r => ("r", .response r.status r.now)) ∧
    twoFailures.BreakerLaws "r" (twoFailures.sinceReset (logOf "r" events)) states := by
  obtain ⟨states, hstates⟩ : ∃ states, afterAlternating = .ok states := ⟨_, rfl⟩
  obtain ⟨events, hrun, hevents⟩ := PluginApiBreaker.run_responses "r" (.start rfl) hstates
  exact ⟨events, states, hrun, hevents, PluginApiBreaker.breakerLaws_of_run create_twoFailures hrun "r"⟩

/-- The breaker trips though no two unhealthy responses come in a row, and is open at the very end of its window. -/
theorem isOpen_alternating : ∃ events states, Run (Step twoFailures) (fun s => s = {}) events states ∧
    events.map (fun e => (e.key, e.occurrence)) = [("r", .response 500 0), ("r", .response 200 1), ("r", .response 500 2)] ∧
    (states.view "r").lasttime = some 2 ∧ (twoFailures.isOpen states "r" 2).1 = true ∧
    nanosOfSecs (twoFailures.window (states.view "r")) = 2000000000 ∧ (twoFailures.isOpen states "r" 2000000002).1 = true := by
  obtain ⟨states, hstates⟩ : ∃ states, afterAlternating = .ok states := ⟨_, rfl⟩
  have hvalue : ∀ {α : Type} (f : BreakerStates → α) (a : α), afterAlternating.map f = .ok a → f states = a := by
    intro α f a h
    rw [hstates] at h
    exact Except.ok.inj h
  obtain ⟨events, hrun, hevents⟩ := PluginApiBreaker.run_responses "r" (.start rfl) hstates
  exact ⟨events, states, hrun, hevents, hvalue (fun s => (s.view "r").lasttime) _ (by decide),
    hvalue (fun s => (twoFailures.isOpen s "r" 2).1) _ (by decide),
    hvalue (fun s => nanosOfSecs (twoFailures.window (s.view "r"))) _ (by decide),
    hvalue (fun s => (twoFailures.isOpen s "r" 2000000002).1) _ (by decide)⟩

end ApiBreaker

end Pingsix
