import Pingsix.LimitConnSound

/-!
# Two counters for one key

The rounds of a lookup that runs undisturbed are `get_or_insert_counter`. From
it a run is built in which a key is counted in the overflow entry, two idle
keys leave the shard, and the next request of the key finds room for an entry
of its own: two requests of the key are live under a limit of one.
-/

namespace Pingsix

namespace LimitConn

namespace PluginLimitConn

variable {config : PluginConfig} {hash : String → Nat} {s s' s'' : PluginLimitConn}

/-- A run of the limiter from one state to another. -/
def Leads (config : PluginConfig) (hash : String → Nat) (s s' : PluginLimitConn) : Prop :=
  ∃ as, Run (Step config hash) (fun t => t = s) as s'

theorem Leads.refl (s : PluginLimitConn) : Leads config hash s s := ⟨[], .start rfl⟩

theorem Leads.trans (h : Leads config hash s s') (h' : Leads config hash s' s'') : Leads config hash s s'' := by
  obtain ⟨as, r⟩ := h
  obtain ⟨as', r'⟩ := h'
  exact ⟨as ++ as', r.trans r'⟩

theorem Leads.step {a : Action} (h : s.act config hash a = some s') : Leads config hash s s' :=
  ⟨[] ++ [a], .snoc (.start rfl) h⟩

/-! ## A lookup that nothing disturbs -/

theorem setShard_setShard (i : Nat) (shard shard' : Shard Nat) :
    (s.setShard i shard).setShard i shard' = s.setShard i shard' := by
  unfold setShard
  simp

theorem setShard_self (i : Nat) : s.setShard i (s.counters i) = s := by
  unfold setShard
  rw [Function.update_eq_self]

theorem setRequest_self {r : Nat} {p : Request} (hr : s.requests[r]? = some p) : s.setRequest r p = s := by
  obtain ⟨hl, rfl⟩ := List.getElem?_eq_some_iff.mp hr
  unfold setRequest
  rw [List.set_getElem_self]

theorem leads_sweep {r : Nat} {guards : List ConnGuard} {limit : LimitSelection} {limits : List LimitSelection}
    {newKey : Bool} (budget : Nat) (hr : s.requests[r]? = some (.admitting guards limit limits newKey budget)) :
    Leads config hash s ((s.setShard (shardIdx hash limit.key)
      ((s.counters (shardIdx hash limit.key)).sweepUpTo (fun state => s.count state = 0) .pushBack budget)).setRequest r
        (.admitting guards limit limits newKey 0)) := by
  induction budget generalizing s with
  | zero =>
    rw [Shard.sweepUpTo, setShard_self, setRequest_self hr]
    exact .refl s
  | succ budget ih =>
    rw [Shard.sweepUpTo]
    cases he : (s.counters (shardIdx hash limit.key)).examine (fun state => s.count state = 0) .pushBack with
    | none =>
      rw [setShard_self]
      refine .step (a := .examine r) ?_
      simp only [act, hr, he]
    | some shard =>
      have hstep : s.act config hash (.examine r) = some ((s.setShard (shardIdx hash limit.key) shard).setRequest r
          (.admitting guards limit limits newKey budget)) := by
        simp only [act, hr, he]
      refine (Leads.step hstep).trans ?_
      have hrest := ih (s := (s.setShard (shardIdx hash limit.key) shard).setRequest r
        (.admitting guards limit limits newKey budget))
        (by rw [getElem?_setRequest (s := s.setShard _ shard) hr, if_pos rfl])
      have hc : ((s.setShard (shardIdx hash limit.key) shard).setRequest r
          (.admitting guards limit limits newKey budget)).counters (shardIdx hash limit.key) = shard := by
        change (s.setShard (shardIdx hash limit.key) shard).counters (shardIdx hash limit.key) = shard
        rw [counters_setShard, if_pos rfl]
      rw [hc] at hrest
      have heq : ∀ shard' p, (((s.setShard (shardIdx hash limit.key) shard).setRequest r
          (.admitting guards limit limits newKey budget)).setShard (shardIdx hash limit.key) shard').setRequest r p =
          (s.setShard (shardIdx hash limit.key) shard').setRequest r p := by
        intro shard' p
        have h1 : ((s.setShard (shardIdx hash limit.key) shard).setRequest r
            (.admitting guards limit limits newKey budget)).setShard (shardIdx hash limit.key) shard' =
            ((s.setShard (shardIdx hash limit.key) shard).setShard (shardIdx hash limit.key) shard').setRequest r
              (.admitting guards limit limits newKey budget) := rfl
        rw [h1, setRequest_setRequest, setShard_setShard]
      rw [heq] at hrest
      exact hrest

/-- A lookup that nothing disturbs finds what `get_or_insert_counter` does. -/
theorem leads_lookup {r : Nat} {guards : List ConnGuard} {limit : LimitSelection} {limits : List LimitSelection}
    (hr : s.requests[r]? = some (.selecting guards (limit :: limits)))
    (hu : s.unlocked hash (shardIdx hash limit.key) = true) :
    Leads config hash s ((s.getOrInsertCounter hash limit.key).2.setRequest r
      (.counting guards limit limits (s.getOrInsertCounter hash limit.key).1)) := by
  unfold getOrInsertCounter Shard.admitKey
  simp only
  generalize hi : shardIdx hash limit.key = i at *
  generalize hn : (!(s.counters i).containsKey limit.key) = newKey
  generalize hs : (if (s.counters i).isFullFor newKey = true then
    (s.counters i).sweep (fun state => s.count state = 0) .pushBack else s.counters i) = shard
  have hswept : Leads config hash s ((s.setShard i shard).setRequest r (.admitting guards limit limits newKey 0)) := by
    have hstep : s.act config hash (.lookup r) = some (s.setRequest r (.admitting guards limit limits newKey
        (if (s.counters i).isFullFor newKey = true then cleanupBudget else 0))) := by
      simp only [act, hr, hi, hu, if_true, hn]
    refine (Leads.step hstep).trans ?_
    have hsweep : Leads config hash _ _ := leads_sweep _
      (show (s.setRequest r (.admitting guards limit limits newKey
        (if (s.counters i).isFullFor newKey = true then cleanupBudget else 0))).requests[r]? = some _ by
          rw [getElem?_setRequest hr, if_pos rfl])
    rw [hi] at hsweep
    have heq : ((s.setRequest r (.admitting guards limit limits newKey
        (if (s.counters i).isFullFor newKey = true then cleanupBudget else 0))).counters i).sweepUpTo
        (fun state => s.count state = 0) .pushBack
        (if (s.counters i).isFullFor newKey = true then cleanupBudget else 0) = shard := by
      rw [← hs]
      by_cases hf : (s.counters i).isFullFor newKey = true
      · simp only [hf, if_true]
        rfl
      · simp only [hf]
        rfl
    have hend : ∀ budget, ((s.setRequest r (.admitting guards limit limits newKey budget)).setShard i shard).setRequest
        r (.admitting guards limit limits newKey 0) =
        (s.setShard i shard).setRequest r (.admitting guards limit limits newKey 0) := by
      intro budget
      have h1 : (s.setRequest r (.admitting guards limit limits newKey budget)).setShard i shard =
          (s.setShard i shard).setRequest r (.admitting guards limit limits newKey budget) := rfl
      rw [h1, setRequest_setRequest]
    rw [← hend]
    rw [← heq]
    exact hsweep
  refine hswept.trans (.step (a := .settle r) ?_)
  have hrs : ((s.setShard i shard).setRequest r (.admitting guards limit limits newKey 0)).requests[r]? =
      some (.admitting guards limit limits newKey 0) := by
    rw [getElem?_setRequest (s := s.setShard i shard) hr, if_pos rfl]
  have hc : ((s.setShard i shard).setRequest r (.admitting guards limit limits newKey 0)).counters i = shard := by
    change (s.setShard i shard).counters i = shard
    rw [counters_setShard, if_pos rfl]
  simp only [act, hrs, hi, hc]
  have heq : ∀ touched, ((s.setShard i shard).setRequest r (.admitting guards limit limits newKey 0)).setShard i touched =
      (s.setShard i touched).setRequest r (.admitting guards limit limits newKey 0) := by
    intro touched
    have h1 : ((s.setShard i shard).setRequest r (.admitting guards limit limits newKey 0)).setShard i touched =
        ((s.setShard i shard).setShard i touched).setRequest r (.admitting guards limit limits newKey 0) := rfl
    rw [h1, setShard_setShard]
  rw [heq, (orInsert_setRequest _ _ _ _).1, (orInsert_setRequest _ _ _ _).2, setRequest_setRequest]

theorem getOrInsertCounter_found {key slot : String} {shard : Shard Nat} {state : Nat}
    (ha : Shard.admitKey key limitConnOverflow (Shard.sweep (fun state => s.count state = 0) .pushBack)
      (s.counters (shardIdx hash key)) = (slot, shard)) (hl : shard.entries.lookup slot = some state) :
    s.getOrInsertCounter hash key = (state, s.setShard (shardIdx hash key) shard) := by
  have hc : ((s.setShard (shardIdx hash key) shard).counters (shardIdx hash key)).entries.lookup slot = some state := by
    rw [counters_setShard, if_pos rfl, hl]
  unfold getOrInsertCounter
  simp only
  rw [ha]
  unfold orInsert
  rw [hc]

theorem getOrInsertCounter_made {key slot : String} {shard : Shard Nat}
    (ha : Shard.admitKey key limitConnOverflow (Shard.sweep (fun state => s.count state = 0) .pushBack)
      (s.counters (shardIdx hash key)) = (slot, shard)) (hl : shard.entries.lookup slot = none) :
    s.getOrInsertCounter hash key = (s.states, { s.setShard (shardIdx hash key) (shard.insert slot s.states) with
      count := Function.update s.count s.states 0
      states := s.states + 1 }) := by
  have hc : (s.setShard (shardIdx hash key) shard).counters (shardIdx hash key) = shard := by
    rw [counters_setShard, if_pos rfl]
  unfold getOrInsertCounter
  simp only
  rw [ha]
  unfold orInsert
  rw [hc, hl, setShard_setShard]
  rfl

/-- Finding a counter does not look at the requests. -/
theorem getOrInsertCounter_requests (key : String) (requests : List Request) :
    ({ s with requests } : PluginLimitConn).getOrInsertCounter hash key =
      ((s.getOrInsertCounter hash key).1, { (s.getOrInsertCounter hash key).2 with requests }) := by
  cases ha : Shard.admitKey key limitConnOverflow (Shard.sweep (fun state => s.count state = 0) .pushBack)
    (s.counters (shardIdx hash key)) with
  | mk slot shard =>
    cases hl : shard.entries.lookup slot with
    | some state =>
      rw [getOrInsertCounter_found ha hl, getOrInsertCounter_found (s := { s with requests }) ha hl]
      rfl
    | none =>
      rw [getOrInsertCounter_made ha hl, getOrInsertCounter_made (s := { s with requests }) ha hl]
      rfl

/-! ## One request after the other -/

/-- A limit of one request for each client address. -/
def oneEach : PluginConfig := { conn := some 1, key := some "remote_addr" }

theorem selectLimits_oneEach (key : String) :
    selectLimits oneEach (fun _ => key) = some [{ key, conn := 1, burst := 0 }] := by
  simp [selectLimits, oneEach, apisixKey]

theorem unlocked_of (h : ∀ p ∈ s.requests, p.locks hash = none) (i : Nat) : s.unlocked hash i = true := by
  refine List.all_eq_true.mpr fun p hp => ?_
  have := h p hp
  cases p <;> simp [Request.locks] at this ⊢

/-- A request whose counter was at zero is admitted, with nothing in between. -/
theorem leads_live (h : ∀ p ∈ s.requests, p.locks hash = none) {key : String} {found : Nat × PluginLimitConn}
    (hf : s.getOrInsertCounter hash key = found) (hz : found.2.count found.1 = 0) :
    Leads oneEach hash s { found.2.add found.1 1 with
      requests := s.requests ++ [.live [⟨found.1, { key, conn := 1, burst := 0 }⟩]] } := by
  have hstart : Leads oneEach hash s
      { s with requests := s.requests ++ [.selecting [] [{ key, conn := 1, burst := 0 }]] } := by
    refine .step (a := .start fun _ => key) ?_
    simp only [act, selectLimits_oneEach]
  refine hstart.trans ?_
  generalize hs1 : ({ s with requests := s.requests ++ [.selecting [] [{ key, conn := 1, burst := 0 }]] } :
    PluginLimitConn) = s1
  have hr1 : s1.requests[s.requests.length]? = some (.selecting [] [{ key, conn := 1, burst := 0 }]) := by
    rw [← hs1]
    simp
  have hl1 : ∀ p ∈ s1.requests, p.locks hash = none := by
    intro p hp
    rw [← hs1] at hp
    rcases List.mem_append.mp hp with hp | hp
    · exact h p hp
    · rw [List.mem_singleton] at hp
      subst hp
      rfl
  have hf1 : s1.getOrInsertCounter hash key =
      (found.1, { found.2 with requests := s1.requests }) := by
    rw [← hf, ← hs1]
    exact getOrInsertCounter_requests key _
  have hlook : Leads oneEach _ _ _ := leads_lookup hr1 (unlocked_of hl1 _)
  rw [hf1] at hlook
  refine hlook.trans ?_
  have hset : ∀ p : Request, s1.requests.set s.requests.length p = s.requests ++ [p] := by
    intro p
    rw [← hs1]
    simp
  have hcount : Leads oneEach hash
      (({ found.2 with requests := s1.requests } : PluginLimitConn).setRequest s.requests.length
        (.counting [] { key, conn := 1, burst := 0 } [] found.1))
      { found.2.add found.1 1 with
        requests := s.requests ++ [.selecting [⟨found.1, { key, conn := 1, burst := 0 }⟩] []] } := by
    refine .step (a := .count s.requests.length) ?_
    simp only [act, setRequest, hset, List.getElem?_concat_length, hz, decide]
    simp [add, hz]
  refine hcount.trans (.step (a := .finish s.requests.length) ?_)
  simp only [act, setRequest, List.getElem?_concat_length]
  simp

/-! ## The shard is full, a key overflows, two counters leave, the key returns -/

section

variable (e : Nat → String) (i : Nat)

/-- The limit of the `n`th key. -/
def limitOf (n : Nat) : LimitSelection := { key := e n, conn := 1, burst := 0 }

/-- One live request of each of the first `n` keys. -/
def lived (n : Nat) : PluginLimitConn where
  counters := Function.update (fun _ => {}) i (Shard.filled e id n)
  count state := if state < n then 1 else 0
  states := n
  requests := (List.range n).map fun j => .live [⟨j, limitOf e j⟩]

/-- The keys in the order a sweep leaves that keeps the eight oldest of `8 + m`. -/
def pushedBack (m : Nat) : List String := ((List.range m).map fun j => e (8 + j)) ++ (List.range 8).map e

/-- The shard of `8 + m` keys after that sweep, with the overflow entry. -/
def overflowed (m : Nat) : Shard Nat :=
  (({ entries := (Shard.filled e id (8 + m)).entries, touchOrder := ⟨pushedBack e m⟩ } : Shard Nat).touch
    limitConnOverflow).insert limitConnOverflow (8 + m)

/-- Beside the requests of the first `8 + m` keys one of the next key, in the overflow entry. -/
def withOverflow (m : Nat) : PluginLimitConn where
  counters := Function.update (fun _ => {}) i (overflowed e m)
  count state := if state < 8 + m + 1 then 1 else 0
  states := 8 + m + 1
  requests := (lived e i (8 + m)).requests ++ [.live [⟨8 + m, limitOf e (8 + m)⟩]]

variable {e i} (he : Function.Injective e) (hi : ∀ n, shardIdx hash (e n) = i ∧ e n ≠ limitConnOverflow)
include he hi

theorem leads_lived (n : Nat) (hn : n ≤ perShardRegularMax) : Leads oneEach hash {} (lived e i n) := by
  induction n with
  | zero =>
    have h : lived e i 0 = {} := by
      have hc : Function.update (fun _ => {}) i (Shard.filled e id 0) = fun _ => ({} : Shard Nat) :=
        Function.update_eq_self i (fun _ => ({} : Shard Nat))
      unfold lived
      rw [hc]
      rfl
    rw [h]
    exact .refl _
  | succ n ih =>
    refine (ih (by omega)).trans ?_
    have hc : (lived e i n).counters (shardIdx hash (e n)) = Shard.filled e id n := by
      rw [(hi n).1]
      exact Function.update_self i _ (fun _ : Nat => ({} : Shard Nat))
    have habsent : (Shard.filled e id n).entries.lookup (e n) = none := by
      rw [Shard.lookup_filled he, if_neg (lt_irrefl n)]
    have hlen : ¬ perShardRegularMax ≤ (Shard.filled e id n).len := by
      rw [Shard.len_filled he]
      exact not_le.mpr hn
    have ha : Shard.admitKey (e n) limitConnOverflow
        (Shard.sweep (fun state => (lived e i n).count state = 0) .pushBack)
        ((lived e i n).counters (shardIdx hash (e n))) = (e n, (Shard.filled e id n).touch (e n)) := by
      rw [hc]
      simp [Shard.admitKey, Shard.isFullFor, Shard.storageKey, hlen, not_le.mp hlen]
    have hnone : ∀ p ∈ (lived e i n).requests, p.locks hash = none := by
      intro p hp
      obtain ⟨j, -, rfl⟩ := List.mem_map.mp hp
      rfl
    have hlive := leads_live hnone (getOrInsertCounter_made ha habsent) (Function.update_self _ _ _)
    have heq : lived e i (n + 1) = { (({ (lived e i n).setShard (shardIdx hash (e n))
        (((Shard.filled e id n).touch (e n)).insert (e n) n) with
        count := Function.update (lived e i n).count n 0
        states := n + 1 } : PluginLimitConn).add n 1) with
        requests := (lived e i n).requests ++ [.live [⟨n, limitOf e n⟩]] } := by
      unfold lived setShard add
      simp only [(hi n).1, Function.update_idem, List.range_succ, List.map_append, List.map_cons, List.map_nil]
      congr 1
      funext state
      by_cases hs : state = n
      · subst hs
        simp
      · rw [Function.update_of_ne hs]
        by_cases hl : state < n
        · rw [if_pos (by omega), if_pos hl]
        · rw [if_neg (by omega), if_neg hl]
    rw [heq]
    exact hlive

theorem leads_overflowed {m : Nat} (hm : perShardRegularMax = 8 + m) :
    Leads oneEach hash {} (withOverflow e i m) := by
  refine (leads_lived he hi (8 + m) (le_of_eq hm.symm)).trans ?_
  have hc : (lived e i (8 + m)).counters (shardIdx hash (e (8 + m))) = Shard.filled e id (8 + m) := by
    rw [(hi (8 + m)).1]
    exact Function.update_self i _ (fun _ : Nat => ({} : Shard Nat))
  have hsplit : (Shard.filled e id (8 + m)).touchOrder.oldest =
      (List.range 8).map e ++ (List.range m).map fun j => e (8 + j) := by
    rw [Shard.oldest_filled he, List.range_add, List.map_append, List.map_map]
    rfl
  have hnodup : ((List.range 8).map e ++ (List.range m).map fun j => e (8 + j)).Nodup := by
    rw [← hsplit, Shard.oldest_filled he]
    exact List.nodup_range.map he
  have hsweep : (Shard.filled e id (8 + m)).sweep (fun state => (lived e i (8 + m)).count state = 0) .pushBack =
      { entries := (Shard.filled e id (8 + m)).entries, touchOrder := ⟨pushedBack e m⟩ } := by
    refine Shard.sweepUpTo_pushBack _ _ _ hsplit hnodup ?_
    intro key hk
    obtain ⟨j, hj, rfl⟩ := List.mem_map.mp hk
    have hj : j < 8 + m := by have := List.mem_range.mp hj; omega
    rw [Shard.lookup_filled he, if_pos hj]
    simp [lived, hj]
  have hlen : perShardRegularMax ≤ (Shard.filled e id (8 + m)).len := by
    rw [Shard.len_filled he]
    exact le_of_eq hm
  have hnew : (Shard.filled e id (8 + m)).containsKey (e (8 + m)) = false := by
    rw [Shard.containsKey_eq_false, Shard.lookup_filled he, if_neg (lt_irrefl _)]
  have ha : Shard.admitKey (e (8 + m)) limitConnOverflow
      (Shard.sweep (fun state => (lived e i (8 + m)).count state = 0) .pushBack)
      ((lived e i (8 + m)).counters (shardIdx hash (e (8 + m)))) = (limitConnOverflow,
        ({ entries := (Shard.filled e id (8 + m)).entries, touchOrder := ⟨pushedBack e m⟩ } :
          Shard Nat).touch limitConnOverflow) := by
    rw [hc]
    have hlen' : ¬ ({ entries := (Shard.filled e id (8 + m)).entries, touchOrder := ⟨pushedBack e m⟩ } :
        Shard Nat).len < perShardRegularMax := not_lt.mpr hlen
    simp only [Shard.admitKey, hnew, Shard.isFullFor, hlen, Bool.not_false, decide_true, Bool.and_true, if_true, hsweep,
      Shard.storageKey, hlen', Bool.not_true, decide_false, Bool.or_false]
    rfl
  have habsent : (Shard.filled e id (8 + m)).entries.lookup limitConnOverflow = none :=
    Shard.lookup_filled_other (fun n => (hi n).2) (8 + m)
  have hnone : ∀ p ∈ (lived e i (8 + m)).requests, p.locks hash = none := by
    intro p hp
    obtain ⟨j, -, rfl⟩ := List.mem_map.mp hp
    rfl
  have hlive := leads_live hnone (getOrInsertCounter_made ha habsent) (Function.update_self _ _ _)
  have heq : withOverflow e i m = { (({ (lived e i (8 + m)).setShard (shardIdx hash (e (8 + m))) (overflowed e m) with
      count := Function.update (lived e i (8 + m)).count (8 + m) 0
      states := 8 + m + 1 } : PluginLimitConn).add (8 + m) 1) with
      requests := (lived e i (8 + m)).requests ++ [.live [⟨8 + m, limitOf e (8 + m)⟩]] } := by
    unfold withOverflow lived setShard add
    simp only [(hi (8 + m)).1, Function.update_idem]
    congr 1
    funext state
    by_cases hs : state = 8 + m
    · subst hs
      simp
    · rw [Function.update_of_ne hs]
      by_cases hl : state < 8 + m
      · rw [if_pos (by omega), if_pos hl]
      · rw [if_neg (by omega), if_neg hl]
  rw [heq]
  exact hlive

omit he hi in
/-- A live request with one guard is logged and gives it back. -/
theorem leads_free {r : Nat} {g : ConnGuard} (hr : s.requests[r]? = some (.live [g])) :
    Leads config hash s ((s.add g.state (-1)).setRequest r (.releasing [])) := by
  have hlog : Leads config hash s (s.setRequest r (.releasing [g])) := .step (a := .log r) (by simp only [act, hr])
  refine hlog.trans ?_
  refine .step (a := .release r) ?_
  have hr' : (s.setRequest r (.releasing [g])).requests[r]? = some (.releasing [g]) := by
    rw [getElem?_setRequest hr, if_pos rfl]
  simp only [act, hr']
  rw [Option.some.injEq]
  exact setRequest_setRequest (s := s.add g.state (-1)) r _ _

omit he hi in
theorem pushedBack_eq (k : Nat) : pushedBack e (2 + (6 + k)) = e 8 :: e 9 ::
    ((List.range 6).map (fun j => e (10 + j)) ++
      (((List.range k).map fun j => e (16 + j)) ++ (List.range 8).map e)) := by
  unfold pushedBack
  rw [List.range_add, List.map_append, List.map_map, List.range_add, List.map_append, List.map_map]
  have h6 : ((fun j => e (8 + j)) ∘ fun x => 2 + x) = fun j => e (10 + j) := by
    funext j
    simp only [Function.comp]
    congr 1
    omega
  have hk : ((fun j => e (10 + j)) ∘ fun x => 6 + x) = fun j => e (16 + j) := by
    funext j
    simp only [Function.comp]
    congr 1
    omega
  rw [h6, hk, List.append_assoc, List.append_assoc]
  rfl

omit hi in
theorem nodup_pushedBack (m : Nat) : (pushedBack e m).Nodup := by
  have h : ((List.range (8 + m)).map e).Nodup := List.nodup_range.map he
  rw [List.range_add, List.map_append, List.map_map] at h
  exact List.nodup_append_comm.mp h

omit he in
theorem overflow_not_mem_pushedBack (m : Nat) : limitConnOverflow ∉ pushedBack e m := by
  intro h
  rcases List.mem_append.mp h with h | h
  · obtain ⟨j, -, hj⟩ := List.mem_map.mp h
    exact (hi _).2 hj
  · obtain ⟨j, -, hj⟩ := List.mem_map.mp h
    exact (hi _).2 hj

theorem lookup_overflowed (m j : Nat) :
    (overflowed e m).entries.lookup (e j) = if j < 8 + m then some j else none := by
  have h : (overflowed e m).entries.lookup (e j) =
      if e j = limitConnOverflow then some (8 + m) else (Shard.filled e id (8 + m)).entries.lookup (e j) :=
    HashMap.lookup_insert _ _ _ _
  rw [h, if_neg (hi j).2, Shard.lookup_filled he]
  rfl

theorem len_overflowed (m : Nat) : (overflowed e m).len = 8 + m + 1 := by
  have habsent : (({ entries := (Shard.filled e id (8 + m)).entries, touchOrder := ⟨pushedBack e m⟩ } :
      Shard Nat).touch limitConnOverflow).entries.lookup limitConnOverflow = none :=
    Shard.lookup_filled_other (fun n => (hi n).2) (8 + m)
  unfold overflowed
  rw [Shard.len_insert_absent habsent, Shard.len_touch]
  change (Shard.filled e id (8 + m)).len + 1 = _
  rw [Shard.len_filled he]

/-- The two oldest requests are over. -/
def freed (e : Nat → String) (i m : Nat) : PluginLimitConn :=
  ((((withOverflow e i m).add 8 (-1)).setRequest 8 (.releasing [])).add 9 (-1)).setRequest 9 (.releasing [])

omit he hi in
theorem requests_withOverflow {m j : Nat} (hj : j < 8 + m + 1) :
    (withOverflow e i m).requests[j]? = some (.live [⟨j, limitOf e j⟩]) := by
  unfold withOverflow lived
  by_cases h : j = 8 + m
  · subst h
    simp
  · have hl : j < 8 + m := by omega
    simp [List.getElem?_append, hl]

theorem leads_freed {k : Nat} (hk : perShardRegularMax = 8 + (2 + (6 + k))) :
    Leads oneEach hash {} (freed e i (2 + (6 + k))) := by
  refine (leads_overflowed he hi hk).trans ?_
  have h8 : (withOverflow e i (2 + (6 + k))).requests[8]? = some (.live [⟨8, limitOf e 8⟩]) :=
    requests_withOverflow (by omega)
  have h9 : (((withOverflow e i (2 + (6 + k))).add 8 (-1)).setRequest 8 (.releasing [])).requests[9]? =
      some (.live [⟨9, limitOf e 9⟩]) := by
    rw [getElem?_setRequest (s := (withOverflow e i (2 + (6 + k))).add 8 (-1)) h8, if_neg (by decide)]
    exact requests_withOverflow (by omega)
  exact (leads_free h8).trans (leads_free h9)

omit he hi in
theorem count_freed {m : Nat} (j : Nat) (hj : j < 8 + m + 1) :
    (freed e i m).count j = if j = 8 ∨ j = 9 then 0 else 1 := by
  change Function.update (Function.update (withOverflow e i m).count 8 ((withOverflow e i m).count 8 + -1)) 9
    (Function.update (withOverflow e i m).count 8 ((withOverflow e i m).count 8 + -1) 9 + -1) j = _
  unfold withOverflow
  by_cases h9 : j = 9
  · subst h9
    have hm : 9 < 8 + m + 1 := by omega
    rw [Function.update_self, Function.update_of_ne (by decide), if_pos (.inr rfl)]
    change (if 9 < 8 + m + 1 then (1 : Int) else 0) + -1 = 0
    rw [if_pos hm]
    rfl
  · rw [Function.update_of_ne h9]
    by_cases h8 : j = 8
    · subst h8
      simp [hj]
    · rw [Function.update_of_ne h8]
      simp [h8, h9, hj]

/-- The next request of the overflowed key gets an entry of its own. -/
theorem leads_returned {k : Nat} (hk : perShardRegularMax = 8 + (2 + (6 + k))) :
    ∃ s, Leads oneEach hash {} s ∧ s.requests = (freed e i (2 + (6 + k))).requests ++
      [.live [⟨8 + (2 + (6 + k)) + 1, limitOf e (8 + (2 + (6 + k)))⟩]] := by
  generalize hm : 2 + (6 + k) = m at *
  have hc : (freed e i m).counters (shardIdx hash (e (8 + m))) = overflowed e m := by
    rw [(hi (8 + m)).1]
    exact Function.update_self i _ (fun _ : Nat => ({} : Shard Nat))
  have hlookup := lookup_overflowed he hi m
  have hgone : ∀ j, j = 8 ∨ j = 9 →
      ((overflowed e m).entries.lookup (e j)).all (fun state => Decidable.decide ((freed e i m).count state = 0)) =
        true := by
    intro j hj
    have hlt : j < 8 + m := by omega
    rw [hlookup, if_pos hlt]
    simp [count_freed (e := e) (i := i) j (show j < 8 + m + 1 by omega), hj]
  have hne : ∀ {a b : Nat}, a ≠ b → e a ≠ e b := fun h h' => h (he h')
  have horder : (overflowed e m).touchOrder.oldest = e 8 :: e 9 :: ((List.range 6).map (fun j => e (10 + j)) ++
      (((List.range k).map fun j => e (16 + j)) ++ (List.range 8).map e ++ [limitConnOverflow])) := by
    change (pushedBack e m).erase limitConnOverflow ++ [limitConnOverflow] = _
    rw [List.erase_of_not_mem (overflow_not_mem_pushedBack hi m), ← hm, pushedBack_eq]
    simp only [List.cons_append, List.append_assoc]
  generalize htail : (((List.range k).map fun j => e (16 + j)) ++ (List.range 8).map e ++ [limitConnOverflow]) = tail
    at horder
  have hnodup : ((List.range 6).map (fun j => e (10 + j)) ++ tail).Nodup := by
    have h : (overflowed e m).touchOrder.oldest.Nodup := by
      change ((pushedBack e m).erase limitConnOverflow ++ [limitConnOverflow]).Nodup
      rw [List.erase_of_not_mem (overflow_not_mem_pushedBack hi m)]
      exact List.nodup_append_comm.mp
        (List.nodup_cons.mpr ⟨overflow_not_mem_pushedBack hi m, nodup_pushedBack he m⟩)
    rw [horder] at h
    exact (List.nodup_cons.mp (List.nodup_cons.mp h).2).2
  have hsweep : (overflowed e m).sweep (fun state => (freed e i m).count state = 0) .pushBack =
      { entries := ((overflowed e m).entries.erase (e 8)).erase (e 9)
        touchOrder := ⟨tail ++ (List.range 6).map fun j => e (10 + j)⟩ } := by
    unfold Shard.sweep cleanupBudget
    rw [Shard.sweepUpTo_evict horder (hgone 8 (.inl rfl)) 7]
    rw [Shard.sweepUpTo_evict rfl (by
      rw [HashMap.lookup_erase, if_neg (hne (by decide))]
      exact hgone 9 (.inr rfl)) 6]
    refine Shard.sweepUpTo_pushBack ((List.range 6).map fun j => e (10 + j)) tail _ rfl hnodup ?_
    intro key hkey
    obtain ⟨j, hj, rfl⟩ := List.mem_map.mp hkey
    have hj := List.mem_range.mp hj
    rw [HashMap.lookup_erase, if_neg (hne (by omega)), HashMap.lookup_erase, if_neg (hne (by omega)), hlookup,
      if_pos (by omega)]
    have h1 : ¬ (10 + j = 8 ∨ 10 + j = 9) := by omega
    simp [count_freed (e := e) (i := i) (10 + j) (show 10 + j < 8 + m + 1 by omega), h1]
  have hfull : perShardRegularMax ≤ (overflowed e m).len := by
    rw [len_overflowed he hi]
    omega
  have hnew : (overflowed e m).containsKey (e (8 + m)) = false := by
    rw [Shard.containsKey_eq_false, hlookup, if_neg (lt_irrefl _)]
  generalize hs : ({ entries := ((overflowed e m).entries.erase (e 8)).erase (e 9)
                     touchOrder := ⟨tail ++ (List.range 6).map fun j => e (10 + j)⟩ } : Shard Nat) = swept at hsweep
  have hlen : swept.len < perShardRegularMax := by
    have h8 : ((overflowed e m).remove (e 8)).len + 1 = (overflowed e m).len := by
      refine Shard.len_remove_present (w := 8) ?_
      rw [hlookup, if_pos (by omega)]
    have h9 : (((overflowed e m).remove (e 8)).remove (e 9)).len + 1 = ((overflowed e m).remove (e 8)).len := by
      refine Shard.len_remove_present (w := 9) ?_
      unfold Shard.remove
      rw [HashMap.lookup_erase, if_neg (hne (by decide)), hlookup, if_pos (by omega)]
    have heq : swept.len = (((overflowed e m).remove (e 8)).remove (e 9)).len := by
      rw [← hs]
      rfl
    have := len_overflowed he hi m
    omega
  have ha : Shard.admitKey (e (8 + m)) limitConnOverflow
      (Shard.sweep (fun state => (freed e i m).count state = 0) .pushBack)
      ((freed e i m).counters (shardIdx hash (e (8 + m)))) = (e (8 + m), swept.touch (e (8 + m))) := by
    rw [hc]
    simp only [Shard.admitKey, hnew, Shard.isFullFor, hfull, Bool.not_false, decide_true, Bool.and_true, if_true, hsweep,
      Shard.storageKey, hlen, Bool.or_true]
  have habsent : (swept.touch (e (8 + m))).entries.lookup (e (8 + m)) = none := by
    rw [Shard.entries_touch, ← hs, HashMap.lookup_erase, if_neg (hne (by omega)), HashMap.lookup_erase,
      if_neg (hne (by omega)), hlookup, if_neg (lt_irrefl _)]
  have hnone : ∀ p ∈ (freed e i m).requests, p.locks hash = none := by
    intro p hp
    rcases mem_setRequest hp with rfl | hp
    · rfl
    rcases mem_setRequest (s := (withOverflow e i m).add 8 (-1)) hp with rfl | hp
    · rfl
    obtain ⟨j, hj⟩ := List.getElem?_of_mem hp
    have hlt : j < 8 + m + 1 := by
      have := (List.getElem?_eq_some_iff.mp hj).1
      simpa [withOverflow, lived, add] using this
    rw [show ((withOverflow e i m).add 8 (-1)).requests = (withOverflow e i m).requests from rfl,
      requests_withOverflow hlt, Option.some.injEq] at hj
    rw [← hj]
    rfl
  have hlive := leads_live hnone (getOrInsertCounter_made ha habsent) (Function.update_self _ _ _)
  subst hm
  exact ⟨_, (leads_freed he hi hk).trans hlive, rfl⟩

end

/-- Two live requests of one key on two counters, under a limit of one. -/
theorem key_with_two_counters : ¬ ∃ hash : String → Nat, ∀ (config : PluginConfig) (as : List Action)
    (s : PluginLimitConn), Run (Step config hash) Initial as s → Capped s := by
  intro ⟨hash, hall⟩
  obtain ⟨i, e, he, hi⟩ := exists_keys_of_one_shard hash limitConnOverflow
  obtain ⟨s, ⟨as, run⟩, hs⟩ := leads_returned he hi (k := 239) rfl
  have hcap := (hall oneEach as s run).cap (limitOf e 255)
  have hfirst : (.live [⟨255, limitOf e 255⟩] : Request) ∈ (freed e i (2 + (6 + 239))).requests := by
    refine List.mem_of_getElem? (i := 255) ?_
    change (((withOverflow e i (2 + (6 + 239))).requests.set 8 _).set 9 _)[255]? = _
    rw [List.getElem?_set_ne (by decide), List.getElem?_set_ne (by decide)]
    exact requests_withOverflow (by decide)
  have hone : 0 < (freed e i (2 + (6 + 239))).requests.countP (·.liveUnder (limitOf e 255)) :=
    List.countP_pos_iff.mpr ⟨_, hfirst, by simp [Request.liveUnder, Request.liveGuards]⟩
  have htwo : [Request.live [⟨8 + (2 + (6 + 239)) + 1, limitOf e (8 + (2 + (6 + 239)))⟩]].countP
      (·.liveUnder (limitOf e 255)) = 1 := by
    simp [Request.liveUnder, Request.liveGuards]
  rw [hs, List.countP_append, htwo] at hcap
  have hlimit : (limitOf e 255).conn + (limitOf e 255).burst = 1 := rfl
  omega

end PluginLimitConn

end LimitConn

end Pingsix
