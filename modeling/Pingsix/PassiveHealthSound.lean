import Mathlib.Data.List.Induction
import Pingsix.PassiveHealth

/-!
# Soundness of the passive health checks

The counters of a backend are streaks of its outcomes: the failures of one
category since anything else that counts, and the healthy statuses since the
last failure. A backend trips and recovers where a streak completes.
-/

namespace Pingsix

inductive PassiveCategory where
  | http
  | tcp
  | timeout
  deriving DecidableEq, Repr

/-- What an outcome counts as. -/
inductive PassiveSignal where
  | failure (category : PassiveCategory)
  | healthy
  | ignored
  deriving DecidableEq, Repr

def signal (config : PassiveCheck) : PassiveOutcome → PassiveSignal
  | .tcpFailure => .failure .tcp
  | .timeout => .failure .timeout
  | .http status =>
    if config.unhealthy.httpStatuses.contains status then .failure .http
    else if config.healthy.httpStatuses.contains status then .healthy
    else .ignored

def PassiveCheck.threshold (config : PassiveCheck) : PassiveCategory → Nat
  | .http => config.unhealthy.httpFailures
  | .tcp => config.unhealthy.tcpFailures
  | .timeout => config.unhealthy.timeouts

def PassiveCounters.count (node : PassiveCounters) : PassiveCategory → Nat
  | .http => node.httpFailures
  | .tcp => node.tcpFailures
  | .timeout => node.timeouts

variable {config : PassiveCheck}

/-! ## One outcome -/

theorem observe_http (node : PassiveCounters) (status : Nat) :
    node.observe config (.http status) = { node.observeHttp config status with probeLease := none } := rfl

theorem observe_failure {node : PassiveCounters} {outcome : PassiveOutcome} {c : PassiveCategory}
    (h : signal config outcome = .failure c) :
    (∀ d, (node.observe config outcome).count d = if d = c then node.count c + 1 else 0) ∧
      (node.observe config outcome).successes = 0 ∧
      (node.observe config outcome).tripped =
        (node.tripped || PassiveCounters.reached (config.threshold c) (node.count c + 1)) := by
  cases outcome with
  | tcpFailure =>
    cases h
    exact ⟨fun d => by cases d <;> rfl, rfl, rfl⟩
  | timeout =>
    cases h
    exact ⟨fun d => by cases d <;> rfl, rfl, rfl⟩
  | http status =>
    simp only [signal] at h
    rw [observe_http, PassiveCounters.observeHttp]
    split at h
    · rename_i hs
      cases h
      rw [if_pos hs]
      exact ⟨fun d => by cases d <;> rfl, rfl, rfl⟩
    · split at h <;> cases h

theorem observe_healthy {node : PassiveCounters} {outcome : PassiveOutcome} (h : signal config outcome = .healthy) :
    (∀ d, (node.observe config outcome).count d = 0) ∧
      (node.observe config outcome).tripped =
        (node.tripped && !PassiveCounters.reached config.healthy.successes (node.successes + 1)) ∧
      (node.observe config outcome).successes =
        if node.tripped then
          if PassiveCounters.reached config.healthy.successes (node.successes + 1) then 0 else node.successes + 1
        else node.successes := by
  cases outcome with
  | tcpFailure => cases h
  | timeout => cases h
  | http status =>
    simp only [signal] at h
    rw [observe_http, PassiveCounters.observeHttp]
    split at h
    · cases h
    · rename_i hs
      split at h
      · rename_i hh
        rw [if_neg hs, if_pos hh]
        cases ht : node.tripped with
        | false => exact ⟨fun d => by cases d <;> simp [PassiveCounters.count], by simp, by simp⟩
        | true =>
          cases hr : PassiveCounters.reached config.healthy.successes (node.successes + 1) with
          | false => exact ⟨fun d => by cases d <;> simp [hr, PassiveCounters.count], by simp [hr], by simp [hr]⟩
          | true => exact ⟨fun d => by cases d <;> simp [hr, PassiveCounters.count], by simp [hr], by simp [hr]⟩
      · cases h

theorem observe_ignored {node : PassiveCounters} {outcome : PassiveOutcome} (h : signal config outcome = .ignored) :
    node.observe config outcome = { node with probeLease := none } := by
  cases outcome with
  | tcpFailure => cases h
  | timeout => cases h
  | http status =>
    simp only [signal] at h
    rw [observe_http, PassiveCounters.observeHttp]
    split at h
    · cases h
    · rename_i hs
      split at h
      · cases h
      · rename_i hh
        rw [if_neg hs, if_neg hh]

/-! ## Streaks -/

/-- The failures of the category since a healthy status or another failure. -/
def streak (config : PassiveCheck) (c : PassiveCategory) (outcomes : List PassiveOutcome) : Nat :=
  outcomes.foldl
    (fun n outcome =>
      match signal config outcome with
      | .failure d => if d = c then n + 1 else 0
      | .healthy => 0
      | .ignored => n)
    0

/-- The healthy statuses since the last failure. -/
def healthyStreak (config : PassiveCheck) (outcomes : List PassiveOutcome) : Nat :=
  outcomes.foldl
    (fun n outcome =>
      match signal config outcome with
      | .failure _ => 0
      | .healthy => n + 1
      | .ignored => n)
    0

theorem streak_snoc (c : PassiveCategory) (outcomes : List PassiveOutcome) (outcome : PassiveOutcome) :
    streak config c (outcomes ++ [outcome]) =
      match signal config outcome with
      | .failure d => if d = c then streak config c outcomes + 1 else 0
      | .healthy => 0
      | .ignored => streak config c outcomes := by
  unfold streak
  rw [List.foldl_append]
  rfl

theorem healthyStreak_snoc (outcomes : List PassiveOutcome) (outcome : PassiveOutcome) :
    healthyStreak config (outcomes ++ [outcome]) =
      match signal config outcome with
      | .failure _ => 0
      | .healthy => healthyStreak config outcomes + 1
      | .ignored => healthyStreak config outcomes := by
  unfold healthyStreak
  rw [List.foldl_append]
  rfl

/-- The latest outcomes hold the number of failures of the category and nothing else that counts. -/
def EndsWith (config : PassiveCheck) (c : PassiveCategory) (n : Nat) (outcomes : List PassiveOutcome) : Prop :=
  ∃ before recent, outcomes = before ++ recent ∧
    (∀ outcome ∈ recent, signal config outcome = .failure c ∨ signal config outcome = .ignored) ∧
    recent.countP (fun outcome => signal config outcome = .failure c) = n

/-- The latest outcomes are the number of healthy statuses since a failure, and nothing else that counts. -/
def HealthySince (config : PassiveCheck) (n : Nat) (outcomes : List PassiveOutcome) : Prop :=
  ∃ before failed recent c, outcomes = before ++ failed :: recent ∧ signal config failed = .failure c ∧
    (∀ outcome ∈ recent, signal config outcome = .healthy ∨ signal config outcome = .ignored) ∧
    recent.countP (fun outcome => signal config outcome = .healthy) = n

theorem endsWith_iff {c : PassiveCategory} {outcomes : List PassiveOutcome} {n : Nat} :
    EndsWith config c n outcomes ↔ n ≤ streak config c outcomes := by
  induction outcomes using List.reverseRecOn generalizing n with
  | nil =>
    constructor
    · rintro ⟨before, recent, he, -, hn⟩
      obtain ⟨-, rfl⟩ := List.append_eq_nil_iff.mp he.symm
      exact hn ▸ Nat.le_refl _
    · intro h
      exact ⟨[], [], rfl, by simp, (Nat.le_zero.mp h).symm⟩
  | append_singleton outcomes outcome ih =>
    rw [streak_snoc]
    constructor
    · rintro ⟨before, recent, he, hr, hn⟩
      cases recent using List.reverseRecOn with
      | nil => exact hn ▸ Nat.zero_le _
      | append_singleton recent last =>
        rw [← List.append_assoc] at he
        obtain ⟨rfl, hl⟩ := List.append_inj' he rfl
        cases hl
        rw [List.countP_append] at hn
        have hle := ih.mp ⟨before, recent, rfl, fun o ho => hr o (List.mem_append_left _ ho), rfl⟩
        cases hr outcome (by simp) with
        | inl hs =>
          have hone : [outcome].countP (fun o => signal config o = .failure c) = 1 := by simp [hs]
          simp only [hs, if_true]
          rw [← hn, hone]
          exact Nat.succ_le_succ hle
        | inr hs =>
          have hzero : [outcome].countP (fun o => signal config o = .failure c) = 0 := by simp [hs]
          simp only [hs]
          rw [← hn, hzero]
          exact hle
    · intro h
      cases hs : signal config outcome with
      | healthy =>
        rw [hs] at h
        exact ⟨outcomes ++ [outcome], [], by simp, by simp, (Nat.le_zero.mp h).symm⟩
      | ignored =>
        rw [hs] at h
        obtain ⟨before, recent, he, hr, hn⟩ := ih.mpr h
        refine ⟨before, recent ++ [outcome], by rw [he, List.append_assoc], fun o ho => ?_, ?_⟩
        · cases List.mem_append.mp ho with
          | inl ho => exact hr o ho
          | inr ho => exact .inr (by rw [List.mem_singleton.mp ho, hs])
        · rw [List.countP_append, hn]
          simp [hs]
      | failure d =>
        rw [hs] at h
        by_cases hd : d = c
        · subst hd
          simp only [if_true] at h
          cases n with
          | zero => exact ⟨outcomes ++ [outcome], [], by simp, by simp, rfl⟩
          | succ n =>
            obtain ⟨before, recent, he, hr, hn⟩ := ih.mpr (Nat.le_of_succ_le_succ h)
            refine ⟨before, recent ++ [outcome], by rw [he, List.append_assoc], fun o ho => ?_, ?_⟩
            · cases List.mem_append.mp ho with
              | inl ho => exact hr o ho
              | inr ho => exact .inl (by rw [List.mem_singleton.mp ho, hs])
            · rw [List.countP_append, hn]
              simp [hs]
        · simp only [if_neg hd] at h
          exact ⟨outcomes ++ [outcome], [], by simp, by simp, (Nat.le_zero.mp h).symm⟩

theorem healthyStreak_eq {before : List PassiveOutcome} {failed : PassiveOutcome} {c : PassiveCategory}
    (hf : signal config failed = .failure c) : ∀ {recent : List PassiveOutcome},
      (∀ outcome ∈ recent, signal config outcome = .healthy ∨ signal config outcome = .ignored) →
        healthyStreak config (before ++ failed :: recent) =
          recent.countP fun outcome => signal config outcome = .healthy := by
  intro recent
  induction recent using List.reverseRecOn with
  | nil =>
    intro _
    rw [healthyStreak_snoc, hf]
    rfl
  | append_singleton recent last ih =>
    intro hr
    rw [← List.cons_append, ← List.append_assoc, healthyStreak_snoc, List.countP_append,
      ih fun outcome ho => hr outcome (List.mem_append_left _ ho)]
    cases hr last (by simp) with
    | inl hs => simp [hs]
    | inr hs => simp [hs]

/-- The last failure, with what follows it. -/
theorem exists_last_failure {outcomes : List PassiveOutcome}
    (hf : ∃ outcome ∈ outcomes, ∃ c, signal config outcome = .failure c) :
    ∃ before failed recent c, outcomes = before ++ failed :: recent ∧ signal config failed = .failure c ∧
      ∀ outcome ∈ recent, signal config outcome = .healthy ∨ signal config outcome = .ignored := by
  induction outcomes using List.reverseRecOn with
  | nil =>
    obtain ⟨outcome, ho, -⟩ := hf
    cases ho
  | append_singleton outcomes last ih =>
    have extend (hl : signal config last = .healthy ∨ signal config last = .ignored)
        (hf : ∃ outcome ∈ outcomes, ∃ c, signal config outcome = .failure c) :
        ∃ before failed recent c, outcomes ++ [last] = before ++ failed :: recent ∧ signal config failed = .failure c ∧
          ∀ outcome ∈ recent, signal config outcome = .healthy ∨ signal config outcome = .ignored := by
      obtain ⟨before, failed, recent, c, rfl, hc, hr⟩ := ih hf
      refine ⟨before, failed, recent ++ [last], c, by simp, hc, fun outcome ho => ?_⟩
      cases List.mem_append.mp ho with
      | inl ho => exact hr outcome ho
      | inr ho => rwa [List.mem_singleton.mp ho]
    have earlier (hn : ∀ c, signal config last ≠ .failure c) :
        ∃ outcome ∈ outcomes, ∃ c, signal config outcome = .failure c := by
      obtain ⟨outcome, ho, c, hc⟩ := hf
      cases List.mem_append.mp ho with
      | inl ho => exact ⟨outcome, ho, c, hc⟩
      | inr ho => exact absurd (List.mem_singleton.mp ho ▸ hc) (hn c)
    cases hs : signal config last with
    | failure c => exact ⟨outcomes, last, [], c, rfl, hs, by simp⟩
    | healthy => exact extend (.inl hs) (earlier fun c => by rw [hs]; exact PassiveSignal.noConfusion)
    | ignored => exact extend (.inr hs) (earlier fun c => by rw [hs]; exact PassiveSignal.noConfusion)

/-- After a failure, the healthy statuses since the last one are the streak. -/
theorem healthySince_iff {outcomes : List PassiveOutcome} {n : Nat}
    (hf : ∃ outcome ∈ outcomes, ∃ c, signal config outcome = .failure c) :
    HealthySince config n outcomes ↔ healthyStreak config outcomes = n := by
  constructor
  · rintro ⟨before, failed, recent, c, rfl, hc, hr, hn⟩
    rw [healthyStreak_eq hc hr, hn]
  · intro h
    obtain ⟨before, failed, recent, c, rfl, hc, hr⟩ := exists_last_failure hf
    exact ⟨before, failed, recent, c, rfl, hc, hr, by rw [← healthyStreak_eq hc hr, h]⟩

/-! ## The counters of a backend -/

/-- The counters are the streaks of the outcomes, and none of them has come to its threshold unnoticed. -/
structure Tracks (config : PassiveCheck) (outcomes : List PassiveOutcome) (node : PassiveCounters) : Prop where
  count : ∀ c, node.count c = streak config c outcomes
  untripped : node.tripped = false → node.successes = 0 ∧ ∀ c, 0 < config.threshold c → node.count c < config.threshold c
  tripped : node.tripped = true → node.successes = healthyStreak config outcomes ∧
    (∃ outcome ∈ outcomes, ∃ c, signal config outcome = .failure c) ∧
    (0 < config.healthy.successes → node.successes < config.healthy.successes)

theorem reached_iff {threshold count : Nat} :
    PassiveCounters.reached threshold count = true ↔ 0 < threshold ∧ threshold ≤ count := by
  simp [PassiveCounters.reached]

theorem Tracks.start : Tracks config [] {} where
  count c := by cases c <;> rfl
  untripped _ := ⟨rfl, fun c hc => by cases c <;> exact hc⟩
  tripped h := by cases h

/-- The counters but for the lease. -/
theorem Tracks.congr {outcomes : List PassiveOutcome} {node node' : PassiveCounters} (h : Tracks config outcomes node)
    (hc : ∀ c, node'.count c = node.count c) (hs : node'.successes = node.successes)
    (ht : node'.tripped = node.tripped) : Tracks config outcomes node' where
  count c := (hc c).trans (h.count c)
  untripped hu := by
    obtain ⟨h1, h2⟩ := h.untripped (ht ▸ hu)
    exact ⟨hs.trans h1, fun c hpos => (hc c).symm ▸ h2 c hpos⟩
  tripped hu := by
    obtain ⟨h1, h2, h3⟩ := h.tripped (ht ▸ hu)
    exact ⟨hs.trans h1, h2, fun hpos => hs.symm ▸ h3 hpos⟩

theorem Tracks.observe {outcomes : List PassiveOutcome} {node : PassiveCounters} (h : Tracks config outcomes node)
    (outcome : PassiveOutcome) : Tracks config (outcomes ++ [outcome]) (node.observe config outcome) := by
  cases hs : signal config outcome with
  | failure c =>
    obtain ⟨hcount, hsucc, htrip⟩ := @observe_failure _ node _ _ hs
    refine ⟨fun d => ?_, fun hu => ⟨hsucc, fun d hd => ?_⟩, fun _ => ⟨?_, ⟨outcome, by simp, c, hs⟩, fun hpos => ?_⟩⟩
    · rw [hcount, streak_snoc, hs]
      by_cases hd : d = c
      · simp [hd, h.count c]
      · simp [hd, Ne.symm hd]
    · rw [htrip, Bool.or_eq_false_iff] at hu
      rw [hcount]
      by_cases hdc : d = c
      · subst hdc
        rw [if_pos rfl]
        by_contra hn
        rw [reached_iff.mpr ⟨hd, Nat.le_of_not_lt hn⟩] at hu
        cases hu.2
      · rw [if_neg hdc]
        exact hd
    · rw [hsucc, healthyStreak_snoc, hs]
    · rw [hsucc]
      exact hpos
  | healthy =>
    obtain ⟨hcount, htrip, hsucc⟩ := @observe_healthy _ node _ hs
    refine ⟨fun d => ?_, fun hu => ⟨?_, fun d hd => by rw [hcount]; exact hd⟩, fun ht => ?_⟩
    · rw [hcount, streak_snoc, hs]
    · rw [hsucc]
      cases ht : node.tripped with
      | false => exact (h.untripped ht).1
      | true =>
        rw [htrip, ht, Bool.true_and, Bool.not_eq_false'] at hu
        simp [hu]
    · rw [htrip, Bool.and_eq_true, Bool.not_eq_true'] at ht
      obtain ⟨h1, ⟨failed, hm, hf⟩, -⟩ := h.tripped ht.1
      refine ⟨?_, ⟨failed, List.mem_append_left _ hm, hf⟩, fun hpos => ?_⟩
      · rw [hsucc, ht.1, ht.2, healthyStreak_snoc, hs, h1]
        rfl
      · rw [hsucc, ht.1, ht.2]
        simp only [if_true, Bool.false_eq_true, if_false]
        by_contra hn
        rw [reached_iff.mpr ⟨hpos, Nat.le_of_not_lt hn⟩] at ht
        cases ht.2
  | ignored =>
    rw [observe_ignored hs]
    refine ⟨fun d => ?_, fun hu => h.untripped hu, fun ht => ?_⟩
    · rw [streak_snoc, hs]
      exact h.count d
    · obtain ⟨h1, ⟨failed, hm, hf⟩, h3⟩ := h.tripped ht
      refine ⟨?_, ⟨failed, List.mem_append_left _ hm, hf⟩, h3⟩
      rw [healthyStreak_snoc, hs]
      exact h1

/-! ## The counters of every backend -/

namespace PassiveHealthState

def node (st : PassiveHealthState) (backend : BackendId) : PassiveCounters := (st.counters.lookup backend).getD {}

theorem tripped_eq (st : PassiveHealthState) (backend : BackendId) : st.tripped backend = (st.node backend).tripped := by
  unfold tripped node
  cases st.counters.lookup backend <;> rfl

theorem node_observe (st : PassiveHealthState) (backend b : BackendId) (outcome : PassiveOutcome) :
    (st.observe backend outcome).node b =
      if b = backend then (st.node backend).observe st.config outcome else st.node b := by
  unfold observe node
  simp only [HashMap.lookup_insert]
  split <;> rfl

theorem takeProbe_fst (st : PassiveHealthState) (backend : BackendId) (now : Nat) :
    (st.takeProbe backend now).1 = ((st.node backend).takeProbe now).1 := by
  unfold takeProbe node
  cases st.counters.lookup backend <;> rfl

theorem node_takeProbe (st : PassiveHealthState) (backend b : BackendId) (now : Nat) :
    (st.takeProbe backend now).2.node b =
      if b = backend then ((st.node backend).takeProbe now).2 else st.node b := by
  unfold takeProbe node
  cases h : st.counters.lookup backend with
  | none =>
    by_cases hb : b = backend
    · rw [if_pos hb, hb, h]
      rfl
    · rw [if_neg hb]
  | some node =>
    simp only [HashMap.lookup_insert]
    by_cases hb : b = backend
    · rw [if_pos hb, if_pos hb]
      rfl
    · rw [if_neg hb, if_neg hb]

theorem config_takeProbe (st : PassiveHealthState) (backend : BackendId) (now : Nat) :
    (st.takeProbe backend now).2.config = st.config := by
  unfold takeProbe
  cases st.counters.lookup backend <;> rfl

end PassiveHealthState

theorem takeProbe_eq (node : PassiveCounters) (now : Nat) :
    node.takeProbe now =
      if (node.tripped && node.probeLease.all (· ≤ now)) = true then
        (true, { node with probeLease := some (now + probeLeaseNanos) })
      else (false, node) := rfl

theorem takeProbe_granted {node : PassiveCounters} {now : Nat} (h : (node.takeProbe now).1 = true) :
    node.tripped = true ∧ (∀ lease, node.probeLease = some lease → lease ≤ now) ∧
      (node.takeProbe now).2 = { node with probeLease := some (now + probeLeaseNanos) } := by
  rw [takeProbe_eq] at h ⊢
  by_cases hc : (node.tripped && node.probeLease.all (· ≤ now)) = true
  · rw [if_pos hc]
    rw [Bool.and_eq_true] at hc
    refine ⟨hc.1, fun lease hl => ?_, rfl⟩
    rw [hl] at hc
    exact of_decide_eq_true hc.2
  · rw [if_neg hc] at h
    cases h

theorem takeProbe_refused {node : PassiveCounters} {now : Nat} (h : (node.takeProbe now).1 = false) :
    (node.takeProbe now).2 = node := by
  rw [takeProbe_eq] at h ⊢
  by_cases hc : (node.tripped && node.probeLease.all (· ≤ now)) = true
  · rw [if_pos hc] at h
    cases h
  · rw [if_neg hc]

/-! ## Runs -/

def outcomeOf (backend : BackendId) : PassiveEvent → Option PassiveOutcome
  | .outcome b outcome => if b = backend then some outcome else none
  | .probe _ _ _ => none

/-- The outcomes observed for a backend. -/
def outcomesOf (backend : BackendId) (events : List PassiveEvent) : List PassiveOutcome :=
  events.filterMap (outcomeOf backend)

def probing (backend : BackendId) (granted : Option Nat) : PassiveEvent → Option Nat
  | .outcome b _ => if b = backend then none else granted
  | .probe b now true => if b = backend then some now else granted
  | .probe _ _ false => granted

/-- When the probe of a backend was granted that no outcome has ended yet. -/
def probeOf (backend : BackendId) (events : List PassiveEvent) : Option Nat := events.foldl (probing backend) none

theorem outcomesOf_snoc (backend : BackendId) (events : List PassiveEvent) (event : PassiveEvent) :
    outcomesOf backend (events ++ [event]) = outcomesOf backend events ++ (outcomeOf backend event).toList := by
  unfold outcomesOf
  rw [List.filterMap_append]
  cases h : outcomeOf backend event <;> simp [h]

theorem probeOf_snoc (backend : BackendId) (events : List PassiveEvent) (event : PassiveEvent) :
    probeOf backend (events ++ [event]) = probing backend (probeOf backend events) event := by
  unfold probeOf
  rw [List.foldl_append]
  rfl

/-- A probe stays in flight while nothing is observed for its backend and no other is granted. -/
theorem probing_between {backend : BackendId} {granted : Option Nat} {between : List PassiveEvent}
    (ho : outcomesOf backend between = []) (hp : ∀ now, PassiveEvent.probe backend now true ∉ between) :
    between.foldl (probing backend) granted = granted := by
  induction between with
  | nil => rfl
  | cons event between ih =>
    have hnone : outcomeOf backend event = none := by
      cases h : outcomeOf backend event with
      | none => rfl
      | some outcome => simp [outcomesOf, h] at ho
    have hrest : outcomesOf backend between = [] := by
      unfold outcomesOf at ho ⊢
      rwa [List.filterMap_cons, hnone] at ho
    have hkeep : probing backend granted event = granted := by
      cases event with
      | outcome b outcome =>
        simp only [outcomeOf] at hnone
        split at hnone
        · cases hnone
        · rename_i hb
          exact if_neg hb
      | probe b now g =>
        cases g with
        | false => rfl
        | true =>
          refine if_neg fun hb => hp now ?_
          rw [hb]
          exact List.mem_cons_self
    rw [List.foldl_cons, hkeep]
    exact ih hrest fun now hm => hp now (List.mem_cons_of_mem _ hm)

/-- After a run, the counters of every backend are those of its own outcomes and its lease is that of its probe. -/
structure Accounted (config : PassiveCheck) (events : List PassiveEvent) (st : PassiveHealthState) : Prop where
  configured : st.config = config
  tracks : ∀ backend, Tracks config (outcomesOf backend events) (st.node backend)
  lease : ∀ backend, (st.node backend).probeLease = (probeOf backend events).map (· + probeLeaseNanos)

theorem Accounted.outcome {events : List PassiveEvent} {st : PassiveHealthState} (h : Accounted config events st)
    (backend : BackendId) (outcome : PassiveOutcome) :
    Accounted config (events ++ [.outcome backend outcome]) (st.observe backend outcome) where
  configured := h.configured
  tracks b := by
    rw [outcomesOf_snoc, PassiveHealthState.node_observe, h.configured, outcomeOf]
    by_cases hb : b = backend
    · rw [if_pos hb, if_pos hb.symm, hb]
      exact (h.tracks backend).observe outcome
    · rw [if_neg hb, if_neg (Ne.symm hb), Option.toList_none, List.append_nil]
      exact h.tracks b
  lease b := by
    rw [probeOf_snoc, PassiveHealthState.node_observe, probing]
    by_cases hb : b = backend
    · rw [if_pos hb, if_pos hb.symm]
      rfl
    · rw [if_neg hb, if_neg (Ne.symm hb)]
      exact h.lease b

theorem Accounted.probe {events : List PassiveEvent} {st : PassiveHealthState} (h : Accounted config events st)
    (backend : BackendId) (now : Nat) :
    Accounted config (events ++ [.probe backend now (st.takeProbe backend now).1]) (st.takeProbe backend now).2 := by
  rw [PassiveHealthState.takeProbe_fst]
  refine ⟨by rw [PassiveHealthState.config_takeProbe, h.configured], fun b => ?_, fun b => ?_⟩
  · rw [outcomesOf_snoc, PassiveHealthState.node_takeProbe, outcomeOf, Option.toList_none, List.append_nil]
    by_cases hb : b = backend
    · rw [if_pos hb, hb]
      cases hg : ((st.node backend).takeProbe now).1 with
      | false =>
        rw [takeProbe_refused hg]
        exact h.tracks backend
      | true =>
        rw [(takeProbe_granted hg).2.2]
        exact (h.tracks backend).congr (fun c => by cases c <;> rfl) rfl rfl
    · rw [if_neg hb]
      exact h.tracks b
  · rw [probeOf_snoc, PassiveHealthState.node_takeProbe]
    by_cases hb : b = backend
    · rw [if_pos hb, hb]
      cases hg : ((st.node backend).takeProbe now).1 with
      | false =>
        rw [takeProbe_refused hg]
        exact h.lease backend
      | true =>
        rw [(takeProbe_granted hg).2.2, probing, if_pos rfl]
        rfl
    · rw [if_neg hb, h.lease b]
      cases ((st.node backend).takeProbe now).1 with
      | false => rfl
      | true => rw [probing, if_neg (Ne.symm hb)]

theorem accounted {events : List PassiveEvent} {st : PassiveHealthState}
    (r : Run PassiveStep (PassiveInitial config) events st) : Accounted config events st := by
  apply r.invariant
  · intro st h
    rw [h]
    exact ⟨rfl, fun _ => .start, fun _ => rfl⟩
  · intro events st event st' _ ih hstep
    cases hstep with
    | outcome backend outcome => exact ih.outcome backend outcome
    | probe backend now => exact ih.probe backend now

theorem Accounted.trips_iff {events : List PassiveEvent} {st : PassiveHealthState} (h : Accounted config events st)
    {backend : BackendId} (hu : st.tripped backend = false) (outcome : PassiveOutcome) :
    (st.observe backend outcome).tripped backend = true ↔
      ∃ c, 0 < config.threshold c ∧ EndsWith config c (config.threshold c) (outcomesOf backend events ++ [outcome]) := by
  have htracks := h.tracks backend
  rw [PassiveHealthState.tripped_eq] at hu
  rw [PassiveHealthState.tripped_eq, PassiveHealthState.node_observe, if_pos rfl, h.configured]
  obtain ⟨-, hbelow⟩ := htracks.untripped hu
  constructor
  · intro ht
    cases hs : signal config outcome with
    | failure c =>
      obtain ⟨-, -, htrip⟩ := @observe_failure _ (st.node backend) _ _ hs
      rw [htrip, hu, Bool.false_or, reached_iff] at ht
      refine ⟨c, ht.1, endsWith_iff.mpr ?_⟩
      rw [streak_snoc, hs, ← htracks.count c]
      simpa using ht.2
    | healthy =>
      rw [(observe_healthy hs).2.1, hu] at ht
      cases ht
    | ignored =>
      rw [observe_ignored hs] at ht
      rw [show (st.node backend).tripped = true from ht] at hu
      cases hu
  · rintro ⟨c, hpos, hends⟩
    rw [endsWith_iff, streak_snoc] at hends
    cases hs : signal config outcome with
    | failure d =>
      rw [hs] at hends
      by_cases hd : d = c
      · simp only [if_pos hd] at hends
        rw [(observe_failure hs).2.2, hd, reached_iff.mpr ⟨hpos, (htracks.count c).symm ▸ hends⟩, Bool.or_true]
      · simp only [if_neg hd] at hends
        exact absurd hpos (Nat.not_lt.mpr hends)
    | healthy =>
      rw [hs] at hends
      exact absurd hpos (Nat.not_lt.mpr hends)
    | ignored =>
      rw [hs] at hends
      have hlt := hbelow c hpos
      rw [htracks.count c] at hlt
      exact absurd hlt (Nat.not_lt.mpr hends)

theorem Accounted.recovers_iff {events : List PassiveEvent} {st : PassiveHealthState} (h : Accounted config events st)
    {backend : BackendId} (ht : st.tripped backend = true) (outcome : PassiveOutcome) :
    (st.observe backend outcome).tripped backend = false ↔
      0 < config.healthy.successes ∧
        HealthySince config config.healthy.successes (outcomesOf backend events ++ [outcome]) := by
  have htracks := h.tracks backend
  rw [PassiveHealthState.tripped_eq] at ht
  rw [PassiveHealthState.tripped_eq, PassiveHealthState.node_observe, if_pos rfl, h.configured]
  obtain ⟨hsucc, ⟨failed, hm, hf⟩, hbelow⟩ := htracks.tripped ht
  rw [healthySince_iff ⟨failed, List.mem_append_left _ hm, hf⟩, healthyStreak_snoc, ← hsucc]
  cases hs : signal config outcome with
  | failure c =>
    rw [(observe_failure hs).2.2, ht, Bool.true_or]
    constructor
    · intro hfalse
      cases hfalse
    · rintro ⟨hpos, hzero⟩
      exact absurd hpos (Nat.not_lt.mpr (Nat.le_of_eq hzero.symm))
  | healthy =>
    rw [(observe_healthy hs).2.1, ht, Bool.true_and, Bool.not_eq_false', reached_iff]
    constructor
    · rintro ⟨hpos, hle⟩
      exact ⟨hpos, Nat.le_antisymm (hbelow hpos) hle⟩
    · rintro ⟨hpos, heq⟩
      exact ⟨hpos, Nat.le_of_eq heq.symm⟩
  | ignored =>
    rw [observe_ignored hs]
    constructor
    · intro hfalse
      rw [show (st.node backend).tripped = false from hfalse] at ht
      cases ht
    · rintro ⟨hpos, heq⟩
      exact absurd (hbelow hpos) (Nat.not_lt.mpr (Nat.le_of_eq heq.symm))

/-- Only an outcome of its own changes whether a backend is tripped. -/
theorem tripped_step {st st' : PassiveHealthState} {event : PassiveEvent} (h : PassiveStep st event st')
    {backend : BackendId} (ho : outcomeOf backend event = none) : st'.tripped backend = st.tripped backend := by
  rw [PassiveHealthState.tripped_eq, PassiveHealthState.tripped_eq]
  cases h with
  | outcome b outcome =>
    rw [PassiveHealthState.node_observe]
    refine congrArg _ (if_neg fun hb => ?_)
    rw [outcomeOf, if_pos hb.symm] at ho
    cases ho
  | probe b now =>
    rw [PassiveHealthState.node_takeProbe]
    by_cases hb : backend = b
    · rw [if_pos hb, hb]
      cases hg : ((st.node b).takeProbe now).1 with
      | false => rw [takeProbe_refused hg]
      | true => rw [(takeProbe_granted hg).2.2]
    · rw [if_neg hb]

theorem Accounted.probes_apart {before between : List PassiveEvent} {backend : BackendId} {granted again : Nat}
    {st : PassiveHealthState}
    (h : Accounted config (before ++ .probe backend granted true :: between) st)
    (hp : ∀ now, PassiveEvent.probe backend now true ∉ between) (hg : (st.takeProbe backend again).1 = true) :
    outcomesOf backend between ≠ [] ∨ granted + probeLeaseNanos ≤ again := by
  by_cases ho : outcomesOf backend between = []
  · right
    rw [PassiveHealthState.takeProbe_fst] at hg
    refine (takeProbe_granted hg).2.1 _ ?_
    rw [h.lease backend, probeOf, List.foldl_append, List.foldl_cons, probing, if_pos rfl, probing_between ho hp]
    rfl
  · exact .inl ho

/-! ## Selection -/

/-- When some ready backend offered is not tripped, one such is selected and no probe is taken. -/
theorem selectWithPassive_regular {ready : Backend → Bool} {offers : Offers} {now : Nat} {st : PassiveHealthState}
    (h : ∃ c ∈ offers.regular, ready c = true ∧ st.tripped c.id = false) :
    ∃ c ∈ offers.regular, ready c = true ∧ st.tripped c.id = false ∧
      selectWithPassive ready offers now (some st) = (some c, some st) := by
  unfold selectWithPassive
  simp only [Option.all_some]
  cases hf : offers.regular.find? fun backend => ready backend && !st.tripped backend.id with
  | none =>
    obtain ⟨c, hc, hr, ht⟩ := h
    have hno := List.find?_eq_none.mp hf c hc
    rw [hr, ht] at hno
    exact absurd rfl hno
  | some c =>
    have hc := List.find?_some hf
    rw [Bool.and_eq_true, Bool.not_eq_true'] at hc
    exact ⟨c, List.mem_of_find?_eq_some hf, hc.1, hc.2, rfl⟩

/-! ## The state machine -/

/-- A backend trips where a streak of failures completes and recovers where a streak of healthy statuses does, its
probes are a lease apart unless an outcome came between, and traffic reaches it only when no other is left. -/
theorem passive_health_machine {config : PassiveCheck} {events : List PassiveEvent} {st : PassiveHealthState}
    (r : Run PassiveStep (PassiveInitial config) events st) (backend : BackendId) :
    (st.tripped backend = false → ∀ outcome, (st.observe backend outcome).tripped backend = true ↔
      ∃ c, 0 < config.threshold c ∧ EndsWith config c (config.threshold c) (outcomesOf backend events ++ [outcome])) ∧
    (st.tripped backend = true → ∀ outcome, (st.observe backend outcome).tripped backend = false ↔
      0 < config.healthy.successes ∧
        HealthySince config config.healthy.successes (outcomesOf backend events ++ [outcome])) ∧
    (∀ event st', PassiveStep st event st' → outcomeOf backend event = none →
      st'.tripped backend = st.tripped backend) ∧
    (∀ outcome, signal config outcome = .ignored →
      (st.observe backend outcome).node backend = { st.node backend with probeLease := none }) ∧
    (∀ before between granted again, events = before ++ .probe backend granted true :: between →
      (∀ now, PassiveEvent.probe backend now true ∉ between) → (st.takeProbe backend again).1 = true →
        outcomesOf backend between ≠ [] ∨ granted + probeLeaseNanos ≤ again) ∧
    ∀ ready offers now selected, (selectWithPassive ready offers now (some st)).1 = some selected →
      st.tripped selected.id = true → ∀ c ∈ offers.regular, ready c = true → st.tripped c.id = true := by
  have h := accounted r
  refine ⟨fun hu => h.trips_iff hu, fun ht => h.recovers_iff ht, fun event st' hs ho => tripped_step hs ho, ?_, ?_, ?_⟩
  · intro outcome hs
    rw [PassiveHealthState.node_observe, if_pos rfl, h.configured, observe_ignored hs]
  · rintro before between granted again rfl hp hg
    exact h.probes_apart hp hg
  · intro ready offers now selected hsel ht c hc hr
    by_contra hn
    obtain ⟨d, -, -, hd, heq⟩ := @selectWithPassive_regular ready offers now st
      ⟨c, hc, hr, Bool.eq_false_of_not_eq_true hn⟩
    rw [heq] at hsel
    cases hsel
    rw [hd] at ht
    cases ht

def refusing : BackendId := ⟨⟨.v4 [10, 0, 0, 1], 80⟩, 1⟩

def refusedOnce : PassiveHealthState := ({ config := {} } : PassiveHealthState).observe refusing .tcpFailure

theorem passive_health_machine_refusedTwice : (refusedOnce.observe refusing .tcpFailure).tripped refusing = true :=
  ((@passive_health_machine {} _ refusedOnce (.snoc (.start rfl) (.outcome refusing .tcpFailure)) refusing).1 rfl
    .tcpFailure).mpr ⟨.tcp, by decide, [], [.tcpFailure, .tcpFailure], rfl, by decide, rfl⟩

end Pingsix
