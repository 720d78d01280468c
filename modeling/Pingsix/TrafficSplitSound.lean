import Pingsix.Lib.Except
import Pingsix.TrafficSplit

/-!
# The two readings of a traffic-split configuration

The inline upstreams the typed configuration declares, and exactly when the raw
extraction finds the same ones.
-/

namespace Pingsix.TrafficSplit

/-- The typed reading: each target's inline upstream under its occurrence. -/
def targetUpstreams (owner : TrafficSplitOwner) (rule : Nat) :
    Nat → List WeightedUpstream → List (UpstreamOccurrence × Upstream)
  | _, [] => []
  | target, w :: rest =>
    (w.upstream.map fun u => (UpstreamOccurrence.trafficSplit owner rule target, u)).toList ++
      targetUpstreams owner rule (target + 1) rest

def ruleUpstreams (owner : TrafficSplitOwner) : Nat → List MatchRule → List (UpstreamOccurrence × Upstream)
  | _, [] => []
  | rule, r :: rest => targetUpstreams owner rule 0 r.weightedUpstreams ++ ruleUpstreams owner (rule + 1) rest

def PluginConfig.inlineUpstreams (owner : TrafficSplitOwner) (config : PluginConfig) :
    List (UpstreamOccurrence × Upstream) := ruleUpstreams owner 0 config.rules

/-! ## Documents both readings take alike -/

/-- A target object may not write a null upstream; a target array must. -/
def targetReadsAlike : Json → Bool
  | .obj members => Json.lookup members "upstream" ≠ some .null
  | .arr items => items[1]? = some .null
  | _ => false

def ruleReadsAlike : Json → Bool
  | .obj members =>
    match Json.lookup members "weighted_upstreams" with
    | some (.arr targets) => targets.all targetReadsAlike
    | _ => false
  | _ => false

def readsAlike : Json → Bool
  | .obj members =>
    match Json.lookup members "rules" with
    | some (.arr rules) => rules.all ruleReadsAlike
    | _ => false
  | _ => false

section
variable {ext : Externals}

/-! ## One target -/

theorem option_eq_some {α : Type} {d : De α} {v : Json} {a : α} :
    De.option d v = .ok (some a) ↔ v ≠ .null ∧ d v = .ok a := by
  unfold De.option
  split
  · simp
  · rename_i hn
    rw [Except.map_eq_ok]
    constructor
    · rintro ⟨b, hb, he⟩
      cases he
      exact ⟨fun he => hn he, hb⟩
    · rintro ⟨-, hb⟩
      exact ⟨a, hb, rfl⟩

theorem option_eq_none {α : Type} {d : De α} {v : Json} (h : De.option d v = .ok none) : v = .null := by
  unfold De.option at h
  split at h
  · rfl
  · obtain ⟨b, -, he⟩ := Except.map_eq_ok.mp h
    cases he

/-- The upstream of a typed target, by the form of its document. -/
theorem fromValue_upstream {v : Json} {w : WeightedUpstream} (h : WeightedUpstream.fromValue v = .ok w) :
    (∃ members, v = .obj members ∧
      ((Json.lookup members "upstream" = none ∧ w.upstream = none) ∨
        ∃ x, Json.lookup members "upstream" = some x ∧ De.option Upstream.fromValue x = .ok w.upstream)) ∨
      ∃ items x, v = .arr items ∧ items[1]? = some x ∧ De.option Upstream.fromValue x = .ok w.upstream := by
  unfold WeightedUpstream.fromValue at h
  obtain ⟨src, hsrc, h⟩ := Except.bind_eq_ok.mp h
  obtain ⟨upstreamId, -, h⟩ := Except.bind_eq_ok.mp h
  obtain ⟨upstream, hu, h⟩ := Except.bind_eq_ok.mp h
  obtain ⟨weight, -, h⟩ := Except.bind_eq_ok.mp h
  cases Except.pure_eq_ok.mp h
  cases v with
  | obj members =>
    cases hsrc
    refine .inl ⟨members, rfl, ?_⟩
    unfold De.Source.field at hu
    cases hl : Json.lookup members "upstream" with
    | none =>
      simp only [hl, Except.ok.injEq] at hu
      exact .inl ⟨rfl, hu.symm⟩
    | some x =>
      simp only [hl] at hu
      exact .inr ⟨x, rfl, hu⟩
  | arr items =>
    refine .inr ?_
    unfold De.struct at hsrc
    obtain ⟨-, hsrc⟩ := Except.ite_throw_eq_ok.mp hsrc
    cases hsrc
    unfold De.Source.field at hu
    cases hl : items[1]? with
    | none => simp [hl] at hu
    | some x =>
      simp only [hl] at hu
      exact ⟨items, x, rfl, hl, hu⟩
  | null => cases hsrc
  | bool b => cases hsrc
  | num n => cases hsrc
  | str t => cases hsrc

theorem inlineUpstream_of_alike {v : Json} {w : WeightedUpstream} (h : WeightedUpstream.fromValue v = .ok w)
    (ha : targetReadsAlike v = true) : inlineUpstream ext v = .ok w.upstream := by
  cases fromValue_upstream h with
  | inl ho =>
    obtain ⟨members, rfl, hcase⟩ := ho
    have hn : Json.lookup members "upstream" ≠ some .null := by simpa [targetReadsAlike] using ha
    unfold inlineUpstream Json.get
    cases hcase with
    | inl hl => simp [hl.1, hl.2]
    | inr hl =>
      obtain ⟨x, hl, hu⟩ := hl
      cases ho : w.upstream with
      | none =>
        rw [ho] at hu
        exact absurd (option_eq_none hu ▸ hl) hn
      | some u =>
        rw [ho] at hu
        simp [hl, (option_eq_some.mp hu).2]
  | inr hs =>
    obtain ⟨items, x, rfl, hl, hu⟩ := hs
    have hn : x = .null := by simpa [targetReadsAlike, hl] using ha
    subst hn
    have hw : none = w.upstream := by simpa [De.option] using hu
    rw [← hw]
    rfl

/-- When the raw reading does not fail and misses no typed upstream, the document reads alike. -/
theorem alike_of_inlineUpstream {v : Json} {w : WeightedUpstream} {o : Option Upstream}
    (h : WeightedUpstream.fromValue v = .ok w) (hr : inlineUpstream ext v = .ok o)
    (hs : w.upstream.isSome = true → o.isSome = true) : targetReadsAlike v = true := by
  cases fromValue_upstream h with
  | inl ho =>
    obtain ⟨members, rfl, -⟩ := ho
    have hn : Json.lookup members "upstream" ≠ some .null := by
      intro hl
      unfold inlineUpstream Json.get at hr
      simp only [hl] at hr
      cases hr
    simpa [targetReadsAlike] using hn
  | inr ha =>
    obtain ⟨items, x, rfl, hl, hu⟩ := ha
    cases hr
    have hw : w.upstream = none := by
      cases hw : w.upstream with
      | none => rfl
      | some u =>
        have := hs (by rw [hw]; rfl)
        cases this
    rw [hw] at hu
    cases option_eq_none hu
    simp [targetReadsAlike, hl]

/-! ## The targets of one rule -/

theorem vec_eq_ok {α : Type} {d : De α} {v : Json} {l : List α} :
    De.vec d v = .ok l ↔ ∃ items, v = .arr items ∧ List.Forall₂ (fun x a => d x = .ok a) items l := by
  unfold De.vec
  split
  · rw [Except.mapM_eq_ok]
    simp
  · rename_i hn
    constructor
    · intro h
      cases h
    · rintro ⟨items, rfl, -⟩
      exact absurd rfl (hn items)

/-- The keys a list of jobs is prepared under. -/
def keys (jobs : List (UpstreamOccurrence × Upstream)) : List UpstreamOccurrence := jobs.map (·.1)

@[simp] theorem keys_append (a b : List (UpstreamOccurrence × Upstream)) : keys (a ++ b) = keys a ++ keys b :=
  List.map_append

theorem mem_keys_toList {occ key : UpstreamOccurrence} {o : Option Upstream} :
    key ∈ keys (o.map fun u => (occ, u)).toList ↔ key = occ ∧ o.isSome = true := by
  cases o with
  | none => simp [keys]
  | some u => simp [keys]

variable {owner : TrafficSplitOwner} {rule : Nat}

theorem targetJobs_cons_eq_ok {n : Nat} {v : Json} {rest : List Json} {jobs : List (UpstreamOccurrence × Upstream)} :
    targetJobs ext owner rule n (v :: rest) = .ok jobs ↔
      ∃ o jobs', inlineUpstream ext v = .ok o ∧ targetJobs ext owner rule (n + 1) rest = .ok jobs' ∧
        jobs = (o.map fun u => (UpstreamOccurrence.trafficSplit owner rule n, u)).toList ++ jobs' := by
  rw [targetJobs]
  simp only [Except.bind_eq_ok, Except.pure_eq_ok]
  constructor
  · rintro ⟨o, ho, jobs', hj, rfl⟩
    exact ⟨o, jobs', ho, hj, rfl⟩
  · rintro ⟨o, jobs', ho, hj, rfl⟩
    exact ⟨o, ho, jobs', hj, rfl⟩

theorem mem_keys_targetJobs {key : UpstreamOccurrence} : ∀ {items : List Json} {n : Nat}
    {jobs : List (UpstreamOccurrence × Upstream)}, targetJobs ext owner rule n items = .ok jobs → key ∈ keys jobs →
    ∃ target, n ≤ target ∧ key = .trafficSplit owner rule target
  | [], n, jobs, h, hk => by
    cases h
    cases hk
  | v :: rest, n, jobs, h, hk => by
    obtain ⟨o, jobs', -, hj, rfl⟩ := targetJobs_cons_eq_ok.mp h
    rw [keys_append, List.mem_append, mem_keys_toList] at hk
    cases hk with
    | inl hk => exact ⟨n, le_refl n, hk.1⟩
    | inr hk =>
      obtain ⟨target, hle, he⟩ := mem_keys_targetJobs hj hk
      exact ⟨target, by omega, he⟩

theorem mem_keys_targetUpstreams {key : UpstreamOccurrence} : ∀ {ws : List WeightedUpstream} {n : Nat},
    key ∈ keys (targetUpstreams owner rule n ws) → ∃ target, n ≤ target ∧ key = .trafficSplit owner rule target
  | w :: rest, n, hk => by
    rw [targetUpstreams, keys_append, List.mem_append, mem_keys_toList] at hk
    cases hk with
    | inl hk => exact ⟨n, le_refl n, hk.1⟩
    | inr hk =>
      obtain ⟨target, hle, he⟩ := mem_keys_targetUpstreams hk
      exact ⟨target, by omega, he⟩

theorem targetJobs_of_alike : ∀ {items : List Json} {ws : List WeightedUpstream} {n : Nat},
    List.Forall₂ (fun v w => WeightedUpstream.fromValue v = .ok w) items ws → items.all targetReadsAlike = true →
    targetJobs ext owner rule n items = .ok (targetUpstreams owner rule n ws)
  | [], _, n, .nil, _ => rfl
  | v :: rest, _, n, .cons hv hrest, ha => by
    rw [List.all_cons, Bool.and_eq_true] at ha
    exact targetJobs_cons_eq_ok.mpr
      ⟨_, _, inlineUpstream_of_alike hv ha.1, targetJobs_of_alike hrest ha.2, rfl⟩

/-- When the raw jobs miss no typed key, every target reads alike. -/
theorem alike_of_targetJobs : ∀ {items : List Json} {ws : List WeightedUpstream} {n : Nat}
    {jobs : List (UpstreamOccurrence × Upstream)},
    List.Forall₂ (fun v w => WeightedUpstream.fromValue v = .ok w) items ws →
    targetJobs ext owner rule n items = .ok jobs → keys (targetUpstreams owner rule n ws) ⊆ keys jobs →
    items.all targetReadsAlike = true
  | [], _, n, _, .nil, _, _ => rfl
  | v :: rest, _, n, jobs, .cons hv hrest, h, hs => by
    obtain ⟨o, jobs', ho, hj, rfl⟩ := targetJobs_cons_eq_ok.mp h
    rw [List.all_cons, Bool.and_eq_true]
    simp only [targetUpstreams, keys_append] at hs
    refine ⟨alike_of_inlineUpstream hv ho fun hw => ?_, alike_of_targetJobs hrest hj fun key hk => ?_⟩
    · -- later keys have larger indices, so the first target's key is its own
      have hmem := hs (List.mem_append_left _ (mem_keys_toList.mpr ⟨rfl, hw⟩))
      rw [List.mem_append, mem_keys_toList] at hmem
      cases hmem with
      | inl hm => exact hm.2
      | inr hm =>
        obtain ⟨target, hle, he⟩ := mem_keys_targetJobs hj hm
        simp only [UpstreamOccurrence.trafficSplit.injEq] at he
        omega
    · obtain ⟨target, hle, rfl⟩ := mem_keys_targetUpstreams hk
      have hmem := hs (List.mem_append_right _ hk)
      rw [List.mem_append, mem_keys_toList] at hmem
      cases hmem with
      | inl hm =>
        simp only [UpstreamOccurrence.trafficSplit.injEq] at hm
        omega
      | inr hm => exact hm

/-! ## The rules of a configuration -/

/-- A required field that is a sequence, by the form of the document. -/
theorem field_vec_eq_ok {α : Type} {src : De.Source} {struct name : String} {index : Nat} {d : De α} {l : List α}
    (h : src.field struct index name (De.vec d) .required = .ok l) :
    ∃ items, List.Forall₂ (fun x a => d x = .ok a) items l ∧
      match src with
      | .byName members => Json.lookup members name = some (.arr items)
      | .byPosition values => values[index]? = some (.arr items) := by
  unfold De.Source.field at h
  cases src with
  | byName members =>
    cases hl : Json.lookup members name with
    | none => simp [hl] at h
    | some x =>
      simp only [hl] at h
      obtain ⟨items, rfl, hf⟩ := vec_eq_ok.mp h
      exact ⟨items, hf, hl⟩
  | byPosition values =>
    cases hl : values[index]? with
    | none => simp [hl] at h
    | some x =>
      simp only [hl] at h
      obtain ⟨items, rfl, hf⟩ := vec_eq_ok.mp h
      exact ⟨items, hf, hl⟩

theorem struct_eq_ok {name : String} {count : Nat} {v : Json} {src : De.Source} (h : De.struct name count v = .ok src) :
    (∃ members, v = .obj members ∧ src = .byName members) ∨ ∃ items, v = .arr items ∧ src = .byPosition items := by
  unfold De.struct at h
  split at h
  · cases h
    exact .inl ⟨_, rfl, rfl⟩
  · obtain ⟨-, h⟩ := Except.ite_throw_eq_ok.mp h
    cases h
    exact .inr ⟨_, rfl, rfl⟩
  · cases h

/-- A typed rule's targets, in the object form both readings take or in the array form. -/
theorem MatchRule.fromValue_targets {v : Json} {r : MatchRule} (h : MatchRule.fromValue v = .ok r) :
    ∃ items, List.Forall₂ (fun x w => WeightedUpstream.fromValue x = .ok w) items r.weightedUpstreams ∧
      ((∃ members, v = .obj members ∧ Json.lookup members "weighted_upstreams" = some (.arr items)) ∨
        ∃ values, v = .arr values) := by
  unfold MatchRule.fromValue at h
  obtain ⟨src, hsrc, h⟩ := Except.bind_eq_ok.mp h
  obtain ⟨vars, -, h⟩ := Except.bind_eq_ok.mp h
  obtain ⟨ws, hw, h⟩ := Except.bind_eq_ok.mp h
  cases Except.pure_eq_ok.mp h
  obtain ⟨items, hf, hi⟩ := field_vec_eq_ok hw
  refine ⟨items, hf, ?_⟩
  cases struct_eq_ok hsrc with
  | inl ho =>
    obtain ⟨members, rfl, rfl⟩ := ho
    exact .inl ⟨members, rfl, hi⟩
  | inr ha =>
    obtain ⟨values, rfl, rfl⟩ := ha
    exact .inr ⟨values, rfl⟩

theorem PluginConfig.fromValue_rules {v : Json} {config : PluginConfig} (h : PluginConfig.fromValue v = .ok config) :
    ∃ items, List.Forall₂ (fun x r => MatchRule.fromValue x = .ok r) items config.rules ∧
      ((∃ members, v = .obj members ∧ Json.lookup members "rules" = some (.arr items)) ∨ ∃ values, v = .arr values) := by
  unfold PluginConfig.fromValue at h
  obtain ⟨src, hsrc, h⟩ := Except.bind_eq_ok.mp h
  obtain ⟨rules, hr, h⟩ := Except.bind_eq_ok.mp h
  cases Except.pure_eq_ok.mp h
  obtain ⟨items, hf, hi⟩ := field_vec_eq_ok hr
  refine ⟨items, hf, ?_⟩
  cases struct_eq_ok hsrc with
  | inl ho =>
    obtain ⟨members, rfl, rfl⟩ := ho
    exact .inl ⟨members, rfl, hi⟩
  | inr ha =>
    obtain ⟨values, rfl, rfl⟩ := ha
    exact .inr ⟨values, rfl⟩

/-- The raw targets of a rule, when it is an object. -/
theorem ruleJobs_cons_eq_ok {n : Nat} {v : Json} {rest : List Json} {jobs : List (UpstreamOccurrence × Upstream)} :
    ruleJobs ext owner n (v :: rest) = .ok jobs ↔
      ∃ items jobs₁ jobs₂, (v.get "weighted_upstreams").bind Json.asArray = some items ∧
        targetJobs ext owner n 0 items = .ok jobs₁ ∧ ruleJobs ext owner (n + 1) rest = .ok jobs₂ ∧
        jobs = jobs₁ ++ jobs₂ := by
  rw [ruleJobs]
  cases (v.get "weighted_upstreams").bind Json.asArray with
  | none => simp
  | some items =>
    simp only [Except.bind_eq_ok, Except.pure_eq_ok, Option.some.injEq]
    constructor
    · rintro ⟨jobs₁, h₁, jobs₂, h₂, rfl⟩
      exact ⟨items, jobs₁, jobs₂, rfl, h₁, h₂, rfl⟩
    · rintro ⟨_, jobs₁, jobs₂, rfl, h₁, h₂, rfl⟩
      exact ⟨jobs₁, h₁, jobs₂, h₂, rfl⟩

theorem mem_keys_ruleJobs {key : UpstreamOccurrence} : ∀ {items : List Json} {n : Nat}
    {jobs : List (UpstreamOccurrence × Upstream)}, ruleJobs ext owner n items = .ok jobs → key ∈ keys jobs →
    ∃ rule target, n ≤ rule ∧ key = .trafficSplit owner rule target
  | [], n, jobs, h, hk => by
    cases h
    cases hk
  | v :: rest, n, jobs, h, hk => by
    obtain ⟨items, jobs₁, jobs₂, -, h₁, h₂, rfl⟩ := ruleJobs_cons_eq_ok.mp h
    rw [keys_append, List.mem_append] at hk
    cases hk with
    | inl hk =>
      obtain ⟨target, -, he⟩ := mem_keys_targetJobs h₁ hk
      exact ⟨n, target, le_refl n, he⟩
    | inr hk =>
      obtain ⟨rule, target, hle, he⟩ := mem_keys_ruleJobs h₂ hk
      exact ⟨rule, target, by omega, he⟩

theorem mem_keys_ruleUpstreams {key : UpstreamOccurrence} : ∀ {rules : List MatchRule} {n : Nat},
    key ∈ keys (ruleUpstreams owner n rules) → ∃ rule target, n ≤ rule ∧ key = .trafficSplit owner rule target
  | r :: rest, n, hk => by
    rw [ruleUpstreams, keys_append, List.mem_append] at hk
    cases hk with
    | inl hk =>
      obtain ⟨target, -, he⟩ := mem_keys_targetUpstreams hk
      exact ⟨n, target, le_refl n, he⟩
    | inr hk =>
      obtain ⟨rule, target, hle, he⟩ := mem_keys_ruleUpstreams hk
      exact ⟨rule, target, by omega, he⟩

theorem ruleJobs_of_alike : ∀ {items : List Json} {rules : List MatchRule} {n : Nat},
    List.Forall₂ (fun v r => MatchRule.fromValue v = .ok r) items rules → items.all ruleReadsAlike = true →
    ruleJobs ext owner n items = .ok (ruleUpstreams owner n rules)
  | [], _, n, .nil, _ => rfl
  | v :: rest, _, n, .cons hv hrest, ha => by
    rw [List.all_cons, Bool.and_eq_true] at ha
    obtain ⟨items, hf, hcase⟩ := MatchRule.fromValue_targets hv
    cases hcase with
    | inl ho =>
      obtain ⟨members, rfl, hl⟩ := ho
      have ht : items.all targetReadsAlike = true := by simpa [ruleReadsAlike, hl] using ha.1
      refine ruleJobs_cons_eq_ok.mpr ⟨items, _, _, ?_, targetJobs_of_alike hf ht, ruleJobs_of_alike hrest ha.2, rfl⟩
      simp [Json.get, hl, Json.asArray]
    | inr hv =>
      obtain ⟨values, rfl⟩ := hv
      cases ha.1

theorem alike_of_ruleJobs : ∀ {items : List Json} {rules : List MatchRule} {n : Nat}
    {jobs : List (UpstreamOccurrence × Upstream)},
    List.Forall₂ (fun v r => MatchRule.fromValue v = .ok r) items rules →
    ruleJobs ext owner n items = .ok jobs → keys (ruleUpstreams owner n rules) ⊆ keys jobs →
    items.all ruleReadsAlike = true
  | [], _, n, _, .nil, _, _ => rfl
  | v :: rest, _, n, jobs, .cons hv hrest, h, hs => by
    obtain ⟨items', jobs₁, jobs₂, hget, h₁, h₂, rfl⟩ := ruleJobs_cons_eq_ok.mp h
    rw [List.all_cons, Bool.and_eq_true]
    simp only [ruleUpstreams, keys_append] at hs
    constructor
    · obtain ⟨items, hf, hcase⟩ := MatchRule.fromValue_targets hv
      cases hcase with
      | inl ho =>
        obtain ⟨members, rfl, hl⟩ := ho
        have he : items' = items := by simpa [Json.get, hl, Json.asArray, eq_comm] using hget
        subst he
        have ht : items'.all targetReadsAlike = true := by
          refine alike_of_targetJobs hf h₁ fun key hk => ?_
          have hmem := hs (List.mem_append_left _ hk)
          obtain ⟨target, -, rfl⟩ := mem_keys_targetUpstreams hk
          rw [List.mem_append] at hmem
          cases hmem with
          | inl hm => exact hm
          | inr hm =>
            obtain ⟨rule, _, hle, he⟩ := mem_keys_ruleJobs h₂ hm
            simp only [UpstreamOccurrence.trafficSplit.injEq] at he
            omega
        simpa [ruleReadsAlike, hl] using ht
      | inr hv =>
        obtain ⟨values, rfl⟩ := hv
        cases hget
    · refine alike_of_ruleJobs hrest h₂ fun key hk => ?_
      have hmem := hs (List.mem_append_right _ hk)
      obtain ⟨rule, target, hle, rfl⟩ := mem_keys_ruleUpstreams hk
      rw [List.mem_append] at hmem
      cases hmem with
      | inl hm =>
        obtain ⟨_, -, he⟩ := mem_keys_targetJobs h₁ hm
        simp only [UpstreamOccurrence.trafficSplit.injEq] at he
        omega
      | inr hm => exact hm

/-! ## The whole configuration -/

theorem parse_eq_ok {cfg : Json} {config : PluginConfig} :
    parse ext cfg = .ok config ↔ PluginConfig.fromValue cfg = .ok config := by
  unfold parse
  cases PluginConfig.fromValue cfg with
  | error e => simp
  | ok c => simp

/-- On a document that reads alike the raw extraction finds what the typed configuration declares. -/
theorem inlineUpstreamJobs_of_alike {cfg : Json} {config : PluginConfig} (h : parse ext cfg = .ok config)
    (ha : readsAlike cfg = true) : inlineUpstreamJobs ext owner cfg = .ok (config.inlineUpstreams owner) := by
  obtain ⟨items, hf, hcase⟩ := PluginConfig.fromValue_rules (parse_eq_ok.mp h)
  cases hcase with
  | inl ho =>
    obtain ⟨members, rfl, hl⟩ := ho
    have hr : items.all ruleReadsAlike = true := by simpa [readsAlike, hl] using ha
    unfold inlineUpstreamJobs
    simp only [Json.get, hl, Option.bind_some, Json.asArray]
    exact ruleJobs_of_alike hf hr
  | inr hv =>
    obtain ⟨values, rfl⟩ := hv
    cases ha

/-- When the raw extraction succeeds and misses no declared upstream, the document reads alike. -/
theorem alike_of_inlineUpstreamJobs {cfg : Json} {config : PluginConfig}
    {jobs : List (UpstreamOccurrence × Upstream)} (h : parse ext cfg = .ok config)
    (hj : inlineUpstreamJobs ext owner cfg = .ok jobs) (hs : keys (config.inlineUpstreams owner) ⊆ keys jobs) :
    readsAlike cfg = true := by
  obtain ⟨items, hf, hcase⟩ := PluginConfig.fromValue_rules (parse_eq_ok.mp h)
  cases hcase with
  | inl ho =>
    obtain ⟨members, rfl, hl⟩ := ho
    unfold inlineUpstreamJobs at hj
    simp only [Json.get, hl, Option.bind_some, Json.asArray] at hj
    have hr := alike_of_ruleJobs hf hj hs
    simpa [readsAlike, hl] using hr
  | inr hv =>
    obtain ⟨values, rfl⟩ := hv
    cases hj

end

end Pingsix.TrafficSplit
