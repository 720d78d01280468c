import Pingsix.CheckKeysSound
import Pingsix.FingerprintOrder
import Pingsix.HealthCheckSound

/-!
# Health checks across publications

Each piece of a publication is one call on the registry at most, so the executor
may move between any two of them. Until the new snapshot is stored no check of
the old one is stopped; when the publication is over exactly the checks of the
new one are registered, the unchanged ones as they were, and every other
registration ever made has been told to stop.
-/

namespace Pingsix

/-! ## Where a registration can be -/

namespace HealthCheckState

variable {σ : Type} {s s' : HealthCheckState σ}

/-- Without restores and before the shutdown: a registration is current, or displaced, or told to stop. -/
structure Accounted (s : HealthCheckState σ) : Prop where
  running : ∀ k, s.registry.Registered k ∨ k ∈ s.displacedKeys → k.2 ∉ s.registry.signalled
  issued : ∀ g, 1 ≤ g → g < s.registry.nextGeneration →
    (∃ k, (s.registry.Registered k ∨ k ∈ s.displacedKeys) ∧ k.2 = g) ∨ g ∈ s.registry.signalled
  distinct : ∀ k k', s.registry.Registered k ∨ k ∈ s.displacedKeys → s.registry.Registered k' ∨ k' ∈ s.displacedKeys →
    k.2 = k'.2 → k = k'
  signalled_lt : ∀ g ∈ s.registry.signalled, g < s.registry.nextGeneration
  positive : ∀ k, s.registry.Registered k ∨ k ∈ s.displacedKeys → 1 ≤ k.2
  first : 1 ≤ s.registry.nextGeneration

theorem accounted_init : Accounted ({} : HealthCheckState σ) where
  running _ h := h.elim (fun h => by obtain ⟨e, he, -⟩ := h; cases he) fun h => (nomatch h)
  issued g h h' := absurd h' (Nat.not_lt.mpr h)
  distinct _ _ h := h.elim (fun h => by obtain ⟨e, he, -⟩ := h; cases he) fun h => (nomatch h)
  signalled_lt _ h := (nomatch h)
  positive _ h := h.elim (fun h => by obtain ⟨e, he, -⟩ := h; cases he) fun h => (nomatch h)
  first := Nat.le_refl 1

theorem Accounted.congr (h : Accounted s) (hu : s'.registry.upstreams = s.registry.upstreams)
    (hn : s'.registry.nextGeneration = s.registry.nextGeneration) (hs : s'.registry.signalled = s.registry.signalled)
    (hd : s'.displaced = s.displaced) : Accounted s' := by
  have hkeys : s'.displacedKeys = s.displacedKeys := by rw [displacedKeys, displacedKeys, hd]
  have hr (k : TaskKey) : s'.registry.Registered k ↔ s.registry.Registered k := HealthCheckRegistry.registered_congr hu
  constructor
  · intro k hk
    rw [hs]
    rw [hr, hkeys] at hk
    exact h.running k hk
  · intro g hg hlt
    rw [hn] at hlt
    simp only [hr, hkeys, hs]
    exact h.issued g hg hlt
  · intro k k' hk hk'
    rw [hr, hkeys] at hk hk'
    exact h.distinct k k' hk hk'
  · intro g hg
    rw [hs] at hg
    rw [hn]
    exact h.signalled_lt g hg
  · intro k hk
    rw [hr, hkeys] at hk
    exact h.positive k hk
  · rw [hn]
    exact h.first

/-- After a registration its generation is the newest and what it replaces is displaced. -/
theorem Accounted.register (h : Accounted s) (hp : Places s) (id : String) (lb : σ) : Accounted (s.registerState id lb) := by
  have hold (k : TaskKey) : s.registry.Registered k ∨ k ∈ s.displacedKeys → k.2 < s.registry.nextGeneration := fun hk =>
    hk.elim (hp.registered_lt k) (hp.displaced_lt k)
  have hcases (k : TaskKey) (hk : (s.registerState id lb).registry.Registered k ∨ k ∈ (s.registerState id lb).displacedKeys) :
      k = (id, s.registry.nextGeneration) ∨ s.registry.Registered k ∨ k ∈ s.displacedKeys := by
    cases hk with
    | inl hr =>
      have hr := HealthCheckRegistry.registered_register.mp hr
      by_cases hid : k.1 = id
      · rw [if_pos hid] at hr
        exact .inl (Prod.ext hid hr)
      · rw [if_neg hid] at hr
        exact .inr (.inl hr)
    | inr hd => exact .inr ((mem_displacedKeys_register.mp hd).imp_left (·.1))
  have hkeep (k : TaskKey) (hk : s.registry.Registered k ∨ k ∈ s.displacedKeys) :
      (s.registerState id lb).registry.Registered k ∨ k ∈ (s.registerState id lb).displacedKeys := by
    cases hk with
    | inl hr =>
      by_cases hid : k.1 = id
      · exact .inr (mem_displacedKeys_register.mpr (.inl ⟨hr, hid⟩))
      · exact .inl (HealthCheckRegistry.registered_register.mpr (by rwa [if_neg hid]))
    | inr hd => exact .inr (mem_displacedKeys_register.mpr (.inr hd))
  constructor
  · intro k hk hs
    cases hcases k hk with
    | inl he =>
      subst he
      exact absurd (h.signalled_lt _ hs) (Nat.lt_irrefl _)
    | inr hk => exact h.running k hk hs
  · intro g hg hlt
    by_cases he : g = s.registry.nextGeneration
    · subst he
      refine .inl ⟨(id, s.registry.nextGeneration), .inl (HealthCheckRegistry.registered_register.mpr ?_), rfl⟩
      rw [if_pos rfl]
    · have hlt : g < s.registry.nextGeneration + 1 := hlt
      exact (h.issued g hg (by omega)).imp_left fun ⟨k, hk, hkg⟩ => ⟨k, hkeep k hk, hkg⟩
  · intro k k' hk hk' he
    cases hcases k hk with
    | inl hnew =>
      cases hcases k' hk' with
      | inl hnew' => rw [hnew, hnew']
      | inr hk' =>
        have := hold k' hk'
        rw [← he, hnew] at this
        exact absurd this (Nat.lt_irrefl _)
    | inr hk =>
      cases hcases k' hk' with
      | inl hnew' =>
        have := hold k hk
        rw [he, hnew'] at this
        exact absurd this (Nat.lt_irrefl _)
      | inr hk' => exact h.distinct k k' hk hk' he
  · intro g hg
    exact Nat.lt_succ_of_lt (h.signalled_lt g hg)
  · intro k hk
    cases hcases k hk with
    | inl he => exact he ▸ h.first
    | inr hk => exact h.positive k hk
  · exact Nat.le_succ_of_le h.first

/-- A registration that is told to stop is neither current nor displaced any more. -/
theorem Accounted.stop (h : Accounted s) (hp : Places s) {k : TaskKey} (hk : s.registry.Registered k ∨ k ∈ s.displacedKeys)
    (hiff : ∀ k', s'.registry.Registered k' ∨ k' ∈ s'.displacedKeys ↔
      (s.registry.Registered k' ∨ k' ∈ s.displacedKeys) ∧ k' ≠ k)
    (hn : s'.registry.nextGeneration = s.registry.nextGeneration)
    (hs : s'.registry.signalled = k.2 :: s.registry.signalled) : Accounted s' := by
  constructor
  · intro k' hk' hsig
    obtain ⟨hk', hne⟩ := (hiff k').mp hk'
    rw [hs] at hsig
    cases List.mem_cons.mp hsig with
    | inl he => exact hne (h.distinct k' k hk' hk he)
    | inr hsig => exact h.running k' hk' hsig
  · intro g hg hlt
    rw [hn] at hlt
    rw [hs]
    by_cases he : g = k.2
    · exact .inr (he ▸ List.mem_cons_self)
    · refine (h.issued g hg hlt).imp (fun hex => ?_) (List.mem_cons_of_mem _)
      obtain ⟨k', hk', rfl⟩ := hex
      exact ⟨k', (hiff k').mpr ⟨hk', fun heq => he (heq ▸ rfl)⟩, rfl⟩
  · intro k' k'' hk' hk''
    exact h.distinct k' k'' ((hiff k').mp hk').1 ((hiff k'').mp hk'').1
  · intro g hg
    rw [hs] at hg
    rw [hn]
    cases List.mem_cons.mp hg with
    | inl he =>
      rw [he]
      exact hk.elim (hp.registered_lt k) (hp.displaced_lt k)
    | inr hg => exact h.signalled_lt g hg
  · intro k' hk'
    exact h.positive k' ((hiff k').mp hk').1
  · rw [hn]
    exact h.first

theorem Accounted.discard (h : Accounted s) (hp : Places s) {index : Nat} {d : DisplacedHealthCheck σ}
    (hd : s.displaced[index]? = some d) : Accounted (s.discardState index d) := by
  refine h.stop hp (.inr (key_mem_displacedKeys hd)) (fun k => ?_) rfl rfl
  rw [displacedKeys]
  show s.registry.Registered k ∨ k ∈ (s.displaced.eraseIdx index).map (·.key) ↔ _
  rw [mem_displacedKeys_eraseIdx hd hp.nodup]
  constructor
  · intro hk
    cases hk with
    | inl hr => exact ⟨.inl hr, fun he => hp.displaced_not _ (key_mem_displacedKeys hd) (he ▸ hr)⟩
    | inr hk => exact ⟨.inr hk.1, hk.2⟩
  · intro hk
    exact hk.1.imp_right fun hd => ⟨hd, hk.2⟩

theorem Accounted.unregister (h : Accounted s) (hp : Places s) (id : String) (registration : HealthCheckRegistration) :
    Accounted { s with registry := (s.registry.unregisterUpstream id registration).1 } := by
  cases HealthCheckRegistry.unregister_cases s.registry id registration with
  | inl he =>
    rw [he]
    exact h
  | inr hr =>
    obtain ⟨hr, he⟩ := hr
    rw [he]
    refine h.stop hp (k := (id, registration.generation)) (.inl hr) (fun k => ?_) rfl rfl
    have herase := @HealthCheckRegistry.registered_erase σ s.registry k id
      (({ s.registry with upstreams := s.registry.upstreams.erase id }.signal registration.generation).notify
        (.removed id registration)) rfl
    constructor
    · intro hk
      cases hk with
      | inl hk =>
        obtain ⟨hne, hk⟩ := herase.mp hk
        exact ⟨.inl hk, fun he => hne (he ▸ rfl)⟩
      | inr hd => exact ⟨.inr hd, fun he => hp.displaced_not k hd (he ▸ hr)⟩
    · intro hk
      obtain ⟨hk, hne⟩ := hk
      refine hk.imp_left fun hk => herase.mpr ⟨fun hid => hne (Prod.ext hid ?_), hk⟩
      subst hid
      exact hr.unique hk

/-- A move of the executor or of a task before the shutdown leaves the registrations as they are. -/
structure SameRegistrations (s s' : HealthCheckState σ) : Prop where
  upstreams : s'.registry.upstreams = s.registry.upstreams
  nextGeneration : s'.registry.nextGeneration = s.registry.nextGeneration
  signalled : s'.registry.signalled = s.registry.signalled
  displaced : s'.displaced = s.displaced

theorem sameRegistrations_of_move {a : RuntimeAction} {move : HealthCheckAction Allocation}
    {s s' : HealthCheckState Allocation} (ha : a.executorAction = some move) (hne : a ≠ .shutdown) (h : s.step move = some s') :
    SameRegistrations s s' := by
  cases a with
  | publish snapshot => cases ha
  | proceed => cases ha
  | shutdown => exact absurd rfl hne
  | start =>
    cases ha
    simp only [step] at h
    split at h
    · cases h
      exact ⟨rfl, rfl, rfl, rfl⟩
    · cases h
  | receive =>
    cases ha
    simp only [step] at h
    split at h
    · obtain ⟨x, -, rfl⟩ := Option.map_eq_some_iff.mp h
      exact ⟨rfl, rfl, rfl, rfl⟩
    · cases h
  | tick =>
    cases ha
    simp only [step] at h
    split at h
    · cases h
      exact ⟨rfl, rfl, rfl, rfl⟩
    · cases h
  | work =>
    cases ha
    simp only [step] at h
    cases hw : s.executor.work with
    | nil => simp [hw] at h
    | cons w rest =>
      rw [hw] at h
      cases h
      exact ⟨rfl, rfl, rfl, rfl⟩
  | finish handle =>
    cases ha
    simp only [step] at h
    split at h
    · cases h
      exact ⟨rfl, rfl, rfl, rfl⟩
    · cases h

end HealthCheckState

theorem HealthCheckRegistry.lookup_unregister {σ : Type} (r : HealthCheckRegistry σ) (id : String)
    (registration : HealthCheckRegistration) (key : String) :
    (r.unregisterUpstream id registration).1.upstreams.lookup key =
      if key = id then (r.upstreams.lookup id).filter (·.generation ≠ registration.generation) else r.upstreams.lookup key := by
  unfold unregisterUpstream
  by_cases hk : key = id
  · subst hk
    cases hl : r.upstreams.lookup key with
    | none => simp [hl]
    | some current =>
      by_cases hg : current.generation = registration.generation
      · simp [hg, notify, signal, Option.filter]
      · simp [hg, hl, Option.filter]
  · cases hl : r.upstreams.lookup id with
    | none => simp [hk]
    | some current =>
      by_cases hg : current.generation = registration.generation
      · simp [hg, hk, notify, signal]
      · simp [hg, hk]

/-! ## The pieces of a publication -/

/-- The registry's entry of an active check. -/
def ActiveHealthCheckEntry.registered {σ : Type} (e : ActiveHealthCheckEntry σ) : RegisteredUpstream σ :=
  ⟨e.registration.generation, e.service⟩

/-- The active entry is the one of the check. -/
def HealthCheckSpec.Is {σ : Type} (spec : HealthCheckSpec σ) (e : ActiveHealthCheckEntry σ) : Prop :=
  e.fingerprint = spec.fingerprint ∧ e.service = spec.service

theorem ActiveHealthCheckSet.kept_eq_some {σ : Type} [DecidableEq σ] {active : ActiveHealthCheckSet σ}
    {spec : HealthCheckSpec σ} {e : ActiveHealthCheckEntry σ} :
    active.kept spec = some e ↔ active.lookup spec.key = some e ∧ spec.Is e := by
  unfold kept HealthCheckSpec.Is
  rw [Option.filter_eq_some_iff]
  simp

namespace RuntimeStore

variable {F : FingerprintHash} {s s' : RuntimeStore}

/-- What one step can do. -/
inductive Piece (F : FingerprintHash) (s : RuntimeStore) : RuntimeAction → RuntimeStore → Prop
  | move {a : RuntimeAction} {move : HealthCheckAction Allocation} {healthCheck : HealthCheckState Allocation}
      (ha : a.executorAction = some move) (h : s.healthCheck.step move = some healthCheck) : Piece F s a { s with healthCheck }
  | publish {snapshot : RuntimeSnapshot} (h : s.stage = .idle) :
      Piece F s (.publish snapshot) { s with stage := .registering snapshot (collectHealthChecks F snapshot) ∅ }
  | keep {snapshot : RuntimeSnapshot} {spec : HealthCheckSpec Allocation} {pending : List (HealthCheckSpec Allocation)}
      {next : ActiveHealthCheckSet Allocation} {existing : ActiveHealthCheckEntry Allocation}
      (h : s.stage = .registering snapshot (spec :: pending) next) (hk : s.active.kept spec = some existing) :
      Piece F s .proceed { s with stage := .registering snapshot pending (next.insert spec.key existing) }
  | register {snapshot : RuntimeSnapshot} {spec : HealthCheckSpec Allocation}
      {pending : List (HealthCheckSpec Allocation)} {next : ActiveHealthCheckSet Allocation}
      (h : s.stage = .registering snapshot (spec :: pending) next) (hk : s.active.kept spec = none) :
      Piece F s .proceed
        { s with
          healthCheck := s.healthCheck.registerState spec.key spec.service
          stage := .registering snapshot pending (next.insert spec.key
            { fingerprint := spec.fingerprint, registration := ⟨s.healthCheck.registry.nextGeneration⟩
              service := spec.service }) }
  | commit {snapshot : RuntimeSnapshot} {next : ActiveHealthCheckSet Allocation}
      (h : s.stage = .registering snapshot [] next) : Piece F s .proceed (s.commit snapshot next)
  | discard {removed : List (String × HealthCheckRegistration)} {next : ActiveHealthCheckSet Allocation}
      {index : Nat} {d : DisplacedHealthCheck Allocation} (h : s.stage = .stopping removed next)
      (hd : s.healthCheck.displaced[index]? = some d) :
      Piece F s .proceed { s with healthCheck := s.healthCheck.discardState index d }
  | unregister {key : String} {registration : HealthCheckRegistration} {rest : List (String × HealthCheckRegistration)}
      {next : ActiveHealthCheckSet Allocation} (h : s.stage = .stopping ((key, registration) :: rest) next)
      (hd : s.healthCheck.displaced = []) :
      Piece F s .proceed
        { s with
          healthCheck := { s.healthCheck with
            registry := (s.healthCheck.registry.unregisterUpstream key registration).1 }
          stage := .stopping rest next }
  | settle {next : ActiveHealthCheckSet Allocation} (h : s.stage = .stopping [] next)
      (hd : s.healthCheck.displaced = []) : Piece F s .proceed { s with active := next, stage := .idle }

theorem piece_of_proceed (h : s.proceed = some s') : Piece F s .proceed s' := by
  unfold proceed at h
  cases hstage : s.stage with
  | idle =>
    rw [hstage] at h
    cases h
  | registering snapshot pending next =>
    rw [hstage] at h
    cases pending with
    | nil =>
      cases h
      exact .commit hstage
    | cons spec pending =>
      simp only [register] at h
      cases hk : s.active.kept spec with
      | some existing =>
        rw [hk] at h
        cases h
        exact .keep hstage hk
      | none =>
        rw [hk] at h
        cases h
        exact .register hstage hk
  | stopping removed next =>
    rw [hstage] at h
    simp only [stop] at h
    cases hd : s.healthCheck.displaced.getLast? with
    | some d =>
      rw [hd] at h
      cases h
      have hne : s.healthCheck.displaced ≠ [] := by
        intro hnil
        rw [hnil] at hd
        cases hd
      have hlast : s.healthCheck.displaced[s.healthCheck.displaced.length - 1]? = some d := by
        rwa [← List.getLast?_eq_getElem?]
      have hdrop : s.healthCheck.displaced.dropLast =
          s.healthCheck.displaced.eraseIdx (s.healthCheck.displaced.length - 1) :=
        (List.eraseIdx_eq_dropLast (Nat.sub_add_cancel (List.length_pos_iff.mpr hne))).symm
      rw [hdrop]
      exact .discard hstage hlast
    | none =>
      have hnil := List.getLast?_eq_none_iff.mp hd
      rw [hd] at h
      cases removed with
      | nil =>
        cases h
        exact .settle hstage hnil
      | cons x rest =>
        cases h
        exact .unregister hstage hnil

theorem piece_of_step {a : RuntimeAction} (h : Step F s a s') : Piece F s a s' := by
  unfold Step step at h
  cases a with
  | publish snapshot =>
    cases hstage : s.stage with
    | idle =>
      simp only [RuntimeAction.executorAction, hstage] at h
      cases h
      exact .publish hstage
    | registering other pending next => simp [RuntimeAction.executorAction, hstage] at h
    | stopping removed next => simp [RuntimeAction.executorAction, hstage] at h
  | proceed => exact piece_of_proceed h
  | _ =>
    obtain ⟨healthCheck, hmove, rfl⟩ := Option.map_eq_some_iff.mp h
    exact .move rfl hmove

end RuntimeStore

/-! ## Where a publication is -/

/-- The active entries are those of the checks, one for each. -/
structure ActiveHealthCheckSet.Activates {σ : Type} (specs : List (HealthCheckSpec σ)) (active : ActiveHealthCheckSet σ) :
    Prop where
  covers : ∀ spec ∈ specs, ∃ e, active.lookup spec.key = some e ∧ spec.Is e
  only : ∀ key e, active.lookup key = some e → ∃ spec ∈ specs, spec.key = key

namespace ActiveHealthCheckSet.Activates

variable {σ : Type} {specs : List (HealthCheckSpec σ)} {active : ActiveHealthCheckSet σ} {spec : HealthCheckSpec σ}

theorem empty : Activates ([] : List (HealthCheckSpec σ)) ∅ :=
  ⟨fun _ h => (nomatch h), fun _ _ h => (nomatch h)⟩

theorem lookup_none (h : Activates specs active) (hn : ((specs ++ [spec]).map (·.key)).Nodup) :
    active.lookup spec.key = none := by
  cases hl : active.lookup spec.key with
  | none => rfl
  | some e =>
    obtain ⟨spec', hm, hk⟩ := h.only _ _ hl
    rw [List.map_append, List.nodup_append] at hn
    exact absurd hk (hn.2.2 _ (List.mem_map_of_mem hm) _ (List.mem_map_of_mem List.mem_cons_self))

theorem insert (h : Activates specs active) (hn : ((specs ++ [spec]).map (·.key)).Nodup)
    {e : ActiveHealthCheckEntry σ} (he : spec.Is e) : Activates (specs ++ [spec]) (active.insert spec.key e) := by
  constructor
  · intro spec' hm
    cases List.mem_append.mp hm with
    | inl hm =>
      rw [List.map_append, List.nodup_append] at hn
      have hne := hn.2.2 _ (List.mem_map_of_mem hm) _ (List.mem_map_of_mem List.mem_cons_self)
      rw [HashMap.lookup_insert, if_neg hne]
      exact h.covers spec' hm
    | inr hm =>
      cases List.mem_singleton.mp hm
      refine ⟨e, ?_, he⟩
      rw [HashMap.lookup_insert, if_pos rfl]
  · intro key e' hl
    rw [HashMap.lookup_insert] at hl
    by_cases hk : key = spec.key
    · exact ⟨spec, List.mem_append_right _ List.mem_cons_self, hk.symm⟩
    · rw [if_neg hk] at hl
      obtain ⟨spec', hm, hk'⟩ := h.only key e' hl
      exact ⟨spec', List.mem_append_left _ hm, hk'⟩

end ActiveHealthCheckSet.Activates

namespace RuntimeStore

section
variable (F : FingerprintHash) (s : RuntimeStore)

/-- The registry's entry of a key. -/
def entry (key : String) : Option (RegisteredUpstream Allocation) := s.healthCheck.registry.upstreams.lookup key

/-- No publication is on its way: the registry holds the active entries. -/
structure Settled : Prop where
  active : s.active.Activates (collectHealthChecks F s.current)
  entry : ∀ key, s.entry key = (s.active.lookup key).map (·.registered)
  displaced : s.healthCheck.displaced = []

/-- A replaced check of the current snapshot is held as displaced until the new snapshot is stored. -/
structure Registering (snapshot : RuntimeSnapshot) (pending : List (HealthCheckSpec Allocation))
    (next : ActiveHealthCheckSet Allocation) : Prop where
  active : s.active.Activates (collectHealthChecks F s.current)
  nodup : ((collectHealthChecks F snapshot).map (·.key)).Nodup
  activates : ∃ done, collectHealthChecks F snapshot = done ++ pending ∧ next.Activates done
  entry : ∀ key, s.entry key = ((next.lookup key).or (s.active.lookup key)).map (·.registered)
  held : ∀ key e, s.active.lookup key = some e →
    s.entry key = some e.registered ∨ ∃ d ∈ s.healthCheck.displaced, d.id = key ∧ d.registered = e.registered

/-- What is registered beyond the new entries is still to be removed. -/
structure Stopping (removed : List (String × HealthCheckRegistration)) (next : ActiveHealthCheckSet Allocation) : Prop where
  activates : next.Activates (collectHealthChecks F s.current)
  entry : ∀ key e, next.lookup key = some e → s.entry key = some e.registered
  rest : ∀ key r, s.entry key = some r → next.lookup key = none → (key, ⟨r.generation⟩) ∈ removed
  removed : ∀ x ∈ removed, next.lookup x.1 = none

/-- What holds where the publication is. -/
structure Staged : Prop where
  idle : s.stage = .idle → s.Settled F
  registering : ∀ snapshot pending next, s.stage = .registering snapshot pending next →
    s.Registering F snapshot pending next
  stopping : ∀ removed next, s.stage = .stopping removed next → s.Stopping F removed next

end

variable {F : FingerprintHash} {s s' : RuntimeStore}

section
variable {snapshot : RuntimeSnapshot} {spec : HealthCheckSpec Allocation} {pending : List (HealthCheckSpec Allocation)}
  {next : ActiveHealthCheckSet Allocation} {removed : List (String × HealthCheckRegistration)}

theorem staged_idle (hs : s.stage = .idle) (h : s.Settled F) : s.Staged F :=
  ⟨fun _ => h, fun _ _ _ he => (nomatch hs.symm.trans he), fun _ _ he => (nomatch hs.symm.trans he)⟩

theorem staged_registering (hs : s.stage = .registering snapshot pending next)
    (h : s.Registering F snapshot pending next) : s.Staged F := by
  refine ⟨fun he => (nomatch hs.symm.trans he), fun _ _ _ he => ?_, fun _ _ he => (nomatch hs.symm.trans he)⟩
  cases hs.symm.trans he
  exact h

theorem staged_stopping (hs : s.stage = .stopping removed next) (h : s.Stopping F removed next) : s.Staged F := by
  refine ⟨fun he => (nomatch hs.symm.trans he), fun _ _ _ he => (nomatch hs.symm.trans he), fun _ _ he => ?_⟩
  cases hs.symm.trans he
  exact h

/-- The new keys have no repetition up to the next pending one. -/
theorem Registering.split (h : s.Registering F snapshot (spec :: pending) next) :
    ∃ done, collectHealthChecks F snapshot = (done ++ [spec]) ++ pending ∧ next.Activates done ∧
      ((done ++ [spec]).map (·.key)).Nodup := by
  obtain ⟨done, hdone, hnext⟩ := h.activates
  have hsplit : collectHealthChecks F snapshot = (done ++ [spec]) ++ pending := by simp [hdone]
  have hn := h.nodup
  rw [hsplit, List.map_append, List.nodup_append] at hn
  exact ⟨done, hsplit, hnext, hn.1⟩

theorem Registering.lookup_none (h : s.Registering F snapshot (spec :: pending) next) : next.lookup spec.key = none := by
  obtain ⟨done, -, hnext, hn⟩ := h.split
  exact hnext.lookup_none hn

theorem registering_of_settled (h : s.Settled F) (hn : ((collectHealthChecks F snapshot).map (·.key)).Nodup) :
    Registering F { s with stage := .registering snapshot (collectHealthChecks F snapshot) ∅ } snapshot
      (collectHealthChecks F snapshot) ∅ where
  active := h.active
  nodup := hn
  activates := ⟨[], rfl, .empty⟩
  entry key := by
    rw [HashMap.lookup_empty, Option.none_or]
    exact h.entry key
  held key e he := by
    left
    show s.entry key = _
    rw [h.entry key, he]
    rfl

theorem Registering.keep (h : s.Registering F snapshot (spec :: pending) next) {existing : ActiveHealthCheckEntry Allocation}
    (hk : s.active.kept spec = some existing) :
    Registering F { s with stage := .registering snapshot pending (next.insert spec.key existing) } snapshot pending
      (next.insert spec.key existing) := by
  obtain ⟨done, hdone, hnext, hn⟩ := h.split
  obtain ⟨hl, hspec⟩ := ActiveHealthCheckSet.kept_eq_some.mp hk
  refine ⟨h.active, h.nodup, ⟨_, hdone, hnext.insert hn hspec⟩, fun key => ?_, h.held⟩
  show s.entry key = _
  rw [h.entry key, HashMap.lookup_insert]
  by_cases hkey : key = spec.key
  · subst hkey
    rw [if_pos rfl, hnext.lookup_none hn, hl]
    rfl
  · rw [if_neg hkey]

theorem entry_register (id : String) (lb : Allocation) (stage : PublishStage) (key : String) :
    ({ s with healthCheck := s.healthCheck.registerState id lb, stage } : RuntimeStore).entry key =
      if key = id then some ⟨s.healthCheck.registry.nextGeneration, lb⟩ else s.entry key :=
  HashMap.lookup_insert _ _ _ _

theorem Registering.register (h : s.Registering F snapshot (spec :: pending) next) :
    Registering F
      { s with
        healthCheck := s.healthCheck.registerState spec.key spec.service
        stage := .registering snapshot pending (next.insert spec.key
          { fingerprint := spec.fingerprint, registration := ⟨s.healthCheck.registry.nextGeneration⟩
            service := spec.service }) } snapshot pending
      (next.insert spec.key
        { fingerprint := spec.fingerprint, registration := ⟨s.healthCheck.registry.nextGeneration⟩
          service := spec.service }) := by
  obtain ⟨done, hdone, hnext, hn⟩ := h.split
  refine ⟨h.active, h.nodup, ⟨_, hdone, hnext.insert hn ⟨rfl, rfl⟩⟩, fun key => ?_, fun key e he => ?_⟩
  · rw [entry_register, HashMap.lookup_insert]
    by_cases hkey : key = spec.key
    · rw [if_pos hkey, if_pos hkey]
      rfl
    · rw [if_neg hkey, if_neg hkey]
      exact h.entry key
  · rw [entry_register]
    by_cases hkey : key = spec.key
    · -- the entry that is replaced is displaced
      right
      have hold : s.entry spec.key = some e.registered := by
        rw [h.entry, hnext.lookup_none hn, ← hkey]
        show (s.active.lookup key).map _ = _
        rw [he]
        rfl
      have hold : s.healthCheck.registry.upstreams.lookup spec.key = some e.registered := hold
      refine ⟨_, List.mem_append_left _ (Option.mem_toList.mpr (Option.map_eq_some_iff.mpr ⟨_, hold, rfl⟩)), hkey.symm, rfl⟩
    · rw [if_neg hkey]
      refine (h.held key e he).imp_right fun hd => ?_
      obtain ⟨d, hd, hid, hreg⟩ := hd
      exact ⟨d, List.mem_append_right _ hd, hid, hreg⟩

theorem Registering.commit (h : s.Registering F snapshot [] next) :
    Stopping F (s.commit snapshot next) (s.active.removed next) next := by
  obtain ⟨done, hdone, hnext⟩ := h.activates
  rw [List.append_nil] at hdone
  have hentry (key : String) : (s.commit snapshot next).entry key =
      ((next.lookup key).or (s.active.lookup key)).map (·.registered) := h.entry key
  refine ⟨hdone ▸ hnext, fun key e he => ?_, fun key r hr hnone => ?_, fun x hx => ?_⟩
  · rw [hentry, he]
    rfl
  · rw [hentry, hnone, Option.none_or] at hr
    obtain ⟨e, he, rfl⟩ := Option.map_eq_some_iff.mp hr
    refine List.mem_map.mpr ⟨⟨key, e⟩, List.mem_filter.mpr ⟨(HashMap.mem_entries_iff _ _ _).mpr he, ?_⟩, rfl⟩
    rw [hnone]
    rfl
  · obtain ⟨e, he, rfl⟩ := List.mem_map.mp hx
    exact Option.isNone_iff_eq_none.mp (List.mem_filter.mp he).2

theorem Stopping.congr (h : s.Stopping F removed next) (hc : s'.current = s.current) (he : s'.entry = s.entry) :
    s'.Stopping F removed next := by
  refine ⟨?_, ?_, ?_, h.removed⟩
  · rw [hc]
    exact h.activates
  · rw [he]
    exact h.entry
  · rw [he]
    exact h.rest

theorem entry_unregister (key : String) (registration : HealthCheckRegistration) (stage : PublishStage) (key' : String) :
    RuntimeStore.entry
      { s with
        healthCheck := { s.healthCheck with
          registry := (s.healthCheck.registry.unregisterUpstream key registration).1 }
        stage } key' =
      if key' = key then (s.entry key).filter (·.generation ≠ registration.generation) else s.entry key' :=
  HealthCheckRegistry.lookup_unregister s.healthCheck.registry key registration key'

theorem Stopping.unregister {key : String} {registration : HealthCheckRegistration}
    (h : s.Stopping F ((key, registration) :: removed) next) :
    Stopping F
      { s with
        healthCheck := { s.healthCheck with
          registry := (s.healthCheck.registry.unregisterUpstream key registration).1 }
        stage := .stopping removed next } removed next := by
  have hnone : next.lookup key = none := h.removed _ List.mem_cons_self
  refine ⟨h.activates, fun key' e he => ?_, fun key' r hr hn => ?_, fun x hx => h.removed x (List.mem_cons_of_mem _ hx)⟩
  · rw [entry_unregister, if_neg fun hk => by rw [hk, hnone] at he; cases he]
    exact h.entry key' e he
  · rw [entry_unregister] at hr
    by_cases hk : key' = key
    · rw [if_pos hk] at hr
      obtain ⟨hr, hne⟩ := Option.filter_eq_some_iff.mp hr
      refine (List.mem_cons.mp (h.rest key' r (hk ▸ hr) hn)).resolve_left fun he => ?_
      exact of_decide_eq_true hne (congrArg (·.2.generation) he)
    · rw [if_neg hk] at hr
      exact (List.mem_cons.mp (h.rest key' r hr hn)).resolve_left fun he => hk (congrArg Prod.fst he)

theorem Stopping.settle (h : s.Stopping F [] next) (hd : s.healthCheck.displaced = []) :
    Settled F { s with active := next, stage := .idle } := by
  refine ⟨h.activates, fun key => ?_, hd⟩
  show s.entry key = (next.lookup key).map _
  cases hn : next.lookup key with
  | some e => exact h.entry key e hn
  | none =>
    cases hr : s.entry key with
    | none => rfl
    | some r => exact absurd (h.rest key r hr hn) List.not_mem_nil

end

/-! ## Runs -/

/-- Only compiled snapshots are published, and the process does not shut down. -/
def Operates (M : Matchit) (ext : Externals) (_ : List RuntimeAction) (_ : RuntimeStore) (a : RuntimeAction) : Prop :=
  (∀ snapshot, a = .publish snapshot → ∃ config, Compiled M ext config snapshot) ∧ a ≠ .shutdown

structure Inv (F : FingerprintHash) (s : RuntimeStore) : Prop where
  healthCheck : s.healthCheck.Inv
  accounted : s.healthCheck.Accounted
  staged : s.Staged F

theorem inv_init (h : Init s) : Inv F s := by
  cases h
  refine ⟨HealthCheckState.inv_init rfl, HealthCheckState.accounted_init, staged_idle rfl ⟨.empty, fun key => ?_, rfl⟩⟩
  show AList.lookup key ∅ = _
  rw [HashMap.lookup_empty]
  rfl

theorem entry_congr {healthCheck : HealthCheckState Allocation}
    (h : HealthCheckState.SameRegistrations s.healthCheck healthCheck) (key : String) :
    ({ s with healthCheck } : RuntimeStore).entry key = s.entry key :=
  congrArg (AList.lookup key) h.upstreams

/-- A move of the executor leaves the publication where it is. -/
theorem staged_move {healthCheck : HealthCheckState Allocation} (h : s.Staged F)
    (hm : HealthCheckState.SameRegistrations s.healthCheck healthCheck) : ({ s with healthCheck } : RuntimeStore).Staged F := by
  have hentry := entry_congr hm
  constructor
  · intro hs
    obtain ⟨hactive, he, hd⟩ := h.idle hs
    exact ⟨hactive, fun key => (hentry key).trans (he key), hm.displaced.trans hd⟩
  · intro snapshot pending next hs
    obtain ⟨hactive, hn, hnext, he, hheld⟩ := h.registering _ _ _ hs
    refine ⟨hactive, hn, hnext, fun key => (hentry key).trans (he key), fun key e hl => ?_⟩
    rw [hentry]
    show _ ∨ ∃ d ∈ healthCheck.displaced, _
    rw [hm.displaced]
    exact hheld key e hl
  · intro removed next hs
    exact (h.stopping _ _ hs).congr rfl (funext hentry)

theorem healthCheck_inv_step {healthCheck healthCheck' : HealthCheckState Allocation} {a : HealthCheckAction Allocation}
    (h : healthCheck.Inv) (hs : healthCheck.Step a healthCheck') (hne : ∀ index, a ≠ .restore index) : healthCheck'.Inv := by
  have hok : HealthCheckState.RestoreAfterRemoval [] healthCheck a := fun index d he => absurd he (hne index)
  exact HealthCheckState.inv_step h hok hs

/-- Every piece of a publication and every move of the executor keeps the invariant. -/
theorem inv_step {M : Matchit} {ext : Externals} {ls : List RuntimeAction} {a : RuntimeAction} (h : Inv F s)
    (hok : Operates M ext ls s a) (hs : Step F s a s') : Inv F s' := by
  obtain ⟨hinv, haccounted, hstaged⟩ := h
  cases piece_of_step hs with
  | move ha hmove =>
    have hsame := HealthCheckState.sameRegistrations_of_move ha hok.2 hmove
    refine ⟨healthCheck_inv_step hinv hmove fun index he => ?_,
      haccounted.congr hsame.upstreams hsame.nextGeneration hsame.signalled hsame.displaced, staged_move hstaged hsame⟩
    subst he
    cases a <;> cases ha
  | publish hstage =>
    obtain ⟨config, hc⟩ := hok.1 _ rfl
    exact ⟨hinv, haccounted, staged_registering rfl
      (registering_of_settled (hstaged.idle hstage) (nodup_keys_collect F hc.scopesSound))⟩
  | keep hstage hk =>
    exact ⟨hinv, haccounted, staged_registering rfl ((hstaged.registering _ _ _ hstage).keep hk)⟩
  | @register snapshot spec pending next hstage hk =>
    have hregister : s.healthCheck.Step (.register spec.key spec.service)
        (s.healthCheck.registerState spec.key spec.service) := rfl
    refine ⟨healthCheck_inv_step hinv hregister fun index he => (nomatch he), haccounted.register hinv.places _ _,
      staged_registering rfl (hstaged.registering _ _ _ hstage).register⟩
  | commit hstage => exact ⟨hinv, haccounted, staged_stopping rfl (hstaged.registering _ _ _ hstage).commit⟩
  | @discard removed next index d hstage hd =>
    have hdiscard : s.healthCheck.Step (.discard index) (s.healthCheck.discardState index d) :=
      Option.map_eq_some_iff.mpr ⟨d, hd, rfl⟩
    exact ⟨healthCheck_inv_step hinv hdiscard fun index he => (nomatch he), haccounted.discard hinv.places hd,
      staged_stopping hstage ((hstaged.stopping _ _ hstage).congr rfl rfl)⟩
  | @unregister key registration rest next hstage hd =>
    have hunregister : s.healthCheck.Step (.unregister key registration)
        { s.healthCheck with registry := (s.healthCheck.registry.unregisterUpstream key registration).1 } := rfl
    exact ⟨healthCheck_inv_step hinv hunregister fun index he => (nomatch he), haccounted.unregister hinv.places _ _,
      staged_stopping rfl (hstaged.stopping _ _ hstage).unregister⟩
  | settle hstage hd => exact ⟨hinv, haccounted, staged_idle rfl ((hstaged.stopping _ _ hstage).settle hd)⟩

section
variable {M : Matchit} {ext : Externals} {ls : List RuntimeAction}

theorem inv_run (r : RunMeeting (Step F) Init (Operates M ext) ls s) : Inv F s := by
  refine r.invariant (I := fun _ t => Inv F t) (fun _ h => inv_init h) ?_
  intro ls s a s' _ h hok hs
  exact inv_step h hok hs

/-- At no moment of a publication is a check of the current snapshot without its registration, and that has not been
told to stop. -/
theorem current_checks_registered (r : RunMeeting (Step F) Init (Operates M ext) ls s) :
    ∀ spec ∈ collectHealthChecks F s.current, ∃ generation, generation ∉ s.healthCheck.registry.signalled ∧
      (s.healthCheck.registry.upstreams.lookup spec.key = some ⟨generation, spec.service⟩ ∨
        ∃ d ∈ s.healthCheck.displaced, d.id = spec.key ∧ d.registered = ⟨generation, spec.service⟩) := by
  intro spec hspec
  obtain ⟨-, haccounted, hstaged⟩ := inv_run r
  suffices h : ∃ generation, s.entry spec.key = some ⟨generation, spec.service⟩ ∨
      ∃ d ∈ s.healthCheck.displaced, d.id = spec.key ∧ d.registered = ⟨generation, spec.service⟩ by
    obtain ⟨generation, h⟩ := h
    refine ⟨generation, haccounted.running (spec.key, generation) (h.imp (fun he => ?_) fun hd => ?_), h⟩
    · exact ⟨_, he, rfl⟩
    · obtain ⟨d, hd, hid, hreg⟩ := hd
      exact List.mem_map.mpr ⟨d, hd, Prod.ext hid (congrArg (·.generation) hreg)⟩
  have hregistered {e : ActiveHealthCheckEntry Allocation} (he : spec.Is e) :
      e.registered = ⟨e.registration.generation, spec.service⟩ := by
    rw [← he.2]
    rfl
  cases hstage : s.stage with
  | idle =>
    obtain ⟨hactive, he, -⟩ := hstaged.idle hstage
    obtain ⟨e, hl, hspec⟩ := hactive.covers spec hspec
    refine ⟨e.registration.generation, .inl ?_⟩
    rw [he, hl, ← hregistered hspec]
    rfl
  | registering snapshot pending next =>
    obtain ⟨hactive, -, -, -, hheld⟩ := hstaged.registering _ _ _ hstage
    obtain ⟨e, hl, hspec⟩ := hactive.covers spec hspec
    refine ⟨e.registration.generation, ?_⟩
    rw [← hregistered hspec]
    exact hheld spec.key e hl
  | stopping removed next =>
    obtain ⟨hactivates, he, -, -⟩ := hstaged.stopping _ _ hstage
    obtain ⟨e, hl, hspec⟩ := hactivates.covers spec hspec
    refine ⟨e.registration.generation, .inl ?_⟩
    rw [he spec.key e hl, ← hregistered hspec]

/-- When no publication is on its way the registry holds the checks of the current snapshot and no others, every other
registration ever made has been told to stop, and with all updates taken the executor has a task for each check and no
task besides. -/
theorem publication_settles (r : RunMeeting (Step F) Init (Operates M ext) ls s) (hidle : s.stage = .idle) :
    (∀ key service, (∃ generation, s.healthCheck.registry.upstreams.lookup key = some ⟨generation, service⟩) ↔
      ∃ spec ∈ collectHealthChecks F s.current, spec.key = key ∧ spec.service = service) ∧
    (∀ generation, 1 ≤ generation → generation < s.healthCheck.registry.nextGeneration →
      (generation ∈ s.healthCheck.registry.signalled ↔ ¬ ∃ key, s.healthCheck.registry.Registered (key, generation))) ∧
    (s.healthCheck.Quiescent → ∀ k, s.healthCheck.Owns k ↔ s.healthCheck.registry.Registered k) := by
  obtain ⟨hinv, haccounted, hstaged⟩ := inv_run r
  obtain ⟨hactive, hentry, hdisplaced⟩ := hstaged.idle hidle
  have hnone (k : TaskKey) : k ∉ s.healthCheck.displacedKeys := by
    unfold HealthCheckState.displacedKeys
    rw [hdisplaced]
    exact List.not_mem_nil
  refine ⟨fun key service => ?_, fun generation hpos hlt => ?_, fun hq k => ?_⟩
  · constructor
    · intro h
      obtain ⟨generation, hl⟩ := h
      obtain ⟨e, he, hreg⟩ := Option.map_eq_some_iff.mp ((hentry key).symm.trans hl)
      obtain ⟨spec, hspec, rfl⟩ := hactive.only key e he
      obtain ⟨e', he', hIs⟩ := hactive.covers spec hspec
      cases Option.some.inj (he'.symm.trans he)
      exact ⟨spec, hspec, rfl, hIs.2.symm.trans (congrArg (·.loadBalancer) hreg)⟩
    · intro h
      obtain ⟨spec, hspec, rfl, rfl⟩ := h
      obtain ⟨e, he, hIs⟩ := hactive.covers spec hspec
      refine ⟨e.registration.generation, (hentry spec.key).trans (Option.map_eq_some_iff.mpr ⟨e, he, ?_⟩)⟩
      rw [← hIs.2]
      rfl
  · constructor
    · intro hs h
      obtain ⟨key, hk⟩ := h
      exact haccounted.running _ (.inl hk) hs
    · intro h
      refine (haccounted.issued generation hpos hlt).resolve_left fun hk => h ?_
      obtain ⟨k, hk, rfl⟩ := hk
      exact ⟨k.1, hk.resolve_right (hnone k)⟩
  · obtain ⟨rcv, hr, hdrained, hwork⟩ := hq
    have hcov := hinv.covered rcv hr
    constructor
    · intro hk
      refine (hcov.stopped k hk).resolve_right fun hor => (hor.resolve_left (hnone k)).elim ?_ fun hs => ?_
      · exact Receiver.not_expects_of_drained hdrained _
      · rw [hwork] at hs
        simp at hs
    · intro hk
      refine (hcov.started k hk).resolve_right fun hs => hs.elim ?_ fun hs => ?_
      · exact Receiver.not_expects_of_drained hdrained _
      · rw [hwork] at hs
        simp at hs

end

/-! ## One publication -/

/-- No other publication begins, and the process does not shut down. -/
def Completes (_ : List RuntimeAction) (_ : RuntimeStore) (a : RuntimeAction) : Prop :=
  (∀ snapshot, a ≠ .publish snapshot) ∧ a ≠ .shutdown

/-- The new entry of a check is the one it had, or there was none to keep and its registration is new. -/
def Carried (s : RuntimeStore) (spec : HealthCheckSpec Allocation) (e : ActiveHealthCheckEntry Allocation) : Prop :=
  s.active.kept spec = some e ∨
    s.active.kept spec = none ∧ s.healthCheck.registry.nextGeneration ≤ e.registration.generation

def CarriesAll (F : FingerprintHash) (s : RuntimeStore) (snapshot : RuntimeSnapshot) (next : ActiveHealthCheckSet Allocation) :
    Prop :=
  ∀ spec ∈ collectHealthChecks F snapshot, ∀ e, next.lookup spec.key = some e → Carried s spec e

/-- What holds since a publication began. -/
structure Publishing (F : FingerprintHash) (s : RuntimeStore) (snapshot : RuntimeSnapshot) (t : RuntimeStore) : Prop where
  generations : s.healthCheck.registry.nextGeneration ≤ t.healthCheck.registry.nextGeneration
  registering : ∀ snapshot' pending next, t.stage = .registering snapshot' pending next →
    snapshot' = snapshot ∧ t.active = s.active ∧ CarriesAll F s snapshot next
  stopping : ∀ removed next, t.stage = .stopping removed next → t.current = snapshot ∧ CarriesAll F s snapshot next
  idle : t.stage = .idle → t.current = snapshot ∧ CarriesAll F s snapshot t.active

section
variable {snapshot : RuntimeSnapshot} {t t' : RuntimeStore} {spec : HealthCheckSpec Allocation}
  {pending : List (HealthCheckSpec Allocation)} {next : ActiveHealthCheckSet Allocation}

theorem CarriesAll.insert (h : CarriesAll F s snapshot next) (ht : t.Registering F snapshot (spec :: pending) next)
    {e : ActiveHealthCheckEntry Allocation} (he : Carried s spec e) : CarriesAll F s snapshot (next.insert spec.key e) := by
  intro spec' hspec' e' hl
  rw [HashMap.lookup_insert] at hl
  by_cases hk : spec'.key = spec.key
  · rw [if_pos hk] at hl
    cases hl
    obtain ⟨done, hdone, -⟩ := ht.activates
    have hspec : spec ∈ collectHealthChecks F snapshot := hdone ▸ List.mem_append_right _ List.mem_cons_self
    rwa [List.inj_on_of_nodup_map ht.nodup hspec' hspec hk]
  · rw [if_neg hk] at hl
    exact h spec' hspec' e' hl

theorem publishing_registering (hs : t.stage = .registering snapshot pending next)
    (hg : s.healthCheck.registry.nextGeneration ≤ t.healthCheck.registry.nextGeneration) (ha : t.active = s.active)
    (h : CarriesAll F s snapshot next) : Publishing F s snapshot t := by
  refine ⟨hg, fun _ _ _ he => ?_, fun _ _ he => (nomatch hs.symm.trans he), fun he => (nomatch hs.symm.trans he)⟩
  cases hs.symm.trans he
  exact ⟨rfl, ha, h⟩

theorem publishing_stopping {removed : List (String × HealthCheckRegistration)} (hs : t.stage = .stopping removed next)
    (hg : s.healthCheck.registry.nextGeneration ≤ t.healthCheck.registry.nextGeneration)
    (h : t.current = snapshot ∧ CarriesAll F s snapshot next) : Publishing F s snapshot t := by
  refine ⟨hg, fun _ _ _ he => (nomatch hs.symm.trans he), fun _ _ he => ?_, fun he => (nomatch hs.symm.trans he)⟩
  cases hs.symm.trans he
  exact h

theorem publishing_step {a : RuntimeAction} {ls : List RuntimeAction} (hinv : Inv F t) (h : Publishing F s snapshot t)
    (hok : Completes ls t a) (hs : Step F t a t') : Publishing F s snapshot t' := by
  cases piece_of_step hs with
  | move ha hmove =>
    have hsame := HealthCheckState.sameRegistrations_of_move ha hok.2 hmove
    exact ⟨hsame.nextGeneration ▸ h.generations, h.registering, h.stopping, h.idle⟩
  | publish hstage => exact absurd rfl (hok.1 _)
  | keep hstage hk =>
    obtain ⟨rfl, hactive, hc⟩ := h.registering _ _ _ hstage
    refine publishing_registering rfl h.generations hactive (hc.insert (hinv.staged.registering _ _ _ hstage) (.inl ?_))
    rw [← hactive]
    exact hk
  | @register snapshot' spec pending next hstage hk =>
    obtain ⟨rfl, hactive, hc⟩ := h.registering _ _ _ hstage
    refine publishing_registering rfl (Nat.le_succ_of_le h.generations) hactive
      (hc.insert (hinv.staged.registering _ _ _ hstage) (.inr ⟨?_, h.generations⟩))
    rw [← hactive]
    exact hk
  | commit hstage =>
    obtain ⟨rfl, -, hc⟩ := h.registering _ _ _ hstage
    exact publishing_stopping rfl h.generations ⟨rfl, hc⟩
  | discard hstage hd => exact publishing_stopping hstage h.generations (h.stopping _ _ hstage)
  | @unregister key registration rest next hstage hd =>
    refine publishing_stopping rfl ?_ (h.stopping _ _ hstage)
    refine h.generations.trans (Nat.le_of_eq ?_)
    cases HealthCheckRegistry.unregister_cases t.healthCheck.registry key registration with
    | inl he =>
      show _ = (t.healthCheck.registry.unregisterUpstream key registration).1.nextGeneration
      rw [he]
    | inr he =>
      show _ = (t.healthCheck.registry.unregisterUpstream key registration).1.nextGeneration
      rw [he.2]
      rfl
  | settle hstage hd =>
    exact ⟨h.generations, fun _ _ _ he => (nomatch he), fun _ _ he => (nomatch he), fun _ => h.stopping _ _ hstage⟩

end

/-- The check of the old snapshot under the same key has the same fingerprint and the same load balancer. -/
def Unchanged (F : FingerprintHash) (old new : RuntimeSnapshot) (key : String) : Prop :=
  ∃ spec ∈ collectHealthChecks F old, ∃ spec' ∈ collectHealthChecks F new,
    spec.key = key ∧ spec'.key = key ∧ spec.fingerprint = spec'.fingerprint ∧ spec.service = spec'.service

section
variable {M : Matchit} {ext : Externals} {past ls : List RuntimeAction} {snapshot : RuntimeSnapshot}
  {s₁ : RuntimeStore}

/-- The entry of an unchanged check is kept. -/
theorem kept_of_unchanged (h : s.Settled F) {spec : HealthCheckSpec Allocation} (hspec : spec ∈ collectHealthChecks F snapshot)
    (hn : ((collectHealthChecks F snapshot).map (·.key)).Nodup) (hu : Unchanged F s.current snapshot spec.key) :
    ∃ e, s.active.kept spec = some e := by
  obtain ⟨old, hold, spec', hspec', hkey, hkey', hfingerprint, hservice⟩ := hu
  cases List.inj_on_of_nodup_map hn hspec' hspec hkey'
  obtain ⟨e, he, hIs⟩ := h.active.covers old hold
  exact ⟨e, ActiveHealthCheckSet.kept_eq_some.mpr ⟨hkey ▸ he, hIs.1.trans hfingerprint, hIs.2.trans hservice⟩⟩

theorem unchanged_of_kept (h : s.Settled F) {spec : HealthCheckSpec Allocation} (hspec : spec ∈ collectHealthChecks F snapshot)
    {e : ActiveHealthCheckEntry Allocation} (he : s.active.kept spec = some e) : Unchanged F s.current snapshot spec.key := by
  obtain ⟨hl, hIs⟩ := ActiveHealthCheckSet.kept_eq_some.mp he
  obtain ⟨old, hold, hkey⟩ := h.active.only spec.key e hl
  obtain ⟨e', hl', hIs'⟩ := h.active.covers old hold
  rw [hkey] at hl'
  cases Option.some.inj (hl'.symm.trans hl)
  exact ⟨old, hold, spec, hspec, hkey, rfl, hIs'.1.symm.trans hIs.1, hIs'.2.symm.trans hIs.2⟩

theorem publishing_run (r : RunMeeting (Step F) Init (Operates M ext) past s) (hpublish : Step F s (.publish snapshot) s₁)
    (hc : ∃ config, Compiled M ext config snapshot) (r' : RunMeeting (Step F) (fun t => t = s₁) Completes ls s') :
    s.Settled F ∧ Inv F s' ∧ Publishing F s snapshot s' := by
  have hinv := inv_run r
  obtain ⟨hidle, hs₁⟩ : s.stage = .idle ∧
      s₁ = { s with stage := .registering snapshot (collectHealthChecks F snapshot) ∅ } := by
    cases piece_of_step hpublish with
    | move ha => cases ha
    | publish hstage => exact ⟨hstage, rfl⟩
  refine ⟨hinv.staged.idle hidle, r'.invariant (I := fun _ t => Inv F t ∧ Publishing F s snapshot t) ?_ ?_⟩
  · intro t ht
    subst ht
    have hoperates : Operates M ext past s (.publish snapshot) := by
      refine ⟨fun x hx => ?_, fun hx => (nomatch hx)⟩
      cases hx
      exact hc
    refine ⟨inv_step hinv hoperates hpublish, ?_⟩
    subst hs₁
    exact publishing_registering rfl (Nat.le_refl _) rfl fun spec _ e he => (nomatch he)
  · intro ls t a t' _ h hok hs
    have hoperates : Operates M ext ls t a := ⟨fun x hx => absurd hx (hok.1 x), hok.2⟩
    exact ⟨inv_step h.1 hoperates hs, publishing_step h.1 h.2 hok hs⟩

theorem Publishing.keeps (h : Publishing F s snapshot s') (hs : s.Settled F) (hinv : Inv F s')
    (hn : ((collectHealthChecks F snapshot).map (·.key)).Nodup) {key : String} (hu : Unchanged F s.current snapshot key) :
    s'.entry key = s.entry key := by
  obtain ⟨-, -, spec, hspec, -, rfl, -⟩ := id hu
  obtain ⟨e, hk⟩ := kept_of_unchanged hs hspec hn hu
  have hl := (ActiveHealthCheckSet.kept_eq_some.mp hk).1
  rw [hs.entry, hl]
  have hsame {next : ActiveHealthCheckSet Allocation} (hc : CarriesAll F s snapshot next)
      {e' : ActiveHealthCheckEntry Allocation} (he' : next.lookup spec.key = some e') : e' = e := by
    cases hc spec hspec e' he' with
    | inl h => exact Option.some.inj (h.symm.trans hk)
    | inr h => exact absurd (h.1.symm.trans hk) (fun h => (nomatch h))
  cases hstage : s'.stage with
  | idle =>
    obtain ⟨hcurrent, hcarries⟩ := h.idle hstage
    obtain ⟨hactive, hentry, -⟩ := hinv.staged.idle hstage
    obtain ⟨e', he', -⟩ := hactive.covers spec (hcurrent.symm ▸ hspec)
    rw [hentry, he', hsame hcarries he']
  | registering snapshot' pending next =>
    obtain ⟨-, hactive, hcarries⟩ := h.registering _ _ _ hstage
    rw [(hinv.staged.registering _ _ _ hstage).entry, hactive, hl]
    cases he' : next.lookup spec.key with
    | none => rfl
    | some e' => rw [hsame hcarries he', Option.some_or]
  | stopping removed next =>
    obtain ⟨hcurrent, hcarries⟩ := h.stopping _ _ hstage
    obtain ⟨hactivates, hentry, -, -⟩ := hinv.staged.stopping _ _ hstage
    obtain ⟨e', he', -⟩ := hactivates.covers spec (hcurrent.symm ▸ hspec)
    rw [hentry _ _ he', hsame hcarries he']
    rfl

/-- After the publication an entry whose registration is not new was kept. -/
theorem Publishing.old_of_lt (h : Publishing F s snapshot s') (hs : s.Settled F) (hinv : Inv F s') (hidle : s'.stage = .idle)
    {key : String} {r : RegisteredUpstream Allocation} (hr : s'.entry key = some r)
    (hlt : r.generation < s.healthCheck.registry.nextGeneration) :
    s.entry key = some r ∧ Unchanged F s.current snapshot key := by
  obtain ⟨hcurrent, hcarries⟩ := h.idle hidle
  obtain ⟨hactive, hentry, -⟩ := hinv.staged.idle hidle
  obtain ⟨e, he, rfl⟩ := Option.map_eq_some_iff.mp ((hentry key).symm.trans hr)
  obtain ⟨spec, hspec, rfl⟩ := hactive.only key e he
  rw [hcurrent] at hspec
  cases hcarries spec hspec e he with
  | inl hk =>
    have hl := (ActiveHealthCheckSet.kept_eq_some.mp hk).1
    exact ⟨(hs.entry spec.key).trans (congrArg _ hl), unchanged_of_kept hs hspec hk⟩
  | inr hfresh => exact absurd hfresh.2 (Nat.not_le.mpr hlt)

/-- Since a publication began an unchanged check has kept its registration at every moment. When the publication is over
a check that was registered before is registered as it was exactly when it is unchanged, and otherwise it has been told
to stop. -/
theorem publication_keeps_unchanged (r : RunMeeting (Step F) Init (Operates M ext) past s)
    (hpublish : Step F s (.publish snapshot) s₁) (hc : ∃ config, Compiled M ext config snapshot)
    (r' : RunMeeting (Step F) (fun t => t = s₁) Completes ls s') :
    (∀ key, Unchanged F s.current snapshot key →
      s'.healthCheck.registry.upstreams.lookup key = s.healthCheck.registry.upstreams.lookup key) ∧
    (s'.stage = .idle → s'.current = snapshot ∧
      ∀ key old, s.healthCheck.registry.upstreams.lookup key = some old →
        (s'.healthCheck.registry.upstreams.lookup key = some old ↔ Unchanged F s.current snapshot key) ∧
        (¬ Unchanged F s.current snapshot key → old.generation ∈ s'.healthCheck.registry.signalled)) := by
  obtain ⟨hs, hinv', hpublishing⟩ := publishing_run r hpublish hc r'
  have hinv := inv_run r
  obtain ⟨config, hc⟩ := hc
  have hn := nodup_keys_collect F hc.scopesSound
  have hkeeps (key : String) (hu : Unchanged F s.current snapshot key) : s'.entry key = s.entry key :=
    hpublishing.keeps hs hinv' hn hu
  refine ⟨hkeeps, fun hidle => ⟨(hpublishing.idle hidle).1, fun key old hl => ?_⟩⟩
  have hregistered : s.healthCheck.registry.Registered (key, old.generation) := ⟨old, hl, rfl⟩
  have hlt := hinv.healthCheck.places.registered_lt _ hregistered
  refine ⟨⟨fun hl' => ?_, fun hu => (hkeeps key hu).trans hl⟩, fun hu => ?_⟩
  · exact (hpublishing.old_of_lt hs hinv' hidle hl' hlt).2
  · refine (hinv'.accounted.issued _ (hinv.accounted.positive _ (.inl hregistered))
      (Nat.lt_of_lt_of_le hlt hpublishing.generations)).resolve_left fun hplaced => ?_
    obtain ⟨k, hk, hg⟩ := hplaced
    have hk : s'.healthCheck.registry.Registered k := by
      refine hk.resolve_right ?_
      unfold HealthCheckState.displacedKeys
      rw [(hinv'.staged.idle hidle).displaced]
      exact List.not_mem_nil
    obtain ⟨r, hr, hrk⟩ := hk
    have hrlt : r.generation < s.healthCheck.registry.nextGeneration := by
      rw [hrk, hg]
      exact hlt
    obtain ⟨hr₀, hu'⟩ := hpublishing.old_of_lt hs hinv' hidle hr hrlt
    have hkey := hinv.accounted.distinct k _ (.inl ⟨r, hr₀, hrk⟩) (.inl hregistered) hg
    subst hkey
    exact hu hu'

end

/-! ## Two publications of one upstream -/

def tiedHash : FingerprintHash where
  hash bytes := bytes.foldl (fun h b => h * 31 + b.toUInt64) 7
  ryu := plainRyu
  sha _ := Upstream.emptyDigest

/-- The first set compiled, and the second over it: the upstream is reused with its load balancer. -/
theorem compiled_tied : ∃ first second, Compiled Matchit.staticFirst tiedContext.ext tiedFirst first ∧
    Compiled Matchit.staticFirst tiedContext.ext tiedSecond second ∧
    ∃ spec, collectHealthChecks tiedHash first = [spec] ∧ collectHealthChecks tiedHash second = [spec] := by
  have h := @Compiled.next Matchit.staticFirst tiedContext.ext {} tiedFirst .empty _ _ tiedContext _ 1 .empty
    identified_tiedFirst rfl rfl rfl rfl
  have h' := @Compiled.next Matchit.staticFirst tiedContext.ext tiedFirst tiedSecond _ _ _ reusingContext _ 2 h
    identified_tiedSecond rfl rfl rfl rfl
  exact ⟨_, _, h, h', _, rfl, rfl⟩

/-- A publication of one check. -/
def publishing (snapshot : RuntimeSnapshot) : List RuntimeAction :=
  [.publish snapshot, .proceed, .proceed, .proceed]

section
variable {snapshot snapshot' : RuntimeSnapshot} {spec : HealthCheckSpec Allocation}

def onlyActive (spec : HealthCheckSpec Allocation) : ActiveHealthCheckSet Allocation :=
  (∅ : ActiveHealthCheckSet Allocation).insert spec.key
    { fingerprint := spec.fingerprint, registration := ⟨1⟩, service := spec.service }

/-- The state after a publication of one check, the first one. -/
def published (snapshot : RuntimeSnapshot) (spec : HealthCheckSpec Allocation) : RuntimeStore where
  current := snapshot
  status := ({} : StatusStore).setPublishedRevision snapshot.revision
  active := onlyActive spec
  healthCheck := ({} : HealthCheckState Allocation).registerState spec.key spec.service

/-- The same check is published again. -/
def republishing (snapshot snapshot' : RuntimeSnapshot) (spec : HealthCheckSpec Allocation) : RuntimeStore :=
  { published snapshot spec with stage := .registering snapshot' [spec] ∅ }

def republished (snapshot snapshot' : RuntimeSnapshot) (spec : HealthCheckSpec Allocation) : RuntimeStore :=
  { published snapshot spec with
    current := snapshot'
    status := (published snapshot spec).status.setPublishedRevision snapshot'.revision }

theorem stepAll_first (h : collectHealthChecks F snapshot = [spec]) :
    stepAll (step F) {} (publishing snapshot) = some (published snapshot spec) := by
  simp only [publishing, stepAll, step, RuntimeAction.executorAction, h, Option.bind_some]
  rfl

theorem kept_published : (onlyActive spec).kept spec =
    some { fingerprint := spec.fingerprint, registration := ⟨1⟩, service := spec.service } := by
  refine ActiveHealthCheckSet.kept_eq_some.mpr ⟨?_, rfl, rfl⟩
  exact (HashMap.lookup_insert _ _ _ _).trans (if_pos rfl)

theorem step_publish (h : collectHealthChecks F snapshot' = [spec]) :
    Step F (published snapshot spec) (.publish snapshot') (republishing snapshot snapshot' spec) := by
  unfold republishing
  rw [← h]
  rfl

theorem removed_self (active : ActiveHealthCheckSet Allocation) : active.removed active = [] := by
  unfold ActiveHealthCheckSet.removed
  rw [List.filter_eq_nil_iff.mpr fun e he => ?_]
  · rfl
  · rw [(HashMap.mem_entries_iff _ _ _).mp he]
    simp

theorem stepAll_second : stepAll (step F) (republishing snapshot snapshot' spec) [.proceed, .proceed, .proceed] =
    some (republished snapshot snapshot' spec) := by
  have hkeep : step F (republishing snapshot snapshot' spec) .proceed =
      some { published snapshot spec with stage := .registering snapshot' [] (onlyActive spec) } := by
    simp only [step, RuntimeAction.executorAction, proceed, republishing, register]
    rw [show (published snapshot spec).active = onlyActive spec from rfl, kept_published]
    rfl
  have hcommit : step F { published snapshot spec with stage := .registering snapshot' [] (onlyActive spec) } .proceed =
      some { republished snapshot snapshot' spec with stage := .stopping [] (onlyActive spec) } := by
    simp only [step, RuntimeAction.executorAction, proceed, commit]
    rw [show (published snapshot spec).active = onlyActive spec from rfl, removed_self]
    rfl
  simp only [stepAll, hkeep, hcommit, Option.bind_some]
  rfl

theorem run_published (hs : collectHealthChecks tiedHash snapshot = [spec]) {ext : Externals} {config : ResourceConfigSet}
    (h : Compiled Matchit.staticFirst ext config snapshot) :
    RunMeeting (Step tiedHash) Init (Operates Matchit.staticFirst ext) (publishing snapshot) (published snapshot spec) := by
  have hstart : Run (Step tiedHash) Init [] {} := .start rfl
  have hrun : Run (Step tiedHash) Init (publishing snapshot) (published snapshot spec) := hstart.stepAll (stepAll_first hs)
  refine hrun.meeting fun a ha _ _ => ?_
  unfold publishing at ha
  refine ⟨fun x hx => ?_, fun hx => ?_⟩
  · subst hx
    simp only [List.mem_cons, RuntimeAction.publish.injEq, reduceCtorEq, List.not_mem_nil, or_false] at ha
    exact ⟨config, ha ▸ h⟩
  · subst hx
    simp at ha

end

/-- While the second set is published the check of the first one has its registration. -/
theorem current_checks_tied : ∃ (s : RuntimeStore) (spec : HealthCheckSpec Allocation),
    spec ∈ collectHealthChecks tiedHash s.current ∧ s.stage ≠ .idle ∧
      ∃ generation, generation ∉ s.healthCheck.registry.signalled ∧
        (s.healthCheck.registry.upstreams.lookup spec.key = some ⟨generation, spec.service⟩ ∨
          ∃ d ∈ s.healthCheck.displaced, d.id = spec.key ∧ d.registered = ⟨generation, spec.service⟩) := by
  obtain ⟨first, second, h, h', spec, hs, hs'⟩ := compiled_tied
  have hspec : spec ∈ collectHealthChecks tiedHash first := hs ▸ List.mem_cons_self
  refine ⟨_, spec, hspec, ?_, current_checks_registered ((run_published hs h).snoc (step_publish hs') ⟨?_, ?_⟩) spec hspec⟩
  · intro he
    cases he
  · intro x hx
    cases hx
    exact ⟨_, h'⟩
  · intro hx
    cases hx

/-- After the first set is published its check is the only one registered. -/
theorem publication_settles_tied : ∃ (s : RuntimeStore) (spec : HealthCheckSpec Allocation),
    collectHealthChecks tiedHash s.current = [spec] ∧
      ∃ generation, s.healthCheck.registry.upstreams.lookup spec.key = some ⟨generation, spec.service⟩ := by
  obtain ⟨first, second, h, h', spec, hs, hs'⟩ := compiled_tied
  refine ⟨_, spec, hs, ((publication_settles (run_published hs h) rfl).1 _ _).mpr ⟨spec, ?_, rfl, rfl⟩⟩
  exact hs ▸ List.mem_cons_self

/-- After both are published the check is registered as it was after the first. -/
theorem publication_keeps_tied : ∃ (s s' : RuntimeStore) (spec : HealthCheckSpec Allocation),
    collectHealthChecks tiedHash s'.current = [spec] ∧ s'.stage = .idle ∧
      s'.healthCheck.registry.upstreams.lookup spec.key = s.healthCheck.registry.upstreams.lookup spec.key := by
  obtain ⟨first, second, h, h', spec, hs, hs'⟩ := compiled_tied
  have hstart : Run (Step tiedHash) (fun t => t = republishing first second spec) []
      (republishing first second spec) := .start rfl
  have hrest : RunMeeting (Step tiedHash) (fun t => t = republishing first second spec) Completes
      [.proceed, .proceed, .proceed] (republished first second spec) := by
    refine (hstart.stepAll stepAll_second).meeting fun a ha _ _ => ?_
    cases List.eq_of_mem_replicate (n := 3) ha
    exact ⟨fun _ he => (nomatch he), fun he => (nomatch he)⟩
  have hkept := (publication_keeps_unchanged (run_published hs h) (step_publish hs') ⟨_, h'⟩ hrest).1 spec.key
    ⟨spec, hs ▸ List.mem_cons_self, spec, hs' ▸ List.mem_cons_self, rfl, rfl, rfl, rfl⟩
  exact ⟨_, _, spec, hs', rfl, hkept⟩

end RuntimeStore

end Pingsix
