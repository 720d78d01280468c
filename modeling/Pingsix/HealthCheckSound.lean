import Mathlib.Data.List.InsertIdx
import Pingsix.HealthCheck
import Pingsix.Lib.System

/-!
# The tasks of the health-check executor

What each call changes in the registry, where a registration can be, and that the
executor's tasks follow the registry whatever updates it gets or misses.
-/

namespace Pingsix

variable {σ : Type}

/-! ## Registrations -/

/-- The registration is the current one of its id. -/
def HealthCheckRegistry.Registered (r : HealthCheckRegistry σ) (key : TaskKey) : Prop :=
  ∃ e, r.upstreams.lookup key.1 = some e ∧ e.generation = key.2

/-- The registration a displaced entry had. -/
def DisplacedHealthCheck.key (d : DisplacedHealthCheck σ) : TaskKey := (d.id, d.registered.generation)

namespace HealthCheckRegistry

variable {r : HealthCheckRegistry σ} {key : TaskKey}

theorem getUpstreamForStart_isSome :
    (r.getUpstreamForStart key.1 ⟨key.2⟩).isSome = true ↔ r.Registered key := by
  unfold getUpstreamForStart Registered
  cases r.upstreams.lookup key.1 with
  | none => simp
  | some e =>
    by_cases h : e.generation = key.2
    · simp [h]
    · simp [h]

theorem mem_registeredKeys : key ∈ HealthCheckExecutor.registeredKeys r ↔ r.Registered key := by
  unfold HealthCheckExecutor.registeredKeys getAllUpstreams Registered
  simp only [List.map_map, List.mem_map, Function.comp_apply]
  constructor
  · intro h
    obtain ⟨⟨id, e⟩, hm, rfl⟩ := h
    exact ⟨e, (HashMap.mem_entries_iff _ id e).mp hm, rfl⟩
  · intro h
    obtain ⟨e, hl, hg⟩ := h
    refine ⟨⟨key.1, e⟩, (HashMap.mem_entries_iff _ key.1 e).mpr hl, ?_⟩
    rw [hg]

theorem Registered.unique (h : r.Registered key) {generation : Nat} (h' : r.Registered (key.1, generation)) :
    generation = key.2 := by
  obtain ⟨e, hl, hg⟩ := h
  obtain ⟨e', hl', hg'⟩ := h'
  rw [hl] at hl'
  cases hl'
  exact hg'.symm.trans hg

/-! ## What the calls change -/

theorem registered_insert {id : String} {e : RegisteredUpstream σ} {ups : HashMap String (RegisteredUpstream σ)}
    (h : r.upstreams = ups.insert id e) :
    r.Registered key ↔ if key.1 = id then key.2 = e.generation else ∃ e, ups.lookup key.1 = some e ∧ e.generation = key.2 := by
  unfold Registered
  rw [h, HashMap.lookup_insert]
  by_cases hk : key.1 = id
  · simp [hk, eq_comm]
  · simp [hk]

theorem registered_register {id : String} {lb : σ} :
    (r.registerUpstream id lb).1.Registered key ↔ if key.1 = id then key.2 = r.nextGeneration else r.Registered key :=
  @registered_insert σ (r.registerUpstream id lb).1 key id ⟨r.nextGeneration, lb⟩ r.upstreams rfl

theorem registered_restore {d : DisplacedHealthCheck σ} :
    (d.restore r).Registered key ↔ if key.1 = d.id then key.2 = d.registered.generation else r.Registered key :=
  @registered_insert σ (d.restore r) key d.id d.registered r.upstreams rfl

theorem mem_displaced_register {id : String} {lb : σ} {d : DisplacedHealthCheck σ}
    (h : (r.registerUpstream id lb).2.2 = some d) :
    r.Registered d.key ∧ d.key.1 = id ∧ d.registration.generation = d.registered.generation := by
  obtain ⟨old, hl, rfl⟩ := Option.map_eq_some_iff.mp h
  exact ⟨⟨old, hl, rfl⟩, rfl, rfl⟩

/-- A current registration that a new one replaces is returned as displaced. -/
theorem displaced_of_registered {id : String} {lb : σ} (h : r.Registered key) (hid : key.1 = id) :
    ∃ d, (r.registerUpstream id lb).2.2 = some d ∧ d.key = key := by
  obtain ⟨e, hl, hg⟩ := h
  subst hid
  exact ⟨_, Option.map_eq_some_iff.mpr ⟨e, hl, rfl⟩, Prod.ext rfl hg⟩

/-- Unregistering changes nothing, or removes the registration and announces that. -/
theorem unregister_cases (r : HealthCheckRegistry σ) (id : String) (registration : HealthCheckRegistration) :
    (r.unregisterUpstream id registration).1 = r ∨
      r.Registered (id, registration.generation) ∧
        (r.unregisterUpstream id registration).1 =
          (({ r with upstreams := r.upstreams.erase id }.signal registration.generation).notify
            (.removed id registration)) := by
  unfold unregisterUpstream
  cases hl : r.upstreams.lookup id with
  | none => exact .inl rfl
  | some e =>
    by_cases hg : e.generation = registration.generation
    · refine .inr ⟨⟨e, hl, hg⟩, ?_⟩
      simp only [if_pos hg]
    · left
      simp only [if_neg hg]

theorem registered_congr {s : HealthCheckRegistry σ} (h : s.upstreams = r.upstreams) :
    s.Registered key ↔ r.Registered key := by
  unfold Registered
  rw [h]

theorem registered_erase {id : String} {s : HealthCheckRegistry σ} (h : s.upstreams = r.upstreams.erase id) :
    s.Registered key ↔ key.1 ≠ id ∧ r.Registered key := by
  unfold Registered
  rw [h, HashMap.lookup_erase]
  by_cases hk : key.1 = id
  · simp [hk]
  · simp [hk]

end HealthCheckRegistry

open HealthCheckRegistry

namespace HealthCheckState

/-! ## Where a registration is -/

def displacedKeys (s : HealthCheckState σ) : List TaskKey := s.displaced.map (·.key)

/-- A registration is current, or held as displaced, or neither any more. -/
structure Places (s : HealthCheckState σ) : Prop where
  registered_lt : ∀ k, s.registry.Registered k → k.2 < s.registry.nextGeneration
  displaced_lt : ∀ k ∈ s.displacedKeys, k.2 < s.registry.nextGeneration
  displaced_not : ∀ k ∈ s.displacedKeys, ¬ s.registry.Registered k
  nodup : s.displacedKeys.Nodup
  generation : ∀ d ∈ s.displaced, d.registration.generation = d.registered.generation

/-- Neither current nor held any more. -/
def Retired (s : HealthCheckState σ) (k : TaskKey) : Prop :=
  k.2 < s.registry.nextGeneration ∧ ¬ s.registry.Registered k ∧ k ∉ s.displacedKeys

/-- Erasing a position of a list without duplicates removes what stood there and nothing else. -/
theorem mem_eraseIdx_of_nodup {α : Type} {l : List α} (hn : l.Nodup) {i : Nat} {a : α} (h : l[i]? = some a) (b : α) :
    b ∈ l.eraseIdx i ↔ b ∈ l ∧ b ≠ a := by
  rw [List.mem_eraseIdx_iff_getElem?]
  constructor
  · intro hb
    obtain ⟨j, hj, hb⟩ := hb
    refine ⟨List.mem_of_getElem? hb, fun he => hj ?_⟩
    obtain ⟨hi, -⟩ := List.getElem?_eq_some_iff.mp h
    exact ((List.getElem?_inj hi hn).mp (by rw [h, hb, he])).symm
  · intro hb
    obtain ⟨j, hj⟩ := List.mem_iff_getElem?.mp hb.1
    refine ⟨j, fun he => hb.2 ?_, hj⟩
    rw [he, h] at hj
    exact (Option.some.inj hj).symm

theorem mem_displacedKeys_eraseIdx {s : HealthCheckState σ} {index : Nat} {d : DisplacedHealthCheck σ}
    (hd : s.displaced[index]? = some d) (hn : s.displacedKeys.Nodup) (k : TaskKey) :
    k ∈ (s.displaced.eraseIdx index).map (·.key) ↔ k ∈ s.displacedKeys ∧ k ≠ d.key := by
  have hkey : s.displacedKeys[index]? = some d.key := by simp [displacedKeys, hd]
  rw [← List.eraseIdx_map]
  exact mem_eraseIdx_of_nodup hn hkey k

theorem Places.congr {s s' : HealthCheckState σ} (h : Places s) (hu : s'.registry.upstreams = s.registry.upstreams)
    (hn : s'.registry.nextGeneration = s.registry.nextGeneration) (hd : s'.displaced = s.displaced) : Places s' where
  registered_lt k hk := by
    rw [hn]
    exact h.registered_lt k ((registered_congr hu).mp hk)
  displaced_lt k hk := by
    rw [hn]
    rw [displacedKeys, hd] at hk
    exact h.displaced_lt k hk
  displaced_not k hk hr := by
    rw [displacedKeys, hd] at hk
    exact h.displaced_not k hk ((registered_congr hu).mp hr)
  nodup := by
    rw [displacedKeys, hd]
    exact h.nodup
  generation := by
    rw [hd]
    exact h.generation

section
variable {s : HealthCheckState σ}

def registerState (s : HealthCheckState σ) (id : String) (lb : σ) : HealthCheckState σ :=
  { s with registry := (s.registry.registerUpstream id lb).1
           displaced := (s.registry.registerUpstream id lb).2.2.toList ++ s.displaced }

theorem mem_displacedKeys_register {id : String} {lb : σ} {k : TaskKey} :
    k ∈ (s.registerState id lb).displacedKeys ↔ s.registry.Registered k ∧ k.1 = id ∨ k ∈ s.displacedKeys := by
  unfold displacedKeys registerState
  rw [List.map_append, List.mem_append]
  refine or_congr_left ?_
  constructor
  · intro hk
    obtain ⟨d, hd, rfl⟩ := List.mem_map.mp hk
    obtain ⟨hr, hid, -⟩ := mem_displaced_register (Option.mem_toList.mp hd)
    exact ⟨hr, hid⟩
  · intro hk
    obtain ⟨d, hd, rfl⟩ := @displaced_of_registered σ s.registry k id lb hk.1 hk.2
    exact List.mem_map.mpr ⟨d, Option.mem_toList.mpr hd, rfl⟩

theorem places_register (h : Places s) (id : String) (lb : σ) : Places (s.registerState id lb) where
  registered_lt k hk := by
    have hk := registered_register.mp hk
    show k.2 < s.registry.nextGeneration + 1
    split at hk
    · omega
    · exact Nat.lt_succ_of_lt (h.registered_lt k hk)
  displaced_lt k hk := by
    show k.2 < s.registry.nextGeneration + 1
    cases mem_displacedKeys_register.mp hk with
    | inl hk => exact Nat.lt_succ_of_lt (h.registered_lt k hk.1)
    | inr hk => exact Nat.lt_succ_of_lt (h.displaced_lt k hk)
  displaced_not k hk hr := by
    have hr := registered_register.mp hr
    have hlt : k.2 < s.registry.nextGeneration := by
      cases mem_displacedKeys_register.mp hk with
      | inl hk => exact h.registered_lt k hk.1
      | inr hk => exact h.displaced_lt k hk
    by_cases hid : k.1 = id
    · rw [if_pos hid] at hr
      omega
    · rw [if_neg hid] at hr
      cases mem_displacedKeys_register.mp hk with
      | inl hk => exact hid hk.2
      | inr hk => exact h.displaced_not k hk hr
  nodup := by
    show ((((s.registry.registerUpstream id lb).2.2).toList ++ s.displaced).map (·.key)).Nodup
    cases hd : (s.registry.registerUpstream id lb).2.2 with
    | none => exact h.nodup
    | some d =>
      refine List.nodup_cons.mpr ⟨fun hm => ?_, h.nodup⟩
      exact h.displaced_not d.key hm (mem_displaced_register hd).1
  generation d hd := by
    cases List.mem_append.mp hd with
    | inl hd => exact (mem_displaced_register (Option.mem_toList.mp hd)).2.2
    | inr hd => exact h.generation d hd

theorem places_unregister (h : Places s) (id : String) (registration : HealthCheckRegistration) :
    Places { s with registry := (s.registry.unregisterUpstream id registration).1 } := by
  cases unregister_cases s.registry id registration with
  | inl he =>
    rw [he]
    exact h
  | inr hr =>
    have hsub : ∀ k, (s.registry.unregisterUpstream id registration).1.Registered k → s.registry.Registered k := by
      intro k hk
      rw [hr.2] at hk
      exact ((@registered_erase σ s.registry k id _ rfl).mp hk).2
    have hn : (s.registry.unregisterUpstream id registration).1.nextGeneration = s.registry.nextGeneration := by
      rw [hr.2]
      rfl
    exact { registered_lt := fun k hk => hn ▸ h.registered_lt k (hsub k hk)
            displaced_lt := fun k hk => hn ▸ h.displaced_lt k hk
            displaced_not := fun k hk hr => h.displaced_not k hk (hsub k hr)
            nodup := h.nodup
            generation := h.generation }

variable {index : Nat} {d : DisplacedHealthCheck σ}

def discardState (s : HealthCheckState σ) (index : Nat) (d : DisplacedHealthCheck σ) : HealthCheckState σ :=
  { s with registry := d.discard s.registry, displaced := s.displaced.eraseIdx index }

def restoreState (s : HealthCheckState σ) (index : Nat) (d : DisplacedHealthCheck σ) : HealthCheckState σ :=
  { s with registry := d.restore s.registry, displaced := s.displaced.eraseIdx index }

theorem places_discard (h : Places s) (hd : s.displaced[index]? = some d) : Places (s.discardState index d) where
  registered_lt := h.registered_lt
  displaced_lt k hk := h.displaced_lt k ((mem_displacedKeys_eraseIdx hd h.nodup k).mp hk).1
  displaced_not k hk := h.displaced_not k ((mem_displacedKeys_eraseIdx hd h.nodup k).mp hk).1
  nodup := by
    show ((s.displaced.eraseIdx index).map (·.key)).Nodup
    rw [← List.eraseIdx_map]
    exact h.nodup.eraseIdx index
  generation e he := h.generation e (List.mem_of_mem_eraseIdx he)

theorem key_mem_displacedKeys (hd : s.displaced[index]? = some d) : d.key ∈ s.displacedKeys :=
  List.mem_map_of_mem (List.mem_of_getElem? hd)

theorem places_restore (h : Places s) (hd : s.displaced[index]? = some d) : Places (s.restoreState index d) where
  registered_lt k hk := by
    have hk := registered_restore.mp hk
    show k.2 < s.registry.nextGeneration
    split at hk
    · rw [hk]
      exact h.displaced_lt d.key (key_mem_displacedKeys hd)
    · exact h.registered_lt k hk
  displaced_lt k hk := h.displaced_lt k ((mem_displacedKeys_eraseIdx hd h.nodup k).mp hk).1
  displaced_not k hk hr := by
    obtain ⟨hk, hne⟩ := (mem_displacedKeys_eraseIdx hd h.nodup k).mp hk
    have hr := registered_restore.mp hr
    by_cases hid : k.1 = d.id
    · rw [if_pos hid] at hr
      exact hne (Prod.ext hid hr)
    · rw [if_neg hid] at hr
      exact h.displaced_not k hk hr
  nodup := by
    show ((s.displaced.eraseIdx index).map (·.key)).Nodup
    rw [← List.eraseIdx_map]
    exact h.nodup.eraseIdx index
  generation e he := h.generation e (List.mem_of_mem_eraseIdx he)

end

/-! ## What the executor has and awaits -/

/-- The executor has a task for the registration. -/
def Owns (s : HealthCheckState σ) (k : TaskKey) : Prop := ∃ handle, s.executor.runningTasks.lookup k = some handle

/-- A task for the registration is still to be started. -/
def Starting (s : HealthCheckState σ) (r : Receiver RegistryUpdate) (k : TaskKey) : Prop :=
  r.Expects (.added k.1 ⟨k.2⟩) ∨ .startTask k ∈ s.executor.work ∨ .startRegistered ∈ s.executor.work ∨
    .resyncTasks ∈ s.executor.work

/-- The task for the registration is still to be stopped. -/
def Stopping (s : HealthCheckState σ) (r : Receiver RegistryUpdate) (k : TaskKey) : Prop :=
  r.Expects (.removed k.1 ⟨k.2⟩) ∨ .stopTask k ∈ s.executor.work ∨ .resyncTasks ∈ s.executor.work

/-- What holds between the registry, the updates on their way and the executor's tasks. -/
structure Covered (s : HealthCheckState σ) (r : Receiver RegistryUpdate) : Prop where
  started : ∀ k, s.registry.Registered k → s.Owns k ∨ s.Starting r k
  stopped : ∀ k, s.Owns k → s.registry.Registered k ∨ k ∈ s.displacedKeys ∨ s.Stopping r k
  announced : ∀ k, .stopTask k ∈ s.executor.work → s.registry.Registered k → r.Expects (.added k.1 ⟨k.2⟩)
  retired : ∀ k : TaskKey, .removed k.1 ⟨k.2⟩ ∈ r.pending → s.Retired k

/-- What a call on the registry has to respect: it announces what it adds and what it drops. -/
structure Announces (s s' : HealthCheckState σ) (r r' : Receiver RegistryUpdate) : Prop where
  executor : s'.executor = s.executor
  expects : ∀ u, r.Expects u → r'.Expects u
  added : ∀ k, s'.registry.Registered k → s.registry.Registered k ∨ r'.Expects (.added k.1 ⟨k.2⟩)
  dropped : ∀ k, s.registry.Registered k ∨ k ∈ s.displacedKeys →
    s'.registry.Registered k ∨ k ∈ s'.displacedKeys ∨ r'.Expects (.removed k.1 ⟨k.2⟩)
  removed : ∀ k : TaskKey, .removed k.1 ⟨k.2⟩ ∈ r'.pending → .removed k.1 ⟨k.2⟩ ∈ r.pending ∨ s'.Retired k
  retired : ∀ k, s.Retired k → s'.Retired k

theorem Covered.call {s s' : HealthCheckState σ} {r r' : Receiver RegistryUpdate} (h : Covered s r)
    (ha : Announces s s' r r') : Covered s' r' := by
  have howns : ∀ k, s'.Owns k ↔ s.Owns k := fun k => by rw [Owns, Owns, ha.executor]
  have hstarting : ∀ k, s.Starting r k → s'.Starting r' k := fun k hk => by
    rw [Starting, ha.executor]
    exact hk.imp_left (ha.expects _)
  have hstopping : ∀ k, s.Stopping r k → s'.Stopping r' k := fun k hk => by
    rw [Stopping, ha.executor]
    exact hk.imp_left (ha.expects _)
  constructor
  · intro k hk
    cases ha.added k hk with
    | inl hk => exact (h.started k hk).imp (howns k).mpr (hstarting k)
    | inr he => exact .inr (.inl he)
  · intro k hk
    rcases h.stopped k ((howns k).mp hk) with hr | hd | hs
    · exact (ha.dropped k (.inl hr)).imp_right (.imp_right .inl)
    · exact (ha.dropped k (.inr hd)).imp_right (.imp_right .inl)
    · exact .inr (.inr (hstopping k hs))
  · intro k hw hk
    rw [ha.executor] at hw
    cases ha.added k hk with
    | inl hk => exact ha.expects _ (h.announced k hw hk)
    | inr he => exact he
  · intro k hk
    cases ha.removed k hk with
    | inl hk => exact ha.retired k (h.retired k hk)
    | inr hr => exact hr

/-- After a send the receiver has one more update, and expects what it expected. -/
theorem announces_push {s s' : HealthCheckState σ} {r : Receiver RegistryUpdate} {capacity : Nat}
    {u : RegistryUpdate} (executor : s'.executor = s.executor)
    (added : ∀ k, s'.registry.Registered k → s.registry.Registered k ∨ u = .added k.1 ⟨k.2⟩)
    (dropped : ∀ k, s.registry.Registered k ∨ k ∈ s.displacedKeys →
      s'.registry.Registered k ∨ k ∈ s'.displacedKeys ∨ u = .removed k.1 ⟨k.2⟩)
    (removed : ∀ k : TaskKey, u = .removed k.1 ⟨k.2⟩ → s'.Retired k)
    (retired : ∀ k, s.Retired k → s'.Retired k) : Announces s s' r (r.push capacity u) where
  executor := executor
  expects _ hv := Receiver.expects_push (.inl hv)
  added k hk := (added k hk).imp_right fun he => Receiver.expects_push (.inr he.symm)
  dropped k hk := (dropped k hk).imp_right fun he => he.imp_right fun he => Receiver.expects_push (.inr he.symm)
  removed k hk := (Receiver.mem_push hk).imp_right fun he => removed k he.symm
  retired := retired

section
variable {s : HealthCheckState σ} {r : Receiver RegistryUpdate}

theorem announces_register (id : String) (lb : σ) (capacity : Nat) :
    Announces s (s.registerState id lb) r (r.push capacity (.added id ⟨s.registry.nextGeneration⟩)) := by
  refine announces_push rfl (fun k hk => ?_) (fun k hk => ?_) (fun k he => by cases he) fun k hk => ?_
  · have hk := registered_register.mp hk
    by_cases hid : k.1 = id
    · rw [if_pos hid] at hk
      rw [hid, hk]
      exact .inr rfl
    · rw [if_neg hid] at hk
      exact .inl hk
  · cases hk with
    | inl hk =>
      by_cases hid : k.1 = id
      · exact .inr (.inl (mem_displacedKeys_register.mpr (.inl ⟨hk, hid⟩)))
      · exact .inl (registered_register.mpr (by rwa [if_neg hid]))
    | inr hk => exact .inr (.inl (mem_displacedKeys_register.mpr (.inr hk)))
  · obtain ⟨hlt, hr, hd⟩ := hk
    refine ⟨Nat.lt_succ_of_lt hlt, fun hr' => ?_, fun hd' => ?_⟩
    · have hr' := registered_register.mp hr'
      split at hr'
      · omega
      · exact hr hr'
    · cases mem_displacedKeys_register.mp hd' with
      | inl hd' => exact hr hd'.1
      | inr hd' => exact hd hd'

theorem announces_unregister {id : String} {registration : HealthCheckRegistration} (h : Places s)
    (hr : s.registry.Registered (id, registration.generation)) {registry : HealthCheckRegistry σ}
    (hu : registry.upstreams = s.registry.upstreams.erase id)
    (hn : registry.nextGeneration = s.registry.nextGeneration) (capacity : Nat) :
    Announces s { s with registry } r (r.push capacity (.removed id registration)) := by
  have hiff : ∀ k, registry.Registered k ↔ k.1 ≠ id ∧ s.registry.Registered k := fun k => registered_erase hu
  have hretired : ∀ k, s.Retired k → ({ s with registry } : HealthCheckState σ).Retired k := fun k hk =>
    ⟨hn ▸ hk.1, fun hr' => hk.2.1 ((hiff k).mp hr').2, hk.2.2⟩
  refine announces_push rfl (fun k hk => .inl ((hiff k).mp hk).2) (fun k hk => ?_) (fun k he => ?_) hretired
  · cases hk with
    | inl hk =>
      by_cases hid : k.1 = id
      · subst hid
        have hg : registration.generation = k.2 := hk.unique hr
        exact .inr (.inr (by rw [← hg]))
      · exact .inl ((hiff k).mpr ⟨hid, hk⟩)
    | inr hk => exact .inr (.inl hk)
  · cases he
    exact ⟨hn ▸ h.registered_lt _ hr, fun hr' => ((hiff k).mp hr').1 rfl, fun hd => h.displaced_not _ hd hr⟩

variable {index : Nat} {d : DisplacedHealthCheck σ}

theorem announces_discard (h : Places s) (hd : s.displaced[index]? = some d) (capacity : Nat) :
    Announces s (s.discardState index d) r (r.push capacity (.removed d.id d.registration)) := by
  have hmem := mem_displacedKeys_eraseIdx hd h.nodup
  have hkey := key_mem_displacedKeys hd
  have hgen := h.generation d (List.mem_of_getElem? hd)
  refine announces_push rfl (fun k hk => .inl hk) (fun k hk => ?_) (fun k he => ?_) fun k hk => ?_
  · cases hk with
    | inl hk => exact .inl hk
    | inr hk =>
      by_cases he : k = d.key
      · subst he
        refine .inr (.inr ?_)
        show RegistryUpdate.removed d.id d.registration = .removed d.id ⟨d.registered.generation⟩
        rw [← hgen]
      · exact .inr (.inl ((hmem k).mpr ⟨hk, he⟩))
  · obtain ⟨hid, hg⟩ := RegistryUpdate.removed.inj he
    have hk2 : k.2 = d.registration.generation := by rw [hg]
    have he : k = d.key := Prod.ext hid.symm (hk2.trans hgen)
    exact ⟨h.displaced_lt k (he ▸ hkey), h.displaced_not k (he ▸ hkey), fun hm => ((hmem k).mp hm).2 he⟩
  · exact ⟨hk.1, hk.2.1, fun hm => hk.2.2 ((hmem k).mp hm).1⟩

/-- A restore announces the entry it puts back; nothing is lost when the replacement has been removed. -/
theorem announces_restore (h : Places s) (hd : s.displaced[index]? = some d)
    (hfree : s.registry.upstreams.lookup d.id = none) (capacity : Nat) :
    Announces s (s.restoreState index d) r (r.push capacity (.added d.id d.registration)) := by
  have hmem := mem_displacedKeys_eraseIdx hd h.nodup
  have hgen := h.generation d (List.mem_of_getElem? hd)
  have hiff : ∀ k, (s.restoreState index d).registry.Registered k ↔
      if k.1 = d.id then k.2 = d.registered.generation else s.registry.Registered k := fun k => registered_restore
  refine announces_push rfl (fun k hk => ?_) (fun k hk => ?_) (fun k he => by cases he) fun k hk => ?_
  · have hk := (hiff k).mp hk
    by_cases hid : k.1 = d.id
    · rw [if_pos hid, ← hgen] at hk
      rw [hid, hk]
      exact .inr rfl
    · rw [if_neg hid] at hk
      exact .inl hk
  · cases hk with
    | inl hk =>
      have hid : k.1 ≠ d.id := by
        intro hid
        obtain ⟨e, hl, -⟩ := hk
        rw [hid, hfree] at hl
        cases hl
      exact .inl ((hiff k).mpr (by rwa [if_neg hid]))
    | inr hk =>
      by_cases he : k = d.key
      · subst he
        exact .inl ((hiff d.key).mpr (if_pos rfl ▸ rfl))
      · exact .inr (.inl ((hmem k).mpr ⟨hk, he⟩))
  · refine ⟨hk.1, fun hr => ?_, fun hm => hk.2.2 ((hmem k).mp hm).1⟩
    have hr := (hiff k).mp hr
    by_cases hid : k.1 = d.id
    · rw [if_pos hid] at hr
      have he : k = d.key := Prod.ext hid hr
      exact hk.2.2 (he ▸ key_mem_displacedKeys hd)
    · rw [if_neg hid] at hr
      exact hk.2.1 hr

end

/-! ## The executor's work -/

section
variable {s : HealthCheckState σ} {r : Receiver RegistryUpdate}

def withExecutor (s : HealthCheckState σ) (e : HealthCheckExecutor) : HealthCheckState σ := { s with executor := e }

/-- Starting a task changes nothing unless the registration is current and has no task. -/
theorem startTask_cases (registry : HealthCheckRegistry σ) (e : HealthCheckExecutor) (key : TaskKey) :
    (e.startTask registry key = e ∧ (e.runningTasks.lookup key = none → ¬ registry.Registered key)) ∨
      e.runningTasks.lookup key = none ∧ registry.Registered key ∧
        e.startTask registry key =
          { e with spawned := e.spawned ++ [key], runningTasks := e.runningTasks.insert key e.spawned.length } := by
  unfold HealthCheckExecutor.startTask
  cases hl : e.runningTasks.lookup key with
  | some handle => exact .inl ⟨rfl, fun h => by cases h⟩
  | none =>
    cases hg : registry.getUpstreamForStart key.1 ⟨key.2⟩ with
    | none =>
      refine .inl ⟨rfl, fun _ hr => ?_⟩
      rw [← getUpstreamForStart_isSome, hg] at hr
      cases hr
    | some lb => exact .inr ⟨rfl, getUpstreamForStart_isSome.mp (by rw [hg]; rfl), rfl⟩

theorem stopTask_runningTasks (e : HealthCheckExecutor) (key k : TaskKey) :
    (e.stopTask key).runningTasks.lookup k = if k = key then none else e.runningTasks.lookup k := by
  unfold HealthCheckExecutor.stopTask
  cases hl : e.runningTasks.lookup key with
  | none =>
    by_cases hk : k = key
    · subst hk
      rw [if_pos rfl]
      exact hl
    · rw [if_neg hk]
  | some handle => exact HashMap.lookup_erase _ _ _

/-- Restarting drops the task, and starts it again when its registration is current. -/
theorem restart_cases (registry : HealthCheckRegistry σ) (e : HealthCheckExecutor) (key : TaskKey) :
    (¬ registry.Registered key ∧
        e.perform registry (.restart key) = { e with runningTasks := e.runningTasks.erase key }) ∨
      registry.Registered key ∧ e.perform registry (.restart key) =
        { e with runningTasks := e.runningTasks.erase key, work := .startTask key :: e.work } := by
  cases hg : registry.getUpstreamForStart key.1 ⟨key.2⟩ with
  | none =>
    refine .inl ⟨fun hr => ?_, by simp only [HealthCheckExecutor.perform, hg]⟩
    rw [← getUpstreamForStart_isSome, hg] at hr
    cases hr
  | some lb =>
    exact .inr ⟨getUpstreamForStart_isSome.mp (by rw [hg]; rfl), by simp only [HealthCheckExecutor.perform, hg]⟩

/-- The rest of the work, after the piece `w` has been taken off. -/
def withWork (s : HealthCheckState σ) (work : List ExecutorWork) : HealthCheckState σ :=
  s.withExecutor { s.executor with work }

/-- Taking the first piece off leaves what the others are for. -/
theorem starting_cons {w : ExecutorWork} {rest : List ExecutorWork} (hw : s.executor.work = w :: rest) {k : TaskKey}
    (h : s.Starting r k) : (s.withWork rest).Starting r k ∨ w = .startTask k ∨ w = .startRegistered ∨ w = .resyncTasks := by
  unfold Starting at h ⊢
  rw [hw] at h
  simp only [List.mem_cons, withWork, withExecutor] at h ⊢
  tauto

theorem stopping_cons {w : ExecutorWork} {rest : List ExecutorWork} (hw : s.executor.work = w :: rest) {k : TaskKey}
    (h : s.Stopping r k) : (s.withWork rest).Stopping r k ∨ w = .stopTask k ∨ w = .resyncTasks := by
  unfold Stopping at h ⊢
  rw [hw] at h
  simp only [List.mem_cons, withWork, withExecutor] at h ⊢
  tauto

section
variable {rest : List ExecutorWork}

theorem covered_startRegistered (h : Covered s r) (hw : s.executor.work = .startRegistered :: rest) :
    Covered (s.withWork ((HealthCheckExecutor.registeredKeys s.registry).map .startTask ++ rest)) r where
  started k hk :=
    .inr (.inr (.inl (List.mem_append_left _ (List.mem_map_of_mem (mem_registeredKeys.mpr hk)))))
  stopped k hk := by
    refine (h.stopped k hk).imp_right (.imp_right fun hs => ?_)
    rcases stopping_cons hw hs with hs | hs | hs
    · exact hs.imp_right (.imp (List.mem_append_right _) (List.mem_append_right _))
    · cases hs
    · cases hs
  announced k hk := by
    have hm : .stopTask k ∈ rest := by simpa [withWork, withExecutor] using hk
    exact h.announced k (hw ▸ List.mem_cons_of_mem _ hm)
  retired := h.retired

theorem covered_startTask {key : TaskKey} (h : Covered s r) (hw : s.executor.work = .startTask key :: rest) :
    Covered (s.withExecutor (HealthCheckExecutor.startTask s.registry { s.executor with work := rest } key)) r := by
  have hstarting : ∀ k, k ≠ key → s.Starting r k → (s.withWork rest).Starting r k := fun k hk hs => by
    rcases starting_cons hw hs with hs | hs | hs | hs
    · exact hs
    · cases hs
      exact absurd rfl hk
    · cases hs
    · cases hs
  have hstopping : ∀ k, s.Stopping r k → (s.withWork rest).Stopping r k := fun k hs => by
    rcases stopping_cons hw hs with hs | hs | hs
    · exact hs
    · cases hs
    · cases hs
  have hannounced : ∀ k, .stopTask k ∈ rest → s.registry.Registered k → r.Expects (.added k.1 ⟨k.2⟩) :=
    fun k hm => h.announced k (hw ▸ List.mem_cons_of_mem _ hm)
  rcases startTask_cases s.registry { s.executor with work := rest } key with ⟨he, hnot⟩ | ⟨hnone, hreg, he⟩
  · rw [he]
    refine ⟨fun k hk => ?_, fun k hk => (h.stopped k hk).imp_right (.imp_right (hstopping k)), hannounced, h.retired⟩
    by_cases hkey : k = key
    · subst hkey
      cases hl : s.executor.runningTasks.lookup k with
      | none => exact absurd hk (hnot hl)
      | some handle => exact .inl ⟨handle, hl⟩
    · exact (h.started k hk).imp_right (hstarting k hkey)
  · rw [he]
    have howns : ∀ k, Owns (s.withExecutor { s.executor with
        spawned := s.executor.spawned ++ [key], runningTasks := s.executor.runningTasks.insert key s.executor.spawned.length
        work := rest }) k ↔ k = key ∨ s.Owns k := fun k => by
      unfold Owns withExecutor
      simp only [HashMap.lookup_insert]
      by_cases hkey : k = key
      · simp [hkey]
      · simp [hkey]
    refine ⟨fun k hk => ?_, fun k hk => ?_, hannounced, h.retired⟩
    · by_cases hkey : k = key
      · exact .inl ((howns k).mpr (.inl hkey))
      · exact (h.started k hk).imp (fun ho => (howns k).mpr (.inr ho)) (hstarting k hkey)
    · cases (howns k).mp hk with
      | inl hkey => exact .inl (hkey ▸ hreg)
      | inr ho => exact (h.stopped k ho).imp_right (.imp_right (hstopping k))

theorem covered_stopTask {key : TaskKey} (h : Covered s r) (hw : s.executor.work = .stopTask key :: rest) :
    Covered (s.withExecutor (HealthCheckExecutor.stopTask { s.executor with work := rest } key)) r := by
  have hwork : (HealthCheckExecutor.stopTask { s.executor with work := rest } key).work = rest := by
    unfold HealthCheckExecutor.stopTask
    cases AList.lookup key s.executor.runningTasks with
    | none => rfl
    | some handle => rfl
  have howns : ∀ k, (s.withExecutor (HealthCheckExecutor.stopTask { s.executor with work := rest } key)).Owns k ↔
      k ≠ key ∧ s.Owns k := fun k => by
    unfold Owns withExecutor
    rw [stopTask_runningTasks]
    by_cases hkey : k = key
    · simp [hkey]
    · simp [hkey]
  refine ⟨fun k hk => ?_, fun k hk => ?_, fun k hm => ?_, h.retired⟩
  · by_cases hkey : k = key
    · -- a task that is stopped although its registration is current is announced anew
      have hm : .stopTask k ∈ s.executor.work := hw ▸ hkey ▸ List.mem_cons_self
      exact .inr (.inl (h.announced k hm hk))
    · refine (h.started k hk).imp (fun ho => (howns k).mpr ⟨hkey, ho⟩) fun hs => ?_
      unfold Starting withExecutor
      rw [hwork]
      rcases starting_cons hw hs with hs | hs | hs | hs
      · exact hs
      · cases hs
      · cases hs
      · cases hs
  · obtain ⟨hkey, ho⟩ := (howns k).mp hk
    refine (h.stopped k ho).imp_right (.imp_right fun hs => ?_)
    unfold Stopping withExecutor
    rw [hwork]
    rcases stopping_cons hw hs with hs | hs | hs
    · exact hs
    · cases hs
      exact absurd rfl hkey
    · cases hs
  · have hm : .stopTask k ∈ rest := by
      rw [← hwork]
      exact hm
    exact h.announced k (hw ▸ List.mem_cons_of_mem _ hm)

theorem covered_resyncTasks (h : Covered s r) (hw : s.executor.work = .resyncTasks :: rest) :
    Covered (s.withWork ((s.executor.staleKeys s.registry).map .stopTask ++ .startRegistered :: rest)) r where
  started k _ := .inr (.inr (.inr (.inl (List.mem_append_right _ List.mem_cons_self))))
  stopped k hk := by
    by_cases hr : s.registry.Registered k
    · exact .inl hr
    · refine .inr (.inr (.inr (.inl (List.mem_append_left _ (List.mem_map_of_mem ?_)))))
      obtain ⟨handle, hl⟩ := hk
      change s.executor.runningTasks.lookup k = some handle at hl
      refine List.mem_filter.mpr ⟨AList.mem_keys.mpr (AList.lookup_isSome.mp (by rw [hl]; rfl)), ?_⟩
      simpa [mem_registeredKeys] using hr
  announced k hk hr := by
    have hm : k ∈ s.executor.staleKeys s.registry ∨ .stopTask k ∈ rest := by
      simpa [withWork, withExecutor] using hk
    cases hm with
    | inl hm =>
      have hnot : ¬ s.registry.Registered k := by
        simpa [mem_registeredKeys] using (List.mem_filter.mp hm).2
      exact absurd hr hnot
    | inr hm => exact h.announced k (hw ▸ List.mem_cons_of_mem _ hm) hr
  retired := h.retired

theorem covered_restartFinishedTasks (h : Covered s r) (hw : s.executor.work = .restartFinishedTasks :: rest) :
    Covered (s.withWork (s.executor.finishedKeys.map .restart ++ rest)) r where
  started k hk := by
    refine (h.started k hk).imp_right fun hs => ?_
    rcases starting_cons hw hs with hs | hs | hs | hs
    · exact hs.imp_right (.imp (List.mem_append_right _) (.imp (List.mem_append_right _) (List.mem_append_right _)))
    · cases hs
    · cases hs
    · cases hs
  stopped k hk := by
    refine (h.stopped k hk).imp_right (.imp_right fun hs => ?_)
    rcases stopping_cons hw hs with hs | hs | hs
    · exact hs.imp_right (.imp (List.mem_append_right _) (List.mem_append_right _))
    · cases hs
    · cases hs
  announced k hk := by
    have hm : .stopTask k ∈ rest := by simpa [withWork, withExecutor] using hk
    exact h.announced k (hw ▸ List.mem_cons_of_mem _ hm)
  retired := h.retired

theorem covered_restart {key : TaskKey} (h : Covered s r) (hw : s.executor.work = .restart key :: rest) :
    Covered (s.withExecutor ({ s.executor with work := rest }.perform s.registry (.restart key))) r := by
  have hstarting : ∀ k, s.Starting r k → (s.withWork rest).Starting r k := fun k hs => by
    rcases starting_cons hw hs with hs | hs | hs | hs
    · exact hs
    · cases hs
    · cases hs
    · cases hs
  have hstopping : ∀ k, s.Stopping r k → (s.withWork rest).Stopping r k := fun k hs => by
    rcases stopping_cons hw hs with hs | hs | hs
    · exact hs
    · cases hs
    · cases hs
  have howns : ∀ k, (∃ handle, (s.executor.runningTasks.erase key).lookup k = some handle) ↔ k ≠ key ∧ s.Owns k := by
    intro k
    unfold Owns
    rw [HashMap.lookup_erase]
    by_cases hkey : k = key
    · simp [hkey]
    · simp [hkey]
  have hannounced : ∀ k, .stopTask k ∈ rest → s.registry.Registered k → r.Expects (.added k.1 ⟨k.2⟩) :=
    fun k hm => h.announced k (hw ▸ List.mem_cons_of_mem _ hm)
  rcases restart_cases s.registry { s.executor with work := rest } key with ⟨hnot, he⟩ | ⟨-, he⟩
  · rw [he]
    refine ⟨fun k hk => ?_, fun k hk => ?_, hannounced, h.retired⟩
    · by_cases hkey : k = key
      · exact absurd hk (hkey ▸ hnot)
      · exact (h.started k hk).imp (fun ho => (howns k).mpr ⟨hkey, ho⟩) (hstarting k)
    · exact (h.stopped k ((howns k).mp hk).2).imp_right (.imp_right (hstopping k))
  · rw [he]
    refine ⟨fun k hk => ?_, fun k hk => ?_, fun k hm => ?_, h.retired⟩
    · by_cases hkey : k = key
      · exact .inr (.inr (.inl (hkey ▸ List.mem_cons_self)))
      · refine (h.started k hk).imp (fun ho => (howns k).mpr ⟨hkey, ho⟩) fun hs => ?_
        exact (hstarting k hs).imp_right
          (.imp (List.mem_cons_of_mem _) (.imp (List.mem_cons_of_mem _) (List.mem_cons_of_mem _)))
    · refine (h.stopped k ((howns k).mp hk).2).imp_right (.imp_right fun hs => ?_)
      exact (hstopping k hs).imp_right (.imp (List.mem_cons_of_mem _) (List.mem_cons_of_mem _))
    · have hm : .stopTask k ∈ rest := by simpa [withExecutor] using hm
      exact hannounced k hm

/-- One piece of work keeps the tasks in line with the registry. -/
theorem covered_perform {w : ExecutorWork} (h : Covered s r) (hw : s.executor.work = w :: rest) :
    Covered (s.withExecutor ({ s.executor with work := rest }.perform s.registry w)) r := by
  cases w with
  | startRegistered => exact covered_startRegistered h hw
  | startTask key => exact covered_startTask h hw
  | stopTask key => exact covered_stopTask h hw
  | resyncTasks => exact covered_resyncTasks h hw
  | restartFinishedTasks => exact covered_restartFinishedTasks h hw
  | restart key => exact covered_restart h hw

end

/-- Taking an update turns what was expected into work. -/
theorem covered_receive {r' : Receiver RegistryUpdate} {x : Received RegistryUpdate} (h : Covered s r)
    (hidle : s.executor.work = []) (ht : r.take = some (x, r')) :
    Covered (s.withWork (HealthCheckExecutor.workOf x)) r' := by
  have hstarting : ∀ k, s.Starting r k → r.Expects (.added k.1 ⟨k.2⟩) := fun k hs => by
    unfold Starting at hs
    rw [hidle] at hs
    simpa using hs
  have hstopping : ∀ k, s.Stopping r k → r.Expects (.removed k.1 ⟨k.2⟩) := fun k hs => by
    unfold Stopping at hs
    rw [hidle] at hs
    simpa using hs
  rcases Receiver.take_cases ht with ⟨rfl, -, rfl⟩ | ⟨u, rest, rfl, hskip, hpending, rfl⟩
  · refine ⟨fun k _ => .inr (.inr (.inr (.inr List.mem_cons_self))),
      fun k _ => .inr (.inr (.inr (.inr List.mem_cons_self))), fun k hm => ?_, h.retired⟩
    simp [withWork, withExecutor, HealthCheckExecutor.workOf] at hm
  · have hexpects : ∀ v, r.Expects v → v = u ∨ v ∈ rest := fun v hv => by
      unfold Receiver.Expects at hv
      rw [hpending] at hv
      simpa [hskip] using hv
    have hretired : ∀ k : TaskKey, .removed k.1 ⟨k.2⟩ ∈ rest → s.Retired k := fun k hm =>
      h.retired k (hpending ▸ List.mem_cons_of_mem _ hm)
    refine ⟨fun k hk => ?_, fun k hk => ?_, fun k hm hk => ?_, hretired⟩
    · refine (h.started k hk).imp_right fun hs => ?_
      cases hexpects _ (hstarting k hs) with
      | inl he =>
        subst he
        exact .inr (.inl List.mem_cons_self)
      | inr hm => exact .inl (.inl hm)
    · refine (h.stopped k hk).imp_right (.imp_right fun hs => ?_)
      cases hexpects _ (hstopping k hs) with
      | inl he =>
        subst he
        exact .inr (.inl List.mem_cons_self)
      | inr hm => exact .inl (.inl hm)
    · -- a removal that arrives is of a registration that does not come back
      cases u with
      | added id registration => simp [withWork, withExecutor, HealthCheckExecutor.workOf] at hm
      | removed id registration =>
        have he : k = (id, registration.generation) := by
          simpa [withWork, withExecutor, HealthCheckExecutor.workOf] using hm
        subst he
        exact absurd hk (h.retired _ (hpending ▸ List.mem_cons_self)).2.1

end

end HealthCheckState

/-! ## The tasks -/

namespace ExecutorWork

/-- What may stand before what: the sweep comes last, and turns into restarts of different keys. -/
def Before : ExecutorWork → ExecutorWork → Prop
  | .restartFinishedTasks, _ => False
  | .restart k, .restart k' => k ≠ k'
  | .restart _, _ => False
  | .startTask k, .restart k' => k ≠ k'
  | _, .restart _ => False
  | _, _ => True

theorem before_of_not_restart {a b : ExecutorWork} (ha : ∀ k, a ≠ .restart k) (hs : a ≠ .restartFinishedTasks)
    (hb : ∀ k, b ≠ .restart k) : Before a b := by
  cases a with
  | restart k => exact absurd rfl (ha k)
  | restartFinishedTasks => exact absurd rfl hs
  | _ =>
    cases b with
    | restart k => exact absurd rfl (hb k)
    | _ => trivial

end ExecutorWork

namespace HealthCheckExecutor

/-- A spawned task that has not ended. -/
def Live (e : HealthCheckExecutor) (handle : Nat) (k : TaskKey) : Prop :=
  e.spawned[handle]? = some k ∧ handle ∉ e.finished

/-- The table holds spawned tasks, all the live ones among them; what is about to be restarted has ended. -/
structure Tracked (e : HealthCheckExecutor) : Prop where
  spawned : ∀ k handle, e.runningTasks.lookup k = some handle → e.spawned[handle]? = some k
  live : ∀ k handle, e.Live handle k → e.runningTasks.lookup k = some handle
  orderly : e.work.Pairwise ExecutorWork.Before
  restarts : ∀ k handle, .restart k ∈ e.work → e.runningTasks.lookup k = some handle → handle ∈ e.finished

variable {e : HealthCheckExecutor} {rest : List ExecutorWork}

theorem Tracked.withWork (h : Tracked e) {work : List ExecutorWork} (ho : work.Pairwise ExecutorWork.Before)
    (hr : ∀ k handle, .restart k ∈ work → e.runningTasks.lookup k = some handle → handle ∈ e.finished) :
    Tracked { e with work } := ⟨h.spawned, h.live, ho, hr⟩

/-- Work that has no restarts in it. -/
theorem Tracked.fresh (h : Tracked e) {work : List ExecutorWork} (ho : work.Pairwise ExecutorWork.Before)
    (hn : ∀ k, .restart k ∉ work) : Tracked { e with work } :=
  h.withWork ho fun k _ hm => absurd hm (hn k)

/-- Forgetting a task that has ended. -/
theorem Tracked.erase (h : Tracked e) {key : TaskKey} {finished : List Nat} (hf : e.finished ⊆ finished)
    (hk : ∀ handle, e.runningTasks.lookup key = some handle → handle ∈ finished) :
    Tracked { e with runningTasks := e.runningTasks.erase key, finished } where
  spawned k handle hl := by
    rw [HashMap.lookup_erase] at hl
    split at hl
    · cases hl
    · exact h.spawned k handle hl
  live k handle hl := by
    have hlive := h.live k handle ⟨hl.1, fun hm => hl.2 (hf hm)⟩
    rw [HashMap.lookup_erase]
    split
    · next hkey =>
      subst hkey
      exact absurd (hk handle hlive) hl.2
    · exact hlive
  orderly := h.orderly
  restarts k handle hm hl := by
    rw [HashMap.lookup_erase] at hl
    split at hl
    · cases hl
    · exact hf (h.restarts k handle hm hl)

theorem Tracked.tail {w : ExecutorWork} (h : Tracked e) (hw : e.work = w :: rest) : Tracked { e with work := rest } :=
  h.withWork (List.pairwise_cons.mp (hw ▸ h.orderly)).2 fun k handle hm =>
    h.restarts k handle (hw ▸ List.mem_cons_of_mem _ hm)

theorem Tracked.startTask {registry : HealthCheckRegistry σ} {key : TaskKey} (h : Tracked e)
    (hw : e.work = .startTask key :: rest) :
    Tracked (HealthCheckExecutor.startTask registry { e with work := rest } key) := by
  have ht := h.tail hw
  rcases HealthCheckState.startTask_cases registry { e with work := rest } key with ⟨he, -⟩ | ⟨hnone, -, he⟩
  · rw [he]
    exact ht
  · rw [he]
    change e.runningTasks.lookup key = none at hnone
    have hget : ∀ handle, (e.spawned ++ [key])[handle]? = if handle = e.spawned.length then some key
        else e.spawned[handle]? := fun handle => by
      by_cases hlt : handle < e.spawned.length
      · rw [List.getElem?_append_left hlt, if_neg (Nat.ne_of_lt hlt)]
      · by_cases heq : handle = e.spawned.length
        · simp [heq]
        · have : e.spawned.length < handle := by omega
          simp only [if_neg heq]
          rw [List.getElem?_eq_none (by simp; omega), List.getElem?_eq_none (by omega)]
    refine ⟨fun k handle hl => ?_, fun k handle hl => ?_, ht.orderly, fun k handle hm hl => ?_⟩
    · rw [HashMap.lookup_insert] at hl
      rw [hget]
      split at hl
      · next hkey =>
        cases hl
        rw [if_pos rfl, hkey]
      · have hs := h.spawned k handle hl
        have hlt := (List.getElem?_eq_some_iff.mp hs).1
        rw [if_neg (Nat.ne_of_lt hlt)]
        exact hs
    · obtain ⟨hg, hf⟩ := hl
      rw [hget] at hg
      rw [HashMap.lookup_insert]
      split at hg
      · next hh =>
        cases hg
        rw [if_pos rfl, hh]
      · have hlive := h.live k handle ⟨hg, hf⟩
        have hkey : k ≠ key := by
          intro hkey
          rw [hkey, hnone] at hlive
          cases hlive
        rw [if_neg hkey]
        exact hlive
    · -- the key that is started is not among those still to be restarted
      have hbefore := (List.pairwise_cons.mp (hw ▸ h.orderly)).1 _ hm
      have hkey : k ≠ key := fun hkey => hbefore hkey.symm
      rw [HashMap.lookup_insert, if_neg hkey] at hl
      exact ht.restarts k handle hm hl

theorem Tracked.stopTask {key : TaskKey} (h : Tracked e) (hw : e.work = .stopTask key :: rest) :
    Tracked (HealthCheckExecutor.stopTask { e with work := rest } key) := by
  have ht := h.tail hw
  unfold HealthCheckExecutor.stopTask
  cases hl : e.runningTasks.lookup key with
  | none =>
    simp only
    exact ht
  | some handle =>
    simp only
    refine ht.erase (List.subset_cons_self _ _) fun handle' hl' => ?_
    change e.runningTasks.lookup key = some handle' at hl'
    rw [hl] at hl'
    cases hl'
    exact List.mem_cons_self

theorem mem_finishedKeys {k : TaskKey} :
    k ∈ e.finishedKeys ↔ ∃ handle, e.runningTasks.lookup k = some handle ∧ handle ∈ e.finished := by
  unfold finishedKeys
  constructor
  · intro hk
    obtain ⟨⟨k', handle⟩, hm, rfl⟩ := List.mem_map.mp hk
    obtain ⟨hm, hf⟩ := List.mem_filter.mp hm
    exact ⟨handle, (HashMap.mem_entries_iff _ _ _).mp hm, by simpa using hf⟩
  · intro hk
    obtain ⟨handle, hl, hf⟩ := hk
    refine List.mem_map.mpr ⟨⟨k, handle⟩, List.mem_filter.mpr ⟨(HashMap.mem_entries_iff _ _ _).mpr hl, ?_⟩, rfl⟩
    simpa using hf

theorem nodup_finishedKeys : e.finishedKeys.Nodup := by
  have hn : e.runningTasks.keys.Nodup := e.runningTasks.nodupKeys
  exact hn.sublist (List.Sublist.map _ List.filter_sublist)

theorem Tracked.perform {registry : HealthCheckRegistry σ} {w : ExecutorWork} (h : Tracked e) (hw : e.work = w :: rest) :
    Tracked ({ e with work := rest }.perform registry w) := by
  have ht := h.tail hw
  have hbefore := (List.pairwise_cons.mp (hw ▸ h.orderly)).1
  have hplain : (∀ b, ¬ ExecutorWork.Before w (.restart b)) → ∀ b ∈ rest, ∀ k, b ≠ .restart k :=
    fun hn b hb k he => hn k (he ▸ hbefore b hb)
  cases w with
  | startRegistered =>
    have hrest := hplain fun b hb => hb
    refine ht.fresh (List.pairwise_append.mpr ⟨?_, ht.orderly, fun a ha b hb => ?_⟩) fun k hm => ?_
    · exact List.pairwise_map.mpr (List.pairwise_of_forall fun _ _ => trivial)
    · obtain ⟨k, -, rfl⟩ := List.mem_map.mp ha
      exact ExecutorWork.before_of_not_restart nofun nofun (hrest b hb)
    · have hm : .restart k ∈ rest := by simpa using hm
      exact hrest _ hm k rfl
  | startTask key => exact h.startTask hw
  | stopTask key => exact h.stopTask hw
  | resyncTasks =>
    have hrest := hplain fun b hb => hb
    have hnext : (ExecutorWork.startRegistered :: rest).Pairwise ExecutorWork.Before :=
      List.pairwise_cons.mpr ⟨fun b hb => ExecutorWork.before_of_not_restart nofun nofun (hrest b hb), ht.orderly⟩
    have hnone : ∀ b ∈ ExecutorWork.startRegistered :: rest, ∀ k, b ≠ .restart k := fun b hb k => by
      cases List.mem_cons.mp hb with
      | inl hb => exact hb ▸ nofun
      | inr hb => exact hrest b hb k
    refine ht.fresh (List.pairwise_append.mpr ⟨?_, hnext, fun a ha b hb => ?_⟩) fun k hm => ?_
    · exact List.pairwise_map.mpr (List.pairwise_of_forall fun _ _ => trivial)
    · obtain ⟨k, -, rfl⟩ := List.mem_map.mp ha
      exact ExecutorWork.before_of_not_restart nofun nofun (hnone b hb)
    · have hm : .restart k ∈ rest := by simpa using hm
      exact hrest _ hm k rfl
  | restartFinishedTasks =>
    have hrest : rest = [] := List.eq_nil_iff_forall_not_mem.mpr fun b hb => hbefore b hb
    subst hrest
    refine ht.withWork ?_ fun k handle hm hl => ?_
    · rw [List.append_nil]
      exact List.pairwise_map.mpr nodup_finishedKeys
    · have hm : k ∈ e.finishedKeys := by simpa [finishedKeys] using hm
      obtain ⟨handle', hl', hf⟩ := mem_finishedKeys.mp hm
      change e.runningTasks.lookup k = some handle at hl
      rw [hl] at hl'
      cases hl'
      exact hf
  | restart key =>
    have hended : ∀ handle, e.runningTasks.lookup key = some handle → handle ∈ e.finished :=
      fun handle => h.restarts key handle (hw ▸ List.mem_cons_self)
    have herased := ht.erase (List.Subset.refl _) hended
    rcases HealthCheckState.restart_cases registry { e with work := rest } key with ⟨-, he⟩ | ⟨-, he⟩
    · rw [he]
      exact herased
    · rw [he]
      refine herased.withWork (List.pairwise_cons.mpr ⟨fun b hb => ?_, ht.orderly⟩) fun k handle hm hl => ?_
      · have hb' := hbefore b hb
        cases b with
        | restart k => exact hb'
        | _ => cases hb'
      · have hm : .restart k ∈ rest := by simpa using hm
        exact herased.restarts k handle hm hl

end HealthCheckExecutor

namespace HealthCheckState

/-! ## Runs -/

structure Inv (s : HealthCheckState σ) : Prop where
  places : Places s
  idle : s.executor.phase = .idle → s.executor.runningTasks = ∅ ∧ s.executor.work = []
  covered : ∀ r, s.registry.updateNotifier.receiver = some r → Covered s r
  tracked : s.executor.Tracked

/-- A restore is made only when its caller has removed the replacement. -/
def RestoreAfterRemoval (_ : List (HealthCheckAction σ)) (s : HealthCheckState σ) (a : HealthCheckAction σ) : Prop :=
  ∀ index d, a = .restore index → s.displaced[index]? = some d → s.registry.upstreams.lookup d.id = none

theorem inv_init {s : HealthCheckState σ} (h : Init s) : Inv s := by
  cases h
  have hnone : ∀ k, ¬ ({} : HealthCheckRegistry σ).Registered k := fun k hk => by
    obtain ⟨e, hl, -⟩ := hk
    cases hl
  refine ⟨⟨fun k hk => absurd hk (hnone k), nofun, nofun, List.nodup_nil, nofun⟩, fun _ => ⟨rfl, rfl⟩, nofun, ?_⟩
  refine ⟨fun k handle hl => ?_, fun k handle hl => ?_, List.Pairwise.nil, nofun⟩
  · cases hl
  · cases hl.1

section
variable {s s' : HealthCheckState σ}

/-- A call that sends one update keeps the invariant. -/
theorem Inv.call {u : RegistryUpdate} (h : Inv s) (places : Places s') (executor : s'.executor = s.executor)
    (hsent : s'.registry.updateNotifier.receiver =
      s.registry.updateNotifier.receiver.map (·.push s.registry.updateNotifier.capacity u))
    (ha : ∀ r, Announces s s' r (r.push s.registry.updateNotifier.capacity u)) : Inv s' where
  places := places
  idle := by
    rw [executor]
    exact h.idle
  covered r' hr' := by
    rw [hsent] at hr'
    obtain ⟨r, hr, rfl⟩ := Option.map_eq_some_iff.mp hr'
    exact (h.covered r hr).call (ha r)
  tracked := by
    rw [executor]
    exact h.tracked

theorem inv_unregister (h : Inv s) (id : String) (registration : HealthCheckRegistration) :
    Inv { s with registry := (s.registry.unregisterUpstream id registration).1 } := by
  have hplaces := places_unregister h.places id registration
  cases unregister_cases s.registry id registration with
  | inl he =>
    rw [he]
    exact h
  | inr hr =>
    rw [hr.2] at hplaces ⊢
    refine h.call hplaces rfl rfl fun r => ?_
    exact @announces_unregister σ s r id registration h.places hr.1
      (({ s.registry with upstreams := s.registry.upstreams.erase id }.signal registration.generation).notify
        (.removed id registration)) rfl rfl _

theorem inv_start (h : Inv s) (hphase : s.executor.phase = .idle) : Inv s.start where
  places := h.places.congr rfl rfl rfl
  idle hp := by cases hp
  covered r hr := by
    cases hr
    refine ⟨fun k _ => .inr (.inr (.inr (.inl List.mem_cons_self))), fun k hk => ?_, fun k hm => ?_, fun k hm => ?_⟩
    · obtain ⟨handle, hl⟩ := hk
      change s.executor.runningTasks.lookup k = some handle at hl
      rw [(h.idle hphase).1] at hl
      cases hl
    · simp [start] at hm
    · cases hm
  tracked := by
    refine ⟨h.tracked.spawned, h.tracked.live, List.pairwise_singleton _ _, fun k handle hm => ?_⟩
    simp [start] at hm

theorem inv_receive (h : Inv s) (hwait : s.Waiting) (hs : s.receive = some s') : Inv s' := by
  obtain ⟨x, hx, rfl⟩ := Option.map_eq_some_iff.mp hs
  obtain ⟨r, r', hr, ht, hc⟩ := Broadcast.recv_eq_some.mp hx
  have hcov := covered_receive (h.covered r hr) hwait.2 ht
  refine ⟨h.places.congr rfl rfl rfl, fun hp => ?_, fun r₁ hr₁ => ?_, h.tracked.fresh ?_ fun k hm => ?_⟩
  · exact absurd hwait.1 (hp ▸ nofun)
  · have he : r₁ = r' := by
      change x.2.receiver = some r₁ at hr₁
      rw [hc] at hr₁
      exact (Option.some.inj hr₁).symm
    subst he
    exact ⟨hcov.started, hcov.stopped, hcov.announced, hcov.retired⟩
  · cases x.1 with
    | lagged n => simp [HealthCheckExecutor.workOf, ExecutorWork.Before]
    | value u =>
      cases u with
      | added id registration => simp [HealthCheckExecutor.workOf, ExecutorWork.Before]
      | removed id registration => simp [HealthCheckExecutor.workOf, ExecutorWork.Before]
  · cases hxv : x.1 with
    | lagged n => simp [HealthCheckExecutor.workOf, hxv] at hm
    | value u =>
      cases u with
      | added id registration => simp [HealthCheckExecutor.workOf, hxv] at hm
      | removed id registration => simp [HealthCheckExecutor.workOf, hxv] at hm

theorem inv_tick (h : Inv s) (hwait : s.Waiting) : Inv (s.withWork [.restartFinishedTasks]) where
  places := h.places.congr rfl rfl rfl
  idle hp := absurd hwait.1 (hp ▸ nofun)
  covered r hr := by
    have hc := h.covered r hr
    refine ⟨fun k hk => (hc.started k hk).imp_right fun hs => ?_,
      fun k hk => (hc.stopped k hk).imp_right (.imp_right fun hs => ?_), fun k hm => ?_, hc.retired⟩
    · unfold Starting at hs ⊢
      rw [hwait.2] at hs
      exact .inl (by simpa using hs)
    · unfold Stopping at hs ⊢
      rw [hwait.2] at hs
      exact .inl (by simpa using hs)
    · simp [withWork, withExecutor] at hm
  tracked := h.tracked.fresh (List.pairwise_singleton _ _) fun k hm => by simp at hm

theorem perform_phase (registry : HealthCheckRegistry σ) (e : HealthCheckExecutor) (w : ExecutorWork) :
    (e.perform registry w).phase = e.phase := by
  cases w with
  | startTask key =>
    rcases startTask_cases registry e key with ⟨he, -⟩ | ⟨-, -, he⟩
    · show (e.startTask registry key).phase = _
      rw [he]
    · show (e.startTask registry key).phase = _
      rw [he]
  | stopTask key =>
    show (e.stopTask key).phase = e.phase
    unfold HealthCheckExecutor.stopTask
    split
    · rfl
    · rfl
  | restart key =>
    rcases restart_cases registry e key with ⟨-, he⟩ | ⟨-, he⟩
    · rw [he]
    · rw [he]
  | _ => rfl

theorem inv_work {w : ExecutorWork} {rest : List ExecutorWork} (h : Inv s) (hw : s.executor.work = w :: rest) :
    Inv (s.withExecutor ({ s.executor with work := rest }.perform s.registry w)) where
  places := h.places.congr rfl rfl rfl
  idle hp := by
    have hphase : s.executor.phase = .idle := by
      rw [← hp]
      exact (perform_phase s.registry { s.executor with work := rest } w).symm
    have hnil := (h.idle hphase).2
    rw [hw] at hnil
    cases hnil
  covered r hr := covered_perform (h.covered r hr) hw
  tracked := h.tracked.perform hw

theorem inv_finish (h : Inv s) (handle : Nat) :
    Inv (s.withExecutor { s.executor with finished := handle :: s.executor.finished }) where
  places := h.places.congr rfl rfl rfl
  idle := h.idle
  covered r hr := by
    have hc := h.covered r hr
    exact ⟨hc.started, hc.stopped, hc.announced, hc.retired⟩
  tracked := by
    refine ⟨h.tracked.spawned, fun k handle hl => ?_, h.tracked.orderly, fun k handle hm hl => ?_⟩
    · exact h.tracked.live k handle ⟨hl.1, fun hm => hl.2 (List.mem_cons_of_mem _ hm)⟩
    · exact List.mem_cons_of_mem _ (h.tracked.restarts k handle hm hl)

theorem inv_shutdown (h : Inv s) (hwait : s.Waiting) : Inv s.shutdown where
  places := h.places.congr rfl rfl rfl
  idle hp := by cases hp
  covered r hr := by cases hr
  tracked := by
    refine ⟨fun k handle hl => ?_, fun k handle hl => ?_, h.tracked.orderly, fun k handle hm => ?_⟩
    · cases hl
    · have hlive : s.executor.Live handle k := ⟨hl.1, fun hm => hl.2 (List.mem_append_right _ hm)⟩
      have hmem := (HashMap.mem_values_iff _ _).mpr ⟨k, h.tracked.live k handle hlive⟩
      exact absurd (List.mem_append_left _ hmem) hl.2
    · change .restart k ∈ s.executor.work at hm
      rw [hwait.2] at hm
      cases hm

/-- Every action keeps the invariant, a restore when nothing takes its place. -/
theorem inv_step {ls : List (HealthCheckAction σ)} {a : HealthCheckAction σ} (h : Inv s)
    (hok : RestoreAfterRemoval ls s a) (hs : Step s a s') : Inv s' := by
  unfold Step at hs
  cases a with
  | register id lb =>
    cases hs
    exact h.call (places_register h.places id lb) rfl rfl fun r => announces_register id lb _
  | unregister id registration =>
    cases hs
    exact inv_unregister h id registration
  | discard index =>
    obtain ⟨d, hd, rfl⟩ := Option.map_eq_some_iff.mp hs
    exact h.call (places_discard h.places hd) rfl rfl fun r => announces_discard h.places hd _
  | restore index =>
    obtain ⟨d, hd, rfl⟩ := Option.map_eq_some_iff.mp hs
    exact h.call (places_restore h.places hd) rfl rfl fun r => announces_restore h.places hd (hok index d rfl hd) _
  | start =>
    simp only [step] at hs
    split at hs
    · next hphase =>
      cases hs
      exact inv_start h hphase
    · cases hs
  | receive =>
    simp only [step] at hs
    split at hs
    · next hwait => exact inv_receive h hwait hs
    · cases hs
  | tick =>
    simp only [step] at hs
    split at hs
    · next hwait =>
      cases hs
      exact inv_tick h hwait.1
    · cases hs
  | work =>
    simp only [step] at hs
    cases hw : s.executor.work with
    | nil => simp [hw] at hs
    | cons w rest =>
      rw [hw] at hs
      cases hs
      exact inv_work h hw
  | finish handle =>
    simp only [step] at hs
    split at hs
    · cases hs
      exact inv_finish h handle
    · cases hs
  | shutdown =>
    simp only [step] at hs
    split at hs
    · next hwait =>
      cases hs
      exact inv_shutdown h hwait
    · cases hs

end

theorem inv_run {ls : List (HealthCheckAction σ)} {s : HealthCheckState σ}
    (r : RunMeeting Step Init RestoreAfterRemoval ls s) : Inv s :=
  r.invariant (fun _ h => inv_init h) fun _ h hok hs => inv_step h hok hs

/-! ## No task is started again without its registration -/

section
variable {s s' : HealthCheckState σ} {a : HealthCheckAction σ} {k : TaskKey}

end

/-! ## The tasks follow the registry -/

/-- Every update has been taken and acted upon. -/
def Quiescent (s : HealthCheckState σ) : Prop :=
  ∃ r, s.registry.updateNotifier.receiver = some r ∧ r.Drained ∧ s.executor.work = []

def newKey : TaskKey := ("upstream/u1", 2)

/-- One check is registered and started, then replaced by another that is started too. -/
def replacing : List (HealthCheckAction Unit) :=
  [.start, .work, .register "upstream/u1" (), .receive, .work, .work,
   .register "upstream/u1" (), .receive, .work, .work]

end HealthCheckState

end Pingsix
