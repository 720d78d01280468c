import Pingsix.Decode

/-!
# What decoding and validation establish

A decoded graph holds, under every id, what the value stored under that key
decodes to; a validated one has no dangling reference.
-/

namespace Pingsix

section
variable {ext : Externals} {keyring : KeyringService}

/-! ## Decoding -/

/-- The stored values, in the order they are decoded. -/
def StoredGraph.values (g : StoredGraph) : List (ResourceKey × ByteArray) :=
  g.resources.entries.map fun e => (e.1, e.2.value)

theorem decodeGraph_eq (g : StoredGraph) (mode : SecretMode) :
    decodeGraph ext keyring g mode =
      g.values.foldlM (fun set e => insertResource ext keyring (mode = .decryptForRuntime) set e.1 e.2) {} := by
  unfold decodeGraph StoredGraph.values
  rw [List.foldlM_map]

theorem decodeGraph_congr {g g' : StoredGraph} (h : g.values = g'.values) (mode : SecretMode) :
    decodeGraph ext keyring g mode = decodeGraph ext keyring g' mode := by
  rw [decodeGraph_eq, decodeGraph_eq, h]

theorem insertResource_eq_ok {d : Bool} {set set' : ResourceConfigSet} {key : ResourceKey} {value : ByteArray} :
    insertResource ext keyring d set key value = .ok set' ↔
      ∃ r, decodeStored ext keyring key.kind key.id value d = .ok r ∧ set' = set.insert key.kind key.id r := by
  unfold insertResource
  simp only [Except.bind_eq_ok, Except.pure_eq_ok]
  refine exists_congr fun r => and_congr_right fun _ => ?_
  exact eq_comm

/-- The entry for this kind and id decides what is found; without one, what was there before. -/
theorem foldlM_insertResource_lookup {d : Bool} : ∀ (l : List (ResourceKey × ByteArray)) {set₀ set : ResourceConfigSet},
    (l.map (·.1)).Nodup →
    l.foldlM (fun set e => insertResource ext keyring d set e.1 e.2) set₀ = .ok set →
    ∀ kind id r, (set.slot kind).lookup id = some r ↔
      (∃ e ∈ l, e.1.kind = kind ∧ e.1.id = id ∧ decodeStored ext keyring kind id e.2 d = .ok r) ∨
      ((∀ e ∈ l, ¬(e.1.kind = kind ∧ e.1.id = id)) ∧ (set₀.slot kind).lookup id = some r)
  | [], set₀, set, _, h, kind, id, r => by
    rw [List.foldlM_nil, Except.pure_eq_ok] at h
    subst h
    simp
  | e :: l, set₀, set, hnd, h, kind, id, r => by
    obtain ⟨set₁, h₁, h₂⟩ := Except.foldlM_cons_eq_ok.mp h
    rw [List.map_cons, List.nodup_cons] at hnd
    have ih := foldlM_insertResource_lookup l hnd.2 h₂ kind id r
    obtain ⟨r₀, hr₀, rfl⟩ := insertResource_eq_ok.mp h₁
    rw [ih]
    by_cases he : e.1.kind = kind ∧ e.1.id = id
    · obtain ⟨rfl, rfl⟩ := he
      -- no later entry has the same key
      have hl : ∀ e' ∈ l, ¬(e'.1.kind = e.1.kind ∧ e'.1.id = e.1.id) := by
        intro e' he' hk
        exact hnd.1 (List.mem_map.mpr ⟨e', he', ResourceKey.ext hk.1 hk.2⟩)
      rw [ResourceConfigSet.slot_insert_self, HashMap.lookup_insert_self]
      constructor
      · rintro (⟨e', he', hk, hi, -⟩ | ⟨-, hr⟩)
        · exact absurd ⟨hk, hi⟩ (hl e' he')
        · cases hr
          exact .inl ⟨e, List.mem_cons_self, rfl, rfl, hr₀⟩
      · rintro (⟨e', he', hk, hi, hd⟩ | ⟨hn, -⟩)
        · rcases List.mem_cons.mp he' with rfl | he'
          · rw [hr₀] at hd
            cases hd
            exact .inr ⟨hl, rfl⟩
          · exact absurd ⟨hk, hi⟩ (hl e' he')
        · exact absurd ⟨rfl, rfl⟩ (hn e List.mem_cons_self)
    · have hslot : ((set₀.insert e.1.kind e.1.id r₀).slot kind).lookup id = (set₀.slot kind).lookup id := by
        by_cases hk : kind = e.1.kind
        · subst hk
          have hi : id ≠ e.1.id := fun hi => he ⟨rfl, hi.symm⟩
          rw [ResourceConfigSet.slot_insert_self, HashMap.lookup_insert, if_neg hi]
        · rw [ResourceConfigSet.slot_insert_of_ne _ hk]
      rw [hslot]
      simp only [List.mem_cons, exists_eq_or_imp, forall_eq_or_imp]
      constructor
      · rintro (h | ⟨hn, hr⟩)
        · exact .inl (.inr h)
        · exact .inr ⟨⟨he, hn⟩, hr⟩
      · rintro ((⟨hk, hi, -⟩ | h) | ⟨⟨-, hn⟩, hr⟩)
        · exact absurd ⟨hk, hi⟩ he
        · exact .inl h
        · exact .inr ⟨hn, hr⟩

theorem StoredGraph.values_nodup (g : StoredGraph) : (g.values.map (·.1)).Nodup := by
  have h := g.resources.nodupKeys
  unfold List.NodupKeys List.keys at h
  unfold StoredGraph.values
  rw [List.map_map]
  exact h

theorem StoredGraph.mem_values {g : StoredGraph} {key : ResourceKey} {value : ByteArray} :
    (key, value) ∈ g.values ↔ ∃ res, g.resources.lookup key = some res ∧ res.value = value := by
  unfold StoredGraph.values
  rw [List.mem_map]
  constructor
  · rintro ⟨e, he, heq⟩
    cases heq
    exact ⟨e.2, (HashMap.mem_entries_iff _ _ _).mp he, rfl⟩
  · rintro ⟨res, hres, rfl⟩
    exact ⟨⟨key, res⟩, (HashMap.mem_entries_iff _ _ _).mpr hres, rfl⟩

/-- What a decoded graph holds under an id is the value stored under its key, decoded. -/
theorem decodeGraph_lookup {g : StoredGraph} {mode : SecretMode} {set : ResourceConfigSet}
    (h : decodeGraph ext keyring g mode = .ok set) {kind : ResourceKind} {id : String} {r : Resource kind} :
    (set.slot kind).lookup id = some r ↔
      ∃ key res, key.kind = kind ∧ key.id = id ∧ g.resources.lookup key = some res ∧
        decodeStored ext keyring kind id res.value (mode = .decryptForRuntime) = .ok r := by
  rw [decodeGraph_eq] at h
  rw [foldlM_insertResource_lookup _ g.values_nodup h, ResourceConfigSet.slot_empty]
  constructor
  · rintro (⟨⟨key, value⟩, he, hk, hi, hd⟩ | ⟨-, hr⟩)
    · obtain ⟨res, hres, rfl⟩ := StoredGraph.mem_values.mp he
      exact ⟨key, res, hk, hi, hres, hd⟩
    · cases hr
  · rintro ⟨key, res, hk, hi, hres, hd⟩
    exact .inl ⟨(key, res.value), StoredGraph.mem_values.mpr ⟨res, hres, rfl⟩, hk, hi, hd⟩

/-! ## Validation -/

theorem FieldError.schema_eq_nil {errors : List FieldError} {check : Except String Unit} :
    FieldError.schema errors check = [] ↔ errors = [] ∧ check = .ok () := by
  unfold FieldError.schema
  by_cases h : errors = []
  · cases check <;> simp [h]
  · simp [h]

theorem validateReference_eq_ok {ν : Type} {owner target : String} {entries : HashMap String ν} {ref : Option String} :
    validateReference owner target entries ref = .ok () ↔ ∀ id, ref = some id → entries.containsKey id = true := by
  cases ref with
  | none => simp [validateReference]
  | some id =>
    unfold validateReference
    by_cases h : entries.containsKey id = true
    · simp [h]
    · simp [h]

theorem validatePluginUpstreamRefs_eq_ok {owner : String} {plugins : HashMap String Json}
    {upstreams : HashMap String Upstream} :
    validatePluginUpstreamRefs ext owner plugins upstreams = .ok () ↔
      ∀ name cfg, plugins.lookup name = some cfg → validatePluginConfig ext name cfg = .ok () ∧
        ∃ ids, pluginUpstreamRefs ext name cfg = .ok ids ∧ ∀ id ∈ ids, upstreams.containsKey id = true := by
  unfold validatePluginUpstreamRefs
  rw [forEntries_eq_ok]
  have hcheck : ∀ (name : String) (id : String),
      (if upstreams.containsKey id then (.ok () : ProxyResult Unit)
        else .error (.configuration s!"{owner} plugin '{name}' references missing upstream '{id}'")) = .ok () ↔
        upstreams.containsKey id = true := by
    intro name id
    by_cases h : upstreams.containsKey id = true
    · simp [h]
    · simp [h]
  simp only [Except.bind_unit_eq_ok]
  simp only [Except.bind_eq_ok, Except.forM_eq_ok, hcheck]

theorem validateResource_eq_ok {kind id : String} {errors : List FieldError} :
    validateResource kind id errors = .ok () ↔ errors = [] := by
  unfold validateResource
  by_cases h : errors = []
  · simp [h]
  · simp [h]

/-- What the whole-graph validation accepts, check by check. -/
structure ValidSet (ext : Externals) (set : ResourceConfigSet) : Prop where
  upstreams : ∀ id u, set.upstreams.lookup id = some u → u.validate = []
  services : ∀ id s, set.services.lookup id = some s → s.validate = []
  globalRules : ∀ id g, set.globalRules.lookup id = some g → g.validate = []
  routes : ∀ id r, set.routes.lookup id = some r → r.validate = []
  ssls : ∀ id s, set.ssls.lookup id = some s → s.validate = []
  routeRefs : ∀ id r, set.routes.lookup id = some r → validateRouteRefs ext set r = .ok ()
  serviceRefs : ∀ id s, set.services.lookup id = some s → validateServiceRefs ext set s = .ok ()
  globalRuleRefs : ∀ id g, set.globalRules.lookup id = some g → validateGlobalRuleRefs ext set g = .ok ()

theorem validateConfigSet_eq_ok {set : ResourceConfigSet} :
    validateConfigSet ext set = .ok () ↔ ValidSet ext set := by
  unfold validateConfigSet
  simp only [Except.bind_unit_eq_ok, forEntries_eq_ok, validateResource_eq_ok]
  constructor
  · rintro ⟨h₁, h₂, h₃, h₄, h₅, h₆, h₇, h₈⟩
    exact ⟨h₁, h₂, h₃, h₄, h₅, h₆, h₇, h₈⟩
  · intro h
    exact ⟨h.upstreams, h.services, h.globalRules, h.routes, h.ssls, h.routeRefs, h.serviceRefs, h.globalRuleRefs⟩

theorem validateRouteRefs_eq_ok {set : ResourceConfigSet} {r : Route} :
    validateRouteRefs ext set r = .ok () ↔
      (∀ id, r.serviceId = some id → set.services.containsKey id = true) ∧
      (r.upstream.isNone = true → ∀ id, r.upstreamId = some id → set.upstreams.containsKey id = true) ∧
      validatePluginUpstreamRefs ext s!"Route '{r.id}'" r.plugins set.upstreams = .ok () := by
  unfold validateRouteRefs
  rw [Except.bind_unit_eq_ok, validateReference_eq_ok]
  refine and_congr_right fun _ => ?_
  cases r.upstream.isNone with
  | true => simp [Except.bind_unit_eq_ok, validateReference_eq_ok]
  | false => simp

theorem validateServiceRefs_eq_ok {set : ResourceConfigSet} {s : Service} :
    validateServiceRefs ext set s = .ok () ↔
      (s.upstream.isNone = true → ∀ id, s.upstreamId = some id → set.upstreams.containsKey id = true) ∧
      validatePluginUpstreamRefs ext s!"Service '{s.id}'" s.plugins set.upstreams = .ok () := by
  unfold validateServiceRefs
  cases s.upstream.isNone with
  | true => simp [Except.bind_unit_eq_ok, validateReference_eq_ok]
  | false => simp

theorem validateGlobalRuleRefs_eq_ok {set : ResourceConfigSet} {g : GlobalRule} :
    validateGlobalRuleRefs ext set g = .ok () ↔
      validatePluginUpstreamRefs ext s!"GlobalRule '{g.id}'" g.plugins set.upstreams = .ok () := Iff.rfl

end

end Pingsix
