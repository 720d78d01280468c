import Mathlib.Data.List.Nodup
import Pingsix.IncrementalSound
import Pingsix.Lib.MachineInt
import Pingsix.RuntimeStore

/-!
# The keys of health checks

Every check of a compiled snapshot belongs to one upstream occurrence, and no two
occurrences have the same key, whatever the ids of the resources are.
-/

namespace Pingsix

/-! ## One key for each occurrence -/

def TrafficSplitOwner.path : TrafficSplitOwner → String
  | .route id => s!"route/{id}"
  | .service id => s!"service/{id}"
  | .globalRule id => s!"global-rule/{id}"

namespace UpstreamOccurrence

/-- The key of the check of an occurrence. -/
def healthCheckKey : UpstreamOccurrence → String
  | .named id => s!"upstream/{id}"
  | .serviceInline id => s!"service/{id}/inline"
  | .routeInline id => s!"route/{id}/inline"
  | .trafficSplit owner rule target => s!"{owner.path}/plugin/traffic-split/{rule}/{target}"
  | .aiProxy _ => ""

end UpstreamOccurrence

/-- Texts that end in a segment each are equal only when both parts are. -/
theorem append_segment_inj {a a' b b' : String} (hb : '/' ∉ b.toList) (hb' : '/' ∉ b'.toList)
    (h : a ++ "/" ++ b = a' ++ "/" ++ b') : a = a' ∧ b = b' := by
  have hlast : b = b' := by
    rw [← @Text.lastSegment_append a b '/' hb, ← @Text.lastSegment_append a' b' '/' hb']
    exact congrArg (Text.lastSegment · '/') h
  subst hlast
  exact ⟨(String.append_left_inj _).mp ((String.append_left_inj _).mp h), rfl⟩

theorem slash_not_mem_repr (n : Nat) : '/' ∉ n.repr.toList := fun h =>
  absurd (Decimal.isDigit_of_mem_repr h) (by decide)

/-- The rule and target of a check can be read off its key. -/
theorem trafficSplit_key_inj {a b : String} {r q t u : Nat}
    (h : s!"{a}/plugin/traffic-split/{r}/{t}" = s!"{b}/plugin/traffic-split/{q}/{u}") : a = b ∧ r = q ∧ t = u := by
  have h : ((a ++ "/plugin/traffic-split") ++ "/" ++ r.repr) ++ "/" ++ t.repr =
      ((b ++ "/plugin/traffic-split") ++ "/" ++ q.repr) ++ "/" ++ u.repr := by
    simpa [toString, String.append_assoc] using h
  obtain ⟨h, ht⟩ := append_segment_inj (slash_not_mem_repr t) (slash_not_mem_repr u) h
  obtain ⟨h, hr⟩ := append_segment_inj (slash_not_mem_repr r) (slash_not_mem_repr q) h
  exact ⟨(String.append_left_inj _).mp h, Decimal.repr_injective hr, Decimal.repr_injective ht⟩

theorem inline_key_ne {a b : String} {r t : Nat} : s!"{a}/inline" ≠ s!"{b}/plugin/traffic-split/{r}/{t}" := by
  intro h
  have h : a ++ "/" ++ "inline" = (b ++ "/plugin/traffic-split" ++ "/" ++ r.repr) ++ "/" ++ t.repr := by
    simpa [toString, String.append_assoc] using h
  obtain ⟨-, h⟩ := append_segment_inj (by decide) (slash_not_mem_repr t) h
  have hmem : 'i' ∈ t.repr.toList := h ▸ by decide
  exact absurd (Decimal.isDigit_of_mem_repr hmem) (by decide)

/-- Keys of resources of different kinds begin differently. -/
def TrafficSplitOwner.initial : TrafficSplitOwner → Char
  | .route _ => 'r'
  | .service _ => 's'
  | .globalRule _ => 'g'

def UpstreamOccurrence.initial : UpstreamOccurrence → Char
  | .named _ => 'u'
  | .serviceInline _ => 's'
  | .routeInline _ => 'r'
  | .trafficSplit owner _ _ => owner.initial
  | .aiProxy _ => 'a'

theorem TrafficSplitOwner.head?_path (o : TrafficSplitOwner) : o.path.toList.head? = some o.initial := by
  cases o
  all_goals simp [path, initial, toString]

theorem TrafficSplitOwner.path_inj {o o' : TrafficSplitOwner} (h : o.path = o'.path) : o = o' := by
  have hi : some o.initial = some o'.initial := by rw [← head?_path, ← head?_path, h]
  cases o <;> cases o' <;> simp [path, initial, toString] at h hi <;> simp [h]

namespace UpstreamOccurrence

/-- The provider upstreams of ai-proxy are not checked. -/
def Checked (o : UpstreamOccurrence) : Prop := ∀ owner, o ≠ .aiProxy owner

theorem head?_healthCheckKey {o : UpstreamOccurrence} (h : o.Checked) :
    o.healthCheckKey.toList.head? = some o.initial := by
  cases o with
  | aiProxy owner => exact absurd rfl (h owner)
  | trafficSplit owner rule target =>
    have hp := owner.head?_path
    simp only [healthCheckKey, initial, toString, String.toList_append, List.head?_append, hp, Option.some_or]
  | _ => simp [healthCheckKey, initial, toString]

theorem healthCheckKey_inj {o o' : UpstreamOccurrence} (h : o.Checked) (h' : o'.Checked)
    (hk : o.healthCheckKey = o'.healthCheckKey) : o = o' := by
  have hi : some o.initial = some o'.initial := by rw [← head?_healthCheckKey h, ← head?_healthCheckKey h', hk]
  have hi := Option.some.inj hi
  cases o with
  | aiProxy owner => exact absurd rfl (h owner)
  | named id =>
    cases o' with
    | named id' => simpa [healthCheckKey, toString] using hk
    | trafficSplit owner _ _ => cases owner <;> simp [initial, TrafficSplitOwner.initial] at hi
    | _ => simp [initial] at hi
  | serviceInline id =>
    cases o' with
    | serviceInline id' => simpa [healthCheckKey, toString] using hk
    | trafficSplit owner r t => exact absurd hk (@inline_key_ne s!"service/{id}" owner.path r t)
    | _ => simp [initial] at hi
  | routeInline id =>
    cases o' with
    | routeInline id' => simpa [healthCheckKey, toString] using hk
    | trafficSplit owner r t => exact absurd hk (@inline_key_ne s!"route/{id}" owner.path r t)
    | _ => simp [initial] at hi
  | trafficSplit owner r t =>
    cases o' with
    | aiProxy owner => exact absurd rfl (h' owner)
    | named id => cases owner <;> simp [initial, TrafficSplitOwner.initial] at hi
    | serviceInline id => exact absurd hk.symm (@inline_key_ne s!"service/{id}" owner.path r t)
    | routeInline id => exact absurd hk.symm (@inline_key_ne s!"route/{id}" owner.path r t)
    | trafficSplit owner' r' t' =>
      obtain ⟨hp, rfl, rfl⟩ := trafficSplit_key_inj hk
      rw [TrafficSplitOwner.path_inj hp]

end UpstreamOccurrence

/-! ## The occurrences that are checked -/

/-- The inline targets of one rule. -/
def ruleOccurrences (owner : TrafficSplitOwner) (ruleIdx : Nat) (rule : TrafficSplit.MatchRule)
    (compiled : CompiledRule ProxyUpstream) : List UpstreamOccurrence :=
  (rule.weightedUpstreams.zip compiled.targets).zipIdx.filterMap fun t =>
    (TrafficSplit.inlineTarget t.1.1 t.1.2.2).map fun _ => .trafficSplit owner ruleIdx t.2

def pluginOccurrences (owner : TrafficSplitOwner) : PluginInstance ProxyUpstream → List UpstreamOccurrence
  | .trafficSplit config rules =>
    (config.rules.zip rules).zipIdx.flatMap fun r => ruleOccurrences owner r.2 r.1.1 r.1.2
  | .plain _ | .aiProxy .. => []

/-- A service, route or global rule with what can carry checks. -/
structure CheckScope where
  owner : TrafficSplitOwner
  occurrence : UpstreamOccurrence
  inline : Option ProxyUpstream
  plugins : List (PluginEntry ProxyUpstream)

def CheckScope.occurrences (s : CheckScope) : List UpstreamOccurrence :=
  (s.inline.map fun _ => s.occurrence).toList ++ s.plugins.flatMap fun entry => pluginOccurrences s.owner entry.plugin

def checkScopes (objects : CandidateSnapshot) : List CheckScope :=
  objects.services.entries.map (fun e => ⟨.service e.1, .serviceInline e.1, e.2.inlineUpstream, e.2.plugins⟩) ++
    objects.routes.entries.map (fun e => ⟨.route e.1, .routeInline e.1, e.2.inlineUpstream, e.2.plugins⟩) ++
    objects.globalRules.entries.map fun e => ⟨.globalRule e.1, .named e.1, none, e.2.plugins⟩

def checkedOccurrences (objects : CandidateSnapshot) : List UpstreamOccurrence :=
  objects.upstreams.entries.map (fun e => .named e.1) ++ (checkScopes objects).flatMap (·.occurrences)

section
variable (F : FingerprintHash)

theorem trafficSplit_key {owner : TrafficSplitOwner} {pfx : String} (hp : pfx = s!"{owner.path}/plugin") {r t : Nat}
    {key : String} (hk : key = s!"traffic-split/{r}/{t}") :
    s!"{pfx}/{key}" = (UpstreamOccurrence.trafficSplit owner r t).healthCheckKey := by
  subst hp hk
  simp only [UpstreamOccurrence.healthCheckKey, toString, String.append_assoc]
  have h : "/plugin/traffic-split/" = "/plugin" ++ ("/" ++ "traffic-split/") := rfl
  rw [h]
  simp only [String.append_assoc]

theorem keys_ruleSpecs {owner : TrafficSplitOwner} {pfx : String} (hp : pfx = s!"{owner.path}/plugin") (r : Nat)
    (rule : TrafficSplit.MatchRule) (compiled : CompiledRule ProxyUpstream) :
    (PluginInstance.ruleSpecs F r rule compiled).map (fun spec => s!"{pfx}/{spec.key}") =
      (ruleOccurrences owner r rule compiled).map (·.healthCheckKey) := by
  unfold PluginInstance.ruleSpecs ruleOccurrences
  rw [List.map_filterMap, List.map_filterMap]
  refine congrArg (List.filterMap · _) (funext fun t => ?_)
  rw [Option.map_map, Option.map_map]
  refine congrArg (Option.map · _) (funext fun u => ?_)
  exact trafficSplit_key hp rfl

theorem keys_pluginHealthChecks (owner : TrafficSplitOwner) (plugin : PluginInstance ProxyUpstream) :
    (pluginHealthChecks F s!"{owner.path}/plugin" plugin).map (·.key) =
      (pluginOccurrences owner plugin).map (·.healthCheckKey) := by
  unfold pluginHealthChecks
  rw [List.map_map]
  cases plugin with
  | plain config => rfl
  | aiProxy config endpoint upstream scope => rfl
  | trafficSplit config rules =>
    unfold PluginInstance.healthCheckSpecs pluginOccurrences
    rw [List.map_flatMap, List.map_flatMap]
    exact congrArg (List.flatMap · _) (funext fun r => keys_ruleSpecs F rfl r.2 r.1.1 r.1.2)

theorem keys_scopeHealthChecks (s : CheckScope)
    (hkey : s.inline.isSome = true → s.occurrence.healthCheckKey = s!"{s.owner.path}/inline") :
    (scopeHealthChecks F s.owner.path s.inline s.plugins).map (·.key) = s.occurrences.map (·.healthCheckKey) := by
  unfold scopeHealthChecks CheckScope.occurrences
  rw [List.map_append, List.map_append, List.map_flatMap, List.map_flatMap]
  congr 1
  · cases hi : s.inline with
    | none => rfl
    | some u =>
      have hkey := hkey (by rw [hi]; rfl)
      simp [ProxyUpstream.healthCheckSpec, hkey]
  · exact congrArg (List.flatMap · _) (funext fun entry => keys_pluginHealthChecks F s.owner entry.plugin)

/-- The checks of a snapshot are those of its occurrences. -/
theorem keys_collectHealthChecks (snapshot : RuntimeSnapshot) :
    (collectHealthChecks F snapshot).map (·.key) = (checkedOccurrences snapshot.objects).map (·.healthCheckKey) := by
  unfold collectHealthChecks checkedOccurrences checkScopes
  simp only [List.map_append, List.map_flatMap, List.map_map, List.flatMap_append, List.flatMap_map, List.append_assoc]
  refine congrArg₂ _ rfl (congrArg₂ _ ?_ (congrArg₂ _ ?_ ?_))
  · exact congrArg (List.flatMap · _) (funext fun e =>
      keys_scopeHealthChecks F ⟨.service e.1, .serviceInline e.1, e.2.inlineUpstream, e.2.plugins⟩ fun _ => rfl)
  · exact congrArg (List.flatMap · _) (funext fun e =>
      keys_scopeHealthChecks F ⟨.route e.1, .routeInline e.1, e.2.inlineUpstream, e.2.plugins⟩ fun _ => rfl)
  · exact congrArg (List.flatMap · _) (funext fun e =>
      keys_scopeHealthChecks F ⟨.globalRule e.1, .named e.1, none, e.2.plugins⟩ fun h => by cases h)

end

/-! ## Every occurrence once -/

/-- The resource an occurrence belongs to, if it is not an upstream itself. -/
def UpstreamOccurrence.owner? : UpstreamOccurrence → Option TrafficSplitOwner
  | .named _ => none
  | .serviceInline id => some (.service id)
  | .routeInline id => some (.route id)
  | .trafficSplit owner _ _ => some owner
  | .aiProxy owner => some owner

/-- The plugins of one resource: each name once, and only the one named so splits traffic. -/
structure SplitsOnce (plugins : List (PluginEntry ProxyUpstream)) : Prop where
  names : (plugins.map (·.name)).Nodup
  others : ∀ entry ∈ plugins, entry.name ≠ "traffic-split" → ∀ owner, pluginOccurrences owner entry.plugin = []

theorem pairwise_zipIdx {α : Type} (l : List α) : l.zipIdx.Pairwise fun a b => a.2 ≠ b.2 := by
  have h : (l.zipIdx.map Prod.snd).Nodup := by
    rw [List.zipIdx_map_snd]
    exact List.nodup_range' _
  exact List.pairwise_map.mp h

section
variable {owner : TrafficSplitOwner} {o : UpstreamOccurrence}

theorem mem_ruleOccurrences {r : Nat} {rule : TrafficSplit.MatchRule} {compiled : CompiledRule ProxyUpstream}
    (h : o ∈ ruleOccurrences owner r rule compiled) : ∃ t, o = .trafficSplit owner r t := by
  obtain ⟨t, -, ht⟩ := List.mem_filterMap.mp h
  obtain ⟨u, -, rfl⟩ := Option.map_eq_some_iff.mp ht
  exact ⟨t.2, rfl⟩

theorem mem_pluginOccurrences {plugin : PluginInstance ProxyUpstream} (h : o ∈ pluginOccurrences owner plugin) :
    ∃ r t, o = .trafficSplit owner r t := by
  cases plugin with
  | plain config => cases h
  | aiProxy config endpoint upstream scope => cases h
  | trafficSplit config rules =>
    obtain ⟨r, -, hr⟩ := List.mem_flatMap.mp h
    exact ⟨r.2, mem_ruleOccurrences hr⟩

theorem nodup_pluginOccurrences (plugin : PluginInstance ProxyUpstream) : (pluginOccurrences owner plugin).Nodup := by
  cases plugin with
  | plain config => exact List.nodup_nil
  | aiProxy config endpoint upstream scope => exact List.nodup_nil
  | trafficSplit config rules =>
    refine List.nodup_flatMap.mpr ⟨fun r _ => ?_, (pairwise_zipIdx _).imp fun {a b} hne => ?_⟩
    · refine List.pairwise_filterMap.mpr ((pairwise_zipIdx _).imp fun {a b} hne o ho o' ho' he => hne ?_)
      obtain ⟨u, -, rfl⟩ := Option.map_eq_some_iff.mp ho
      obtain ⟨u', -, rfl⟩ := Option.map_eq_some_iff.mp ho'
      exact (UpstreamOccurrence.trafficSplit.inj he).2.2
    · intro o ho ho'
      obtain ⟨t, rfl⟩ := mem_ruleOccurrences ho
      obtain ⟨t', he⟩ := mem_ruleOccurrences ho'
      exact hne (UpstreamOccurrence.trafficSplit.inj he).2.1

theorem nodup_plugins {plugins : List (PluginEntry ProxyUpstream)} (h : SplitsOnce plugins) :
    (plugins.flatMap fun entry => pluginOccurrences owner entry.plugin).Nodup := by
  have hnames : plugins.Pairwise fun a b => a.name ≠ b.name := List.pairwise_map.mp h.names
  have hmem : plugins.Pairwise fun a b => a ∈ plugins ∧ b ∈ plugins := List.pairwise_of_forall_mem_list fun a ha b hb => ⟨ha, hb⟩
  refine List.nodup_flatMap.mpr ⟨fun entry _ => nodup_pluginOccurrences entry.plugin,
    (hnames.and hmem).imp fun {a b} hab => ?_⟩
  obtain ⟨hne, ha, hb⟩ := hab
  intro o ho ho'
  dsimp only at ho ho'
  by_cases hsplit : a.name = "traffic-split"
  · rw [h.others b hb fun hb' => hne (hsplit.trans hb'.symm)] at ho'
    cases ho'
  · rw [h.others a ha hsplit] at ho
    cases ho

end

/-- The inline upstream of a service or route. -/
def UpstreamOccurrence.Inline (o : UpstreamOccurrence) : Prop := ∃ id, o = .serviceInline id ∨ o = .routeInline id

/-- An inline upstream belongs to its resource. -/
structure CheckScope.Sound (s : CheckScope) : Prop where
  plugins : SplitsOnce s.plugins
  inline : s.inline.isSome = true → s.occurrence.owner? = some s.owner ∧ s.occurrence.Inline

namespace CheckScope

variable {s : CheckScope} {o : UpstreamOccurrence}

/-- An occurrence of a resource is its inline upstream or a target of its traffic split. -/
theorem mem_occurrences (h : s.Sound) (ho : o ∈ s.occurrences) :
    o.owner? = some s.owner ∧ (o.Inline ∨ ∃ r t, o = .trafficSplit s.owner r t) := by
  cases List.mem_append.mp ho with
  | inl hi =>
    obtain ⟨u, hu, rfl⟩ := Option.map_eq_some_iff.mp (Option.mem_toList.mp hi)
    obtain ⟨howner, hinline⟩ := h.inline (by rw [hu]; rfl)
    exact ⟨howner, .inl hinline⟩
  | inr hp =>
    obtain ⟨entry, -, he⟩ := List.mem_flatMap.mp hp
    obtain ⟨r, t, rfl⟩ := mem_pluginOccurrences he
    exact ⟨rfl, .inr ⟨r, t, rfl⟩⟩

theorem nodup_occurrences (h : s.Sound) : s.occurrences.Nodup := by
  refine List.nodup_append.mpr ⟨?_, nodup_plugins h.plugins, fun a ha b hb he => ?_⟩
  · cases s.inline with
    | none => exact List.nodup_nil
    | some u => exact List.nodup_singleton _
  · obtain ⟨u, hu, rfl⟩ := Option.map_eq_some_iff.mp (Option.mem_toList.mp ha)
    obtain ⟨entry, -, hentry⟩ := List.mem_flatMap.mp hb
    obtain ⟨r, t, rfl⟩ := mem_pluginOccurrences hentry
    obtain ⟨id, hi | hi⟩ := (h.inline (by rw [hu]; rfl)).2
    · cases hi.symm.trans he
    · cases hi.symm.trans he

end CheckScope

/-- The objects of a snapshot: every scope splits traffic once. -/
def CandidateSnapshot.ScopesSound (objects : CandidateSnapshot) : Prop :=
  (∀ id service, objects.services.lookup id = some service → SplitsOnce service.plugins) ∧
    (∀ id route, objects.routes.lookup id = some route → SplitsOnce route.plugins) ∧
      ∀ id rule, objects.globalRules.lookup id = some rule → SplitsOnce rule.plugins

section
variable {objects : CandidateSnapshot}

theorem sound_of_mem_checkScopes (h : objects.ScopesSound) {s : CheckScope} (hs : s ∈ checkScopes objects) : s.Sound := by
  obtain ⟨hservices, hroutes, hrules⟩ := h
  cases List.mem_append.mp hs with
  | inl hs =>
    cases List.mem_append.mp hs with
    | inl hs =>
      obtain ⟨e, he, rfl⟩ := List.mem_map.mp hs
      exact ⟨hservices e.1 e.2 ((HashMap.mem_entries_iff _ _ _).mp he), fun _ => ⟨rfl, e.1, .inl rfl⟩⟩
    | inr hs =>
      obtain ⟨e, he, rfl⟩ := List.mem_map.mp hs
      exact ⟨hroutes e.1 e.2 ((HashMap.mem_entries_iff _ _ _).mp he), fun _ => ⟨rfl, e.1, .inr rfl⟩⟩
  | inr hs =>
    obtain ⟨e, he, rfl⟩ := List.mem_map.mp hs
    exact ⟨hrules e.1 e.2 ((HashMap.mem_entries_iff _ _ _).mp he), fun h => by cases h⟩

theorem nodup_map_key {ν β : Type} (m : HashMap String ν) {f : String → β} (hf : f.Injective) :
    (m.entries.map fun e => f e.1).Nodup := by
  have h : (m.entries.map Sigma.fst).Nodup := m.nodupKeys
  have h := h.map hf
  rwa [List.map_map] at h

theorem nodup_owners : ((checkScopes objects).map (·.owner)).Nodup := by
  unfold checkScopes
  simp only [List.map_append, List.map_map, Function.comp_def]
  refine List.nodup_append.mpr ⟨List.nodup_append.mpr ⟨nodup_map_key _ fun a b h => TrafficSplitOwner.service.inj h,
    nodup_map_key _ fun a b h => TrafficSplitOwner.route.inj h, fun a ha b hb he => ?_⟩,
    nodup_map_key _ fun a b h => TrafficSplitOwner.globalRule.inj h, fun a ha b hb he => ?_⟩
  · obtain ⟨e, -, rfl⟩ := List.mem_map.mp ha
    obtain ⟨e', -, rfl⟩ := List.mem_map.mp hb
    cases he
  · obtain ⟨e', -, rfl⟩ := List.mem_map.mp hb
    cases List.mem_append.mp ha with
    | inl ha =>
      obtain ⟨e, -, rfl⟩ := List.mem_map.mp ha
      cases he
    | inr ha =>
      obtain ⟨e, -, rfl⟩ := List.mem_map.mp ha
      cases he

theorem nodup_checkedOccurrences (h : objects.ScopesSound) : (checkedOccurrences objects).Nodup := by
  have howners : (checkScopes objects).Pairwise fun a b => a.owner ≠ b.owner := List.pairwise_map.mp nodup_owners
  have hmem : (checkScopes objects).Pairwise fun a b => a ∈ checkScopes objects ∧ b ∈ checkScopes objects :=
    List.pairwise_of_forall_mem_list fun a ha b hb => ⟨ha, hb⟩
  refine List.nodup_append.mpr ⟨nodup_map_key _ fun a b h => UpstreamOccurrence.named.inj h, ?_,
    fun a ha b hb he => ?_⟩
  · refine List.nodup_flatMap.mpr ⟨fun s hs => CheckScope.nodup_occurrences (sound_of_mem_checkScopes h hs),
      (howners.and hmem).imp fun {a b} hab => ?_⟩
    obtain ⟨hne, ha, hb⟩ := hab
    intro o ho ho'
    have hoa := (CheckScope.mem_occurrences (sound_of_mem_checkScopes h ha) ho).1
    have hob := (CheckScope.mem_occurrences (sound_of_mem_checkScopes h hb) ho').1
    exact hne (Option.some.inj (hoa.symm.trans hob))
  · obtain ⟨e, -, rfl⟩ := List.mem_map.mp ha
    obtain ⟨s, hs, ho⟩ := List.mem_flatMap.mp hb
    have howner := (CheckScope.mem_occurrences (sound_of_mem_checkScopes h hs) ho).1
    rw [← he] at howner
    cases howner

theorem checked_of_mem (h : objects.ScopesSound) {o : UpstreamOccurrence} (ho : o ∈ checkedOccurrences objects) :
    o.Checked := by
  intro owner he
  subst he
  cases List.mem_append.mp ho with
  | inl hn =>
    obtain ⟨e, -, he⟩ := List.mem_map.mp hn
    cases he
  | inr hs =>
    obtain ⟨s, hs, ho⟩ := List.mem_flatMap.mp hs
    obtain ⟨-, ⟨id, he | he⟩ | ⟨r, t, he⟩⟩ := CheckScope.mem_occurrences (sound_of_mem_checkScopes h hs) ho
    · cases he
    · cases he
    · cases he

/-- No two checks of a snapshot have the same key. -/
theorem nodup_keys_collect (F : FingerprintHash) {snapshot : RuntimeSnapshot} (h : snapshot.objects.ScopesSound) :
    ((collectHealthChecks F snapshot).map (·.key)).Nodup := by
  rw [keys_collectHealthChecks]
  exact (nodup_checkedOccurrences h).map_on fun a ha b hb hk =>
    UpstreamOccurrence.healthCheckKey_inj (checked_of_mem h ha) (checked_of_mem h hb) hk

end

/-! ## Compiled snapshots -/

section
variable {ctx : BuildContext} {ups : HashMap String ProxyUpstream} {owner : TrafficSplitOwner}

/-- Only the plugin of that name splits traffic. -/
theorem occurrences_of_build {name : String} {cfg : Json} {e : PluginEntry ProxyUpstream}
    (h : buildPluginWithUpstreams ctx ups owner name cfg = .ok e) (hn : name ≠ "traffic-split") (o : TrafficSplitOwner) :
    pluginOccurrences o e.plugin = [] := by
  unfold buildPluginWithUpstreams at h
  cases hm : pluginMeta ctx.ext name with
  | none =>
    rw [hm] at h
    cases h
  | some entry =>
    rw [hm] at h
    obtain ⟨plugin, hplugin, rfl⟩ := Except.map_eq_ok.mp h
    have hname := name_of_pluginMeta hm
    show pluginOccurrences o plugin = []
    cases kind_of_pluginMeta hm with
    | plain =>
      obtain ⟨-, -, rfl⟩ := Except.map_eq_ok.mp hplugin
      rfl
    | trafficSplit => exact absurd hname.symm hn
    | aiProxy =>
      obtain ⟨config, -, hplugin⟩ := Except.bind_eq_ok.mp hplugin
      obtain ⟨endpoint, -, hplugin⟩ := Except.bind_eq_ok.mp hplugin
      obtain ⟨u, -, hplugin⟩ := Except.bind_eq_ok.mp hplugin
      cases Except.pure_eq_ok.mp hplugin
      rfl

theorem splitsOnce_of_build {plugins : HashMap String Json} {wrap : String → String → String}
    {es : List (PluginEntry ProxyUpstream)} (h : buildPlugins ctx ups owner plugins wrap = .ok es) : SplitsOnce es := by
  obtain ⟨es', hes', h⟩ := Except.bind_eq_ok.mp h
  cases Except.pure_eq_ok.mp h
  constructor
  · have hn : es'.map (·.name) = plugins.keys :=
      names_of_mapM (fun name err => { err with error := .plugin (wrap name err.error.display) }) hes'
    have hperm : ((sortPluginsByPriorityDesc es').map (·.name)).Perm (es'.map (·.name)) :=
      (List.perm_insertionSort _ es').map _
    rw [hperm.nodup_iff, hn]
    exact plugins.nodupKeys
  · intro e he hne o
    obtain ⟨x, -, hx⟩ := (Except.mem_mapM hes').mp ((List.mem_insertionSort _).mp he)
    have hx := Except.mapError_eq_ok.mp hx
    exact occurrences_of_build hx (name_of_build hx ▸ hne) o

end

theorem Compiled.scopesSound {M : Matchit} {ext : Externals} {config : ResourceConfigSet} {snapshot : RuntimeSnapshot}
    (h : Compiled M ext config snapshot) : snapshot.objects.ScopesSound := by
  obtain ⟨-, hu⟩ := h.upToDate
  refine ⟨fun id service hs => ?_, fun id route hr => ?_, fun id rule hr => ?_⟩
  · obtain ⟨config, -, ctx, s', -, hmade, hseen⟩ := hu.services.made id service hs
    obtain ⟨inline, -, hmade⟩ := Except.bind_eq_ok.mp hmade
    obtain ⟨upstream, -, hmade⟩ := Except.bind_eq_ok.mp hmade
    obtain ⟨plugins, hplugins, hmade⟩ := Except.bind_eq_ok.mp hmade
    cases Except.pure_eq_ok.mp hmade
    have hps := congrArg ServiceView.plugins hseen
    unfold ProxyService.seen at hps
    simp only [plugins_seen_identity] at hps
    rw [← hps]
    exact splitsOnce_of_build hplugins
  · obtain ⟨config, -, ctx, r', -, hmade, hseen⟩ := hu.routes.made id route hr
    obtain ⟨service, inline, upstream, plugins, -, -, -, hplugins, rfl⟩ := ProxyRoute.build_eq_ok.mp hmade
    have hps := congrArg RouteView.plugins hseen
    unfold ProxyRoute.seen ProxyRoute.assemble at hps
    simp only [plugins_seen_identity] at hps
    rw [← hps]
    exact splitsOnce_of_build hplugins
  · obtain ⟨config, -, ctx, r', -, hmade, hseen⟩ := hu.globalRules.made id rule hr
    obtain ⟨plugins, hplugins, hmade⟩ := Except.bind_eq_ok.mp hmade
    cases Except.pure_eq_ok.mp hmade
    have hps := congrArg GlobalRuleView.plugins hseen
    unfold ProxyGlobalRule.seen at hps
    simp only [plugins_seen_identity] at hps
    rw [← hps]
    exact splitsOnce_of_build hplugins

end Pingsix
