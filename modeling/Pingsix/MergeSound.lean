import Mathlib.Data.List.Dedup
import Pingsix.Compile

/-!
# Soundness of the plugin merge

The plugins of a route and of its service as one list: each entry of the merged
list comes from one of the two sources, and the entries of a source keep their order.
-/

namespace Pingsix

variable {υ : Type}

/-! ## Names the route overrides -/

theorem compare_eq {a b : String} : compareOfLessAndEq a b = .eq ↔ a = b :=
  compareOfLessAndEq_eq_eq String.le_refl String.not_le

theorem compare_gt {a b : String} : compareOfLessAndEq a b = .gt ↔ b < a :=
  compareOfLessAndEq_eq_gt String.le_antisymm String.le_total String.not_le a b

theorem ordered_compare {names : List String} {name : String} (h : names.Pairwise (· ≤ ·)) :
    BinarySearch.Ordered (fun n => compareOfLessAndEq n name) names := by
  refine h.imp fun {a b} hab => ⟨fun hb => ?_, fun ha => ?_⟩
  · rw [compareOfLessAndEq_eq_lt] at hb ⊢
    exact Std.lt_of_le_of_lt hab hb
  · rw [compare_gt] at ha ⊢
    exact Std.lt_of_lt_of_le ha hab

theorem mem_buildPluginNameIndex {plugins : List (PluginEntry υ)} {name : String} :
    name ∈ buildPluginNameIndex plugins ↔ name ∈ plugins.map (·.name) := by
  unfold buildPluginNameIndex
  rw [List.mem_dedup, List.mem_insertionSort]

theorem sorted_buildPluginNameIndex (plugins : List (PluginEntry υ)) :
    (buildPluginNameIndex plugins).Pairwise (· ≤ ·) :=
  (List.pairwise_insertionSort _ _).sublist (List.dedup_sublist _)

theorem routeOverridesPlugin_iff {plugins : List (PluginEntry υ)} {name : String} :
    routeOverridesPlugin (buildPluginNameIndex plugins) name = true ↔ name ∈ plugins.map (·.name) := by
  unfold routeOverridesPlugin
  rw [BinarySearch.search_iff (ordered_compare (sorted_buildPluginNameIndex plugins))]
  simp only [compare_eq, exists_eq_right, mem_buildPluginNameIndex]

/-- The merge of a route with its service is the merge by the name index. -/
theorem ProxyRoute.merge_eq (plugins : List (PluginEntry υ)) (s : ProxyService υ) :
    ProxyRoute.merge plugins (some s) =
      mergeRouteAndServicePlugins (routeOverridesPlugin (buildPluginNameIndex plugins)) plugins s.plugins := by
  have hsame : (fun name => (plugins.map (·.name)).contains name) =
      routeOverridesPlugin (buildPluginNameIndex plugins) := by
    funext name
    rw [Bool.eq_iff_iff, routeOverridesPlugin_iff, List.contains_iff_mem]
  unfold ProxyRoute.merge
  rw [← hsame]

/-! ## The merged list -/

def SortedDesc (plugins : List (PluginEntry υ)) : Prop := plugins.Pairwise fun a b => b.priority ≤ a.priority

/-- An entry of the merged list, with the source it comes from. -/
inductive Sourced (υ : Type) where
  | route (entry : PluginEntry υ)
  | service (entry : PluginEntry υ)

namespace Sourced

def entry : Sourced υ → PluginEntry υ
  | .route e | .service e => e

def fromRoute : Sourced υ → Option (PluginEntry υ)
  | .route e => some e
  | .service _ => none

def fromService : Sourced υ → Option (PluginEntry υ)
  | .route _ => none
  | .service e => some e

/-- What may stand before what: a service entry before a route entry only with a greater priority. -/
def Before : Sourced υ → Sourced υ → Prop
  | .service a, .route b => b.priority < a.priority
  | a, b => b.entry.priority ≤ a.entry.priority

theorem Before.le {a b : Sourced υ} (h : Before a b) : b.entry.priority ≤ a.entry.priority := by
  cases a with
  | route a => cases b <;> exact h
  | service a =>
    cases b with
    | route b => exact Int.le_of_lt h
    | service b => exact h

end Sourced

/-- `merged` interleaves `route` and `service`: sorted, stable, the route first on equal priorities. -/
def Interleaves (route service merged : List (PluginEntry υ)) : Prop :=
  ∃ tagged : List (Sourced υ), tagged.map Sourced.entry = merged ∧ tagged.filterMap Sourced.fromRoute = route ∧
    tagged.filterMap Sourced.fromService = service ∧ tagged.Pairwise Sourced.Before

theorem mem_tagged {tagged : List (Sourced υ)} {t : Sourced υ} (h : t ∈ tagged) :
    (∃ e ∈ tagged.filterMap Sourced.fromRoute, t = .route e) ∨
      ∃ e ∈ tagged.filterMap Sourced.fromService, t = .service e := by
  cases t with
  | route e => exact .inl ⟨e, List.mem_filterMap.mpr ⟨_, h, rfl⟩, rfl⟩
  | service e => exact .inr ⟨e, List.mem_filterMap.mpr ⟨_, h, rfl⟩, rfl⟩

namespace Interleaves

theorem sorted {route service merged : List (PluginEntry υ)} (h : Interleaves route service merged) :
    SortedDesc merged := by
  obtain ⟨tagged, rfl, -, -, hbefore⟩ := h
  exact List.pairwise_map.mpr (hbefore.imp Sourced.Before.le)

theorem services {service : List (PluginEntry υ)} (h : SortedDesc service) : Interleaves [] service service := by
  refine ⟨service.map .service, ?_, ?_, ?_, List.pairwise_map.mpr h⟩
  · rw [List.map_map]
    exact List.map_id service
  · rw [List.filterMap_map]
    exact List.filterMap_eq_nil_iff.mpr fun _ _ => rfl
  · rw [List.filterMap_map]
    exact List.filterMap_some

theorem consRoute {rp : PluginEntry υ} {route service merged : List (PluginEntry υ)}
    (h : Interleaves route service merged) (hr : ∀ r ∈ route, r.priority ≤ rp.priority)
    (hs : ∀ s ∈ service, s.priority ≤ rp.priority) : Interleaves (rp :: route) service (rp :: merged) := by
  obtain ⟨tagged, rfl, rfl, rfl, hbefore⟩ := h
  refine ⟨.route rp :: tagged, rfl, rfl, rfl, List.pairwise_cons.mpr ⟨fun t ht => ?_, hbefore⟩⟩
  obtain ⟨e, he, rfl⟩ | ⟨e, he, rfl⟩ := mem_tagged ht
  · exact hr e he
  · exact hs e he

theorem consService {sp : PluginEntry υ} {route service merged : List (PluginEntry υ)}
    (h : Interleaves route service merged) (hr : ∀ r ∈ route, r.priority < sp.priority)
    (hs : ∀ s ∈ service, s.priority ≤ sp.priority) : Interleaves route (sp :: service) (sp :: merged) := by
  obtain ⟨tagged, rfl, rfl, rfl, hbefore⟩ := h
  refine ⟨.service sp :: tagged, rfl, rfl, rfl, List.pairwise_cons.mpr ⟨fun t ht => ?_, hbefore⟩⟩
  obtain ⟨e, he, rfl⟩ | ⟨e, he, rfl⟩ := mem_tagged ht
  · exact hr e he
  · exact hs e he

end Interleaves

/-- The service plugins that no name of the route overrides. -/
def keptOf (overridden : String → Bool) (service : List (PluginEntry υ)) : List (PluginEntry υ) :=
  service.filter fun sp => !overridden sp.name

theorem interleaves_takeService {overridden : String → Bool} {rp : PluginEntry υ} {rps : List (PluginEntry υ)}
    (hr : SortedDesc (rp :: rps))
    (ih : ∀ {sps : List (PluginEntry υ)}, SortedDesc sps →
      Interleaves rps (keptOf overridden sps) (mergeRouteAndServicePlugins overridden rps sps)) :
    ∀ {sps : List (PluginEntry υ)}, SortedDesc sps →
      Interleaves (rp :: rps) (keptOf overridden sps)
        (mergeRouteAndServicePlugins.takeService overridden rp (mergeRouteAndServicePlugins overridden rps) sps)
  | [], hs => by
    unfold mergeRouteAndServicePlugins.takeService
    exact (ih hs).consRoute (List.pairwise_cons.mp hr).1 fun s h => by simp [keptOf] at h
  | sp :: sps, hs => by
    have hrp := (List.pairwise_cons.mp hr).1
    have hsp := (List.pairwise_cons.mp hs).1
    have rest := interleaves_takeService hr ih (List.pairwise_cons.mp hs).2
    unfold mergeRouteAndServicePlugins.takeService
    by_cases hle : sp.priority ≤ rp.priority
    · rw [if_pos hle]
      refine (ih hs).consRoute hrp fun s h => ?_
      cases (List.mem_filter.mp h).1 with
      | head => exact hle
      | tail _ h => exact Int.le_trans (hsp s h) hle
    · rw [if_neg hle]
      by_cases ho : overridden sp.name = true
      · have hkept : keptOf overridden (sp :: sps) = keptOf overridden sps := by simp [keptOf, ho]
        rw [if_pos ho, hkept]
        exact rest
      · have hkept : keptOf overridden (sp :: sps) = sp :: keptOf overridden sps := by simp [keptOf, ho]
        rw [if_neg ho, hkept]
        refine rest.consService (fun r h => ?_) fun s h => hsp s (List.mem_filter.mp h).1
        have hlt : rp.priority < sp.priority := Int.not_le.mp hle
        cases h with
        | head => exact hlt
        | tail _ h => exact Int.lt_of_le_of_lt (hrp r h) hlt

theorem interleaves_merge {overridden : String → Bool} : ∀ {route service : List (PluginEntry υ)},
    SortedDesc route → SortedDesc service →
      Interleaves route (keptOf overridden service) (mergeRouteAndServicePlugins overridden route service)
  | [], _, _, hs => .services (hs.sublist List.filter_sublist)
  | _ :: _, _, hr, hs =>
    interleaves_takeService hr (fun h => interleaves_merge (List.pairwise_cons.mp hr).2 h) hs

/-- The merged plugins are sorted, and they interleave the route's with the service's that it does not override. -/
theorem mergeRouteAndServicePlugins_interleaves {route service : List (PluginEntry υ)} (hr : SortedDesc route)
    (hs : SortedDesc service) :
    let merged := mergeRouteAndServicePlugins (routeOverridesPlugin (buildPluginNameIndex route)) route service
    SortedDesc merged ∧
      Interleaves route (service.filter fun sp => sp.name ∉ route.map (·.name)) merged := by
  have hkept : keptOf (routeOverridesPlugin (buildPluginNameIndex route)) service =
      service.filter fun sp => sp.name ∉ route.map (·.name) := by
    refine List.filter_congr fun sp _ => ?_
    rw [Bool.eq_iff_iff, Bool.not_eq_true', ← Bool.not_eq_true, routeOverridesPlugin_iff, decide_eq_true_eq]
  have h := @interleaves_merge υ (routeOverridesPlugin (buildPluginNameIndex route)) _ _ hr hs
  rw [hkept] at h
  exact ⟨h.sorted, h⟩

/-- The service's `b` gives way to the route's, and of two equal priorities the route's is first. -/
theorem mergeRouteAndServicePlugins_interleaves_pair :
    let entry : String → Int → PluginEntry Unit := fun name priority =>
      { generation := 0, owner := .route "r", name, priority, plugin := .plain .null }
    let route := [entry "b" 10, entry "a" 5]
    let service := [entry "c" 20, entry "b" 10, entry "d" 5]
    let merged := mergeRouteAndServicePlugins (routeOverridesPlugin (buildPluginNameIndex route)) route service
    merged.map (·.name) = ["c", "b", "a", "d"] ∧ SortedDesc merged ∧
      Interleaves route (service.filter fun sp => sp.name ∉ route.map (·.name)) merged :=
  ⟨by decide, mergeRouteAndServicePlugins_interleaves (by simp [SortedDesc]) (by simp [SortedDesc])⟩

end Pingsix
