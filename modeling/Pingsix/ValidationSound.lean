import Pingsix.AdminSound

/-!
# Which upstreams the whole-graph validation reaches

Named upstreams are validated as resources and a route validates its inline
upstream with itself. A service does not, and the targets of a traffic-split
configuration are checked for their weights only.
-/

namespace Pingsix

open FieldError (nest nestOption)

variable {ext : Externals}

/-! ## Occurrences -/

/-- A plugin configuration of a route, a service or a global rule. -/
inductive PluginOccurs (set : ResourceConfigSet) (name : String) (cfg : Json) : Prop
  | route {id : String} {r : Route} (h : set.routes.lookup id = some r) (hp : r.plugins.lookup name = some cfg)
  | service {id : String} {s : Service} (h : set.services.lookup id = some s) (hp : s.plugins.lookup name = some cfg)
  | globalRule {id : String} {g : GlobalRule} (h : set.globalRules.lookup id = some g)
      (hp : g.plugins.lookup name = some cfg)

/-- The inline upstream of a traffic-split target. -/
def SplitUpstream (set : ResourceConfigSet) (u : Upstream) : Prop :=
  ∃ cfg config, PluginOccurs set "traffic-split" cfg ∧ TrafficSplit.PluginConfig.fromValue cfg = .ok config ∧
    ∃ rule ∈ config.rules, ∃ target ∈ rule.weightedUpstreams, target.upstream = some u

/-- The inline upstream of a service. -/
def ServiceUpstream (set : ResourceConfigSet) (u : Upstream) : Prop :=
  ∃ id s, set.services.lookup id = some s ∧ s.upstream = some u

/-- An upstream of the set, wherever it stands. -/
inductive UpstreamOccurs (set : ResourceConfigSet) (u : Upstream) : Prop
  | named {id : String} (h : set.upstreams.lookup id = some u)
  | routeInline {id : String} {r : Route} (h : set.routes.lookup id = some r) (hu : r.upstream = some u)
  | serviceInline (h : ServiceUpstream set u)
  | trafficSplit (h : SplitUpstream set u)

/-! ## What the validation says of them -/

theorem nest_eq_nil {field : String} {errors : List FieldError} : nest field errors = [] ↔ errors = [] := by
  simp [nest]

/-- A valid route has a valid inline upstream. -/
theorem Route.validate_upstream {r : Route} {u : Upstream} (h : r.validate = []) (hu : r.upstream = some u) :
    u.validate = [] := by
  have hfields := (FieldError.schema_eq_nil.mp h).1
  rw [hu] at hfields
  have hnest : nest "upstream" u.validate = [] := (List.append_eq_nil_iff.mp hfields).1
  exact nest_eq_nil.mp hnest

/-- In a set the validation accepts every upstream obeys the rules of upstreams exactly when the
inline upstreams of services and of traffic-split targets do. -/
theorem validateConfigSet_covers_iff {set : ResourceConfigSet} (h : validateConfigSet ext set = .ok ()) :
    (∀ u, UpstreamOccurs set u → u.validate = []) ↔
      ∀ u, ServiceUpstream set u ∨ SplitUpstream set u → u.validate = [] := by
  have hv := validateConfigSet_eq_ok.mp h
  constructor
  · intro hall u hu
    cases hu with
    | inl hs => exact hall u (.serviceInline hs)
    | inr hs => exact hall u (.trafficSplit hs)
  · intro hall u hu
    cases hu with
    | named hl => exact hv.upstreams _ u hl
    | routeInline hl hu => exact Route.validate_upstream (hv.routes _ _ hl) hu
    | serviceInline hs => exact hall u (.inl hs)
    | trafficSplit hs => exact hall u (.inr hs)

/-! ## An upstream without nodes -/

/-- The upstream of an empty node list. -/
def emptyUpstream : Upstream := { nodes := ⟨[]⟩ }

def sampleUpstreamSet : ResourceConfigSet :=
  { upstreams := AList.singleton "u1" { id := "u1", nodes := ⟨[{ host := "127.0.0.1", port := some 80, weight := 1,
                                                                 priority := 0 }]⟩ } }

theorem validateConfigSet_covers_sample : ¬ ∃ u, UpstreamOccurs sampleUpstreamSet u ∧ u.validate ≠ [] := by
  have h : validateConfigSet (Admin.sampleExternals []) sampleUpstreamSet = .ok () := by rfl
  have hall := (validateConfigSet_covers_iff h).mpr
  rw [not_exists]
  refine fun u ho => ho.2 (hall (fun u hu => ?_) u ho.1)
  cases hu with
  | inl hs =>
    obtain ⟨id, s, hl, -⟩ := hs
    cases hl
  | inr hs =>
    obtain ⟨cfg, config, hp, -⟩ := hs
    cases hp with
    | route hl _ => cases hl
    | service hl _ => cases hl
    | globalRule hl _ => cases hl

/-- A traffic-split configuration with a target that has no nodes. -/
def emptyTarget : Json :=
  .obj [("rules", .arr [.obj [("weighted_upstreams", .arr [.obj [
    ("upstream", .obj [("nodes", .arr [])]), ("weight", .num (.posInt 1))]])]])]

def emptyUpstreamSet : ResourceConfigSet :=
  { services := AList.singleton "s1" { id := "s1", upstream := some emptyUpstream }
    globalRules := AList.singleton "g1" { id := "g1", plugins := AList.singleton "traffic-split" emptyTarget } }

/-- A service and a traffic-split target with an empty upstream are accepted. -/
theorem empty_upstream_accepted :
    validateConfigSet (Admin.sampleExternals []) emptyUpstreamSet = .ok () ∧
      ServiceUpstream emptyUpstreamSet emptyUpstream ∧ SplitUpstream emptyUpstreamSet emptyUpstream ∧
      emptyUpstream.validate ≠ [] := by
  have hrule : emptyUpstreamSet.globalRules.lookup "g1" =
      some { id := "g1", plugins := AList.singleton "traffic-split" emptyTarget } := rfl
  have hoccurs : PluginOccurs emptyUpstreamSet "traffic-split" emptyTarget := .globalRule hrule rfl
  have hsplit : SplitUpstream emptyUpstreamSet emptyUpstream := by
    refine ⟨emptyTarget, ⟨[⟨[], [⟨none, some emptyUpstream, 1⟩]⟩]⟩, hoccurs, by rfl, ?_⟩
    exact ⟨_, List.mem_singleton_self _, _, List.mem_singleton_self _, rfl⟩
  exact ⟨by decide, ⟨"s1", _, rfl, rfl⟩, hsplit, by decide⟩

end Pingsix
