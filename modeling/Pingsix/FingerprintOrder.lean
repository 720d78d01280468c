import Mathlib.Data.Prod.Lex
import Mathlib.Logic.Relation
import Pingsix.FingerprintSound
import Pingsix.Lib.Except

/-!
# Other ways to write an upstream

An upstream with its nodes in another order, in the object form, or with the
default port written out. The nodes are sorted by the ports as written and
hashed with the ports that are dialed, so the fingerprint stays the same
exactly if no node without a port comes before one of its host that is smaller
in what is hashed.
-/

namespace Pingsix

/-! ## Rewriting -/

namespace Node

/-- The node with the port it is dialed on. -/
def fillPort (scheme : UpstreamScheme) (node : Node) : Node := { node with port := some (node.effectivePort scheme) }

/-- The member of the object form that names the node. -/
def Written (node : Node) (member : Sigma fun _ : String => Nat) : Prop :=
  node.priority = 0 ∧ node.weight = member.2 ∧
    ∃ parsed, Node.fromStr member.1 = .ok parsed ∧ parsed.bareHost = node.bareHost ∧ parsed.port = node.port

end Node

namespace Upstream

/-- One change that leaves what the upstream dials as it is. -/
inductive Rewrite (upstream : Upstream) : Upstream → Prop
  | permuted (nodes : List Node) : nodes.Perm upstream.nodes.nodes →
      Rewrite upstream { upstream with nodes := ⟨nodes⟩ }
  | objectForm (map : HashMap String Nat) (members : List (Sigma fun _ : String => Nat)) (nodes : Nodes) :
      List.Forall₂ Node.Written upstream.nodes.nodes members → members.Perm map.entries →
        Nodes.tryFrom map = .ok nodes → Rewrite upstream { upstream with nodes }
  | defaultPorts (nodes : List Node) :
      List.Forall₂ (fun node other => other = node ∨ other = node.fillPort upstream.scheme) upstream.nodes.nodes
        nodes → Rewrite upstream { upstream with nodes := ⟨nodes⟩ }

def Rewrites : Upstream → Upstream → Prop := Relation.ReflTransGen Rewrite

end Upstream

namespace UpstreamFingerprintProfile

/-- What is hashed of a node besides its host. -/
def rank (profile : UpstreamFingerprintProfile) (scheme : UpstreamScheme) (node : Node) : ℕ ×ₗ ℕ ×ₗ ℤ :=
  toLex (node.effectivePort scheme,
    match profile with
    | .healthCheck => toLex (0, 0)
    | .cacheOrigin => toLex (node.weight, node.priority))

def place (profile : UpstreamFingerprintProfile) (scheme : UpstreamScheme) (node : Node) :
    String ×ₗ ℕ ×ₗ ℕ ×ₗ ℤ := toLex (node.bareHost, profile.rank scheme node)

/-- No node of the host of a node without a port is smaller than that one in what is hashed. -/
def OmittedFirst (profile : UpstreamFingerprintProfile) (upstream : Upstream) : Prop :=
  ∀ n ∈ upstream.nodes.nodes, n.port = none → ∀ m ∈ upstream.nodes.nodes, n.bareHost = m.bareHost →
    profile.rank upstream.scheme n ≤ profile.rank upstream.scheme m

end UpstreamFingerprintProfile

/-! ## The two orders -/

namespace Node

def sortKey (node : Node) : String ×ₗ ℕ ×ₗ ℕ ×ₗ ℤ :=
  toLex (node.bareHost, toLex (node.port.getD 0, toLex (node.weight, node.priority)))

theorem sortKeyLe_iff (a b : Node) : sortKeyLe a b = true ↔ a.sortKey ≤ b.sortKey := by
  unfold sortKeyLe sortKey
  rw [Prod.Lex.toLex_le_toLex, Prod.Lex.toLex_le_toLex, Prod.Lex.toLex_le_toLex]
  by_cases hhost : a.bareHost = b.bareHost
  · by_cases hport : a.port.getD 0 = b.port.getD 0
    · by_cases hweight : a.weight = b.weight
      · simp [hhost, hport, hweight]
      · simp [hhost, hport, hweight]
    · simp [hhost, hport]
  · simp [hhost]

/-- The same node written in another way. -/
structure Alike (scheme : UpstreamScheme) (node other : Node) : Prop where
  bareHost : other.bareHost = node.bareHost
  weight : other.weight = node.weight
  priority : other.priority = node.priority
  port : other.port = node.port ∨ node.port = none ∧ other.port = some (node.effectivePort scheme)

variable {scheme : UpstreamScheme}

/-- The same node but for brackets around its host. -/
structure Respelled (node other : Node) : Prop where
  bareHost : other.bareHost = node.bareHost
  port : other.port = node.port
  weight : other.weight = node.weight
  priority : other.priority = node.priority

theorem Respelled.alike {node other : Node} (h : Respelled node other) : Alike scheme node other :=
  ⟨h.bareHost, h.weight, h.priority, .inl h.port⟩

theorem Respelled.sortKey {node other : Node} (h : Respelled node other) : other.sortKey = node.sortKey := by
  unfold Node.sortKey
  rw [h.bareHost, h.port, h.weight, h.priority]

theorem Alike.refl (node : Node) : Alike scheme node node := ⟨rfl, rfl, rfl, .inl rfl⟩

theorem Alike.effectivePort {node other : Node} (h : Alike scheme node other) :
    other.effectivePort scheme = node.effectivePort scheme := by
  unfold Node.effectivePort
  cases h.port with
  | inl he => rw [he]
  | inr he => rw [he.2, Option.getD_some]; rfl

theorem Alike.trans {a b c : Node} (hab : Alike scheme a b) (hbc : Alike scheme b c) : Alike scheme a c := by
  refine ⟨hbc.bareHost.trans hab.bareHost, hbc.weight.trans hab.weight, hbc.priority.trans hab.priority, ?_⟩
  cases hbc.port with
  | inl hc => rw [hc]; exact hab.port
  | inr hc =>
    rw [hab.effectivePort] at hc
    cases hab.port with
    | inl hb => exact .inr ⟨hb ▸ hc.1, hc.2⟩
    | inr hb => exact .inr ⟨hb.1, hc.2⟩

theorem Alike.place (profile : UpstreamFingerprintProfile) {node other : Node} (h : Alike scheme node other) :
    profile.place scheme other = profile.place scheme node := by
  unfold UpstreamFingerprintProfile.place UpstreamFingerprintProfile.rank
  rw [h.bareHost, h.effectivePort, h.weight, h.priority]

theorem alike_fillPort {scheme : UpstreamScheme} (node : Node) : Alike scheme node (node.fillPort scheme) := by
  refine ⟨rfl, rfl, rfl, ?_⟩
  cases hp : node.port with
  | none => exact .inr ⟨rfl, rfl⟩
  | some port =>
    refine .inl ?_
    show some (node.effectivePort scheme) = some port
    unfold effectivePort
    rw [hp, Option.getD_some]

end Node

/-! ## What every way of writing shares -/

/-- The nodes are hashed at the same places, and each is one of the others written in another way. -/
structure SamePlaces (scheme : UpstreamScheme) (nodes others : List Node) : Prop where
  places : ∀ profile : UpstreamFingerprintProfile,
    (others.map (profile.place scheme)).Perm (nodes.map (profile.place scheme))
  alike : ∀ other ∈ others, ∃ node ∈ nodes, Node.Alike scheme node other

namespace SamePlaces

variable {scheme : UpstreamScheme} {nodes others : List Node}

theorem refl (nodes : List Node) : SamePlaces scheme nodes nodes :=
  ⟨fun _ => .refl _, fun other h => ⟨other, h, .refl other⟩⟩

theorem trans {rest : List Node} (h : SamePlaces scheme nodes others) (h' : SamePlaces scheme others rest) :
    SamePlaces scheme nodes rest := by
  refine ⟨fun profile => (h'.places profile).trans (h.places profile), ?_⟩
  intro c hc
  obtain ⟨b, hb, hbc⟩ := h'.alike c hc
  obtain ⟨a, ha, hab⟩ := h.alike b hb
  exact ⟨a, ha, hab.trans hbc⟩

theorem of_perm (h : others.Perm nodes) : SamePlaces scheme nodes others :=
  ⟨fun _ => h.map _, fun other ho => ⟨other, h.mem_iff.mp ho, .refl other⟩⟩

theorem of_forall₂ (h : List.Forall₂ (Node.Alike scheme) nodes others) : SamePlaces scheme nodes others := by
  induction h with
  | nil => exact .refl []
  | cons hab _ ih =>
    refine ⟨fun profile => ?_, ?_⟩
    · rw [List.map_cons, List.map_cons, hab.place]
      exact (ih.places profile).cons _
    · intro other ho
      cases List.mem_cons.mp ho with
      | inl he => exact ⟨_, List.mem_cons_self, he ▸ hab⟩
      | inr ho =>
        obtain ⟨node, hn, halike⟩ := ih.alike other ho
        exact ⟨node, List.mem_cons_of_mem _ hn, halike⟩

end SamePlaces

/-- The nodes of the members that can be read. -/
def readMembers (members : List (Sigma fun _ : String => Nat)) : List Node :=
  (members.map fun e => (Node.fromStr e.1).map fun node => { node with weight := e.2 }).filterMap Except.toOption

theorem readMembers_perm {members others : List (Sigma fun _ : String => Nat)} (h : members.Perm others) :
    (readMembers members).Perm (readMembers others) := (h.map _).filterMap _

/-- What an object form is read as: each member as its own node. -/
theorem respelled_of_members {nodes : List Node} {members : List (Sigma fun _ : String => Nat)}
    (h : List.Forall₂ Node.Written nodes members) :
    List.Forall₂ Node.Respelled nodes (readMembers members) := by
  induction h with
  | nil => exact .nil
  | @cons node member _ _ hw _ ih =>
    obtain ⟨hpriority, hweight, parsed, hparsed, hhost, hport⟩ := hw
    have hzero : parsed.priority = 0 := by
      obtain ⟨⟨host, port⟩, -, he⟩ := Except.bind_eq_ok.mp hparsed
      cases he
      rfl
    unfold readMembers
    rw [List.map_cons, hparsed]
    exact .cons ⟨hhost, hport, hweight.symm, hzero.trans hpriority.symm⟩ ih

theorem perm_of_tryFrom {map : HashMap String Nat} {nodes : Nodes} (h : Nodes.tryFrom map = .ok nodes) :
    nodes.nodes.Perm (readMembers map.entries) := by
  simp only [Nodes.tryFrom] at h
  split at h
  · cases h
    exact List.perm_insertionSort _ _
  · cases h

theorem samePlaces_of_rewrite {u v : Upstream} (h : u.Rewrite v) :
    v = { u with nodes := v.nodes } ∧ SamePlaces u.scheme u.nodes.nodes v.nodes.nodes := by
  cases h with
  | permuted nodes hp => exact ⟨rfl, .of_perm hp⟩
  | objectForm map members nodes hw hp hn =>
    have hread : SamePlaces u.scheme u.nodes.nodes (readMembers members) :=
      .of_forall₂ ((respelled_of_members hw).imp fun _ _ h => h.alike)
    exact ⟨rfl, hread.trans (.of_perm ((perm_of_tryFrom hn).trans (readMembers_perm hp.symm)))⟩
  | defaultPorts nodes hf =>
    refine ⟨rfl, .of_forall₂ (hf.imp fun node other ho => ?_)⟩
    cases ho with
    | inl he => rw [he]; exact .refl node
    | inr he => rw [he]; exact Node.alike_fillPort node

theorem samePlaces_of_rewrites {u v : Upstream} (h : u.Rewrites v) :
    v = { u with nodes := v.nodes } ∧ SamePlaces u.scheme u.nodes.nodes v.nodes.nodes := by
  induction h with
  | refl => exact ⟨rfl, .refl _⟩
  | @tail v w _ hvw ih =>
    obtain ⟨hv, hsame⟩ := ih
    obtain ⟨hw, hstep⟩ := samePlaces_of_rewrite hvw
    have hscheme : v.scheme = u.scheme := by rw [hv]
    rw [hscheme] at hstep
    refine ⟨?_, hsame.trans hstep⟩
    rw [hw, hv]

/-! ## Ports that were read -/

theorem fromStr_port {addr : String} {node : Node} (h : Node.fromStr addr = .ok node) : node.port ≠ some 0 := by
  obtain ⟨⟨host, port⟩, hsplit, he⟩ := Except.bind_eq_ok.mp h
  cases he
  intro hzero
  simp only [splitHostPort] at hsplit
  split at hsplit
  · simp at hsplit
  · obtain ⟨-, hport⟩ := Except.bind_unit_eq_ok.mp hsplit
    split at hport
    · cases hport
      cases hzero
    · split at hport
      · cases hport
      · rename_i hrange
        cases hport
        exact hrange (.inr (Option.some.inj hzero))

/-- A field with a default is that default or read from a value. -/
theorem field_default_eq_ok {α : Type} {src : De.Source} {struct name : String} {index : Nat} {d : De α} {a b : α}
    (h : src.field struct index name d (.default a) = .ok b) : b = a ∨ ∃ value, d value = .ok b := by
  unfold De.Source.field at h
  cases src with
  | byName members =>
    cases hl : Json.lookup members name with
    | none =>
      simp only [hl] at h
      exact .inl (Except.ok.inj h).symm
    | some value =>
      simp only [hl] at h
      exact .inr ⟨value, h⟩
  | byPosition items =>
    cases hl : items[index]? with
    | none =>
      simp only [hl] at h
      exact .inl (Except.ok.inj h).symm
    | some value =>
      simp only [hl] at h
      exact .inr ⟨value, h⟩

theorem deserializePort_ne_zero {value : Json} {port : Option Nat} (h : Node.deserializePort value = .ok port) :
    port ≠ some 0 := by
  obtain ⟨read, -, h⟩ := Except.bind_eq_ok.mp h
  split at h
  · cases h
  · rename_i hne
    cases h
    exact hne

theorem node_fromValue_port {value : Json} {node : Node} (h : Node.fromValue value = .ok node) :
    node.port ≠ some 0 := by
  obtain ⟨src, -, h⟩ := Except.bind_eq_ok.mp h
  obtain ⟨host, -, h⟩ := Except.bind_eq_ok.mp h
  obtain ⟨port, hport, h⟩ := Except.bind_eq_ok.mp h
  obtain ⟨weight, -, h⟩ := Except.bind_eq_ok.mp h
  obtain ⟨priority, -, h⟩ := Except.bind_eq_ok.mp h
  cases h
  cases field_default_eq_ok hport with
  | inl he => rw [he]; exact nofun
  | inr hread => exact deserializePort_ne_zero hread.choose_spec

theorem tryFrom_port {map : HashMap String Nat} {nodes : Nodes} (h : Nodes.tryFrom map = .ok nodes) :
    ∀ node ∈ nodes.nodes, node.port ≠ some 0 := by
  intro node hn
  obtain ⟨read, hread, hnode⟩ := List.mem_filterMap.mp ((perm_of_tryFrom h).mem_iff.mp hn)
  obtain ⟨member, -, rfl⟩ := List.mem_map.mp hread
  cases hparsed : Node.fromStr member.1 with
  | error e => rw [hparsed] at hnode; cases hnode
  | ok parsed =>
    rw [hparsed] at hnode
    cases hnode
    have hne : parsed.port ≠ some 0 := fromStr_port hparsed
    exact hne

/-! ## The order nodes are hashed in -/

/-- Nodes in the order they are hashed in. -/
def sortedNodes (nodes : List Node) : List Node := nodes.insertionSort fun a b => Node.sortKeyLe a b

theorem sortedNodes_perm (nodes : List Node) : (sortedNodes nodes).Perm nodes := List.perm_insertionSort _ _

theorem sortedNodes_pairwise (nodes : List Node) : (sortedNodes nodes).Pairwise fun a b => a.sortKey ≤ b.sortKey := by
  have : Std.Total fun a b : Node => (Node.sortKeyLe a b : Prop) :=
    ⟨fun a b => by rw [Node.sortKeyLe_iff, Node.sortKeyLe_iff]; exact le_total _ _⟩
  have : IsTrans Node fun a b => (Node.sortKeyLe a b : Prop) :=
    ⟨fun a b c hab hbc => by rw [Node.sortKeyLe_iff] at *; exact hab.trans hbc⟩
  exact (List.pairwise_insertionSort (fun a b : Node => (Node.sortKeyLe a b : Prop)) nodes).imp
    fun h => (Node.sortKeyLe_iff _ _).mp h

namespace UpstreamFingerprintProfile

variable (profile : UpstreamFingerprintProfile) (scheme : UpstreamScheme)

theorem place_le_iff {a b : Node} (h : a.bareHost = b.bareHost) :
    profile.place scheme a ≤ profile.place scheme b ↔ profile.rank scheme a ≤ profile.rank scheme b := by
  unfold place
  rw [Prod.Lex.toLex_le_toLex]
  simp [h]

/-- Nodes with written ports are hashed in the order they are sorted in. -/
theorem place_le_of_sortKey_le {a b : Node} {p q : Nat} (ha : a.port = some p) (hb : b.port = some q)
    (h : a.sortKey ≤ b.sortKey) : profile.place scheme a ≤ profile.place scheme b := by
  unfold Node.sortKey at h
  unfold place rank Node.effectivePort
  rw [ha, hb, Option.getD_some, Option.getD_some] at *
  rw [Prod.Lex.toLex_le_toLex] at *
  refine h.imp_right fun ⟨hhost, hrest⟩ => ⟨hhost, ?_⟩
  cases profile with
  | cacheOrigin => exact hrest
  | healthCheck =>
    rw [Prod.Lex.toLex_le_toLex] at *
    exact hrest.imp_right fun ⟨hport, _⟩ => ⟨hport, le_refl _⟩

/-- The places of the nodes in the order they are hashed in. -/
def hashedPlaces (nodes : List Node) : List (String ×ₗ ℕ ×ₗ ℕ ×ₗ ℤ) := (sortedNodes nodes).map (profile.place scheme)

theorem hashedPlaces_perm (nodes : List Node) :
    (profile.hashedPlaces scheme nodes).Perm (nodes.map (profile.place scheme)) := (sortedNodes_perm nodes).map _

theorem hashedPlaces_eq {nodes others : List Node} (hsame : SamePlaces scheme nodes others)
    (h : (profile.hashedPlaces scheme nodes).Pairwise (· ≤ ·)) (h' : (profile.hashedPlaces scheme others).Pairwise (· ≤ ·)) :
    profile.hashedPlaces scheme others = profile.hashedPlaces scheme nodes :=
  List.Perm.eq_of_pairwise (fun _ _ _ _ => le_antisymm) h' h <|
    (profile.hashedPlaces_perm scheme others).trans <|
      (hsame.places profile).trans (profile.hashedPlaces_perm scheme nodes).symm

/-- Nodes sorted one way and hashed in order: of two of them, the one that sorts first is hashed first. -/
theorem place_le_of_sorted {nodes : List Node} (h : (profile.hashedPlaces scheme nodes).Pairwise (· ≤ ·)) {a b : Node}
    (ha : a ∈ nodes) (hb : b ∈ nodes) (hlt : ¬b.sortKey ≤ a.sortKey) :
    profile.place scheme a ≤ profile.place scheme b := by
  have hboth := (sortedNodes_pairwise nodes).and (List.pairwise_map.mp h)
  have hall := List.Pairwise.forall_of_forall_of_flip
    (R := fun a b : Node => ¬b.sortKey ≤ a.sortKey → profile.place scheme a ≤ profile.place scheme b)
    (fun a _ h => absurd (le_refl _) h) (hboth.imp fun h _ => h.2)
    (hboth.imp fun h hlt => absurd h.1 hlt)
  exact hall ((sortedNodes_perm nodes).mem_iff.mpr ha) ((sortedNodes_perm nodes).mem_iff.mpr hb) hlt

theorem hashedPlaces_pairwise {nodes : List Node}
    (h : ∀ a ∈ nodes, ∀ b ∈ nodes, a.sortKey ≤ b.sortKey → profile.place scheme a ≤ profile.place scheme b) :
    (profile.hashedPlaces scheme nodes).Pairwise (· ≤ ·) := by
  refine List.pairwise_map.mpr ((sortedNodes_pairwise nodes).imp_of_mem fun ha hb hab => ?_)
  exact h _ ((sortedNodes_perm nodes).mem_iff.mp ha) _ ((sortedNodes_perm nodes).mem_iff.mp hb) hab

/-- The place of a node by what it is sorted by. -/
def placeOfKey (key : String ×ₗ ℕ ×ₗ ℕ ×ₗ ℤ) : String ×ₗ ℕ ×ₗ ℕ ×ₗ ℤ :=
  let (host, rest) := ofLex key
  let (port, rest) := ofLex rest
  let (weight, priority) := ofLex rest
  toLex (host, profile.rank scheme ⟨host, if port = 0 then none else some port, weight, priority⟩)

theorem place_eq_placeOfKey {node : Node} (h : node.port ≠ some 0) :
    profile.place scheme node = profile.placeOfKey scheme node.sortKey := by
  have hport : (if node.port.getD 0 = 0 then none else some (node.port.getD 0)) = node.port := by
    cases hp : node.port with
    | none => rfl
    | some port =>
      rw [Option.getD_some, if_neg fun he => h (hp.trans (congrArg some he))]
  show toLex (node.bareHost, profile.rank scheme node) = toLex (node.bareHost, profile.rank scheme
    ⟨node.bareHost, if node.port.getD 0 = 0 then none else some (node.port.getD 0), node.weight, node.priority⟩)
  rw [hport]
  rfl

/-- Nodes sorted by the same keys are hashed in the same order. -/
theorem hashedPlaces_eq_of_keys {nodes others : List Node} (h : ∀ node ∈ nodes, node.port ≠ some 0)
    (h' : ∀ node ∈ others, node.port ≠ some 0) (hkeys : (others.map Node.sortKey).Perm (nodes.map Node.sortKey)) :
    profile.hashedPlaces scheme others = profile.hashedPlaces scheme nodes := by
  have hplaces : ∀ list : List Node, (∀ node ∈ list, node.port ≠ some 0) →
      profile.hashedPlaces scheme list = ((sortedNodes list).map Node.sortKey).map (profile.placeOfKey scheme) := by
    intro list hlist
    rw [List.map_map]
    exact List.map_congr_left fun node hn =>
      profile.place_eq_placeOfKey scheme (hlist node ((sortedNodes_perm list).mem_iff.mp hn))
  have hsorted : (sortedNodes others).map Node.sortKey = (sortedNodes nodes).map Node.sortKey :=
    List.Perm.eq_of_pairwise (fun _ _ _ _ => le_antisymm) (List.pairwise_map.mpr (sortedNodes_pairwise others))
      (List.pairwise_map.mpr (sortedNodes_pairwise nodes)) <|
        ((sortedNodes_perm others).map _).trans (hkeys.trans ((sortedNodes_perm nodes).map _).symm)
  rw [hplaces others h', hplaces nodes h, hsorted]

/-! ## When the order stays -/

variable {profile : UpstreamFingerprintProfile} {scheme : UpstreamScheme}

theorem effectivePort_ne_zero {node : Node} (h : node.port ≠ some 0) : node.effectivePort scheme ≠ 0 := by
  unfold Node.effectivePort
  cases hp : node.port with
  | some port => exact fun he => h (hp.trans (congrArg some he))
  | none => cases scheme <;> exact Nat.succ_ne_zero _

theorem port_ne_zero_of_alike {node other : Node} (h : Node.Alike scheme node other) (hn : node.port ≠ some 0) :
    other.port ≠ some 0 := by
  cases h.port with
  | inl he => rwa [he]
  | inr he =>
    rw [he.2]
    exact fun hz => effectivePort_ne_zero hn (Option.some.inj hz)

/-- A node without a port sorts before every other of its host. -/
theorem not_sortKey_le {a b : Node} {p : Nat} (hhost : a.bareHost = b.bareHost) (ha : a.port = none)
    (hb : b.port = some p) (hp : p ≠ 0) : ¬b.sortKey ≤ a.sortKey := by
  unfold Node.sortKey
  rw [Prod.Lex.toLex_le_toLex, Prod.Lex.toLex_le_toLex, ha, hb]
  simp only [hhost, lt_irrefl, false_or, true_and, Option.getD_some, Option.getD_none, not_or]
  exact ⟨Nat.not_lt_zero p, fun h => hp h.1⟩

theorem hashedPlaces_sorted {upstream : Upstream} {others : List Node}
    (hports : ∀ node ∈ upstream.nodes.nodes, node.port ≠ some 0) (hfirst : profile.OmittedFirst upstream)
    (hsame : SamePlaces upstream.scheme upstream.nodes.nodes others) :
    (profile.hashedPlaces upstream.scheme others).Pairwise (· ≤ ·) := by
  refine profile.hashedPlaces_pairwise upstream.scheme fun a ha b hb hab => ?_
  obtain ⟨a₀, ha₀, halike⟩ := hsame.alike a ha
  obtain ⟨b₀, hb₀, hblike⟩ := hsame.alike b hb
  by_cases hhost : a.bareHost = b.bareHost
  · cases hpa : a.port with
    | none =>
      have hnone : a₀.port = none := by
        cases halike.port with
        | inl he => rw [← he, hpa]
        | inr he => exact he.1
      have hhost₀ : a₀.bareHost = b₀.bareHost := by rw [← halike.bareHost, ← hblike.bareHost, hhost]
      rw [halike.place profile, hblike.place profile]
      exact (profile.place_le_iff _ hhost₀).mpr (hfirst a₀ ha₀ hnone b₀ hb₀ hhost₀)
    | some p =>
      have hp : p ≠ 0 := fun he => port_ne_zero_of_alike halike (hports a₀ ha₀) (he ▸ hpa)
      cases hpb : b.port with
      | none => exact absurd hab (not_sortKey_le hhost.symm hpb hpa hp)
      | some q => exact profile.place_le_of_sortKey_le _ hpa hpb hab
  · have hlt := (Prod.Lex.toLex_le_toLex.mp hab).resolve_right fun h => hhost h.1
    exact Prod.Lex.toLex_le_toLex.mpr (.inl hlt)

/-- If writing out default ports never changes the order, every node without a port already comes first. -/
theorem omittedFirst_of_unchanged {upstream : Upstream}
    (hports : ∀ node ∈ upstream.nodes.nodes, node.port ≠ some 0)
    (h : ∀ others, List.Forall₂ (fun node other => other = node ∨ other = node.fillPort upstream.scheme)
      upstream.nodes.nodes others →
        profile.hashedPlaces upstream.scheme others = profile.hashedPlaces upstream.scheme upstream.nodes.nodes) :
    profile.OmittedFirst upstream := by
  have hall : (profile.hashedPlaces upstream.scheme upstream.nodes.nodes).Pairwise (· ≤ ·) := by
    rw [← h (upstream.nodes.nodes.map (Node.fillPort upstream.scheme))
      (List.forall₂_map_right_iff.mpr (List.forall₂_same.mpr fun _ _ => .inr rfl))]
    refine profile.hashedPlaces_pairwise _ fun a ha b hb => ?_
    obtain ⟨a₀, -, rfl⟩ := List.mem_map.mp ha
    obtain ⟨b₀, -, rfl⟩ := List.mem_map.mp hb
    exact profile.place_le_of_sortKey_le _ rfl rfl
  intro n hn hnone m hm hhost
  by_cases heq : n = m
  · rw [heq]
  -- only the port of the other node is written out
  let fillOne (node : Node) : Node := if node = m then node.fillPort upstream.scheme else node
  have hone : List.Forall₂ (fun node other => other = node ∨ other = node.fillPort upstream.scheme)
      upstream.nodes.nodes (upstream.nodes.nodes.map fillOne) := by
    refine List.forall₂_map_right_iff.mpr (List.forall₂_same.mpr fun node _ => ?_)
    by_cases he : node = m
    · exact .inr (if_pos he)
    · exact .inl (if_neg he)
  have hsorted := h _ hone ▸ hall
  have hn' : n ∈ upstream.nodes.nodes.map fillOne := List.mem_map.mpr ⟨n, hn, if_neg heq⟩
  have hm' : m.fillPort upstream.scheme ∈ upstream.nodes.nodes.map fillOne := List.mem_map.mpr ⟨m, hm, if_pos rfl⟩
  have hle := profile.place_le_of_sorted _ hsorted hn' hm'
    (not_sortKey_le hhost hnone rfl (effectivePort_ne_zero (hports m hm)))
  rw [(Node.alike_fillPort m).place profile] at hle
  exact (profile.place_le_iff _ hhost).mp hle

/-! ## What the bytes say of the order -/

/-- What is hashed of a node, by its place. -/
def placeDocument (profile : UpstreamFingerprintProfile) (p : String ×ₗ ℕ ×ₗ ℕ ×ₗ ℤ) : JsonDocument :=
  let (host, rest) := ofLex p
  let (port, rest) := ofLex rest
  let (weight, priority) := ofLex rest
  .arr ([.str host, .num (.integer port)] ++
    match profile with
    | .healthCheck => []
    | .cacheOrigin => [.num (.integer weight), .num (.integer priority)])

theorem projectNode_eq (node : Node) : profile.projectNode scheme node = profile.placeDocument (profile.place scheme node) := by
  cases profile <;> rfl

theorem projectedNodes_eq (upstream : Upstream) : upstream.projectedNodes profile =
    (profile.hashedPlaces upstream.scheme upstream.nodes.nodes).map profile.placeDocument := by
  unfold hashedPlaces
  rw [List.map_map]
  exact List.map_congr_left fun node _ => projectNode_eq node

theorem place_eq_of_same {a b : Node} (h : (profile.projectNode scheme a).Same Eq (profile.projectNode scheme b)) :
    profile.place scheme a = profile.place scheme b := by
  unfold place rank
  cases profile with
  | healthCheck =>
    obtain ⟨hhost, hport, -⟩ := h
    rw [show a.bareHost = b.bareHost from hhost,
      Int.ofNat_inj.mp (SerdeNumber.integer.inj (show SerdeNumber.integer _ = .integer _ from hport))]
  | cacheOrigin =>
    obtain ⟨hhost, hport, hweight, hpriority, -⟩ := h
    rw [show a.bareHost = b.bareHost from hhost,
      Int.ofNat_inj.mp (SerdeNumber.integer.inj (show SerdeNumber.integer _ = .integer _ from hport)),
      Int.ofNat_inj.mp (SerdeNumber.integer.inj (show SerdeNumber.integer _ = .integer _ from hweight)),
      SerdeNumber.integer.inj (show SerdeNumber.integer _ = .integer _ from hpriority)]

theorem places_eq_of_same : ∀ {as bs : List Node},
    Document.SameItems Eq (as.map (profile.projectNode scheme)) (bs.map (profile.projectNode scheme)) →
      as.map (profile.place scheme) = bs.map (profile.place scheme)
  | [], [], _ => rfl
  | [], _ :: _, h => h.elim
  | _ :: _, [], h => h.elim
  | a :: as, b :: bs, h => by
    rw [List.map_cons, List.map_cons, place_eq_of_same h.1, places_eq_of_same h.2]

theorem fitsItems_projected : ∀ nodes : List Node, Document.FitsItems (nodes.map (profile.projectNode scheme))
  | [] => trivial
  | node :: nodes => by
    refine ⟨?_, fitsItems_projected nodes⟩
    cases profile
    · exact ⟨show 2 < 2 ^ 64 by decide, trivial, trivial, trivial⟩
    · exact ⟨show 4 < 2 ^ 64 by decide, trivial, trivial, trivial, trivial, trivial⟩

end UpstreamFingerprintProfile

namespace Upstream

variable (ryu : Ryu) (sha : Sha256) (profile : UpstreamFingerprintProfile)

/-- The nodes enter a projection at one member. -/
theorem projectedMembers_nodes (upstream : Upstream) (nodes : Nodes) :
    projectedMembers sha profile { upstream with nodes } = (upstream.projectedMembers sha profile).map
      (Document.substMember "nodes" (.arr (projectedNodes profile { upstream with nodes }))) := by
  cases profile with
  | healthCheck =>
    simp [projectedMembers, toMembers, UpstreamFingerprintProfile.excluded, upstreamHealthCheckExcluded,
      JsonDocument.insert, Document.substMember]
  | cacheOrigin =>
    simp [projectedMembers, toMembers, UpstreamFingerprintProfile.excluded, upstreamCacheOriginExcluded,
      JsonDocument.insert, Document.substMember]

theorem nodes_mem_projectedMembers (upstream : Upstream) :
    "nodes" ∈ (upstream.projectedMembers sha profile).map Prod.fst := by
  cases profile <;> simp [projectedMembers, JsonDocument.insert]

/-- The bytes of two ways of writing are equal exactly for nodes hashed in one order. -/
theorem hash_eq_iff {upstream other : Upstream} (h : other = { upstream with nodes := other.nodes })
    (hsame : SamePlaces upstream.scheme upstream.nodes.nodes other.nodes.nodes) :
    hashCanonicalJson ryu (other.projection sha profile) = hashCanonicalJson ryu (upstream.projection sha profile) ↔
      profile.hashedPlaces upstream.scheme other.nodes.nodes =
        profile.hashedPlaces upstream.scheme upstream.nodes.nodes := by
  have hscheme : other.scheme = upstream.scheme := by rw [h]
  have hother := projectedMembers_nodes sha profile upstream other.nodes
  rw [← h] at hother
  have hself := projectedMembers_nodes sha profile upstream upstream.nodes
  have hnodes := @UpstreamFingerprintProfile.projectedNodes_eq profile other
  rw [hscheme] at hnodes
  constructor
  · intro heq
    have hencode : Document.encode (SerdeNumber.toString ryu) (.obj ((upstream.projectedMembers sha profile).map
        (Document.substMember "nodes" (.arr (other.projectedNodes profile))))) =
        Document.encode (SerdeNumber.toString ryu) (.obj ((upstream.projectedMembers sha profile).map
          (Document.substMember "nodes" (.arr (upstream.projectedNodes profile))))) := by
      rw [← hother, ← hself]
      exact heq
    refine Document.encode_subst_inj ?_ (nodes_mem_projectedMembers sha profile upstream) hencode
    intro r s hrest
    have hlen : (other.projectedNodes profile).length = (upstream.projectedNodes profile).length := by
      unfold projectedNodes
      rw [List.length_map, List.length_map, List.length_insertionSort, List.length_insertionSort]
      simpa only [List.length_map] using (hsame.places profile).length_eq
    obtain ⟨hitems, -⟩ := Document.encode_arr_append_inj (SerdeNumber.toString_injective ryu)
      (UpstreamFingerprintProfile.fitsItems_projected _) (UpstreamFingerprintProfile.fitsItems_projected _) hlen hrest
    rw [hscheme] at hitems
    exact UpstreamFingerprintProfile.places_eq_of_same hitems
  · intro heq
    have hprojected : other.projectedNodes profile = upstream.projectedNodes profile := by
      rw [hnodes, heq, UpstreamFingerprintProfile.projectedNodes_eq]
    unfold hashCanonicalJson projection
    rw [hother, hprojected, ← hself]

/-- Without a port written out the fingerprint stays. -/
theorem fingerprint_reordered (hash : List UInt8 → UInt64) (upstream : Upstream)
    (hports : ∀ node ∈ upstream.nodes.nodes, node.port ≠ some 0) :
    (∀ nodes : List Node, nodes.Perm upstream.nodes.nodes →
      fingerprint hash ryu sha profile { upstream with nodes := ⟨nodes⟩ } =
        upstream.fingerprint hash ryu sha profile) ∧
    ∀ map members nodes, List.Forall₂ Node.Written upstream.nodes.nodes members → members.Perm map.entries →
      Nodes.tryFrom map = .ok nodes →
        fingerprint hash ryu sha profile { upstream with nodes } = upstream.fingerprint hash ryu sha profile := by
  constructor
  · intro nodes hp
    refine congrArg hash ((hash_eq_iff ryu sha profile rfl (.of_perm hp)).mpr ?_)
    exact profile.hashedPlaces_eq_of_keys _ hports (fun node hn => hports node (hp.mem_iff.mp hn)) (hp.map _)
  · intro map members nodes hw hp hn
    have hsame := (samePlaces_of_rewrite (.objectForm map members nodes hw hp hn)).2
    refine congrArg hash ((hash_eq_iff ryu sha profile rfl hsame).mpr ?_)
    refine profile.hashedPlaces_eq_of_keys _ hports (tryFrom_port hn) ?_
    have hkeys : upstream.nodes.nodes.map Node.sortKey = (readMembers members).map Node.sortKey := by
      rw [← List.forall₂_eq_eq_eq, List.forall₂_map_left_iff, List.forall₂_map_right_iff]
      exact (respelled_of_members hw).imp fun _ _ h => h.sortKey.symm
    rw [hkeys]
    exact ((perm_of_tryFrom hn).trans (readMembers_perm hp.symm)).map _

/-- However an upstream is written, its fingerprint is the same, and not by a collision, if and only if every node
without a port is the smallest of its host in what is hashed. -/
theorem fingerprint_canonical_iff (hash : List UInt8 → UInt64) (upstream : Upstream)
    (hports : ∀ node ∈ upstream.nodes.nodes, node.port ≠ some 0) :
    (∀ other, upstream.Rewrites other →
      other.fingerprint hash ryu sha profile = upstream.fingerprint hash ryu sha profile ∧
        ¬Collision hash (hashCanonicalJson ryu (other.projection sha profile))
          (hashCanonicalJson ryu (upstream.projection sha profile))) ↔
      profile.OmittedFirst upstream := by
  constructor
  · intro h
    refine UpstreamFingerprintProfile.omittedFirst_of_unchanged hports fun nodes hf => ?_
    have hrewrite : upstream.Rewrite { upstream with nodes := ⟨nodes⟩ } := .defaultPorts nodes hf
    obtain ⟨hfields, hsame⟩ := samePlaces_of_rewrite hrewrite
    obtain ⟨heq, hapart⟩ := h _ (.single hrewrite)
    refine (hash_eq_iff ryu sha profile hfields hsame).mp ?_
    by_contra hne
    exact hapart ⟨hne, heq⟩
  · intro hfirst other hrewrites
    obtain ⟨hfields, hsame⟩ := samePlaces_of_rewrites hrewrites
    have heq := (hash_eq_iff ryu sha profile hfields hsame).mpr <|
      profile.hashedPlaces_eq upstream.scheme hsame
        (UpstreamFingerprintProfile.hashedPlaces_sorted hports hfirst (.refl _))
        (UpstreamFingerprintProfile.hashedPlaces_sorted hports hfirst hsame)
    exact ⟨congrArg hash heq, fun hcollide => hcollide.1 heq⟩

/-! ### An order changed by a default port -/

def separateHosts : Upstream := { nodes := ⟨[⟨"example.com", none, 1, 0⟩, ⟨"example.org", some 8080, 1, 0⟩]⟩ }

/-- The digest of the empty text. -/
def emptyDigest : HexDigest :=
  ⟨"e3b0c44298fc1c149afbf4c8996fb92427ae41e4649b934ca495991b7852b855".toList, by decide, List.all_eq_true.mp (by decide)⟩

/-- The fingerprint of every way to write the upstream. -/
def separateHostsHash (_ : List UInt8) : UInt64 := 0x9882e7af024e102f

theorem fingerprint_canonical_separateHosts : (∀ node ∈ separateHosts.nodes.nodes, node.port ≠ some 0) ∧
    ((∀ other, separateHosts.Rewrites other →
      other.fingerprint separateHostsHash plainRyu (fun _ => emptyDigest) .cacheOrigin =
          separateHosts.fingerprint separateHostsHash plainRyu (fun _ => emptyDigest) .cacheOrigin ∧
        ¬Collision separateHostsHash
          (hashCanonicalJson plainRyu (other.projection (fun _ => emptyDigest) .cacheOrigin))
          (hashCanonicalJson plainRyu (separateHosts.projection (fun _ => emptyDigest) .cacheOrigin))) ↔
      UpstreamFingerprintProfile.OmittedFirst .cacheOrigin separateHosts) := by
  have hports : ∀ node ∈ separateHosts.nodes.nodes, node.port ≠ some 0 := by decide
  exact ⟨hports, fingerprint_canonical_iff plainRyu (fun _ => emptyDigest) .cacheOrigin separateHostsHash separateHosts
    hports⟩

/-- One host on the port of its scheme and on another one. -/
def twoPorts : Upstream :=
  { scheme := .https, nodes := ⟨[⟨"example.com", none, 1, 0⟩, ⟨"example.com", some 80, 1, 0⟩]⟩ }

def twoPortsWritten : Upstream :=
  { scheme := .https, nodes := ⟨[⟨"example.com", some 443, 1, 0⟩, ⟨"example.com", some 80, 1, 0⟩]⟩ }

/-- The hashes of the two upstreams' bytes. -/
def hashOfTwoPorts (ryu : Ryu) (sha : Sha256) (profile : UpstreamFingerprintProfile) (bytes : List UInt8) : UInt64 :=
  if bytes = hashCanonicalJson ryu (twoPorts.projection sha profile) then
    match profile with
    | .healthCheck => 0x6bbc3ff8c5af4f04
    | .cacheOrigin => 0x0393b4b5cb88ad17
  else
    match profile with
    | .healthCheck => 0xc8b20648f511008b
    | .cacheOrigin => 0xa8e235eae3bdc7c0

/-- Writing out the default port of a node moves it behind another node of its host. -/
theorem default_port_changes_fingerprint : twoPorts.validate = [] ∧ twoPorts.Rewrites twoPortsWritten ∧
    ∀ ryu sha profile, twoPortsWritten.fingerprint (hashOfTwoPorts ryu sha profile) ryu sha profile ≠
        twoPorts.fingerprint (hashOfTwoPorts ryu sha profile) ryu sha profile ∧
      hashCanonicalJson ryu (twoPortsWritten.projection sha profile) ≠
        hashCanonicalJson ryu (twoPorts.projection sha profile) := by
  have hrewrite : twoPorts.Rewrite twoPortsWritten :=
    .defaultPorts _ (.cons (.inr rfl) (.cons (.inl rfl) .nil))
  refine ⟨by decide, .single hrewrite, fun ryu sha profile => ?_⟩
  have hne : hashCanonicalJson ryu (twoPortsWritten.projection sha profile) ≠
      hashCanonicalJson ryu (twoPorts.projection sha profile) := by
    intro h
    have horder := (hash_eq_iff ryu sha profile rfl (samePlaces_of_rewrite hrewrite).2).mp h
    cases profile with
    | healthCheck => exact absurd horder (by decide)
    | cacheOrigin => exact absurd horder (by decide)
  refine ⟨?_, hne⟩
  unfold fingerprint hashOfTwoPorts
  rw [if_neg hne, if_pos rfl]
  cases profile <;> decide

end Upstream

end Pingsix
