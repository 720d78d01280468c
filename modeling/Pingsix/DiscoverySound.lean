import Pingsix.Discovery

/-!
# Soundness of backend discovery

When each enabled node with a literal address has a backend of its own.
-/

namespace Pingsix

namespace Discovery

/-! ## Insertion -/

namespace Backends

theorem get_eq_none {set : Backends} {id : BackendId} :
    set.get id = none ↔ id ∉ set.backends.map fun backend => backend.id := by
  unfold get
  rw [List.find?_eq_none, List.mem_map, not_exists]
  simp only [decide_eq_true_eq, not_and]

theorem insertBackend_new {set : Backends} {backend : PeerBackend} (h : set.get backend.id = none) :
    (set.insertBackend backend).backends = set.backends ++ [backend] := by
  unfold insertBackend
  split
  · rfl
  · rename_i existing he
    rw [h] at he
    cases he

/-- Backends of different identities are all kept. -/
theorem foldl_insertBackend : ∀ {l : List PeerBackend} {set : Backends},
    ((set.backends ++ l).map fun backend => backend.id).Nodup →
      (l.foldl insertBackend set).backends = set.backends ++ l
  | [], set, _ => (List.append_nil _).symm
  | backend :: l, set, h => by
    have hnew : set.get backend.id = none := by
      rw [get_eq_none]
      intro hm
      rw [List.map_append, List.map_cons] at h
      exact (List.nodup_append.mp h).2.2 _ hm _ List.mem_cons_self rfl
    rw [List.foldl_cons, foldl_insertBackend]
    · rw [insertBackend_new hnew, List.append_assoc, List.singleton_append]
    · rw [insertBackend_new hnew, List.append_assoc, List.singleton_append]
      exact h

end Backends

/-! ## Literal nodes -/

def IsIpLiteral (node : Node) : Prop := (parseIp node.bareHost).isSome = true

instance (node : Node) : Decidable (IsIpLiteral node) := inferInstanceAs (Decidable (_ = true))

/-- The address a node with a literal host is dialled at. -/
def dials (upstream : Upstream) (node : Node) : Option IpAddr × Nat :=
  (parseIp node.bareHost, node.effectivePort upstream.scheme)

/-- The backend has the weight and the priority of the node and dials its address. -/
structure BackendOf (upstream : Upstream) (node : Node) (backend : PeerBackend) : Prop where
  weight : backend.weight = node.weight
  priority : backend.priority = node.priority
  dials : (some backend.addr.ip, backend.addr.port) = dials upstream node
  peer : backend.peer.address = backend.addr

def enabledNodes (upstream : Upstream) : List Node := upstream.nodes.nodes.filter Node.isEnabled

/-- The backends of the set are those of the enabled nodes, one for each. -/
def OnePerNode (upstream : Upstream) (set : Backends) : Prop :=
  ∃ l, l.Perm set.backends ∧ List.Forall₂ (BackendOf upstream) (enabledNodes upstream) l

variable {x : X509} {upstream : Upstream}

namespace HybridDiscovery

theorem addNode_disabled {cert : Option CertKey} {this : HybridDiscovery} {node : Node} (h : node.isEnabled = false) :
    addNode upstream cert this node = this := by
  rw [addNode, h]
  rfl

theorem addNode_literal {cert : Option CertKey} {this : HybridDiscovery} {node : Node} (h : node.isEnabled = true)
    (hip : IsIpLiteral node) : ∃ backend, BackendOf upstream node backend ∧
      addNode upstream cert this node = { this with fixed := this.fixed.insertBackend backend } := by
  obtain ⟨ip, hip⟩ := Option.isSome_iff_exists.mp hip
  rw [addNode, h]
  simp only [Bool.not_true, Bool.false_eq_true, if_false, hip]
  exact ⟨_, ⟨rfl, rfl, by rw [Discovery.dials, hip], rfl⟩, rfl⟩

/-- Nodes with literal hosts add their backends in turn. -/
theorem foldl_addNode (cert : Option CertKey) : ∀ {nodes : List Node} (this : HybridDiscovery),
    (∀ node ∈ nodes, IsIpLiteral node) →
      ∃ l, List.Forall₂ (BackendOf upstream) (nodes.filter Node.isEnabled) l ∧
        nodes.foldl (addNode upstream cert) this = { this with fixed := l.foldl Backends.insertBackend this.fixed }
  | [], this, _ => ⟨[], .nil, rfl⟩
  | node :: nodes, this, h => by
    have hrest := fun n hn => h n (List.mem_cons_of_mem node hn)
    rw [List.foldl_cons]
    cases he : node.isEnabled with
    | false =>
      rw [addNode_disabled he, List.filter_cons_of_neg (by simp [he])]
      exact foldl_addNode cert this hrest
    | true =>
      obtain ⟨backend, hb, hadd⟩ := @addNode_literal upstream cert this node he (h node List.mem_cons_self)
      obtain ⟨l, hl, heq⟩ := foldl_addNode cert (addNode upstream cert this node) hrest
      rw [List.filter_cons_of_pos he, heq, hadd]
      exact ⟨backend :: l, .cons hb hl, rfl⟩

end HybridDiscovery

/-- A prepared upstream with literal nodes only has the backends of its enabled nodes, inserted in turn and merged. -/
theorem prepareStaticUpstream_eq_ok {set : Backends} (hip : ∀ node ∈ upstream.nodes.nodes, IsIpLiteral node)
    (h : prepareStaticUpstream x upstream = .ok set) : ∃ l, List.Forall₂ (BackendOf upstream) (enabledNodes upstream) l ∧
      set = (l.foldl Backends.insertBackend {}).backends.foldl Backends.insertBackend {} := by
  unfold prepareStaticUpstream at h
  obtain ⟨discovery, hbuild, h⟩ := Except.bind_eq_ok.mp h
  unfold HybridDiscovery.build at hbuild
  obtain ⟨cert, -, hbuild⟩ := Except.bind_eq_ok.mp hbuild
  obtain ⟨l, hl, heq⟩ := @HybridDiscovery.foldl_addNode upstream cert _ {} hip
  rw [heq] at hbuild
  cases hbuild
  refine ⟨l, hl, ?_⟩
  generalize hfixed : l.foldl Backends.insertBackend {} = fixed at h
  have hmerge : HybridDiscovery.merge (HybridDiscovery.parts { fixed } []) =
      .ok (fixed.backends.foldl Backends.insertBackend {}) := by
    unfold HybridDiscovery.parts HybridDiscovery.merge
    by_cases he : fixed.backends = []
    · simp [he]
    · simp [he, Except.isOk, Except.toBool]
  simp only [hmerge] at h
  rw [if_neg fun hn => hn rfl] at h
  split at h
  · cases h
  · exact (Except.ok.inj h).symm

/-! ## One backend for each node -/

theorem key_of_backendOf {nodes : List Node} {l : List PeerBackend} (h : List.Forall₂ (BackendOf upstream) nodes l) :
    nodes.map (fun node => (dials upstream node, node.weight)) =
      l.map fun backend => ((some backend.addr.ip, backend.addr.port), backend.weight) := by
  induction h with
  | nil => rfl
  | cons hb _ ih => rw [List.map_cons, List.map_cons, ih, hb.weight, hb.dials]

theorem nodup_ids_iff {l : List PeerBackend} :
    (l.map fun backend => ((some backend.addr.ip, backend.addr.port), backend.weight)).Nodup ↔
      (l.map fun backend => backend.id).Nodup := by
  have hinj : Function.Injective fun id : BackendId => ((some id.addr.ip, id.addr.port), id.weight) := by
    rintro ⟨⟨ip, port⟩, weight⟩ ⟨⟨ip', port'⟩, weight'⟩ h
    simp only [Prod.mk.injEq, Option.some.injEq] at h
    obtain ⟨⟨rfl, rfl⟩, rfl⟩ := h
    rfl
  rw [← List.nodup_map_iff hinj, List.map_map]
  rfl

/-- No two enabled nodes of one weight dial the same address. -/
def DistinctNodes (upstream : Upstream) : Prop :=
  (enabledNodes upstream).Pairwise fun a b => a.weight = b.weight → dials upstream a ≠ dials upstream b

theorem distinctNodes_iff {l : List PeerBackend} (h : List.Forall₂ (BackendOf upstream) (enabledNodes upstream) l) :
    DistinctNodes upstream ↔ (l.map fun backend => backend.id).Nodup := by
  rw [← nodup_ids_iff, ← key_of_backendOf h, List.Nodup, List.pairwise_map]
  constructor
  · exact fun hd => hd.imp fun hab he => hab (Prod.mk.inj he).2 (Prod.mk.inj he).1
  · exact fun hd => hd.imp fun hab hw he => hab (Prod.ext he hw)

/-- The set of an upstream with literal nodes has a backend for each enabled node if and only if no two enabled nodes
of one weight dial the same address. -/
theorem one_backend_per_node_iff {x : X509} {upstream : Upstream} {set : Backends}
    (hip : ∀ node ∈ upstream.nodes.nodes, IsIpLiteral node) (h : prepareStaticUpstream x upstream = .ok set) :
    OnePerNode upstream set ↔ DistinctNodes upstream := by
  obtain ⟨l, hl, rfl⟩ := prepareStaticUpstream_eq_ok hip h
  constructor
  · rintro ⟨l', hperm, hl'⟩
    rw [distinctNodes_iff hl']
    exact ((hperm.map _).nodup_iff).mpr (Backends.nodup _)
  · intro hd
    rw [distinctNodes_iff hl] at hd
    refine ⟨l, ?_, hl⟩
    rw [Backends.foldl_insertBackend, Backends.foldl_insertBackend]
    · exact .refl _
    · exact hd
    · exact Backends.nodup _

/-! ## Two spellings of one address -/

def loopbackNode (host : String) : Node := { host, port := some 80, weight := 1, priority := 0 }

def loopbackUpstream (hosts : List String) : Upstream := { nodes := ⟨hosts.map loopbackNode⟩ }

theorem one_backend_per_node_loopback : ∃ set,
    prepareStaticUpstream plainX509 (loopbackUpstream ["127.0.0.1", "::1"]) = .ok set ∧
      (OnePerNode (loopbackUpstream ["127.0.0.1", "::1"]) set ↔ DistinctNodes (loopbackUpstream ["127.0.0.1", "::1"])) :=
  ⟨_, rfl, @one_backend_per_node_iff plainX509 _ _ (by decide) rfl⟩

/-- Validation compares the texts of the addresses, which may spell one address in two ways. -/
theorem spellings_collapse : ∃ set, (loopbackUpstream ["::1", "0:0:0:0:0:0:0:1"]).validate = [] ∧
    (∀ node ∈ (loopbackUpstream ["::1", "0:0:0:0:0:0:0:1"]).nodes.nodes, IsIpLiteral node) ∧
    prepareStaticUpstream plainX509 (loopbackUpstream ["::1", "0:0:0:0:0:0:0:1"]) = .ok set ∧
      ¬OnePerNode (loopbackUpstream ["::1", "0:0:0:0:0:0:0:1"]) set := by
  refine ⟨_, by decide, by decide, rfl, ?_⟩
  rintro ⟨l, hperm, hl⟩
  have hlen := hperm.length_eq
  rw [← hl.length_eq] at hlen
  exact absurd hlen (by decide)

end Discovery

end Pingsix
