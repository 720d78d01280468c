import Mathlib
import Pingsix.DiscoverySound

/-!
# Soundness of backend insertion

What a set keeps of a list of candidates: of each identity the first candidate
with the highest priority. The order of the candidates decides no more than
whose connection settings are kept among those.
-/

namespace Pingsix

namespace Discovery

namespace Backends

section
variable {set : Backends} {backend : PeerBackend} {id : BackendId}

theorem get_insert (h : set.get backend.id = none) (id : BackendId) :
    (set.insert backend h).get id = if backend.id = id then some backend else set.get id := by
  show (set.backends ++ [backend]).find? (fun b => b.id = id) = _
  rw [List.find?_append]
  by_cases hid : backend.id = id
  · have hnone : set.backends.find? (fun b => b.id = id) = none := hid ▸ h
    simp [hnone, hid]
  · simp only [hid, if_false, List.find?_cons, decide_false, List.find?_nil, Option.or_none]
    rfl

theorem get_remove_of_ne {other : BackendId} (h : other ≠ id) : (set.remove id).get other = set.get other := by
  show (set.backends.filter fun b => b.id ≠ id).find? (fun b => b.id = other) = _
  rw [List.find?_filter]
  refine congrArg (List.find? · set.backends) (funext fun b => decide_eq_decide.mpr ?_)
  simp only [decide_eq_true_eq]
  exact ⟨fun hb => hb.2, fun hb => ⟨hb ▸ h, hb⟩⟩

/-- The candidate comes in the place of one with a lower priority. -/
theorem get_insertBackend (set : Backends) (backend : PeerBackend) (id : BackendId) :
    (set.insertBackend backend).get id = if backend.id = id then
      List.argAux (fun b c : PeerBackend => c.priority < b.priority) (set.get id) backend else set.get id := by
  unfold insertBackend
  split
  · rename_i hnone
    rw [get_insert]
    by_cases hid : backend.id = id
    · rw [if_pos hid, if_pos hid, ← hid, hnone]
      rfl
    · rw [if_neg hid, if_neg hid]
  · rename_i existing hsome
    by_cases hlt : existing.priority < backend.priority
    · rw [if_neg hlt.ne', if_pos hlt, get_insert]
      by_cases hid : backend.id = id
      · rw [if_pos hid, if_pos hid, ← hid, hsome]
        exact (if_pos hlt).symm
      · rw [if_neg hid, if_neg hid, get_remove_of_ne (Ne.symm hid)]
    · rw [if_neg hlt, ite_self]
      by_cases hid : backend.id = id
      · rw [if_pos hid, ← hid, hsome]
        exact (if_neg hlt).symm
      · rw [if_neg hid]

end

/-- The set of a list of candidates. -/
def inserted (l : List PeerBackend) : Backends := l.foldl insertBackend {}

def candidatesOf (id : BackendId) (l : List PeerBackend) : List PeerBackend := l.filter fun b => b.id = id

theorem get_foldl_insertBackend (l : List PeerBackend) (set : Backends) (id : BackendId) :
    (l.foldl insertBackend set).get id =
      (candidatesOf id l).foldl (List.argAux fun b c : PeerBackend => c.priority < b.priority) (set.get id) := by
  induction l generalizing set with
  | nil => rfl
  | cons backend l ih =>
    rw [List.foldl_cons, ih, get_insertBackend]
    unfold candidatesOf
    by_cases hid : backend.id = id
    · rw [if_pos hid, List.filter_cons_of_pos (by simpa using hid), List.foldl_cons]
    · rw [if_neg hid, List.filter_cons_of_neg (by simpa using hid)]

theorem get_inserted (l : List PeerBackend) (id : BackendId) :
    (inserted l).get id = (candidatesOf id l).argmax fun b => b.priority := get_foldl_insertBackend l {} id

/-! ## Orders of insertion -/

/-- A candidate with the highest priority of its identity. -/
structure Top (l : List PeerBackend) (backend : PeerBackend) : Prop where
  mem : backend ∈ l
  highest : ∀ other ∈ l, other.id = backend.id → other.priority ≤ backend.priority

/-- The set has the identities of the candidates, each once, and under each of them the first candidate with the highest
priority. -/
structure KeepsHighest (l : List PeerBackend) (set : Backends) : Prop where
  once : (set.backends.map fun b => b.id).Nodup
  ids : ∀ id, (set.get id).isSome = true ↔ ∃ b ∈ l, b.id = id
  highest : ∀ id kept, set.get id = some kept → kept.id = id ∧ Top l kept
  first : ∀ id kept, set.get id = some kept → ∃ before after, l = before ++ kept :: after ∧ ∀ b ∈ before, b.id = id →
    b.priority < kept.priority

/-- The candidates with the highest priority of one identity open the same connections. -/
def AgreeOnTop (l : List PeerBackend) : Prop := ∀ b c, Top l b → Top l c → b.id = c.id → b.peer = c.peer

section
variable {l l' : List PeerBackend} {id : BackendId} {kept : PeerBackend}

theorem mem_candidatesOf {b : PeerBackend} : b ∈ candidatesOf id l ↔ b ∈ l ∧ b.id = id := by
  unfold candidatesOf
  rw [List.mem_filter, decide_eq_true_eq]

theorem top_of_get (h : (inserted l).get id = some kept) : kept.id = id ∧ Top l kept := by
  rw [get_inserted] at h
  obtain ⟨hmem, hid⟩ := mem_candidatesOf.mp (List.argmax_mem h)
  refine ⟨hid, hmem, fun other ho hoid => ?_⟩
  have hother : other ∈ candidatesOf id l := mem_candidatesOf.mpr ⟨ho, hoid.trans hid⟩
  exact List.le_of_mem_argmax (f := fun b : PeerBackend => b.priority) hother h

theorem isSome_get : ((inserted l).get id).isSome = true ↔ ∃ b ∈ l, b.id = id := by
  rw [get_inserted, Option.isSome_iff_ne_none, ne_eq, List.argmax_eq_none, List.eq_nil_iff_forall_not_mem, not_forall_not]
  simp only [mem_candidatesOf]

/-- What stands before the first candidate with the highest priority has lower ones. -/
theorem first_of_get (h : (inserted l).get id = some kept) :
    ∃ before after, l = before ++ kept :: after ∧ ∀ b ∈ before, b.id = id → b.priority < kept.priority := by
  obtain ⟨hid, htop⟩ := top_of_get h
  obtain ⟨before, after, rfl, hnot⟩ := List.eq_append_cons_of_mem htop.mem
  refine ⟨before, after, rfl, fun b hb hbid => ?_⟩
  rw [get_inserted] at h
  have hsplit : candidatesOf id (before ++ kept :: after) = candidatesOf id before ++ kept :: candidatesOf id after := by
    unfold candidatesOf
    rw [List.filter_append, List.filter_cons_of_pos (by simpa using hid)]
  have hb : b ∈ candidatesOf id before := mem_candidatesOf.mpr ⟨hb, hbid⟩
  rw [hsplit] at h
  by_contra hle
  have hindex := List.index_of_argmax h (List.mem_append_left _ hb) (not_lt.mp hle)
  rw [List.idxOf_append_of_mem hb, List.idxOf_append_of_notMem fun hm => hnot (mem_candidatesOf.mp hm).1] at hindex
  have hlt := List.idxOf_lt_length_iff.mpr hb
  omega

theorem keepsHighest_inserted (l : List PeerBackend) : KeepsHighest l (inserted l) where
  once := (inserted l).nodup
  ids _ := isSome_get
  highest _ _ := top_of_get
  first _ _ := first_of_get

/-- The identities and their priorities do not depend on the order. -/
theorem priority_of_perm (h : l.Perm l') (id : BackendId) :
    ((inserted l').get id).map (fun b => b.priority) = ((inserted l).get id).map fun b => b.priority := by
  have hsome : ((inserted l').get id).isSome = ((inserted l).get id).isSome := by
    rw [Bool.eq_iff_iff, isSome_get, isSome_get]
    exact exists_congr fun b => and_congr_left fun _ => h.mem_iff.symm
  cases hk : (inserted l).get id with
  | none =>
    rw [hk] at hsome
    rw [Option.isNone_iff_eq_none.mp (Option.isSome_eq_false_iff.mp hsome)]
  | some kept =>
    rw [hk] at hsome
    obtain ⟨kept', hk'⟩ := Option.isSome_iff_exists.mp hsome
    obtain ⟨hid, htop⟩ := top_of_get hk
    obtain ⟨hid', htop'⟩ := top_of_get hk'
    have hle := htop.highest kept' (h.mem_iff.mpr htop'.mem) (hid'.trans hid.symm)
    have hge := htop'.highest kept (h.mem_iff.mp htop.mem) (hid.trans hid'.symm)
    rw [hk', Option.map_some, Option.map_some, le_antisymm hle hge]

theorem Top.perm {b : PeerBackend} (h : l.Perm l') (ht : Top l' b) : Top l b :=
  ⟨h.mem_iff.mpr ht.mem, fun other ho => ht.highest other (h.mem_iff.mp ho)⟩

theorem eq_of_top {b c : PeerBackend} (hb : Top l b) (hc : Top l c) (hid : b.id = c.id) (hpeer : b.peer = c.peer) : b = c := by
  have hpriority := le_antisymm (hc.highest b hb.mem hid) (hb.highest c hc.mem hid.symm)
  obtain ⟨⟨addr, weight, priority⟩, peer⟩ := b
  obtain ⟨⟨addr', weight', priority'⟩, peer'⟩ := c
  obtain ⟨rfl, rfl⟩ := BackendId.mk.inj hid
  cases hpriority
  cases hpeer
  rfl

/-- A candidate with the highest priority that comes first is kept. -/
theorem get_cons_top {b : PeerBackend} {rest : List PeerBackend} (h : Top (b :: rest) b) :
    (inserted (b :: rest)).get b.id = some b := by
  obtain ⟨kept, hk⟩ := Option.isSome_iff_exists.mp (isSome_get.mpr ⟨b, List.mem_cons_self, rfl⟩)
  obtain ⟨before, after, hsplit, hbefore⟩ := first_of_get hk
  cases before with
  | nil =>
    rw [hk, (List.cons.inj hsplit).1]
  | cons first before =>
    have hlt := hbefore first List.mem_cons_self (congrArg (fun c : PeerBackend => c.id) (List.cons.inj hsplit).1.symm)
    rw [← (List.cons.inj hsplit).1] at hlt
    exact absurd (h.highest kept (hsplit ▸ List.mem_append_right _ List.mem_cons_self) (top_of_get hk).1) (not_le.mpr hlt)

/-- The order decides nothing just when it cannot decide whose connections are opened. -/
theorem get_of_perm_iff : (∀ l', l.Perm l' → ∀ id, (inserted l').get id = (inserted l).get id) ↔ AgreeOnTop l := by
  constructor
  · intro h b c hb hc hid
    have hfirst : ∀ d, Top l d → (inserted l).get d.id = some d := by
      intro d hd
      have hperm : l.Perm (d :: l.erase d) := List.perm_cons_erase hd.mem
      rw [← h _ hperm]
      exact get_cons_top (Top.perm hperm.symm hd)
    have hsome := hfirst c hc
    rw [← hid, hfirst b hb] at hsome
    exact congrArg PeerBackend.peer (Option.some.inj hsome)
  · intro h l' hperm id
    have hpriority := priority_of_perm hperm id
    cases hk : (inserted l).get id with
    | none =>
      rw [hk] at hpriority
      exact Option.map_eq_none_iff.mp hpriority
    | some kept =>
      rw [hk] at hpriority
      obtain ⟨kept', hk', -⟩ := Option.map_eq_some_iff.mp hpriority
      obtain ⟨hid, htop⟩ := top_of_get hk
      obtain ⟨hid', htop'⟩ := top_of_get hk'
      have htop' := Top.perm hperm htop'
      rw [hk', eq_of_top htop' htop (hid'.trans hid.symm) (h kept' kept htop' htop (hid'.trans hid.symm))]

/-- Every order of the candidates gives the same identities with the same priorities, the highest; it decides no more than
which of the candidates with the highest priority is kept. -/
theorem insertion_order (l : List PeerBackend) : KeepsHighest l (inserted l) ∧
    (∀ l', l.Perm l' → ∀ id,
      ((inserted l').get id).map (fun b => b.priority) = ((inserted l).get id).map fun b => b.priority) ∧
    ((∀ l', l.Perm l' → ∀ id, (inserted l').get id = (inserted l).get id) ↔ AgreeOnTop l) :=
  ⟨keepsHighest_inserted l, fun _ => priority_of_perm, get_of_perm_iff⟩

end

/-! ## Two names of one address -/

/-- The address that two names are resolved to, with the name for the connection. -/
def namedBackend (sni : String) : PeerBackend where
  addr := ⟨.v4 [127, 0, 0, 1], 443⟩
  weight := 1
  priority := 0
  peer := buildPeer ⟨.v4 [127, 0, 0, 1], 443⟩ .https sni none

theorem insertion_order_named :
    ((inserted [namedBackend "b", namedBackend "a"]).get (namedBackend "a").id).map (fun b => b.priority) = some 0 :=
  (insertion_order [namedBackend "a", namedBackend "b"]).2.1 _ (List.Perm.swap _ _ []) (namedBackend "a").id

/-- Whose name the connections are opened with depends on the order. -/
theorem order_decides_name : ¬∀ l l' : List PeerBackend, l.Perm l' → ∀ id, (inserted l').get id = (inserted l).get id := by
  intro h
  have hget := h [namedBackend "a", namedBackend "b"] [namedBackend "b", namedBackend "a"] (List.Perm.swap _ _ [])
    (namedBackend "a").id
  exact absurd hget (by decide)

end Backends

/-! ## Merged discoveries -/

namespace HybridDiscovery

open Backends (inserted)

/-- The backends of the parts that did not fail, in their order. -/
def candidates (results : List (Except String Backends)) : List PeerBackend :=
  results.flatMap fun result =>
    match result with
    | .ok part => part.backends
    | .error _ => []

theorem merge_eq (results : List (Except String Backends)) : merge results =
    if (inserted (candidates results)).backends = [] ∧ results.any fun result => !result.isOk then
      .error "Hybrid discovery yielded no backends and at least one sub-discovery failed"
    else .ok (inserted (candidates results)) := by
  have hfold : ∀ set : Backends, results.foldl
      (fun set result =>
        match result with
        | .ok part => part.backends.foldl Backends.insertBackend set
        | .error _ => set) set = (candidates results).foldl Backends.insertBackend set := by
    induction results with
    | nil => exact fun _ => rfl
    | cons result results ih =>
      intro set
      unfold candidates at ih ⊢
      rw [List.foldl_cons, List.flatMap_cons, List.foldl_append, ih]
      cases result <;> rfl
  exact congrArg (fun backends : Backends =>
    if backends.backends = [] ∧ results.any fun result => !result.isOk then
      (.error "Hybrid discovery yielded no backends and at least one sub-discovery failed" : Except String Backends)
    else .ok backends) (hfold {})

/-- In whatever order the parts answer, the merged set has the same identities with the same priorities. -/
theorem merge_perm {results results' : List (Except String Backends)} {set set' : Backends} (h : results.Perm results')
    (hm : merge results = .ok set) (hm' : merge results' = .ok set') (id : BackendId) :
    (set'.get id).map (fun b => b.priority) = (set.get id).map fun b => b.priority := by
  rw [merge_eq] at hm hm'
  split at hm
  · cases hm
  · split at hm'
    · cases hm'
    · cases hm
      cases hm'
      exact Backends.priority_of_perm (h.flatMap_right _) id

end HybridDiscovery

end Discovery

end Pingsix
