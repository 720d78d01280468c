import Mathlib.Data.List.Induction
import Pingsix.DiscoverySound

/-!
# What refreshes discover

Over any sequence of refreshes a resolved node is served with its last answer
that was not empty as long as that is fresh, and with nothing else; what an
upstream was prepared with is returned by the first call and then forgotten.
-/

namespace Pingsix

namespace Discovery

/-! ## Merging -/

namespace Backends

variable {set : Backends} {backend b : PeerBackend}

/-- The set holds the backend, or one of its identity that is no less preferred. -/
def Covers (set : Backends) (backend : PeerBackend) : Prop :=
  ∃ b ∈ set.backends, b.id = backend.id ∧ backend.priority ≤ b.priority

theorem mem_insertBackend (h : b ∈ (set.insertBackend backend).backends) : b ∈ set.backends ∨ b = backend := by
  have hinsert {set' : Backends} (hnone : set'.get backend.id = none) (hm : b ∈ (set'.insert backend hnone).backends) :
      b ∈ set'.backends ∨ b = backend := by
    cases List.mem_append.mp hm with
    | inl hm => exact .inl hm
    | inr hm => exact .inr (List.mem_singleton.mp hm)
  unfold insertBackend at h
  split at h
  · exact hinsert _ h
  · next existing he =>
    by_cases hp : backend.priority = existing.priority
    · rw [if_pos hp] at h
      exact .inl h
    · rw [if_neg hp] at h
      by_cases hlt : existing.priority < backend.priority
      · rw [if_pos hlt] at h
        exact (hinsert _ h).imp_left fun hm => (List.mem_filter.mp hm).1
      · rw [if_neg hlt] at h
        exact .inl h

theorem get_eq_some {id : BackendId} (h : set.get id = some b) : b ∈ set.backends ∧ b.id = id := by
  unfold get at h
  exact ⟨List.mem_of_find?_eq_some h, by simpa using List.find?_some h⟩

theorem covers_insertBackend : (set.insertBackend backend).Covers backend := by
  have hself {set' : Backends} (hnone : set'.get backend.id = none) : (set'.insert backend hnone).Covers backend :=
    ⟨backend, List.mem_append_right _ List.mem_cons_self, rfl, Int.le_refl _⟩
  unfold insertBackend
  split
  · exact hself _
  · next existing he =>
    obtain ⟨hm, hid⟩ := get_eq_some he
    by_cases hp : backend.priority = existing.priority
    · rw [if_pos hp]
      exact ⟨existing, hm, hid, Int.le_of_eq hp⟩
    · rw [if_neg hp]
      by_cases hlt : existing.priority < backend.priority
      · rw [if_pos hlt]
        exact hself _
      · rw [if_neg hlt]
        exact ⟨existing, hm, hid, Int.not_lt.mp hlt⟩

/-- An insertion replaces a backend only by a more preferred one of its identity. -/
theorem Covers.insertBackend (h : set.Covers b) : (set.insertBackend backend).Covers b := by
  obtain ⟨b', hm, hid, hp⟩ := h
  unfold Backends.insertBackend
  split
  · exact ⟨b', List.mem_append_left _ hm, hid, hp⟩
  · next existing he =>
    obtain ⟨hme, hide⟩ := get_eq_some he
    by_cases hpe : backend.priority = existing.priority
    · rw [if_pos hpe]
      exact ⟨b', hm, hid, hp⟩
    · rw [if_neg hpe]
      by_cases hlt : existing.priority < backend.priority
      · rw [if_pos hlt]
        by_cases hb : b'.id = backend.id
        · cases List.inj_on_of_nodup_map set.nodup hm hme (hb.trans hide.symm)
          exact ⟨backend, List.mem_append_right _ List.mem_cons_self, hb.symm.trans hid, hp.trans (Int.le_of_lt hlt)⟩
        · exact ⟨b', List.mem_append_left _ (List.mem_filter.mpr ⟨hm, by simpa using hb⟩), hid, hp⟩
      · rw [if_neg hlt]
        exact ⟨b', hm, hid, hp⟩

theorem mem_foldl_insertBackend : ∀ {l : List PeerBackend} {set : Backends},
    b ∈ (l.foldl Backends.insertBackend set).backends → b ∈ set.backends ∨ b ∈ l
  | [], _, h => .inl h
  | backend :: l, set, h => by
    cases mem_foldl_insertBackend (l := l) h with
    | inl h =>
      cases mem_insertBackend h with
      | inl h => exact .inl h
      | inr h => exact .inr (h ▸ List.mem_cons_self)
    | inr h => exact .inr (List.mem_cons_of_mem _ h)

theorem Covers.foldl : ∀ {l : List PeerBackend} {set : Backends}, set.Covers b →
    (l.foldl Backends.insertBackend set).Covers b
  | [], _, h => h
  | _ :: l, _, h => Covers.foldl (l := l) h.insertBackend

theorem covers_foldl : ∀ {l : List PeerBackend} {set : Backends}, b ∈ l → (l.foldl Backends.insertBackend set).Covers b
  | backend :: l, set, h => by
    cases List.mem_cons.mp h with
    | inl h =>
      subst h
      exact Covers.foldl (l := l) covers_insertBackend
    | inr h => exact covers_foldl (l := l) h

end Backends

namespace HybridDiscovery

/-- One part merged into what was found. -/
def mergePart (set : Backends) : Except String Backends → Backends
  | .ok part => part.backends.foldl Backends.insertBackend set
  | .error _ => set

theorem mem_foldl_mergePart {b : PeerBackend} : ∀ {l : List (Except String Backends)} {set : Backends},
    b ∈ (l.foldl mergePart set).backends → b ∈ set.backends ∨ ∃ part, .ok part ∈ l ∧ b ∈ part.backends
  | [], _, h => .inl h
  | .error e :: results, set, h => (mem_foldl_mergePart (l := results) h).imp_right fun hex => by
    obtain ⟨part, hm, hb⟩ := hex
    exact ⟨part, List.mem_cons_of_mem _ hm, hb⟩
  | .ok part :: results, set, h => by
    cases mem_foldl_mergePart (l := results) h with
    | inl h => exact (Backends.mem_foldl_insertBackend h).imp_right fun hb => ⟨part, List.mem_cons_self, hb⟩
    | inr h =>
      obtain ⟨part', hm, hb⟩ := h
      exact .inr ⟨part', List.mem_cons_of_mem _ hm, hb⟩

theorem covers_mergePart {b : PeerBackend} {set : Backends} (h : set.Covers b) (result : Except String Backends) :
    (mergePart set result).Covers b := by
  cases result with
  | ok part => exact h.foldl
  | error e => exact h

theorem covers_foldl_mergePart {b : PeerBackend} : ∀ {l : List (Except String Backends)} {set : Backends},
    (set.Covers b ∨ ∃ part, .ok part ∈ l ∧ b ∈ part.backends) → (l.foldl mergePart set).Covers b
  | [], _, h => h.resolve_right fun hex => by
    obtain ⟨part, hm, -⟩ := hex
    cases hm
  | result :: results, set, h => by
    refine covers_foldl_mergePart (l := results) ?_
    cases h with
    | inl h => exact .inl (covers_mergePart h result)
    | inr h =>
      obtain ⟨part, hm, hb⟩ := h
      cases List.mem_cons.mp hm with
      | inl he =>
        subst he
        exact .inl (Backends.covers_foldl hb)
      | inr hm => exact .inr ⟨part, hm, hb⟩

theorem merge_def (results : List (Except String Backends)) :
    merge results = if (results.foldl mergePart {}).backends = [] ∧ results.any fun result => !result.isOk then
      .error "Hybrid discovery yielded no backends and at least one sub-discovery failed"
    else .ok (results.foldl mergePart {}) := rfl

/-- What is merged is what the parts have, each of them covered; it fails when they have nothing and one failed. -/
theorem merge_spec (results : List (Except String Backends)) :
    (∀ set, merge results = .ok set →
      (∀ b ∈ set.backends, ∃ part, .ok part ∈ results ∧ b ∈ part.backends) ∧
        ∀ part, .ok part ∈ results → ∀ b ∈ part.backends, set.Covers b) ∧
    ((∃ e, merge results = .error e) ↔
      (∀ part, .ok part ∈ results → part.backends = []) ∧ ∃ e, .error e ∈ results) := by
  have hmem (b : PeerBackend) (hb : b ∈ (results.foldl mergePart {}).backends) :
      ∃ part, .ok part ∈ results ∧ b ∈ part.backends :=
    (mem_foldl_mergePart hb).resolve_left (List.not_mem_nil)
  have hcovers (part : Backends) (hp : .ok part ∈ results) (b : PeerBackend) (hb : b ∈ part.backends) :
      (results.foldl mergePart {}).Covers b := covers_foldl_mergePart (.inr ⟨part, hp, hb⟩)
  have hany : (results.any fun result => !result.isOk) = true ↔ ∃ e, .error e ∈ results := by
    rw [List.any_eq_true]
    constructor
    · intro h
      obtain ⟨result, hm, hr⟩ := h
      cases result with
      | ok part => cases hr
      | error e => exact ⟨e, hm⟩
    · intro h
      obtain ⟨e, hm⟩ := h
      exact ⟨_, hm, rfl⟩
  have hnil : (results.foldl mergePart {}).backends = [] ↔ ∀ part, .ok part ∈ results → part.backends = [] := by
    constructor
    · intro h part hp
      refine List.eq_nil_iff_forall_not_mem.mpr fun b hb => ?_
      obtain ⟨b', hb', -⟩ := hcovers part hp b hb
      rw [h] at hb'
      cases hb'
    · intro h
      refine List.eq_nil_iff_forall_not_mem.mpr fun b hb => ?_
      obtain ⟨part, hp, hb⟩ := hmem b hb
      rw [h part hp] at hb
      cases hb
  rw [merge_def, ← hnil, ← hany]
  by_cases h : (results.foldl mergePart {}).backends = [] ∧ (results.any fun result => !result.isOk) = true
  · rw [if_pos h]
    exact ⟨fun set he => (nomatch he), fun _ => h, fun _ => ⟨_, rfl⟩⟩
  · rw [if_neg h]
    refine ⟨fun set he => ?_, fun he => ?_, fun he => absurd he h⟩
    · cases he
      exact ⟨hmem, hcovers⟩
    · obtain ⟨e, he⟩ := he
      cases he

end HybridDiscovery

/-! ## The history of a node -/

/-- The addresses a lookup found and when; a failure or an empty answer finds nothing. -/
def Lookup.found (lookup : Lookup) : Option (Nat × List IpAddr) :=
  match lookup.answer with
  | .resolved [] => none
  | .resolved (ip :: ips) => some (lookup.now, ip :: ips)
  | .failed _ => none

/-- What the last lookup that found something found. -/
def lastKnownGood (history : List Lookup) : Option (Nat × List IpAddr) := (history.filterMap Lookup.found).getLast?

/-- Whether an answer of that age is still served. -/
def Fresh (now : Nat) (found : Nat × List IpAddr) : Prop := now - found.1 ≤ dnsStaleTtlNanos

instance (now : Nat) (found : Nat × List IpAddr) : Decidable (Fresh now found) := inferInstanceAs (Decidable (_ ≤ _))

theorem lastKnownGood_concat (history : List Lookup) (lookup : Lookup) :
    lastKnownGood (history ++ [lookup]) = lookup.found.or (lastKnownGood history) := by
  rw [lastKnownGood, List.filterMap_append]
  cases h : lookup.found with
  | none => rw [List.filterMap_cons_none h, List.filterMap_nil, List.append_nil, Option.none_or, lastKnownGood]
  | some found => rw [List.filterMap_cons_some h, List.filterMap_nil, List.getLast?_concat, Option.some_or]

/-- The node when these lookups have been made for it, one after the other. -/
def DnsDiscovery.after (d : DnsDiscovery) (history : List Lookup) : DnsDiscovery :=
  match lastKnownGood history with
  | some (now, ips) => { d with lkg := ⟨some ips, some now⟩ }
  | none => { d with lkg := {} }

namespace DnsDiscovery

variable {d : DnsDiscovery} {history : List Lookup}

@[simp] theorem after_node : (d.after history).node = d.node := by
  unfold after
  cases lastKnownGood history <;> rfl

@[simp] theorem after_clientCertKey : (d.after history).clientCertKey = d.clientCertKey := by
  unfold after
  cases lastKnownGood history <;> rfl

theorem buildBackends_after (ips : List IpAddr) : (d.after history).buildBackends ips = d.buildBackends ips := by
  unfold after
  cases lastKnownGood history <;> rfl

theorem lkgBackends_after (now : Nat) : (d.after history).lkgBackends now =
    ((lastKnownGood history).filter fun found => Fresh now found).map fun found => d.buildBackends found.2 := by
  unfold after
  cases lastKnownGood history with
  | none => rfl
  | some found =>
    rw [Option.filter_some]
    by_cases h : Fresh now found
    · rw [if_pos (decide_eq_true h), Option.map_some]
      exact if_neg (Nat.not_lt.mpr h)
    · rw [if_neg (by simpa using h), Option.map_none]
      exact if_pos (Nat.not_le.mp h)

/-- A lookup answers with the last one that found something, itself included, while that is fresh. -/
theorem discover_after (lookup : Lookup) :
    ((d.after history).discover lookup.now lookup.answer).2 = d.after (history ++ [lookup]) ∧
    ((d.after history).discover lookup.now lookup.answer).1.toOption =
      ((lastKnownGood (history ++ [lookup])).filter fun found => Fresh lookup.now found).map
        fun found => d.buildBackends found.2 := by
  have hkeep (h : lookup.found = none) : lastKnownGood (history ++ [lookup]) = lastKnownGood history := by
    rw [lastKnownGood_concat, h, Option.none_or]
  have hsame (h : lookup.found = none) : d.after (history ++ [lookup]) = d.after history := by
    unfold after
    rw [hkeep h]
  have hlkg : (d.after history).lkgBackends lookup.now =
      ((lastKnownGood history).filter fun found => Fresh lookup.now found).map fun found => d.buildBackends found.2 :=
    lkgBackends_after lookup.now
  obtain ⟨now, answer⟩ := lookup
  cases answer with
  | failed e =>
    rw [hsame rfl, hkeep rfl, ← hlkg]
    unfold discover
    cases (d.after history).lkgBackends now <;> exact ⟨rfl, rfl⟩
  | resolved ips =>
    cases ips with
    | nil =>
      rw [hsame rfl, hkeep rfl, ← hlkg]
      unfold discover
      cases (d.after history).lkgBackends now <;> exact ⟨rfl, rfl⟩
    | cons ip ips =>
      have hfound : lastKnownGood (history ++ [⟨now, .resolved (ip :: ips)⟩]) = some (now, ip :: ips) := by
        rw [lastKnownGood_concat]
        rfl
      have hfresh : Fresh now (now, ip :: ips) := by
        unfold Fresh
        rw [Nat.sub_self]
        exact Nat.zero_le _
      rw [hfound, Option.filter_some, if_pos (decide_eq_true hfresh)]
      refine ⟨?_, congrArg some (buildBackends_after (ip :: ips))⟩
      unfold discover after
      rw [hfound]
      cases lastKnownGood history <;> rfl

end DnsDiscovery

/-! ## The history of an upstream -/

/-- The lookups made for each node by these refreshes. -/
def lookups (rounds : List Round) (i : Nat) : List Lookup := rounds.filterMap fun round => round i

theorem lookups_concat (rounds : List Round) (round : Round) (i : Nat) :
    lookups (rounds ++ [round]) i = lookups rounds i ++ (round i).toList := by
  unfold lookups
  rw [List.filterMap_append]
  refine congrArg _ ?_
  cases h : round i with
  | none => simp [h]
  | some lookup => simp [h]

namespace HybridDiscovery

def after (this : HybridDiscovery) (rounds : List Round) : HybridDiscovery :=
  { this with dns := this.dns.mapIdx fun i d => d.after (lookups rounds i) }

variable {this : HybridDiscovery} {x : X509} {upstream : Upstream}

theorem after_nil (h : ∀ d ∈ this.dns, d.lkg = {}) : this.after [] = this := by
  have hdns : this.dns.mapIdx (fun i d => d.after (lookups [] i)) = this.dns := by
    refine List.ext_getElem? fun i => ?_
    rw [List.getElem?_mapIdx]
    cases hd : this.dns[i]? with
    | none => rfl
    | some d =>
      have hlkg := h d (List.mem_of_getElem? hd)
      obtain ⟨node, clientCertKey, lkg⟩ := d
      cases hlkg
      rfl
  unfold after
  rw [hdns]

/-- What one refresh adds to the history of each node. -/
theorem refreshed_after (rounds : List Round) (round : Round) :
    (this.after rounds).refreshed round = this.after (rounds ++ [round]) := by
  unfold refreshed after
  simp only [List.mapIdx_mapIdx, HybridDiscovery.mk.injEq, and_true]
  refine congrArg (fun f => this.dns.mapIdx f) (funext fun i => funext fun d => ?_)
  simp only [Function.comp_apply]
  rw [lookups_concat]
  cases round i with
  | none => rw [Option.toList_none, List.append_nil]
  | some lookup => exact (DnsDiscovery.discover_after lookup).1

theorem addNode_fresh {cert : Option CertKey} (h : ∀ d ∈ this.dns, d.lkg = {}) (node : Node) :
    ∀ d ∈ (addNode upstream cert this node).dns, d.lkg = {} := by
  unfold addNode
  split
  · exact h
  · dsimp only
    split
    · exact h
    · intro d hd
      cases List.mem_append.mp hd with
      | inl hd => exact h d hd
      | inr hd => rw [List.mem_singleton.mp hd]

/-- A discovery is built without any answer. -/
theorem build_fresh (h : build x upstream = .ok this) : ∀ d ∈ this.dns, d.lkg = {} := by
  obtain ⟨cert, -, h⟩ := Except.bind_eq_ok.mp h
  cases h
  have hfold (nodes : List Node) : ∀ acc : HybridDiscovery, (∀ d ∈ acc.dns, d.lkg = {}) →
      ∀ d ∈ (nodes.foldl (addNode upstream cert) acc).dns, d.lkg = {} := by
    induction nodes with
    | nil => exact fun acc hacc => hacc
    | cons node nodes ih => exact fun acc hacc => ih _ (addNode_fresh hacc node)
  exact hfold _ {} fun d hd => (nomatch hd)

end HybridDiscovery

namespace SeededDiscovery

/-- Behind the prepared backends all refreshes are those of the discovery itself. -/
theorem discoverAll_new {hybrid : HybridDiscovery} (h : ∀ d ∈ hybrid.dns, d.lkg = {}) (prepared : Backends)
    (refreshTimeout : Nat) (first : Round) (rounds : List Round) :
    (new prepared hybrid refreshTimeout).discoverAll (first :: rounds) =
      { initial := none, refresh := hybrid.after rounds, refreshTimeout } := by
  induction rounds using List.reverseRecOn with
  | nil =>
    rw [HybridDiscovery.after_nil h]
    rfl
  | append_singleton rounds round ih =>
    unfold discoverAll at ih ⊢
    rw [← List.cons_append, List.foldl_append, ih, ← HybridDiscovery.refreshed_after]
    rfl

end SeededDiscovery

/-! ## What is served -/

namespace DnsDiscovery

variable {d : DnsDiscovery} {ips : List IpAddr} {b : PeerBackend}

theorem buildBackends_eq (d : DnsDiscovery) (ips : List IpAddr) :
    d.buildBackends ips = (ips.map d.backend).foldl Backends.insertBackend {} := by
  unfold buildBackends
  rw [List.foldl_map]

theorem mem_buildBackends (h : b ∈ (d.buildBackends ips).backends) : ∃ ip ∈ ips, b = d.backend ip := by
  rw [buildBackends_eq] at h
  obtain ⟨ip, hm, he⟩ := List.mem_map.mp ((Backends.mem_foldl_insertBackend h).resolve_left List.not_mem_nil)
  exact ⟨ip, hm, he.symm⟩

theorem covers_buildBackends {ip : IpAddr} (h : ip ∈ ips) : (d.buildBackends ips).Covers (d.backend ip) := by
  rw [buildBackends_eq]
  exact Backends.covers_foldl (List.mem_map_of_mem h)

end DnsDiscovery

/-- What the node knows after these refreshes, when it is asked in the last of them. -/
def known (rounds : List Round) (round : Round) (i : Nat) : Option (List IpAddr) :=
  (round i).bind fun lookup =>
    ((lastKnownGood (lookups (rounds ++ [round]) i)).filter fun found => Fresh lookup.now found).map Prod.snd

/-- An answer that is kept is not empty. -/
theorem known_ne_nil {rounds : List Round} {round : Round} {i : Nat} {ips : List IpAddr}
    (h : known rounds round i = some ips) : ∃ ip, ip ∈ ips := by
  obtain ⟨lookup, -, hfresh⟩ := Option.bind_eq_some_iff.mp h
  obtain ⟨found, hlast, rfl⟩ := Option.map_eq_some_iff.mp hfresh
  obtain ⟨lookup', -, hfound⟩ := List.mem_filterMap.mp (List.mem_of_getLast? (Option.filter_eq_some_iff.mp hlast).1)
  unfold Lookup.found at hfound
  split at hfound
  · cases hfound
  · next ip ips _ =>
    cases hfound
    exact ⟨ip, List.mem_cons_self⟩
  · cases hfound

namespace HybridDiscovery

variable {this : HybridDiscovery} {rounds : List Round} {round : Round}

/-- A backend at an address some node knows. -/
def Known (this : HybridDiscovery) (rounds : List Round) (round : Round) (b : PeerBackend) : Prop :=
  ∃ i d ips, this.dns[i]? = some d ∧ known rounds round i = some ips ∧ ∃ ip ∈ ips, b = d.backend ip

theorem resolved_after (rounds : List Round) {i : Nat} {d : DnsDiscovery} {lookup : Lookup} (hd : this.dns[i]? = some d)
    (hl : round i = some lookup) : ∃ result, ((this.after rounds).resolved round)[i]? = some (some result) ∧
      result.toOption = (known rounds round i).map d.buildBackends := by
  refine ⟨((d.after (lookups rounds i)).discover lookup.now lookup.answer).1, ?_, ?_⟩
  · unfold resolved after
    simp only [List.getElem?_mapIdx, hd, hl, Option.map_some]
  · rw [(DnsDiscovery.discover_after lookup).2, known, hl, lookups_concat, hl, Option.bind_some, Option.map_map]
    rfl

theorem length_resolved (this : HybridDiscovery) (round : Round) : (this.resolved round).length = this.dns.length := List.length_mapIdx

theorem length_after (this : HybridDiscovery) (rounds : List Round) : (this.after rounds).dns.length = this.dns.length := List.length_mapIdx

/-- A refresh whose lookups are all answered has a result for each node, in order. -/
theorem discover_after (rounds : List Round) (h : ∀ i < this.dns.length, (round i).isSome) : ∃ results,
    ((this.after rounds).discover round).1 = some (merge (this.parts results)) ∧
    results.length = this.dns.length ∧
    ∀ i d, this.dns[i]? = some d → ∃ result, results[i]? = some result ∧
      result.toOption = (known rounds round i).map d.buildBackends := by
  have hall : ∀ r ∈ (this.after rounds).resolved round, r.isSome := by
    intro r hr
    obtain ⟨i, hi, rfl⟩ := List.mem_iff_getElem.mp hr
    have hlt : i < this.dns.length := by rwa [length_resolved, length_after] at hi
    obtain ⟨lookup, hl⟩ := Option.isSome_iff_exists.mp (h i hlt)
    obtain ⟨result, hres, -⟩ := resolved_after rounds (List.getElem?_eq_getElem hlt) hl
    rw [List.getElem?_eq_getElem hi, Option.some.injEq] at hres
    rw [hres]
    rfl
  obtain ⟨results, hres⟩ : ∃ results : List (Except String Backends),
      (this.after rounds).resolved round = results.map some := by
    refine ⟨((this.after rounds).resolved round).filterMap id, ?_⟩
    generalize (this.after rounds).resolved round = l at hall
    induction l with
    | nil => rfl
    | cons r l ih =>
      obtain ⟨result, rfl⟩ := Option.isSome_iff_exists.mp (hall r List.mem_cons_self)
      rw [List.filterMap_cons_some (show id (some result) = some result from rfl), List.map_cons,
        ← ih fun r hr => hall r (List.mem_cons_of_mem _ hr)]
  refine ⟨results, ?_, ?_, ?_⟩
  · have hmap : (results.map some).mapM id = some results := by
      rw [List.mapM_map]
      exact (List.mapM_pure (f := id)).trans (congrArg some (List.map_id results))
    unfold HybridDiscovery.discover
    rw [hres, hmap]
    rfl
  · rw [← length_after this rounds, ← length_resolved _ round, hres, List.length_map]
  · intro i d hd
    obtain ⟨lookup, hl⟩ := Option.isSome_iff_exists.mp (h i (List.getElem?_eq_some_iff.mp hd).1)
    obtain ⟨result, hr, ho⟩ := resolved_after rounds hd hl
    rw [hres, List.getElem?_map] at hr
    exact ⟨result, by simpa using hr, ho⟩

/-- A refresh that drops a node's lookup finds nothing at all. -/
theorem discover_after_cutOff {i : Nat} (hi : i < this.dns.length) (h : round i = none) :
    ((this.after rounds).discover round).1 = none := by
  have hnone : none ∈ (this.after rounds).resolved round := by
    refine List.mem_iff_getElem?.mpr ⟨i, ?_⟩
    unfold resolved after
    simp only [List.getElem?_mapIdx, List.getElem?_eq_getElem hi, h, Option.map_some, Option.map_none]
  have hmapM : ∀ {l : List (Option (Except String Backends))}, none ∈ l → l.mapM id = none := by
    intro l hl
    induction l with
    | nil => cases hl
    | cons r l ih =>
      rw [List.mapM_cons]
      cases List.mem_cons.mp hl with
      | inl hr => rw [← hr]; rfl
      | inr hrest =>
        cases r with
        | none => rfl
        | some result => rw [ih hrest]; rfl
  unfold HybridDiscovery.discover
  rw [hmapM hnone, Option.map_none]

/-- The literal nodes are one part more, unless there are none. -/
theorem mem_parts {results : List (Except String Backends)} {result : Except String Backends} :
    result ∈ this.parts results ↔ result ∈ results ∨ (this.fixed.backends ≠ [] ∧ result = .ok this.fixed) := by
  unfold parts
  by_cases h : this.fixed.backends = []
  · rw [if_pos h]
    simp [h]
  · rw [if_neg h]
    simp [h]

/-- What is found is the literal backends and those at known addresses, and it fails when there are neither. -/
theorem merge_known {results : List (Except String Backends)} (hlength : results.length = this.dns.length)
    (h : ∀ i d, this.dns[i]? = some d → ∃ result, results[i]? = some result ∧
      result.toOption = (known rounds round i).map d.buildBackends) :
    (∀ set, merge (this.parts results) = .ok set →
      (∀ b ∈ set.backends, b ∈ this.fixed.backends ∨ this.Known rounds round b) ∧
      ∀ b, b ∈ this.fixed.backends ∨ this.Known rounds round b → set.Covers b) ∧
    ((∃ e, merge (this.parts results) = .error e) ↔
      this.dns ≠ [] ∧ this.fixed.backends = [] ∧ ∀ i < this.dns.length, known rounds round i = none) := by
  -- a result in the list is that of the node at its position
  have hnode (result : Except String Backends) (hm : result ∈ results) : ∃ i d, this.dns[i]? = some d ∧
      result.toOption = (known rounds round i).map d.buildBackends := by
    obtain ⟨i, hi⟩ := List.mem_iff_getElem?.mp hm
    have hlt : i < this.dns.length := hlength ▸ (List.getElem?_eq_some_iff.mp hi).1
    obtain ⟨result', hr, ho⟩ := h i _ (List.getElem?_eq_getElem hlt)
    cases Option.some.inj (hi.symm.trans hr)
    exact ⟨i, _, List.getElem?_eq_getElem hlt, ho⟩
  have hpart (part : Backends) (hm : .ok part ∈ results) : ∃ i d ips, this.dns[i]? = some d ∧
      known rounds round i = some ips ∧ part = d.buildBackends ips := by
    obtain ⟨i, d, hd, ho⟩ := hnode _ hm
    obtain ⟨ips, hk, he⟩ := Option.map_eq_some_iff.mp ho.symm
    exact ⟨i, d, ips, hd, hk, he.symm⟩
  have hknown {i : Nat} {d : DnsDiscovery} {ips : List IpAddr} (hd : this.dns[i]? = some d)
      (hk : known rounds round i = some ips) : .ok (d.buildBackends ips) ∈ results := by
    obtain ⟨result, hr, ho⟩ := h i d hd
    rw [hk, Option.map_some] at ho
    cases result with
    | error e => cases ho
    | ok part =>
      cases Option.some.inj ho
      exact List.mem_of_getElem? hr
  obtain ⟨hok, herror⟩ := merge_spec (this.parts results)
  constructor
  · intro set hset
    obtain ⟨hsound, hcomplete⟩ := hok set hset
    constructor
    · intro b hb
      obtain ⟨part, hp, hb⟩ := hsound b hb
      cases mem_parts.mp hp with
      | inl hp =>
        obtain ⟨i, d, ips, hd, hk, rfl⟩ := hpart part hp
        exact .inr ⟨i, d, ips, hd, hk, DnsDiscovery.mem_buildBackends hb⟩
      | inr hp =>
        cases hp.2
        exact .inl hb
    · intro b hb
      cases hb with
      | inl hb =>
        have hne : this.fixed.backends ≠ [] := List.ne_nil_of_mem hb
        exact hcomplete _ (mem_parts.mpr (.inr ⟨hne, rfl⟩)) b hb
      | inr hb =>
        obtain ⟨i, d, ips, hd, hk, ip, hip, rfl⟩ := hb
        obtain ⟨b', hb', hid', hp'⟩ := DnsDiscovery.covers_buildBackends (d := d) hip
        obtain ⟨b, hb, hid, hp⟩ := hcomplete _ (mem_parts.mpr (.inl (hknown hd hk))) b' hb'
        exact ⟨b, hb, hid.trans hid', hp'.trans hp⟩
  · rw [herror]
    constructor
    · intro he
      obtain ⟨hempty, e, he⟩ := he
      have hfixed : this.fixed.backends = [] := by
        by_contra hne
        exact hne (hempty _ (mem_parts.mpr (.inr ⟨hne, rfl⟩)))
      have hm : .error e ∈ results := (mem_parts.mp he).resolve_right fun h => nomatch h.2
      refine ⟨?_, hfixed, fun i hi => ?_⟩
      · intro hnil
        rw [hnil] at hlength
        rw [List.eq_nil_of_length_eq_zero hlength] at hm
        cases hm
      · cases hk : known rounds round i with
        | none => rfl
        | some ips =>
          have hp := hempty _ (mem_parts.mpr (.inl (hknown (List.getElem?_eq_getElem hi) hk)))
          obtain ⟨ip, hip⟩ := known_ne_nil hk
          obtain ⟨b, hb, -⟩ := DnsDiscovery.covers_buildBackends (d := this.dns[i]) hip
          rw [hp] at hb
          cases hb
    · intro he
      obtain ⟨hdns, hfixed, hall⟩ := he
      constructor
      · intro part hp
        cases mem_parts.mp hp with
        | inl hp =>
          obtain ⟨i, d, ips, hd, hk, -⟩ := hpart part hp
          rw [hall i (List.getElem?_eq_some_iff.mp hd).1] at hk
          cases hk
        | inr hp => exact absurd hfixed hp.1
      · have hlt : 0 < this.dns.length := List.length_pos_iff.mpr hdns
        obtain ⟨result, hr, ho⟩ := h 0 _ (List.getElem?_eq_getElem hlt)
        rw [hall 0 hlt] at ho
        cases result with
        | ok part => cases ho
        | error e => exact ⟨e, mem_parts.mpr (.inl (List.mem_of_getElem? hr))⟩

end HybridDiscovery

namespace SeededDiscovery

/-- The first call returns what was prepared; a later one, whatever the refreshes before it came to, has the literal
backends and those at the addresses of each node's last answer that was not empty and is still fresh. -/
theorem lastKnownGood_served {x : X509} {upstream : Upstream} {hybrid : HybridDiscovery}
    (h : HybridDiscovery.build x upstream = .ok hybrid) (prepared : Backends) (refreshTimeout : Nat) (first : Round)
    (rounds : List Round) (round : Round) :
    ((new prepared hybrid refreshTimeout).discover first).1 = .ok prepared ∧
    ∀ result, (((new prepared hybrid refreshTimeout).discoverAll (first :: rounds)).discover round).1 = result →
      ((∃ i < hybrid.dns.length, round i = none) → result = .error s!"DNS refresh timed out after {refreshTimeout}s") ∧
      ((∀ i < hybrid.dns.length, (round i).isSome) →
        (∀ set, result = .ok set →
          (∀ b ∈ set.backends, b ∈ hybrid.fixed.backends ∨ hybrid.Known rounds round b) ∧
          ∀ b, b ∈ hybrid.fixed.backends ∨ hybrid.Known rounds round b → set.Covers b) ∧
        ((∃ e, result = .error e) ↔ hybrid.dns ≠ [] ∧ hybrid.fixed.backends = [] ∧
          ∀ i < hybrid.dns.length, known rounds round i = none)) := by
  have hall := discoverAll_new (HybridDiscovery.build_fresh h) prepared refreshTimeout first rounds
  have hlater : (((new prepared hybrid refreshTimeout).discoverAll (first :: rounds)).discover round).1 =
      ((hybrid.after rounds).discover round).1.getD (.error s!"DNS refresh timed out after {refreshTimeout}s") := by
    rw [hall]
    rfl
  refine ⟨rfl, ?_⟩
  intro result hresult
  rw [hlater] at hresult
  constructor
  · intro hcut
    obtain ⟨i, hi, hnone⟩ := hcut
    rw [← hresult, HybridDiscovery.discover_after_cutOff hi hnone, Option.getD_none]
  · intro hanswered
    obtain ⟨results, heq, hlength, hnodes⟩ := HybridDiscovery.discover_after rounds hanswered
    rw [heq, Option.getD_some] at hresult
    subst hresult
    exact HybridDiscovery.merge_known hlength hnodes

end SeededDiscovery

/-! ## A node that is not resolved for a while -/

def lookupAt (now : Nat) (answer : DnsAnswer) : Round := fun _ => some { now, answer }

theorem lastKnownGood_served_stale : ∃ hybrid set,
    HybridDiscovery.build plainX509 (loopbackUpstream ["a.example"]) = .ok hybrid ∧
    (((SeededDiscovery.new {} hybrid 5).discoverAll
      [lookupAt 0 (.failed "refused"), lookupAt 0 (.resolved [.v4 [10, 0, 0, 1]])]).discover
        (lookupAt dnsStaleTtlNanos (.failed "refused"))).1 = .ok set ∧
    set.backends ≠ [] ∧
    ∀ b ∈ set.backends, b ∈ hybrid.fixed.backends ∨ hybrid.Known [lookupAt 0 (.resolved [.v4 [10, 0, 0, 1]])]
      (lookupAt dnsStaleTtlNanos (.failed "refused")) b := by
  refine ⟨_, _, rfl, rfl, List.cons_ne_nil _ _, ?_⟩
  have h := (@SeededDiscovery.lastKnownGood_served plainX509 (loopbackUpstream ["a.example"]) _ rfl {} 5
    (lookupAt 0 (.failed "refused")) [lookupAt 0 (.resolved [.v4 [10, 0, 0, 1]])]
    (lookupAt dnsStaleTtlNanos (.failed "refused"))).2 _ rfl
  exact ((h.2 fun i hi => rfl).1 _ rfl).1

end Discovery

end Pingsix
