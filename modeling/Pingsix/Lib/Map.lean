import Mathlib.Data.List.AList
import Pingsix.Lib.Except

/-!
# Finite maps

A hash map is an association list without duplicate keys. Its entry order
stands for the iteration order, which nothing observable may depend on:
`SameEntries` is equality of the maps as functions.
-/

universe u v w

/-- A finite map with keys `κ` and values `ν`. -/
abbrev HashMap (κ : Type u) (ν : Type v) : Type (max u v) := AList fun _ : κ => ν

namespace HashMap

variable {κ : Type u} {ν : Type v} [DecidableEq κ]

def containsKey (m : HashMap κ ν) (k : κ) : Bool := (m.lookup k).isSome

def values (m : HashMap κ ν) : List ν := m.entries.map (·.2)

/-- The two maps hold the same value under every key. -/
def SameEntries (m m' : HashMap κ ν) : Prop := ∀ k, m.lookup k = m'.lookup k

def sameEntries [DecidableEq ν] (m m' : HashMap κ ν) : Bool :=
  (m.keys ++ m'.keys).all fun k => m.lookup k = m'.lookup k

@[simp] theorem lookup_insert_self (m : HashMap κ ν) (k : κ) (v : ν) :
    AList.lookup k (m.insert k v) = some v := AList.lookup_insert m

theorem lookup_insert (m : HashMap κ ν) (k a : κ) (v : ν) :
    AList.lookup a (m.insert k v) = if a = k then some v else m.lookup a := by
  by_cases h : a = k
  · subst h; simp
  · rw [if_neg h, AList.lookup_insert_ne h]

theorem lookup_erase (m : HashMap κ ν) (k a : κ) :
    AList.lookup a (m.erase k) = if a = k then none else m.lookup a := by
  by_cases h : a = k
  · subst h; simp
  · rw [if_neg h, AList.lookup_erase_ne h]

theorem lookup_empty (a : κ) : AList.lookup a (∅ : HashMap κ ν) = none := AList.lookup_empty a

theorem mem_entries_iff (m : HashMap κ ν) (k : κ) (v : ν) : (⟨k, v⟩ : Sigma fun _ : κ => ν) ∈ m.entries ↔
    m.lookup k = some v := AList.mem_lookup_iff.symm

theorem mem_values_iff (m : HashMap κ ν) (v : ν) : v ∈ m.values ↔ ∃ k, m.lookup k = some v := by
  unfold values
  rw [List.mem_map]
  constructor
  · rintro ⟨⟨k, w⟩, hm, rfl⟩
    exact ⟨k, (mem_entries_iff m k w).mp hm⟩
  · rintro ⟨k, hk⟩
    exact ⟨⟨k, v⟩, (mem_entries_iff m k v).mpr hk, rfl⟩

theorem SameEntries.refl (m : HashMap κ ν) : SameEntries m m := fun _ => rfl

theorem SameEntries.symm {m m' : HashMap κ ν} (h : SameEntries m m') : SameEntries m' m := fun k => (h k).symm

theorem SameEntries.trans {m m' m'' : HashMap κ ν} (h : SameEntries m m') (h' : SameEntries m' m'') :
    SameEntries m m'' := fun k => (h k).trans (h' k)

theorem SameEntries.insert {m m' : HashMap κ ν} (h : SameEntries m m') (k : κ) (v : ν) :
    SameEntries (AList.insert k v m) (AList.insert k v m') := by
  intro a
  rw [lookup_insert, lookup_insert, h a]

theorem SameEntries.erase {m m' : HashMap κ ν} (h : SameEntries m m') (k : κ) :
    SameEntries (AList.erase k m) (AList.erase k m') := by
  intro a
  rw [lookup_erase, lookup_erase, h a]

/-! ## Changing all values -/

variable {μ : Type w}

theorem dlookup_map (f : κ → ν → μ) (k : κ) : ∀ l : List (Sigma fun _ : κ => ν),
    List.dlookup k (l.map fun e => (⟨e.1, f e.1 e.2⟩ : Sigma fun _ : κ => μ)) = (List.dlookup k l).map (f k)
  | [] => rfl
  | ⟨a, v⟩ :: l => by
    rw [List.map_cons]
    by_cases h : k = a
    · subst h; simp
    · rw [List.dlookup_cons_ne _ _ h, List.dlookup_cons_ne _ _ h, dlookup_map f k l]

def mapValues (f : κ → ν → μ) (m : HashMap κ ν) : HashMap κ μ where
  entries := m.entries.map fun e => ⟨e.1, f e.1 e.2⟩
  nodupKeys := by
    have h := m.nodupKeys
    unfold List.NodupKeys at h ⊢
    unfold List.keys at h ⊢
    rw [List.map_map]
    exact h

theorem lookup_mapValues (f : κ → ν → μ) (m : HashMap κ ν) (k : κ) :
    (m.mapValues f).lookup k = (m.lookup k).map (f k) := dlookup_map f k m.entries

omit [DecidableEq κ] in
@[simp] theorem keys_mapValues (f : κ → ν → μ) (m : HashMap κ ν) : (m.mapValues f).keys = m.keys := by
  unfold mapValues AList.keys List.keys
  rw [List.map_map]
  simp

/-- The map with the value under `k`, if any, replaced. -/
def set (m : HashMap κ ν) (k : κ) (v : ν) : HashMap κ ν := m.mapValues fun a w => if a = k then v else w

@[simp] theorem keys_set (m : HashMap κ ν) (k : κ) (v : ν) : (m.set k v).keys = m.keys := keys_mapValues _ m

theorem lookup_set (m : HashMap κ ν) (k a : κ) (v : ν) :
    (m.set k v).lookup a = if a = k then (m.lookup a).map fun _ => v else m.lookup a := by
  unfold set
  rw [lookup_mapValues]
  by_cases h : a = k
  · simp [h]
  · simp [h]

/-! ## Iteration orders -/

section
variable {κ ν : Type} [DecidableEq κ]

theorem SameEntries.perm {m m' : HashMap κ ν} (h : SameEntries m m') : m.entries.Perm m'.entries :=
  List.lookup_ext m.nodupKeys m'.nodupKeys fun k v => by
    have hk : List.dlookup k m.entries = List.dlookup k m'.entries := h k
    rw [hk]

theorem SameEntries.perm_values {m m' : HashMap κ ν} (h : SameEntries m m') : m.values.Perm m'.values := h.perm.map _

theorem SameEntries.containsKey {m m' : HashMap κ ν} (h : SameEntries m m') (k : κ) :
    m.containsKey k = m'.containsKey k := by
  unfold HashMap.containsKey
  rw [h k]

end

/-! ## Collecting results -/

section
variable {κ ν ο ε : Type} [DecidableEq κ]

/-- The results of a fallible step on every entry, each under the entry's key; a step may return none. -/
def collect (f : κ → ν → Except ε (Option ο)) (m : HashMap κ ν) : Except ε (HashMap κ ο) :=
  m.entries.foldlM (fun (b : HashMap κ ο) e => (f e.1 e.2).map fun o => o.elim b (b.insert e.1)) ∅

theorem collectFrom_isOk {f : κ → ν → Except ε (Option ο)} : ∀ {l : List (Sigma fun _ : κ => ν)} {b : HashMap κ ο},
    (∃ b', l.foldlM (fun (b : HashMap κ ο) e => (f e.1 e.2).map fun o => o.elim b (b.insert e.1)) b = .ok b') ↔
      ∀ e ∈ l, ∃ o, f e.1 e.2 = .ok o
  | [], b => by simp [pure, Except.pure]
  | e :: l, b => by
    simp only [List.foldlM_cons, List.forall_mem_cons]
    cases hf : f e.1 e.2 with
    | error err => simp [bind, Except.bind, Except.map]
    | ok o =>
      have ih := collectFrom_isOk (f := f) (l := l) (b := o.elim b (b.insert e.1))
      simpa [bind, Except.bind, Except.map] using ih

theorem lookup_collectFrom {f : κ → ν → Except ε (Option ο)} {k : κ} {o : ο} :
    ∀ {l : List (Sigma fun _ : κ => ν)} {b b' : HashMap κ ο}, l.NodupKeys → (∀ e ∈ l, b.lookup e.1 = none) →
      l.foldlM (fun (b : HashMap κ ο) e => (f e.1 e.2).map fun o => o.elim b (b.insert e.1)) b = .ok b' →
        (b'.lookup k = some o ↔ b.lookup k = some o ∨ ∃ v, ⟨k, v⟩ ∈ l ∧ f k v = .ok (some o))
  | [], b, b', _, _, h => by
    cases h
    simp
  | ⟨a, v⟩ :: l, b, b', hn, hnew, h => by
    obtain ⟨ha, hl⟩ := List.nodupKeys_cons.mp hn
    obtain ⟨c, hc, h⟩ := Except.foldlM_cons_eq_ok.mp h
    obtain ⟨r, hr, rfl⟩ := Except.map_eq_ok.mp hc
    have hne (e) (he : e ∈ l) : e.1 ≠ a := by
      rintro rfl
      exact ha (List.mem_map.mpr ⟨e, he, rfl⟩)
    have ih := lookup_collectFrom (k := k) (o := o) hl (fun e he => by
      cases r with
      | none => exact hnew e (List.mem_cons_of_mem _ he)
      | some x =>
        rw [Option.elim_some, lookup_insert, if_neg (hne e he)]
        exact hnew e (List.mem_cons_of_mem _ he)) h
    have hfirst : b.lookup a = none := hnew _ List.mem_cons_self
    rw [ih]
    simp only [List.mem_cons, Sigma.mk.injEq]
    cases r with
    | none =>
      simp only [Option.elim_none]
      refine or_congr_right ⟨fun ⟨w, hw, hf⟩ => ⟨w, .inr hw, hf⟩, ?_⟩
      rintro ⟨w, ⟨rfl, hw⟩ | hw, hf⟩
      · cases eq_of_heq hw
        simp only at hr
        rw [hr] at hf
        cases hf
      · exact ⟨w, hw, hf⟩
    | some x =>
      simp only [Option.elim_some, lookup_insert]
      by_cases hk : k = a
      · subst hk
        have hnot (w : ν) : (⟨k, w⟩ : Sigma fun _ : κ => ν) ∉ l := fun hw => hne _ hw rfl
        simp only at hr
        simp [hnot, hfirst, hr]
      · simp [hk]

theorem collect_isOk {f : κ → ν → Except ε (Option ο)} {m : HashMap κ ν} :
    (∃ b, collect f m = .ok b) ↔ ∀ k v, m.lookup k = some v → ∃ o, f k v = .ok o := by
  unfold collect
  rw [collectFrom_isOk]
  constructor
  · intro h k v hv
    exact h ⟨k, v⟩ ((mem_entries_iff m k v).mpr hv)
  · intro h e he
    exact h e.1 e.2 ((mem_entries_iff m e.1 e.2).mp he)

theorem lookup_collect {f : κ → ν → Except ε (Option ο)} {m : HashMap κ ν} {b : HashMap κ ο} (h : collect f m = .ok b)
    {k : κ} {o : ο} : b.lookup k = some o ↔ ∃ v, m.lookup k = some v ∧ f k v = .ok (some o) := by
  rw [lookup_collectFrom m.nodupKeys (fun e _ => lookup_empty e.1) h]
  simp [mem_entries_iff]

theorem collect_congr {f f' : κ → ν → Except ε (Option ο)} {m m' : HashMap κ ν} {b : HashMap κ ο}
    (hm : SameEntries m m') (hf : ∀ k v, m.lookup k = some v → f k v = f' k v) (h : collect f m = .ok b) :
    ∃ b', collect f' m' = .ok b' ∧ SameEntries b b' := by
  obtain ⟨b', h'⟩ := (collect_isOk (f := f') (m := m')).mpr fun k v hv => by
    rw [← hm k] at hv
    obtain ⟨o, ho⟩ := collect_isOk.mp ⟨b, h⟩ k v hv
    exact ⟨o, hf k v hv ▸ ho⟩
  refine ⟨b', h', fun k => Option.ext fun o => ?_⟩
  rw [lookup_collect h, lookup_collect h', ← hm k]
  exact exists_congr fun v => and_congr_right fun hv => by rw [hf k v hv]

end

end HashMap
