import Mathlib.Data.Fintype.Pigeonhole
import Mathlib.Data.Set.Finite.Basic
import Pingsix.Limiting

/-!
# What admission and sweeps change

A round of a sweep changes at most one entry, and that one satisfied the
eviction predicate; the same holds of a sweep, and of `admit`, which never
sweeps for a key that has its entry.
-/

namespace Pingsix

universe u

namespace Shard

variable {V : Type u}

@[simp] theorem entries_touch (s : Shard V) (key : String) : (s.touch key).entries = s.entries := rfl

@[simp] theorem len_touch (s : Shard V) (key : String) : (s.touch key).len = s.len := rfl

@[simp] theorem containsKey_touch (s : Shard V) (key k : String) :
    (s.touch key).containsKey k = s.containsKey k := rfl

theorem lookup_insert (s : Shard V) (key k : String) (v : V) :
    (s.insert key v).entries.lookup k = if k = key then some v else s.entries.lookup k := HashMap.lookup_insert _ _ _ _

theorem lookup_remove (s : Shard V) (key k : String) :
    (s.remove key).entries.lookup k = if k = key then none else s.entries.lookup k := HashMap.lookup_erase _ _ _

theorem containsKey_eq_false {s : Shard V} {key : String} :
    s.containsKey key = false ↔ s.entries.lookup key = none := by
  unfold containsKey
  cases s.entries.lookup key <;> simp

/-- What became of the entry under `key`: it is still there, or it could be evicted and is gone. -/
def Swept (evict : V → Bool) (s s' : Shard V) (key : String) : Prop :=
  s'.entries.lookup key = s.entries.lookup key ∨
    s'.entries.lookup key = none ∧ ∃ v, s.entries.lookup key = some v ∧ evict v = true

theorem Swept.absent {evict : V → Bool} {s s' : Shard V} {key : String} (h : Swept evict s s' key)
    (hs : s.entries.lookup key = none) : s'.entries.lookup key = none := by
  rcases h with h | ⟨h, -⟩
  · rw [h, hs]
  · exact h

theorem Swept.kept {evict : V → Bool} {s s' : Shard V} {key : String} {v : V} (h : Swept evict s s' key)
    (hs : s.entries.lookup key = some v) (hv : evict v = false) : s'.entries.lookup key = some v := by
  rcases h with h | ⟨-, w, hw, he⟩
  · rw [h, hs]
  · rw [hs, Option.some.injEq] at hw
    subst hw
    rw [hv] at he
    cases he

theorem Swept.present {evict : V → Bool} {s s' : Shard V} {key : String} {v : V} (h : Swept evict s s' key)
    (hs : s'.entries.lookup key = some v) : s.entries.lookup key = some v := by
  rcases h with h | ⟨h, -⟩
  · rw [← h, hs]
  · rw [hs] at h
    cases h

theorem Swept.trans {evict : V → Bool} {s s' s'' : Shard V} {key : String} (h : Swept evict s s' key)
    (h' : Swept evict s' s'' key) : Swept evict s s'' key := by
  rcases h with h | ⟨h, hv⟩
  · unfold Swept
    rw [← h]
    exact h'
  · exact .inr ⟨h'.absent h, hv⟩

/-- A round removes at most the oldest entry, and only when it may be evicted. -/
theorem examine_cases {evict : V → Bool} {onMiss : SweepMiss} {s s' : Shard V}
    (h : s.examine evict onMiss = some s') :
    s'.entries = s.entries ∨ ∃ key, s.touchOrder.oldest.head? = some key ∧
      (s.entries.lookup key).all evict = true ∧ s'.entries = s.entries.erase key := by
  unfold examine TouchOrder.popOldest at h
  cases ho : s.touchOrder.oldest with
  | nil =>
    rw [ho] at h
    cases h
  | cons key oldest =>
    simp only [ho] at h
    by_cases he : (s.entries.lookup key).all evict = true
    · rw [if_pos he] at h
      cases h
      exact .inr ⟨key, rfl, he, rfl⟩
    · rw [if_neg he] at h
      left
      cases onMiss <;> · cases h; rfl

theorem swept_examine {evict : V → Bool} {onMiss : SweepMiss} {s s' : Shard V}
    (h : s.examine evict onMiss = some s') (key : String) : Swept evict s s' key := by
  rcases examine_cases h with he | ⟨k, -, hk, he⟩
  · exact .inl (by rw [he])
  · unfold Swept
    rw [he, HashMap.lookup_erase]
    by_cases hkk : key = k
    · subst hkk
      rw [if_pos rfl]
      cases hl : s.entries.lookup key with
      | none => exact .inl rfl
      | some v =>
        rw [hl] at hk
        exact .inr ⟨rfl, v, rfl, hk⟩
    · rw [if_neg hkk]
      exact .inl rfl

theorem swept_sweepUpTo (evict : V → Bool) (onMiss : SweepMiss) (budget : Nat) (s : Shard V) (key : String) :
    Swept evict s (s.sweepUpTo evict onMiss budget) key := by
  induction budget generalizing s with
  | zero => exact .inl rfl
  | succ budget ih =>
    unfold sweepUpTo
    cases h : s.examine evict onMiss with
    | none => exact .inl rfl
    | some s' => exact (swept_examine h key).trans (ih s')

theorem swept_sweep (evict : V → Bool) (onMiss : SweepMiss) (s : Shard V) (key : String) :
    Swept evict s (s.sweep evict onMiss) key := swept_sweepUpTo evict onMiss cleanupBudget s key

/-- `admit` changes the entries only by its sweep. -/
theorem swept_admit (evict : V → Bool) (onMiss : SweepMiss) (key overflowKey : String) (s : Shard V)
    (k : String) : Swept evict s (admitKey key overflowKey (sweep evict onMiss) s).2 k := by
  unfold admitKey
  by_cases h : s.isFullFor (!s.containsKey key) = true
  · simp only [h, if_true]
    exact swept_sweep evict onMiss s k
  · simp only [h]
    exact .inl rfl

/-- A key with an entry keeps it as its slot, without a sweep. -/
theorem admit_present {key overflowKey : String} {sweep : Shard V → Shard V} {s : Shard V}
    (h : s.containsKey key = true) : admitKey key overflowKey sweep s = (key, s.touch key) := by
  simp [admitKey, h, isFullFor, storageKey]

theorem storageKey_cases (s : Shard V) (newKey : Bool) (key overflowKey : String) :
    s.storageKey newKey key overflowKey = key ∨ s.storageKey newKey key overflowKey = overflowKey := by
  unfold storageKey
  split
  · exact .inl rfl
  · exact .inr rfl

end Shard

/-! ## A shard filled with the keys of one sequence -/

/-- However the hasher distributes them, some shard owns endlessly many keys. -/
theorem exists_keys_of_one_shard (hash : String → Nat) (overflowKey : String) :
    ∃ i, ∃ e : Nat → String, Function.Injective e ∧ ∀ n, shardIdx hash (e n) = i ∧ e n ≠ overflowKey := by
  let f : String → Fin limitShards := fun key => ⟨shardIdx hash key, Nat.mod_lt _ (by decide)⟩
  obtain ⟨i, hi⟩ := Finite.exists_infinite_fiber f
  have hinf : (Set.preimage f {i} \ {overflowKey}).Infinite :=
    (Set.infinite_coe_iff.mp hi).sdiff (Set.finite_singleton overflowKey)
  let g := hinf.natEmbedding
  refine ⟨i, fun n => (g n).1, fun a b h => g.injective (Subtype.ext h), fun n => ?_⟩
  have hm := (g n).2
  exact ⟨congrArg Fin.val hm.1, hm.2⟩

namespace Shard

variable {V : Type u}

/-- What admitting the first `n` keys leaves. -/
def filled (e : Nat → String) (v : Nat → V) : Nat → Shard V
  | 0 => {}
  | n + 1 => ((filled e v n).touch (e n)).insert (e n) (v n)

variable {e : Nat → String} {v : Nat → V}

theorem lookup_filled (he : Function.Injective e) (n j : Nat) :
    (filled e v n).entries.lookup (e j) = if j < n then some (v j) else none := by
  induction n with
  | zero => exact HashMap.lookup_empty _
  | succ n ih =>
    rw [filled, lookup_insert, entries_touch, ih]
    by_cases hj : j = n
    · subst hj
      rw [if_pos rfl, if_pos (Nat.lt_succ_self j)]
    · rw [if_neg fun h => hj (he h)]
      by_cases hl : j < n
      · rw [if_pos hl, if_pos (by omega)]
      · rw [if_neg hl, if_neg (by omega)]

theorem lookup_filled_other {key : String} (hk : ∀ n, e n ≠ key) (n : Nat) :
    (filled e v n).entries.lookup key = none := by
  induction n with
  | zero => exact HashMap.lookup_empty _
  | succ n ih =>
    rw [filled, lookup_insert, entries_touch, if_neg fun h => hk n h.symm, ih]

theorem oldest_filled (he : Function.Injective e) (n : Nat) :
    (filled e v n).touchOrder.oldest = (List.range n).map e := by
  induction n with
  | zero => rfl
  | succ n ih =>
    change (filled e v n).touchOrder.oldest.erase (e n) ++ [e n] = _
    have hm : e n ∉ (List.range n).map e := by
      intro h
      obtain ⟨j, hj, hje⟩ := List.mem_map.mp h
      rw [he hje] at hj
      exact absurd (List.mem_range.mp hj) (lt_irrefl n)
    rw [ih, List.erase_of_not_mem hm, List.range_succ, List.map_append]
    rfl

theorem len_insert_absent {s : Shard V} {key : String} (h : s.entries.lookup key = none) (w : V) :
    (s.insert key w).len = s.len + 1 := by
  unfold len insert
  rw [AList.keys_insert, List.length_cons, List.erase_of_not_mem]
  exact AList.lookup_eq_none.mp h

theorem len_remove_present {s : Shard V} {key : String} {w : V} (h : s.entries.lookup key = some w) :
    (s.remove key).len + 1 = s.len := by
  unfold len remove
  have hk : key ∈ s.entries.keys := by
    by_contra hn
    rw [AList.lookup_eq_none.mpr hn] at h
    cases h
  rw [AList.keys_erase, List.length_erase_of_mem hk]
  have := List.length_pos_of_mem hk
  omega

theorem len_filled (he : Function.Injective e) (n : Nat) : (filled e v n).len = n := by
  induction n with
  | zero => rfl
  | succ n ih =>
    have h : ((filled e v n).touch (e n)).entries.lookup (e n) = none := by
      rw [entries_touch, lookup_filled he, if_neg (lt_irrefl n)]
    change (((filled e v n).touch (e n)).insert (e n) (v n)).len = n + 1
    rw [len_insert_absent h, len_touch, ih]

theorem len_examine_le {evict : V → Bool} {onMiss : SweepMiss} {s s' : Shard V}
    (h : s.examine evict onMiss = some s') : s'.len ≤ s.len := by
  unfold len
  rcases examine_cases h with he | ⟨key, -, -, he⟩
  · rw [he]
  · rw [he, AList.keys_erase]
    exact List.length_erase_le

theorem len_sweepUpTo_le (evict : V → Bool) (onMiss : SweepMiss) (budget : Nat) (s : Shard V) :
    (s.sweepUpTo evict onMiss budget).len ≤ s.len := by
  induction budget generalizing s with
  | zero => exact le_refl _
  | succ budget ih =>
    rw [sweepUpTo]
    cases h : s.examine evict onMiss with
    | none => exact le_refl _
    | some s' => exact le_trans (ih s') (len_examine_le h)

/-! ## Sweeps of known outcome -/

/-- The oldest entry may be evicted. -/
theorem sweepUpTo_evict {evict : V → Bool} {onMiss : SweepMiss} {s : Shard V} {key : String} {oldest : List String}
    (ho : s.touchOrder.oldest = key :: oldest) (hk : (s.entries.lookup key).all evict = true) (budget : Nat) :
    s.sweepUpTo evict onMiss (budget + 1) =
      ({ entries := s.entries.erase key, touchOrder := ⟨oldest⟩ } : Shard V).sweepUpTo evict onMiss budget := by
  have h : s.examine evict onMiss = some { entries := s.entries.erase key, touchOrder := ⟨oldest⟩ } := by
    unfold examine TouchOrder.popOldest
    simp only [ho, hk, if_true]
    rfl
  rw [sweepUpTo, h]

/-- The oldest entries are kept one after the other, and each goes to the back. -/
theorem sweepUpTo_pushBack {evict : V → Bool} (a b : List String) (s : Shard V)
    (ho : s.touchOrder.oldest = a ++ b) (hn : (a ++ b).Nodup)
    (hk : ∀ key ∈ a, (s.entries.lookup key).all evict = false) :
    s.sweepUpTo evict .pushBack a.length = { entries := s.entries, touchOrder := ⟨b ++ a⟩ } := by
  induction a generalizing b s with
  | nil =>
    rw [List.append_nil]
    obtain ⟨entries, ⟨oldest⟩⟩ := s
    simp only [List.nil_append] at ho
    rw [ho]
    rfl
  | cons key a ih =>
    rw [List.cons_append, List.nodup_cons] at hn
    have h : s.examine evict .pushBack =
        some { entries := s.entries, touchOrder := ⟨a ++ (b ++ [key])⟩ } := by
      unfold examine TouchOrder.popOldest
      simp only [ho, List.cons_append, hk key List.mem_cons_self]
      unfold touch TouchOrder.touch
      simp only [List.erase_of_not_mem hn.1, List.append_assoc]
      rfl
    have hn' : (a ++ (b ++ [key])).Nodup := by
      rw [← List.append_assoc]
      exact List.nodup_append_comm.mp (List.nodup_cons.mpr hn)
    have hrest := ih (b ++ [key]) { entries := s.entries, touchOrder := ⟨a ++ (b ++ [key])⟩ } rfl hn'
      fun k hm => hk k (List.mem_cons_of_mem _ hm)
    rw [List.append_assoc] at hrest
    rw [List.length_cons, sweepUpTo, h]
    exact hrest

end Shard

end Pingsix
