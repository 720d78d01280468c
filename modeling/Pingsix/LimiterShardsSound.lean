import Pingsix.Lib.System
import Pingsix.LimiterShards
import Pingsix.LimitingSound

/-!
# Soundness of limiter shards

The keys with an entry and the keys with a token are the same, and the recency
index is the inverse of the tokens, as long as the counter of tokens does not
wrap. Such a shard does what the shard with the order of its keys does.
-/

namespace Pingsix.LimiterShards

universe u

/-! ## Tokens -/

namespace TouchOrder

/-- The recency index is the inverse of the tokens, and the last token is the largest. -/
structure Indexed (o : TouchOrder) : Prop where
  inverse : ∀ token key, (token, key) ∈ o.oldest.entries ↔ o.touches.lookup key = some token
  bounded : ∀ key token, o.touches.lookup key = some token → token ≤ o.nextTouch

/-- The keys, least recently touched first. -/
def keys (o : TouchOrder) : List String := o.oldest.entries.map (·.2)

section
variable {o o' : TouchOrder} {key k : String} {token : Nat}

theorem indexed_empty : Indexed {} where
  inverse _ _ := ⟨nofun, nofun⟩
  bounded := nofun

theorem nextToken_eq (h : o.nextTouch < u64Max) : o.nextToken = o.nextTouch + 1 := by
  have hmod : (o.nextTouch + 1) % 2 ^ 64 = o.nextTouch + 1 := Nat.mod_eq_of_lt (Nat.add_lt_of_lt_sub h)
  unfold nextToken
  rw [hmod, if_neg (Nat.succ_ne_zero _)]

theorem Indexed.lt_nextToken (h : o.Indexed) (hroom : o.nextTouch < u64Max) (hk : o.touches.lookup key = some token) :
    token < o.nextToken := by
  rw [nextToken_eq hroom]
  exact Nat.lt_succ_of_le (h.bounded key token hk)

theorem Indexed.keys_nodup (h : o.Indexed) : o.keys.Nodup := by
  refine List.Nodup.map_on ?_ (List.Nodup.of_map _ o.oldest.keys_nodup)
  rintro ⟨token, key⟩ he ⟨token', key'⟩ he' rfl
  have htoken := (h.inverse _ _).mp he
  rw [(h.inverse _ _).mp he'] at htoken
  exact Prod.ext (Option.some.inj htoken).symm rfl

theorem Indexed.mem_keys (h : o.Indexed) : key ∈ o.keys ↔ (o.touches.lookup key).isSome = true := by
  unfold keys
  rw [List.mem_map, Option.isSome_iff_exists]
  constructor
  · rintro ⟨⟨token, key⟩, he, rfl⟩
    exact ⟨token, (h.inverse _ _).mp he⟩
  · rintro ⟨token, ht⟩
    exact ⟨(token, key), (h.inverse _ _).mpr ht, rfl⟩

theorem lookup_touch (o : TouchOrder) (key k : String) :
    (o.touch key).touches.lookup k = if k = key then some o.nextToken else o.touches.lookup k := by
  show ((o.touches.erase key).insert key o.nextToken).lookup k = _
  rw [HashMap.lookup_insert, HashMap.lookup_erase]
  by_cases hk : k = key
  · rw [if_pos hk, if_pos hk]
  · rw [if_neg hk, if_neg hk, if_neg hk]

/-- What is left of the index without the former token of a key. -/
theorem Indexed.oldest_touch (h : o.Indexed) (hroom : o.nextTouch < u64Max) (key : String) :
    (o.touch key).oldest.entries = o.oldest.entries.filter (fun e => e.2 ≠ key) ++ [(o.nextToken, key)] := by
  have hlast : ∀ m : SortedMap Nat String, (∀ e ∈ m.entries, e ∈ o.oldest.entries) →
      (m.insert o.nextToken key).entries = m.entries ++ [(o.nextToken, key)] := fun m hm =>
    SortedMap.entries_insert_last fun e he => h.lt_nextToken hroom ((h.inverse e.1 e.2).mp (hm e he))
  unfold touch
  cases hprev : o.touches.lookup key with
  | none =>
    have hall : o.oldest.entries.filter (fun e => e.2 ≠ key) = o.oldest.entries := by
      refine List.filter_eq_self.mpr fun e he => decide_eq_true fun hkey => ?_
      have htoken := (h.inverse e.1 e.2).mp he
      rw [hkey, hprev] at htoken
      cases htoken
    rw [hall]
    exact hlast o.oldest fun e he => he
  | some previous =>
    have hprevious : (previous, key) ∈ o.oldest.entries := (h.inverse _ _).mpr hprev
    have hfilter : (o.oldest.erase previous).entries = o.oldest.entries.filter fun e => e.2 ≠ key := by
      refine List.filter_congr fun e he => decide_eq_decide.mpr (not_congr ?_)
      constructor
      · intro heq
        exact SortedMap.eq_of_mem (heq ▸ he : (previous, e.2) ∈ o.oldest.entries) hprevious
      · intro heq
        have htoken := (h.inverse e.1 e.2).mp he
        rw [heq, hprev] at htoken
        exact (Option.some.inj htoken).symm
    rw [← hfilter]
    exact hlast _ fun e he => (SortedMap.mem_erase.mp he).1

theorem Indexed.touch (h : o.Indexed) (hroom : o.nextTouch < u64Max) (key : String) : (o.touch key).Indexed where
  inverse token k := by
    rw [h.oldest_touch hroom, lookup_touch, List.mem_append, List.mem_filter, List.mem_singleton, Prod.mk.injEq,
      decide_eq_true_eq, h.inverse]
    by_cases hk : k = key
    · rw [if_pos hk, Option.some.injEq]
      exact ⟨fun hm => hm.elim (fun hm => absurd hk hm.2) fun hm => hm.1.symm, fun hm => .inr ⟨hm.symm, hk⟩⟩
    · rw [if_neg hk]
      exact ⟨fun hm => hm.elim (fun hm => hm.1) fun hm => absurd hm.2 hk, fun hm => .inl ⟨hm, hk⟩⟩
  bounded k token hk := by
    rw [lookup_touch] at hk
    show token ≤ o.nextToken
    by_cases hkey : k = key
    · rw [if_pos hkey] at hk
      exact (Option.some.inj hk).ge
    · rw [if_neg hkey] at hk
      exact (h.lt_nextToken hroom hk).le

theorem Indexed.keys_touch (h : o.Indexed) (hroom : o.nextTouch < u64Max) (key : String) :
    (o.touch key).keys = o.keys.erase key ++ [key] := by
  rw [h.keys_nodup.erase_eq_filter]
  unfold keys
  rw [h.oldest_touch hroom, List.map_append, List.filter_map]
  congr 2
  exact List.filter_congr fun e _ => by simp [bne, beq_eq_decide]

/-- The oldest key goes with its token, and comes back with it. -/
theorem Indexed.popOldest (h : o.Indexed) (hp : o.popOldest = some ((token, key), o')) :
    o'.Indexed ∧ o.keys = key :: o'.keys ∧ o'.nextTouch = o.nextTouch ∧
      (∀ k, o'.touches.lookup k = if k = key then none else o.touches.lookup k) ∧
      (o'.restore token key).Indexed ∧ (o'.restore token key).keys = o.keys ∧
      ∀ k, (o'.restore token key).touches.lookup k = o.touches.lookup k := by
  obtain ⟨⟨first, rest⟩, hfirst, hpair⟩ := Option.map_eq_some_iff.mp hp
  obtain ⟨rfl, rfl⟩ := Prod.mk.inj hpair
  have hentries : o.oldest.entries = (token, key) :: rest.entries := SortedMap.popFirst_eq_some.mp hfirst
  have htoken : o.touches.lookup key = some token := (h.inverse _ _).mp (hentries ▸ List.mem_cons_self)
  have hsorted := o.oldest.sorted
  rw [hentries, List.pairwise_cons] at hsorted
  have herase : ∀ k, (o.touches.erase key).lookup k = if k = key then none else o.touches.lookup k :=
    fun k => HashMap.lookup_erase _ _ _
  have hrestore : ∀ k, ((o.touches.erase key).insert key token).lookup k = o.touches.lookup k := by
    intro k
    rw [HashMap.lookup_insert, herase]
    by_cases hk : k = key
    · rw [if_pos hk, hk, htoken]
    · rw [if_neg hk, if_neg hk]
  have hback : (rest.insert token key).entries = o.oldest.entries := by
    rw [hentries]
    exact SortedMap.entries_insert_first hsorted.1
  refine ⟨⟨fun t k => ?_, fun k t ht => ?_⟩, ?_, rfl, herase, ⟨fun t k => ?_, fun k t ht => ?_⟩, ?_, hrestore⟩
  · have hmem := h.inverse t k
    rw [hentries, List.mem_cons, Prod.mk.injEq] at hmem
    show (t, k) ∈ rest.entries ↔ (o.touches.erase key).lookup k = some t
    rw [herase]
    by_cases hk : k = key
    · rw [if_pos hk]
      refine iff_of_false (fun hm => ?_) nofun
      have hlt : token < t := hsorted.1 _ hm
      have ht := hmem.mp (.inr hm)
      rw [hk, htoken] at ht
      exact absurd (Option.some.inj ht) hlt.ne
    · rw [if_neg hk, ← hmem]
      exact ⟨.inr, fun hm => hm.resolve_left fun he => hk he.2⟩
  · have ht' : (o.touches.erase key).lookup k = some t := ht
    rw [herase] at ht'
    by_cases hk : k = key
    · rw [if_pos hk] at ht'
      cases ht'
    · rw [if_neg hk] at ht'
      exact h.bounded k t ht'
  · unfold keys
    rw [hentries]
    rfl
  · show (t, k) ∈ (rest.insert token key).entries ↔ ((o.touches.erase key).insert key token).lookup k = some t
    rw [hback, hrestore]
    exact h.inverse t k
  · have ht' : ((o.touches.erase key).insert key token).lookup k = some t := ht
    rw [hrestore] at ht'
    exact h.bounded k t ht'
  · exact congrArg (List.map Prod.snd) hback

theorem popOldest_eq_none : o.popOldest = none ↔ o.keys = [] := by
  unfold popOldest keys
  rw [Option.map_eq_none_iff, SortedMap.popFirst_eq_none, List.map_eq_nil_iff]

end

end TouchOrder

/-! ## Shards -/

namespace Shard

variable {V : Type u}

/-- The shard with the order of its keys alone. -/
def ordered (s : Shard V) : Pingsix.Shard V := { entries := s.entries, touchOrder := ⟨s.touchOrder.keys⟩ }

structure Consistent (s : Shard V) : Prop where
  index : s.touchOrder.Indexed
  same : ∀ key, s.containsKey key = (s.touchOrder.touches.lookup key).isSome

section
variable {s s' : Shard V} {key : String} {evict : V → Bool} {onMiss : SweepMiss}

theorem consistent_empty : Consistent ({} : Shard V) where
  index := TouchOrder.indexed_empty
  same _ := rfl

theorem Consistent.mem_keys (h : s.Consistent) : key ∈ s.touchOrder.keys ↔ s.containsKey key = true := by
  rw [h.same, h.index.mem_keys]

theorem containsKey_fill (s : Shard V) (slot key : String) (change : Option V → V) :
    (s.fill slot change).containsKey key = (decide (key = slot) || s.containsKey key) := by
  unfold containsKey fill insert
  rw [HashMap.lookup_insert]
  by_cases hk : key = slot
  · simp [hk]
  · simp [hk]

theorem containsKey_remove (s : Shard V) (key k : String) :
    (s.remove key).containsKey k = (decide (k ≠ key) && s.containsKey k) := by
  unfold containsKey remove
  rw [HashMap.lookup_erase]
  by_cases hk : k = key
  · simp [hk]
  · simp [hk]

theorem Consistent.touch (h : s.Consistent) (hroom : s.touchOrder.nextTouch < u64Max) (hk : s.containsKey key = true) :
    (s.touch key).Consistent where
  index := h.index.touch hroom key
  same k := by
    show s.containsKey k = ((s.touchOrder.touch key).touches.lookup k).isSome
    rw [TouchOrder.lookup_touch]
    by_cases hkey : k = key
    · rw [if_pos hkey, hkey, hk]
      rfl
    · rw [if_neg hkey, h.same]

theorem Consistent.touch_fill (h : s.Consistent) (hroom : s.touchOrder.nextTouch < u64Max) (slot : String)
    (change : Option V → V) : ((s.touch slot).fill slot change).Consistent where
  index := h.index.touch hroom slot
  same k := by
    rw [containsKey_fill]
    show (_ || s.containsKey k) = ((s.touchOrder.touch slot).touches.lookup k).isSome
    rw [TouchOrder.lookup_touch]
    by_cases hkey : k = slot
    · simp [hkey]
    · simp [hkey, h.same]

theorem ordered_touch (h : s.Consistent) (hroom : s.touchOrder.nextTouch < u64Max) (key : String) :
    (s.touch key).ordered = s.ordered.touch key := by
  show ({ entries := s.entries, touchOrder := ⟨(s.touchOrder.touch key).keys⟩ } : Pingsix.Shard V) = _
  rw [h.index.keys_touch hroom]
  rfl

theorem examine_none (hn : s.examine evict onMiss = none) : s.ordered.examine evict onMiss = none := by
  unfold examine at hn
  cases hp : s.touchOrder.popOldest with
  | none =>
    unfold Pingsix.Shard.examine Pingsix.TouchOrder.popOldest
    rw [show s.ordered.touchOrder.oldest = [] from TouchOrder.popOldest_eq_none.mp hp]
  | some popped =>
    rw [hp] at hn
    simp only at hn
    split at hn
    · cases hn
    · cases onMiss <;> cases hn

/-- A round gives out one token when it pushes a key back. -/
def tokens : SweepMiss → Nat
  | .restore => 0
  | .pushBack => 1

/-- A round keeps the shard consistent, and does to the order of the keys what it does there. -/
theorem Consistent.examine (h : s.Consistent) (hroom : s.touchOrder.nextTouch + tokens onMiss ≤ u64Max)
    (he : s.examine evict onMiss = some s') :
    s'.Consistent ∧ s.ordered.examine evict onMiss = some s'.ordered ∧
      s'.touchOrder.nextTouch ≤ s.touchOrder.nextTouch + tokens onMiss := by
  unfold Shard.examine at he
  cases hp : s.touchOrder.popOldest with
  | none =>
    rw [hp] at he
    cases he
  | some popped =>
    obtain ⟨⟨token, key⟩, o⟩ := popped
    obtain ⟨hindex, hkeys, hnext, hlookup, hback, hbackKeys, hbackLookup⟩ := h.index.popOldest hp
    have hpop : s.ordered.touchOrder.popOldest = some (key, ⟨o.keys⟩) := by
      unfold Pingsix.TouchOrder.popOldest
      rw [show s.ordered.touchOrder.oldest = key :: o.keys from hkeys]
    have hsame : ∀ k ≠ key, s.containsKey k = (o.touches.lookup k).isSome := fun k hk => by
      rw [hlookup, if_neg hk, h.same]
    rw [hp] at he
    unfold Pingsix.Shard.examine
    rw [hpop]
    simp only at he ⊢
    by_cases hevict : (s.entries.lookup key).all evict = true
    · rw [if_pos hevict] at he
      cases he
      refine ⟨⟨hindex, fun k => ?_⟩, if_pos hevict, hnext.le.trans (Nat.le_add_right _ _)⟩
      rw [containsKey_remove]
      show (_ && s.containsKey k) = (o.touches.lookup k).isSome
      by_cases hk : k = key
      · rw [hlookup, if_pos hk]
        simp [hk]
      · rw [hsame k hk]
        simp [hk]
    · rw [if_neg hevict] at he
      rw [show (s.ordered.entries.lookup key).all evict = (s.entries.lookup key).all evict from rfl, if_neg hevict]
      cases onMiss with
      | restore =>
        cases he
        refine ⟨⟨hback, fun k => ?_⟩, ?_, hnext.le.trans (Nat.le_add_right _ _)⟩
        · show s.containsKey k = ((o.restore token key).touches.lookup k).isSome
          rw [hbackLookup, h.same]
        · show some _ = some ({ entries := s.entries, touchOrder := ⟨(o.restore token key).keys⟩ } : Pingsix.Shard V)
          rw [hbackKeys, hkeys]
          rfl
      | pushBack =>
        cases he
        have hlt : o.nextTouch < u64Max := hnext ▸ hroom
        have hcontains : s.containsKey key = true := by
          rw [← h.mem_keys, hkeys]
          exact List.mem_cons_self
        refine ⟨⟨hindex.touch hlt key, fun k => ?_⟩, ?_, ?_⟩
        · show s.containsKey k = ((o.touch key).touches.lookup k).isSome
          rw [TouchOrder.lookup_touch]
          by_cases hk : k = key
          · rw [if_pos hk, hk, hcontains]
            rfl
          · rw [if_neg hk, hsame k hk]
        · show some _ = some ({ entries := s.entries, touchOrder := ⟨(o.touch key).keys⟩ } : Pingsix.Shard V)
          rw [hindex.keys_touch hlt]
          rfl
        · show o.nextToken ≤ s.touchOrder.nextTouch + 1
          rw [TouchOrder.nextToken_eq hlt, hnext]

theorem Consistent.sweepUpTo (budget : Nat) (h : s.Consistent) (hroom : s.touchOrder.nextTouch + tokens onMiss * budget ≤ u64Max) :
    (s.sweepUpTo evict onMiss budget).Consistent ∧
      (s.sweepUpTo evict onMiss budget).ordered = s.ordered.sweepUpTo evict onMiss budget ∧
      (s.sweepUpTo evict onMiss budget).touchOrder.nextTouch ≤ s.touchOrder.nextTouch + tokens onMiss * budget := by
  induction budget generalizing s with
  | zero => exact ⟨h, rfl, Nat.le_refl _⟩
  | succ budget ih =>
    rw [Nat.mul_succ] at hroom
    unfold Shard.sweepUpTo Pingsix.Shard.sweepUpTo
    cases he : s.examine evict onMiss with
    | none =>
      rw [examine_none he]
      exact ⟨h, rfl, Nat.le_add_right _ _⟩
    | some s' =>
      obtain ⟨hs', hordered, hnext⟩ := h.examine (by omega) he
      obtain ⟨hc, ho, hn⟩ := ih hs' (by omega)
      rw [hordered, Nat.mul_succ]
      exact ⟨hc, ho, hn.trans (by omega)⟩

theorem Consistent.sweep (h : s.Consistent) (hroom : s.touchOrder.nextTouch + tokens onMiss * cleanupBudget ≤ u64Max) :
    (s.sweep evict onMiss).Consistent ∧ (s.sweep evict onMiss).ordered = s.ordered.sweep evict onMiss ∧
      (s.sweep evict onMiss).touchOrder.nextTouch ≤ s.touchOrder.nextTouch + tokens onMiss * cleanupBudget :=
  h.sweepUpTo cleanupBudget hroom

theorem Consistent.evictOldest (h : s.Consistent) : s.evictOldest.Consistent := by
  unfold Shard.evictOldest
  cases hp : s.touchOrder.popOldest with
  | none => exact h
  | some popped =>
    obtain ⟨⟨token, key⟩, o⟩ := popped
    obtain ⟨hindex, -, -, hlookup, -⟩ := h.index.popOldest hp
    refine ⟨hindex, fun k => ?_⟩
    rw [containsKey_remove]
    show (_ && s.containsKey k) = (o.touches.lookup k).isSome
    rw [hlookup]
    by_cases hk : k = key
    · simp [hk]
    · simp [hk, h.same]

/-! ## Capacity -/

theorem len_fill (s : Shard V) (slot : String) (change : Option V → V) :
    (s.fill slot change).len = if s.containsKey slot then s.len else s.len + 1 := by
  cases hs : s.containsKey slot with
  | false =>
    exact Pingsix.Shard.len_insert_absent (Pingsix.Shard.containsKey_eq_false.mp (show s.ordered.containsKey slot = false from hs)) _
  | true =>
    have hmem : slot ∈ s.entries.keys := AList.lookup_isSome.mp hs
    unfold len fill insert
    rw [AList.keys_insert, List.length_cons, List.length_erase_add_one hmem]
    rfl

theorem len_remove (s : Shard V) (key : String) :
    (s.remove key).len + (if s.containsKey key then 1 else 0) = s.len := by
  cases hs : s.containsKey key with
  | false =>
    have hnot : key ∉ s.entries.keys := fun hm => by
      rw [show s.containsKey key = true from AList.lookup_isSome.mpr hm] at hs
      cases hs
    unfold len remove
    rw [AList.keys_erase, List.erase_of_not_mem hnot]
    rfl
  | true =>
    obtain ⟨w, hw⟩ := Option.isSome_iff_exists.mp hs
    exact Pingsix.Shard.len_remove_present (s := s.ordered) hw

/-- The overflow entry is one more than the regular ones. -/
def Within (overflowKey : String) (s : Shard V) : Prop :=
  s.len ≤ perShardRegularMax + if s.containsKey overflowKey then 1 else 0

variable {overflowKey : String}

theorem Within.remove (h : s.Within overflowKey) (key : String) : (s.remove key).Within overflowKey := by
  have hlen := len_remove s key
  unfold Within at h ⊢
  rw [containsKey_remove]
  by_cases hk : overflowKey = key
  · subst hk
    simp only [ne_eq, not_true_eq_false, decide_false, Bool.false_and, Bool.false_eq_true, if_false]
    omega
  · simp only [ne_eq, hk, not_false_eq_true, decide_true, Bool.true_and]
    omega

theorem Within.examine (h : s.Within overflowKey) (he : s.examine evict onMiss = some s') : s'.Within overflowKey := by
  unfold Shard.examine at he
  cases hp : s.touchOrder.popOldest with
  | none =>
    rw [hp] at he
    cases he
  | some popped =>
    obtain ⟨⟨token, key⟩, o⟩ := popped
    rw [hp] at he
    simp only at he
    split at he
    · cases he
      exact Within.remove (s := { s with touchOrder := o }) h key
    · cases onMiss <;> · cases he; exact h

theorem Within.sweepUpTo (h : s.Within overflowKey) (budget : Nat) : (s.sweepUpTo evict onMiss budget).Within overflowKey := by
  induction budget generalizing s with
  | zero => exact h
  | succ budget ih =>
    unfold Shard.sweepUpTo
    cases he : s.examine evict onMiss with
    | none => exact h
    | some s' => exact ih (h.examine he)

theorem Within.evictOldest (h : s.Within overflowKey) : s.evictOldest.Within overflowKey := by
  unfold Shard.evictOldest
  cases hp : s.touchOrder.popOldest with
  | none => exact h
  | some popped => exact Within.remove (s := { s with touchOrder := popped.2 }) h popped.1.2

/-- A slot is filled that had an entry, or is a regular one that is free, or is the overflow slot. -/
theorem Within.fill (h : s.Within overflowKey) {slot : String} (change : Option V → V)
    (hslot : s.containsKey slot = true ∨ s.len < perShardRegularMax ∨ slot = overflowKey) :
    (s.fill slot change).Within overflowKey := by
  unfold Within at h ⊢
  rw [len_fill, containsKey_fill]
  cases hs : s.containsKey slot with
  | true =>
    refine h.trans (Nat.add_le_add_left ?_ _)
    cases s.containsKey overflowKey <;> simp
  | false =>
    rw [hs] at hslot
    obtain hslot | rfl := hslot.resolve_left nofun
    · simp only [Bool.false_eq_true, if_false]
      omega
    · rw [hs] at h
      simp only [Bool.false_eq_true, if_false, decide_true, Bool.true_or, if_true] at h ⊢
      omega

theorem Within.le (h : s.Within overflowKey) : s.len ≤ perShardMax := by
  have hmax : perShardRegularMax + 1 = perShardMax := rfl
  unfold Within at h
  split at h <;> omega

/-! ## Admission -/

/-- The shard that admission finds a slot in. -/
def swept (key : String) (evict : V → Bool) (onMiss : SweepMiss) (s : Shard V) : Shard V :=
  if !s.containsKey key && decide (perShardRegularMax ≤ s.len) then s.sweep evict onMiss else s

theorem Consistent.swept (h : s.Consistent) (hroom : s.touchOrder.nextTouch + tokens onMiss * cleanupBudget ≤ u64Max)
    (key : String) (evict : V → Bool) : (s.swept key evict onMiss).Consistent ∧
      (s.swept key evict onMiss).touchOrder.nextTouch ≤ s.touchOrder.nextTouch + tokens onMiss * cleanupBudget := by
  unfold Shard.swept
  split
  · exact ⟨(h.sweep hroom).1, (h.sweep hroom).2.2⟩
  · exact ⟨h, Nat.le_add_right _ _⟩

theorem Within.swept (h : s.Within overflowKey) (key : String) : (s.swept key evict onMiss).Within overflowKey := by
  unfold Shard.swept
  split
  · exact h.sweepUpTo cleanupBudget
  · exact h

/-- The slot of an admitted key, in the shard that was swept for it. -/
theorem admitKey_cases (s : Shard V) (key overflowKey : String) (evict : V → Bool) (onMiss : SweepMiss) :
    ∃ slot, s.admitKey key overflowKey (Shard.sweep evict onMiss) = (slot, (s.swept key evict onMiss).touch slot) ∧
      ((s.swept key evict onMiss).containsKey slot = true ∨ (s.swept key evict onMiss).len < perShardRegularMax ∨
        slot = overflowKey) := by
  cases hk : s.containsKey key with
  | true =>
    have hswept : s.swept key evict onMiss = s := by simp [Shard.swept, hk]
    rw [hswept]
    exact ⟨key, by simp [admitKey, hk], .inl hk⟩
  | false =>
    by_cases hlen : (s.swept key evict onMiss).len < perShardRegularMax
    · refine ⟨key, ?_, .inr (.inl hlen)⟩
      simp only [Shard.swept, hk, Bool.not_false, Bool.true_and] at hlen ⊢
      simp only [admitKey, hk, Bool.not_false, Bool.not_true, Bool.true_and, Bool.false_or, hlen, decide_true, if_true]
    · refine ⟨overflowKey, ?_, .inr (.inr rfl)⟩
      simp only [Shard.swept, hk, Bool.not_false, Bool.true_and] at hlen ⊢
      simp only [admitKey, hk, Bool.not_false, Bool.not_true, Bool.true_and, Bool.false_or, hlen, decide_false,
        Bool.false_eq_true, if_false]

/-- Admission does to the order of the keys what it does there. -/
theorem ordered_admitKey (h : s.Consistent) (hroom : s.touchOrder.nextTouch + tokens onMiss * cleanupBudget < u64Max)
    (key overflowKey : String) :
    let admitted := s.admitKey key overflowKey (Shard.sweep evict onMiss)
    (admitted.1, admitted.2.ordered) = s.ordered.admitKey key overflowKey (Pingsix.Shard.sweep evict onMiss) := by
  obtain ⟨hswept, hnext⟩ := h.swept hroom.le key evict
  have hordered : (s.swept key evict onMiss).ordered =
      if s.ordered.isFullFor (!s.ordered.containsKey key) then s.ordered.sweep evict onMiss else s.ordered := by
    unfold Shard.swept Pingsix.Shard.isFullFor
    rw [show s.ordered.containsKey key = s.containsKey key from rfl, show s.ordered.len = s.len from rfl]
    split
    · exact (h.sweep hroom.le).2.1
    · rfl
  have htouch := ordered_touch hswept (hnext.trans_lt hroom)
  unfold Pingsix.Shard.admitKey
  simp only
  rw [← hordered]
  exact Prod.ext rfl (htouch _)

end

end Shard

/-! ## Operations -/

/-- How many tokens an operation gives out at most. -/
def LimiterOp.tokens {V : Type u} : LimiterOp V → Nat
  | .touch _ => 1
  | .admitKey _ _ onMiss _ => Shard.tokens onMiss * cleanupBudget + 1
  | .sweep _ onMiss => Shard.tokens onMiss * cleanupBudget
  | .evictOldest => 0

namespace Shard

variable {V : Type u} {s s' : Shard V} {overflowKey : String}

theorem limiterStep_consistent {op : LimiterOp V} (h : s.Consistent) (hw : s.Within overflowKey)
    (hroom : s.touchOrder.nextTouch + op.tokens ≤ u64Max) (hs : s.limiterStep overflowKey op = some s') :
    s'.Consistent ∧ s'.Within overflowKey := by
  cases op with
  | touch key =>
    unfold limiterStep at hs
    by_cases hk : s.containsKey key = true
    · simp only [hk, if_true] at hs
      cases hs
      exact ⟨h.touch hroom hk, hw⟩
    · simp only [hk] at hs
      cases hs
  | admitKey key evict onMiss change =>
    cases hs
    obtain ⟨slot, hcase, hslot⟩ := admitKey_cases s key overflowKey evict onMiss
    have hroom : s.touchOrder.nextTouch + tokens onMiss * cleanupBudget < u64Max := hroom
    obtain ⟨hswept, hnext⟩ := h.swept hroom.le key evict
    rw [hcase]
    exact ⟨hswept.touch_fill (hnext.trans_lt hroom) slot change, Within.fill (hw.swept key) change hslot⟩
  | sweep evict onMiss =>
    cases hs
    exact ⟨(h.sweep hroom).1, hw.sweepUpTo cleanupBudget⟩
  | evictOldest =>
    cases hs
    exact ⟨h.evictOldest, hw.evictOldest⟩

/-- A full table has an oldest entry to evict. -/
theorem len_evictOldest (h : s.Consistent) : s.evictOldest.len = s.len - 1 := by
  have hkeys : s.len = s.touchOrder.keys.length := by
    refine (List.Perm.length_eq ?_).symm
    refine (List.perm_ext_iff_of_nodup h.index.keys_nodup s.entries.keys_nodup).mpr fun key => ?_
    rw [h.mem_keys, containsKey, AList.lookup_isSome]
    rfl
  unfold evictOldest
  cases hp : s.touchOrder.popOldest with
  | none =>
    rw [TouchOrder.popOldest_eq_none.mp hp] at hkeys
    rw [hkeys]
    rfl
  | some popped =>
    obtain ⟨⟨token, key⟩, o⟩ := popped
    obtain ⟨-, hcons, -⟩ := h.index.popOldest hp
    have hcontains : s.containsKey key = true := by
      rw [← h.mem_keys, hcons]
      exact List.mem_cons_self
    have hlen := len_remove ({ s with touchOrder := o } : Shard V) key
    rw [show ({ s with touchOrder := o } : Shard V).containsKey key = true from hcontains, if_pos rfl] at hlen
    exact Nat.eq_sub_of_add_eq hlen

theorem nextTouch_evictOldest (s : Shard V) : s.evictOldest.touchOrder.nextTouch = s.touchOrder.nextTouch := by
  unfold evictOldest
  cases hp : s.touchOrder.popOldest with
  | none => rfl
  | some popped =>
    obtain ⟨first, -, rfl⟩ := Option.map_eq_some_iff.mp hp
    rfl

theorem breakerStep_consistent {op : BreakerOp V} (h : s.Consistent) (hlen : s.len ≤ ApiBreaker.maxBreakerKeys)
    (hroom : s.touchOrder.nextTouch < u64Max) :
    (s.breakerStep op).Consistent ∧ (s.breakerStep op).len ≤ ApiBreaker.maxBreakerKeys := by
  unfold breakerStep breakerEntry
  have hpos : 0 < ApiBreaker.maxBreakerKeys := Nat.succ_pos _
  by_cases hfull : (!s.containsKey op.key && decide (ApiBreaker.maxBreakerKeys ≤ s.len)) = true
  · rw [if_pos hfull]
    refine ⟨h.evictOldest.touch_fill (nextTouch_evictOldest s ▸ hroom) op.key op.change, ?_⟩
    have hevicted : (s.evictOldest.touch op.key).len = s.len - 1 := len_evictOldest h
    rw [len_fill, hevicted]
    split <;> omega
  · rw [if_neg hfull]
    refine ⟨h.touch_fill hroom op.key op.change, ?_⟩
    rw [len_fill, show (s.touch op.key).containsKey op.key = s.containsKey op.key from rfl,
      show (s.touch op.key).len = s.len from rfl]
    cases hk : s.containsKey op.key with
    | true => exact hlen
    | false =>
      rw [hk] at hfull
      simp only [Bool.not_false, Bool.true_and, decide_eq_true_eq, Nat.not_le] at hfull
      exact hfull

/-- What the entries, the tokens and the recency index of a shard are to one another. -/
structure Agreeing (s : Shard V) : Prop where
  sameKeys : ∀ key, s.containsKey key = (s.touchOrder.touches.lookup key).isSome
  inverse : ∀ token key, (token, key) ∈ s.touchOrder.oldest.entries ↔ s.touchOrder.touches.lookup key = some token
  once : s.touchOrder.keys.Nodup
  increasing : s.touchOrder.oldest.entries.Pairwise fun a b => a.1 < b.1
  newest : s.touchOrder.nextTouch < u64Max → ∀ key token, s.touchOrder.touches.lookup key = some token →
    token < s.touchOrder.nextToken

theorem Consistent.agreeing (h : s.Consistent) : s.Agreeing where
  sameKeys := h.same
  inverse := h.index.inverse
  once := h.index.keys_nodup
  increasing := s.touchOrder.oldest.sorted
  newest hroom _ _ ht := h.index.lt_nextToken hroom ht

def Initial (s : Shard V) : Prop := s = {}

/-- While the counter of tokens does not wrap, the maps of a shard of a limiter and of the table of the breaker agree, and
hold no more entries than they may. -/
theorem agreeing_of_run (overflowKey : String) :
    (∀ (ops : List (LimiterOp V)) (s : Shard V),
      RunMeeting (fun s op s' => s.limiterStep overflowKey op = some s') Initial
        (fun _ s op => s.touchOrder.nextTouch + op.tokens ≤ u64Max) ops s →
      s.Agreeing ∧ s.len ≤ perShardMax) ∧
    ∀ (ops : List (BreakerOp V)) (s : Shard V),
      RunMeeting (fun s op s' => s.breakerStep op = s') Initial (fun _ s _ => s.touchOrder.nextTouch < u64Max) ops s →
      s.Agreeing ∧ s.len ≤ ApiBreaker.maxBreakerKeys := by
  constructor
  · intro ops s r
    have hinv : s.Consistent ∧ s.Within overflowKey := by
      refine r.invariant (I := fun _ s => s.Consistent ∧ s.Within overflowKey) ?_ ?_
      · rintro s rfl
        exact ⟨consistent_empty, Nat.zero_le _⟩
      · intro ls s op s' _ h hroom hs
        exact limiterStep_consistent h.1 h.2 hroom hs
    exact ⟨hinv.1.agreeing, hinv.2.le⟩
  · intro ops s r
    have hinv : s.Consistent ∧ s.len ≤ ApiBreaker.maxBreakerKeys := by
      refine r.invariant (I := fun _ s => s.Consistent ∧ s.len ≤ ApiBreaker.maxBreakerKeys) ?_ ?_
      · rintro s rfl
        exact ⟨consistent_empty, Nat.zero_le _⟩
      · intro ls s op s' _ h hroom hs
        exact hs ▸ breakerStep_consistent h.1 h.2 hroom
    exact ⟨hinv.1.agreeing, hinv.2⟩

/-! ## Runs of two keys -/

/-- A key is admitted, whose state is not evicted. -/
def admitOp (key : String) : LimiterOp Unit := .admitKey key (fun _ => false) .restore fun _ => ()

/-- One key keeps its slot in a limiter and another one in the breaker. -/
theorem agreeing_of_run_once : (∃ s : Shard Unit, s.containsKey "a" = true ∧ s.Agreeing ∧ s.len ≤ perShardMax) ∧
    ∃ s : Shard Unit, s.containsKey "b" = true ∧ s.Agreeing ∧ s.len ≤ ApiBreaker.maxBreakerKeys := by
  have hrun := agreeing_of_run (V := Unit) limitReqOverflow
  have hinit : Initial ({} : Shard Unit) := rfl
  have hroom : ({} : Shard Unit).touchOrder.nextTouch + (admitOp "a").tokens ≤ u64Max := by decide
  refine ⟨⟨(({} : Shard Unit).touch "a").fill "a" fun _ => (), rfl, hrun.1 ([] ++ [admitOp "a"]) _ ?_⟩,
    ⟨({} : Shard Unit).breakerStep ⟨"b", fun _ => ()⟩, rfl, hrun.2 ([] ++ [⟨"b", fun _ => ()⟩]) _ ?_⟩⟩
  · exact .snoc (.start hinit) rfl hroom
  · exact .snoc (.start hinit) rfl (Nat.succ_pos _)

theorem limiterStep_room {key : String} {evict : V → Bool} {onMiss : SweepMiss} {change : Option V → V}
    (h : s.len < perShardRegularMax) :
    s.limiterStep overflowKey (.admitKey key evict onMiss change) = some ((s.touch key).fill key change) := by
  have hnot : ¬perShardRegularMax ≤ s.len := Nat.not_le.mpr h
  simp [limiterStep, admitKey, h, hnot]

/-- The second key is admitted again and again. -/
theorem run_twoKeys (n : Nat) (hn : n < u64Max) : ∃ s : Shard Unit,
    Run (fun s op s' => s.limiterStep limitReqOverflow op = some s') Initial (admitOp "a" :: List.replicate n (admitOp "b")) s ∧
      s.touchOrder.nextTouch = n + 1 ∧ s.touchOrder.touches.lookup "a" = some 1 ∧
        s.len ≤ 1 + if s.containsKey "b" then 1 else 0 := by
  induction n with
  | zero =>
    have hinit : Initial ({} : Shard Unit) := rfl
    have hstep : ({} : Shard Unit).limiterStep limitReqOverflow (admitOp "a") =
        some ((({} : Shard Unit).touch "a").fill "a" fun _ => ()) := rfl
    have hstart : Run (fun s op s' => s.limiterStep limitReqOverflow op = some s') Initial ([] ++ [admitOp "a"]) _ :=
      .snoc (.start hinit) hstep
    exact ⟨(({} : Shard Unit).touch "a").fill "a" fun _ => (), hstart, rfl, rfl, by decide⟩
  | succ n ih =>
    obtain ⟨s, r, hnext, ha, hlen⟩ := ih (Nat.lt_of_succ_lt hn)
    have hroom : s.touchOrder.nextTouch < u64Max := hnext ▸ hn
    have hlt : s.len < perShardRegularMax := Nat.lt_of_le_of_lt hlen (by split <;> decide)
    refine ⟨(s.touch "b").fill "b" fun _ => (), ?_, ?_, ?_, ?_⟩
    · rw [List.replicate_succ', ← List.cons_append]
      exact r.snoc (limiterStep_room hlt)
    · show s.touchOrder.nextToken = _
      rw [TouchOrder.nextToken_eq hroom, hnext]
    · show (s.touchOrder.touch "b").touches.lookup "a" = some 1
      rw [TouchOrder.lookup_touch, if_neg (by decide), ha]
    · rw [len_fill, containsKey_fill, show (s.touch "b").len = s.len from rfl,
        show (s.touch "b").containsKey "b" = s.containsKey "b" from rfl]
      cases hb : s.containsKey "b" <;> simp [hb] at hlen ⊢ <;> omega

/-- After all tokens have been given out the first is given out again, to a second key. -/
theorem not_agreeing_after_wrap : ¬∀ (ops : List (LimiterOp Unit)) (s : Shard Unit),
    Run (fun s op s' => s.limiterStep limitReqOverflow op = some s') Initial ops s → s.Agreeing ∧ s.len ≤ perShardMax := by
  intro h
  obtain ⟨s, r, hnext, ha, hlen⟩ := run_twoKeys (u64Max - 1) (Nat.sub_lt (by decide) Nat.one_pos)
  have hlt : s.len < perShardRegularMax := Nat.lt_of_le_of_lt hlen (by split <;> decide)
  have hwrap : s.touchOrder.nextToken = 1 := by
    unfold TouchOrder.nextToken
    rw [hnext]
    decide
  have hstep : s.limiterStep limitReqOverflow (admitOp "b") = some ((s.touch "b").fill "b" fun _ => ()) := limiterStep_room hlt
  have hagree := (h _ _ (r.snoc hstep)).1
  have hfirst := (hagree.inverse 1 "a").mpr (by
    show (s.touchOrder.touch "b").touches.lookup "a" = some 1
    rw [TouchOrder.lookup_touch, if_neg (by decide), ha])
  have hsecond := (hagree.inverse 1 "b").mpr (by
    show (s.touchOrder.touch "b").touches.lookup "b" = some 1
    rw [TouchOrder.lookup_touch, if_pos rfl, hwrap])
  exact absurd (SortedMap.eq_of_mem hfirst hsecond) (by decide)

end Shard

end Pingsix.LimiterShards
