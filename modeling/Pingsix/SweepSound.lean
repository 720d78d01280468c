import Pingsix.LimiterShardsSound

/-!
# What a sweep reaches

The entries that one sweep removes among the least recently touched ones. An
entry that is kept and put back as the oldest is examined again in every later
round, so the entries behind it are not reached.
-/

namespace Pingsix

universe u

namespace Shard

variable {V : Type u}

/-- The sweep may remove the entry of the key; one without a state always. -/
def evictable (evict : V → Bool) (s : Shard V) (key : String) : Bool := (s.entries.lookup key).all evict

section
variable {s : Shard V} {key : String} {keys : List String} {evict : V → Bool} {onMiss : SweepMiss}

/-- A round takes the oldest key: it removes it, or keeps it and puts it at one end. -/
theorem examine_eq (hs : s.touchOrder.oldest = key :: keys) : s.examine evict onMiss = some (
    if s.evictable evict key then { entries := s.entries.erase key, touchOrder := ⟨keys⟩ }
    else { s with touchOrder := ⟨match onMiss with
      | .restore => key :: keys
      | .pushBack => keys.erase key ++ [key]⟩ }) := by
  unfold examine TouchOrder.popOldest evictable
  rw [hs]
  by_cases he : (s.entries.lookup key).all evict = true
  · simp only [he, if_true]
    rfl
  · simp only [he]
    cases onMiss <;> rfl

theorem examine_nil (hs : s.touchOrder.oldest = []) : s.examine evict onMiss = none := by
  unfold examine TouchOrder.popOldest
  rw [hs]

theorem evictable_erase {k : String} (hk : k ≠ key) (o : TouchOrder) :
    ({ entries := s.entries.erase key, touchOrder := o } : Shard V).evictable evict k = s.evictable evict k := by
  unfold evictable
  rw [HashMap.lookup_erase, if_neg hk]

theorem mem_take_rotate {k : String} {budget : Nat} (hm : k ∈ (keys ++ [key]).take budget) : k = key ∨ k ∈ keys.take budget := by
  rw [List.take_append] at hm
  obtain hm | hm := List.mem_append.mp hm
  · exact .inr hm
  · exact .inl (List.mem_singleton.mp (List.mem_of_mem_take hm))

theorem nodup_rotate (h : (key :: keys).Nodup) : (keys ++ [key]).Nodup :=
  List.nodup_append_comm.mp h

/-- Only as many of the oldest keys as there are rounds are touched. -/
theorem lookup_sweepUpTo_of_not_mem (budget : Nat) (hn : s.touchOrder.oldest.Nodup) (hk : key ∉ s.touchOrder.oldest.take budget) :
    (s.sweepUpTo evict onMiss budget).entries.lookup key = s.entries.lookup key := by
  induction budget generalizing s with
  | zero => rfl
  | succ budget ih =>
    unfold sweepUpTo
    cases hs : s.touchOrder.oldest with
    | nil => rw [examine_nil hs]
    | cons first rest =>
      rw [hs] at hn hk
      obtain ⟨hfirst, hrest⟩ := List.nodup_cons.mp hn
      have hkeep : key ∉ (first :: rest).take budget := fun hm => hk (List.take_subset_take_left _ (Nat.le_succ budget) hm)
      rw [List.take_succ_cons, List.mem_cons, not_or] at hk
      rw [examine_eq hs]
      by_cases he : s.evictable evict first = true
      · simp only [he, if_true]
        rw [ih hrest hk.2, HashMap.lookup_erase, if_neg hk.1]
      · simp only [he]
        cases onMiss with
        | restore => exact ih hn hkeep
        | pushBack =>
          simp only [List.erase_of_not_mem hfirst]
          exact ih (nodup_rotate hn) fun hm => (mem_take_rotate hm).elim hk.1 hk.2

/-- Where keys that are kept go to the back, every round takes another key. -/
theorem lookup_sweepUpTo_pushBack (budget : Nat) (hn : s.touchOrder.oldest.Nodup) (hk : key ∈ s.touchOrder.oldest.take budget)
    (he : s.evictable evict key = true) : (s.sweepUpTo evict .pushBack budget).entries.lookup key = none := by
  induction budget generalizing s with
  | zero => cases hk
  | succ budget ih =>
    unfold sweepUpTo
    cases hs : s.touchOrder.oldest with
    | nil =>
      rw [hs] at hk
      cases hk
    | cons first rest =>
      rw [hs] at hn hk
      obtain ⟨hfirst, hrest⟩ := List.nodup_cons.mp hn
      rw [List.take_succ_cons, List.mem_cons] at hk
      rw [examine_eq hs]
      by_cases hone : s.evictable evict first = true
      · simp only [hone, if_true]
        by_cases hkey : key = first
        · refine (swept_sweepUpTo evict .pushBack budget _ key).absent ?_
          rw [HashMap.lookup_erase, if_pos hkey]
        · exact ih hrest (hk.resolve_left hkey) (by rwa [evictable_erase hkey])
      · have hkey : key ≠ first := fun heq => hone (heq ▸ he)
        have hmem : key ∈ (rest ++ [first]).take budget := by
          rw [List.take_append]
          exact List.mem_append_left _ (hk.resolve_left hkey)
        simp only [hone, List.erase_of_not_mem hfirst]
        exact ih (nodup_rotate hn) hmem he

/-- A key that is kept and put back at the front is the only one examined from then on. -/
theorem sweepUpTo_stuck (hs : s.touchOrder.oldest = key :: keys) (he : s.evictable evict key ≠ true) (budget : Nat) :
    s.sweepUpTo evict .restore budget = s := by
  have hround : s.examine evict .restore = some s := by
    rw [examine_eq hs, if_neg he]
    simp only [← hs]
  induction budget with
  | zero => rfl
  | succ budget ih =>
    unfold sweepUpTo
    rw [hround]
    exact ih

theorem takeWhile_congr {p q : String → Bool} (h : ∀ k ∈ keys, p k = q k) : keys.takeWhile p = keys.takeWhile q := by
  induction keys with
  | nil => rfl
  | cons k keys ih =>
    obtain ⟨hk, hrest⟩ := List.forall_mem_cons.mp h
    rw [List.takeWhile_cons, List.takeWhile_cons, hk, ih hrest]

/-- Where keys that are kept go back to the front, the sweep removes the keys before the first of them. -/
theorem lookup_sweepUpTo_restore (budget : Nat) (hn : s.touchOrder.oldest.Nodup) (key : String) :
    (s.sweepUpTo evict .restore budget).entries.lookup key =
      if key ∈ (s.touchOrder.oldest.take budget).takeWhile (s.evictable evict) then none else s.entries.lookup key := by
  induction budget generalizing s with
  | zero => rfl
  | succ budget ih =>
    cases hs : s.touchOrder.oldest with
    | nil =>
      unfold sweepUpTo
      rw [examine_nil hs]
      rfl
    | cons first rest =>
      rw [hs] at hn
      obtain ⟨hfirst, hrest⟩ := List.nodup_cons.mp hn
      rw [List.take_succ_cons]
      by_cases he : s.evictable evict first = true
      · have hagree : (rest.take budget).takeWhile
            (({ entries := s.entries.erase first, touchOrder := ⟨rest⟩ } : Shard V).evictable evict) =
              (rest.take budget).takeWhile (s.evictable evict) := by
          refine takeWhile_congr fun k hk => evictable_erase (fun heq => hfirst ?_) _
          exact heq ▸ List.mem_of_mem_take hk
        unfold sweepUpTo
        rw [examine_eq hs]
        simp only [he, if_true]
        rw [ih hrest, hagree, HashMap.lookup_erase, List.takeWhile_cons_of_pos he]
        by_cases hkey : key = first
        · simp [hkey]
        · simp [hkey]
      · rw [sweepUpTo_stuck hs he, List.takeWhile_cons_of_neg he, if_neg List.not_mem_nil]

end

end Shard

namespace LimiterShards.Shard

variable {V : Type u}

/-- The keys that one sweep may examine: the least recently touched ones. -/
def oldestKeys (s : Shard V) : List String := s.touchOrder.keys.take cleanupBudget

/-- The sweep removes the entries it may remove among the oldest, and keeps every other one. -/
structure Progress (evict : V → Bool) (s s' : Shard V) : Prop where
  removed : ∀ key ∈ s.oldestKeys, (s.entries.lookup key).all evict = true →
    s'.entries.lookup key = none ∧ s'.touchOrder.touches.lookup key = none
  kept : ∀ key v, s.entries.lookup key = some v → evict v = false → s'.entries.lookup key = some v
  others : ∀ key ∉ s.oldestKeys, s'.entries.lookup key = s.entries.lookup key

/-- Where kept keys go back to the front, all that can be removed among the oldest is older than all that is kept. -/
def NoneHidden (evict : V → Bool) (onMiss : SweepMiss) (s : Shard V) : Prop :=
  onMiss = .restore → ∃ removed kept, s.oldestKeys = removed ++ kept ∧
    (∀ key ∈ removed, (s.entries.lookup key).all evict = true) ∧ ∀ key ∈ kept, (s.entries.lookup key).all evict = false

section
variable {s : Shard V} {evict : V → Bool} {onMiss : SweepMiss}

theorem exists_split_iff {p : String → Bool} {keys : List String} (hn : keys.Nodup) :
    (∃ removed kept, keys = removed ++ kept ∧ (∀ key ∈ removed, p key = true) ∧ ∀ key ∈ kept, p key = false) ↔
      ∀ key ∈ keys, p key = true → key ∈ keys.takeWhile p := by
  constructor
  · rintro ⟨removed, kept, rfl, hremoved, hkept⟩ key hkey hp
    obtain hmem | hmem := List.mem_append.mp hkey
    · rw [List.takeWhile_append_of_pos hremoved]
      exact List.mem_append_left _ hmem
    · rw [hkept key hmem] at hp
      cases hp
  · intro h
    have hsplit : keys.takeWhile p ++ keys.dropWhile p = keys := List.takeWhile_append_dropWhile
    refine ⟨keys.takeWhile p, keys.dropWhile p, hsplit.symm, fun key hm => List.mem_takeWhile_imp hm, fun key hm => ?_⟩
    by_contra hp
    have hnodup : (keys.takeWhile p ++ keys.dropWhile p).Nodup := by
      rw [hsplit]
      exact hn
    have htaken := h key ((List.dropWhile_sublist p).subset hm) (by simpa using hp)
    exact List.disjoint_of_nodup_append hnodup htaken hm

theorem Consistent.nodup_oldestKeys (h : s.Consistent) : s.oldestKeys.Nodup :=
  h.index.keys_nodup.sublist (List.take_sublist _ _)

theorem Consistent.mem_oldestKeys (h : s.Consistent) {key : String} (hk : key ∈ s.oldestKeys) :
    ∃ v, s.entries.lookup key = some v :=
  Option.isSome_iff_exists.mp (h.mem_keys.mp (List.mem_of_mem_take hk))

/-- All of it but the removal of what can be removed holds of every sweep. -/
theorem progress_iff (h : s.Consistent) (hroom : s.touchOrder.nextTouch + tokens onMiss * cleanupBudget ≤ u64Max) :
    Progress evict s (s.sweep evict onMiss) ↔ ∀ key ∈ s.oldestKeys, (s.entries.lookup key).all evict = true →
      (s.ordered.sweep evict onMiss).entries.lookup key = none := by
  obtain ⟨hswept, hordered, -⟩ : (s.sweep evict onMiss).Consistent ∧ _ := h.sweep hroom
  have hentries : (s.sweep evict onMiss).entries = (s.ordered.sweep evict onMiss).entries :=
    congrArg Pingsix.Shard.entries hordered
  constructor
  · intro hp key hk he
    rw [← hentries]
    exact (hp.removed key hk he).1
  · intro hremoved
    refine ⟨fun key hk he => ?_, fun key v hv hkeep => ?_, fun key hk => ?_⟩
    · have hnone : (s.sweep evict onMiss).entries.lookup key = none := hentries ▸ hremoved key hk he
      have hsame := hswept.same key
      unfold containsKey at hsame
      rw [hnone] at hsame
      exact ⟨hnone, Option.isNone_iff_eq_none.mp (Option.isSome_eq_false_iff.mp hsame.symm)⟩
    · rw [hentries]
      exact (Pingsix.Shard.swept_sweep evict onMiss s.ordered key).kept hv hkeep
    · rw [hentries]
      exact Pingsix.Shard.lookup_sweepUpTo_of_not_mem cleanupBudget h.index.keys_nodup hk

/-- A sweep reaches every entry it may remove among the oldest just when none of them stands behind one that goes back to
the front. -/
theorem sweep_progress_iff (h : s.Consistent) (hroom : s.touchOrder.nextTouch + tokens onMiss * cleanupBudget ≤ u64Max) :
    Progress evict s (s.sweep evict onMiss) ↔ NoneHidden evict onMiss s := by
  rw [progress_iff h hroom]
  cases onMiss with
  | pushBack =>
    refine iff_of_true (fun key hk he => ?_) nofun
    exact Pingsix.Shard.lookup_sweepUpTo_pushBack cleanupBudget h.index.keys_nodup hk he
  | restore =>
    have hlookup : ∀ key, (s.ordered.sweep evict .restore).entries.lookup key =
        if key ∈ s.oldestKeys.takeWhile (s.ordered.evictable evict) then none else s.entries.lookup key :=
      Pingsix.Shard.lookup_sweepUpTo_restore cleanupBudget h.index.keys_nodup
    have hsplit : NoneHidden evict .restore s ↔ _ := (forall_prop_of_true rfl).trans (exists_split_iff h.nodup_oldestKeys)
    rw [hsplit]
    refine forall_congr' fun key => forall_congr' fun hk => forall_congr' fun _ => ?_
    obtain ⟨v, hv⟩ := h.mem_oldestKeys hk
    rw [hlookup, hv]
    exact ite_eq_left_iff.trans ⟨fun hnone => by_contra fun hm => absurd (hnone hm) nofun, fun hm hn => absurd hm hn⟩

end

/-! ## A busy oldest entry -/

/-- A shard with one key whose entry is kept. -/
def oneBusy : Shard Bool := (({} : Shard Bool).touch "busy").fill "busy" fun _ => false

/-- Two entries, of which the one touched last may go. -/
def busyShard : Shard Bool := (oneBusy.touch "idle").fill "idle" fun _ => true

theorem consistent_busyShard : busyShard.Consistent := by
  have hone : oneBusy.Consistent := consistent_empty.touch_fill (by decide) "busy" _
  exact hone.touch_fill (by decide) "idle" _

/-- The idle entry behind the busy one goes when the busy one goes to the back. -/
theorem sweep_progress_pushBack : Progress id busyShard (busyShard.sweep id .pushBack) :=
  (sweep_progress_iff consistent_busyShard (by decide)).mpr nofun

/-- The idle entry behind the busy one stays when the busy one is put back at the front. -/
theorem sweep_hides_idle : ¬∀ (evict : Bool → Bool) (onMiss : SweepMiss) (s : Shard Bool), s.Consistent →
    Progress evict s (s.sweep evict onMiss) := by
  intro h
  have hremoved := (h id .restore busyShard consistent_busyShard).removed "idle" (by decide) rfl
  exact absurd hremoved.1 (by decide)

end LimiterShards.Shard

end Pingsix
