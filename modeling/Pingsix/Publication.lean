import Pingsix.Lib.Map

/-!
# The publication registry

What the Admin API reports for a committed revision. Records are bounded:
`trim` ages out the lowest revisions that are no longer pending.
-/

namespace Pingsix

inductive PublicationState where
  | pending
  | published
  | rejected
  | superseded
  deriving DecidableEq, Repr

structure PublicationView where
  state : PublicationState
  publishedRevision : Option Int
  error : Option String
  deriving DecidableEq, Repr

structure PublicationRecord where
  state : PublicationState
  error : Option String
  deriving DecidableEq, Repr

structure PublicationRegistry where
  records : HashMap Int PublicationRecord := ∅
  publishedRevision : Option Int := none

def publicationRegistryCapacity : Nat := 128

namespace PublicationRegistry

/-- The lowest revision whose record is not pending. -/
def lowestDecided (records : HashMap Int PublicationRecord) : Option Int :=
  ((records.entries.filter fun e => e.2.state ≠ .pending).map (·.1)).min?

/-- One turn of the `trim` loop; it stops for good when every record is pending. -/
def trimOnce (records : HashMap Int PublicationRecord) : HashMap Int PublicationRecord :=
  match lowestDecided records with
  | none => records
  | some revision => records.erase revision

def trimTurns : Nat → HashMap Int PublicationRecord → HashMap Int PublicationRecord
  | 0, records => records
  | n + 1, records => trimTurns n (trimOnce records)

/-- Each turn removes one record, so the loop makes as many turns as records exceed the capacity. -/
def trim (r : PublicationRegistry) : PublicationRegistry :=
  { r with records := trimTurns (r.records.entries.length - publicationRegistryCapacity) r.records }

def pending (r : PublicationRegistry) (revision : Int) : PublicationRegistry :=
  if revision > 0 then
    if r.records.containsKey revision then r.trim
    else { r with records := r.records.insert revision ⟨.pending, none⟩ }.trim
  else r

def supersedePendingExcept (r : PublicationRegistry) (revision : Int) : PublicationRegistry :=
  { r with
    records := r.records.mapValues fun candidate record =>
      if candidate ≠ revision ∧ record.state = .pending then ⟨.superseded, none⟩ else record }

/-- The record turned published, when there is one. -/
def markPublished (r : PublicationRegistry) (revision : Int) : PublicationRegistry where
  records := if r.records.containsKey revision then r.records.insert revision ⟨.published, none⟩ else r.records
  publishedRevision := some revision

def published (r : PublicationRegistry) (revision : Int) : PublicationRegistry :=
  ((r.pending revision).markPublished revision).trim

def rejected (r : PublicationRegistry) (revision : Int) (error : String) : PublicationRegistry :=
  match r.records.lookup revision with
  | some record =>
    if record.state = .pending then { r with records := r.records.insert revision ⟨.rejected, some error⟩ } else r
  | none => r

def view (r : PublicationRegistry) (revision : Int) : Option PublicationView :=
  (r.records.lookup revision).map fun record => ⟨record.state, r.publishedRevision, record.error⟩

/-! ## What each operation does to the reported state -/

/-- The state reported for a revision, when its record is retained. -/
def reported (r : PublicationRegistry) (revision : Int) : Option PublicationState :=
  (r.view revision).map (·.state)

theorem reported_eq (r : PublicationRegistry) (k : Int) : r.reported k = (r.records.lookup k).map (·.state) := by
  unfold reported view
  rw [Option.map_map]
  rfl

/-- Ageing out: every record stays, or it was decided and is gone. -/
def Aged (r r' : PublicationRegistry) : Prop :=
  ∀ k, r'.reported k = r.reported k ∨ (r'.reported k = none ∧ r.reported k ≠ some .pending)

theorem lowestDecided_spec {records : HashMap Int PublicationRecord} {k : Int}
    (h : lowestDecided records = some k) : (records.lookup k).map (·.state) ≠ some .pending := by
  unfold lowestDecided at h
  have hmem := List.min?_mem h
  obtain ⟨e, he, rfl⟩ := List.mem_map.mp hmem
  obtain ⟨he, hs⟩ := List.mem_filter.mp he
  rw [(HashMap.mem_entries_iff records e.1 e.2).mp he]
  simpa using hs

theorem trimOnce_lookup (records : HashMap Int PublicationRecord) (k : Int) :
    (trimOnce records).lookup k = records.lookup k ∨
      ((trimOnce records).lookup k = none ∧ (records.lookup k).map (·.state) ≠ some .pending) := by
  unfold trimOnce
  split
  · exact .inl rfl
  · rename_i revision hl
    rw [HashMap.lookup_erase]
    by_cases hk : k = revision
    · subst hk
      exact .inr ⟨if_pos rfl, lowestDecided_spec hl⟩
    · exact .inl (if_neg hk)

theorem trimTurns_lookup (k : Int) : ∀ (n : Nat) (records : HashMap Int PublicationRecord),
    (trimTurns n records).lookup k = records.lookup k ∨
      ((trimTurns n records).lookup k = none ∧ (records.lookup k).map (·.state) ≠ some .pending)
  | 0, _ => .inl rfl
  | n + 1, records => by
    unfold trimTurns
    rcases trimOnce_lookup records k with h | ⟨h, hne⟩
    · rcases trimTurns_lookup k n (trimOnce records) with h' | ⟨h', hne'⟩
      · exact .inl (h'.trans h)
      · exact .inr ⟨h', h ▸ hne'⟩
    · rcases trimTurns_lookup k n (trimOnce records) with h' | ⟨h', _⟩
      · exact .inr ⟨h'.trans h, hne⟩
      · exact .inr ⟨h', hne⟩

theorem trim_aged (r : PublicationRegistry) : Aged r r.trim := by
  intro k
  rw [reported_eq, reported_eq]
  unfold trim
  rcases trimTurns_lookup k (r.records.entries.length - publicationRegistryCapacity) r.records with h | ⟨h, hne⟩
  · exact .inl (by rw [h])
  · exact .inr ⟨by rw [h]; rfl, hne⟩

/-- Recording a revision as pending changes only a positive revision without a record, and ages out. -/
theorem pending_reported (r : PublicationRegistry) (revision k : Int) :
    (r.pending revision).reported k = r.reported k ∨
      ((r.pending revision).reported k = none ∧ r.reported k ≠ some .pending) ∨
      (k = revision ∧ r.reported k = none ∧ (r.pending revision).reported k = some .pending) := by
  unfold pending
  split
  · split
    · rcases trim_aged r k with h | h
      · exact .inl h
      · exact .inr (.inl h)
    · rename_i hn
      generalize hr' : ({ r with records := r.records.insert revision ⟨.pending, none⟩ } : PublicationRegistry) = r'
      have hl : ∀ a, r'.reported a = if a = revision then some .pending else r.reported a := by
        intro a
        rw [← hr', reported_eq, reported_eq, HashMap.lookup_insert]
        split <;> rfl
      have hnone : r.reported revision = none := by
        rw [reported_eq]
        unfold HashMap.containsKey at hn
        cases hlk : r.records.lookup revision with
        | none => rfl
        | some v => rw [hlk] at hn; exact absurd rfl hn
      by_cases hk : k = revision
      · subst hk
        rcases trim_aged r' k with h | ⟨_, h⟩
        · exact .inr (.inr ⟨rfl, hnone, by rw [h, hl, if_pos rfl]⟩)
        · rw [hl, if_pos rfl] at h; exact absurd rfl h
      · rcases trim_aged r' k with h | ⟨h, h'⟩
        · exact .inl (by rw [h, hl, if_neg hk])
        · exact .inr (.inl ⟨h, by rw [hl, if_neg hk] at h'; exact h'⟩)
  · exact .inl rfl

theorem supersede_reported (r : PublicationRegistry) (revision k : Int) :
    (r.supersedePendingExcept revision).reported k =
      if k ≠ revision ∧ r.reported k = some .pending then some .superseded else r.reported k := by
  rw [reported_eq, reported_eq]
  unfold supersedePendingExcept
  simp only
  rw [HashMap.lookup_mapValues]
  cases r.records.lookup k with
  | none => simp
  | some record =>
    simp only [Option.map_some, Option.some.injEq]
    split <;> rfl

theorem rejected_reported (r : PublicationRegistry) (revision : Int) (error : String) (k : Int) :
    (r.rejected revision error).reported k =
      if k = revision ∧ r.reported k = some .pending then some .rejected else r.reported k := by
  rw [reported_eq, reported_eq]
  unfold rejected
  cases hl : r.records.lookup revision with
  | none =>
    simp only
    rw [if_neg]
    rintro ⟨rfl, h⟩
    rw [hl] at h; cases h
  | some record =>
    simp only
    by_cases hp : record.state = .pending
    · rw [if_pos hp]
      simp only
      rw [HashMap.lookup_insert]
      by_cases hk : k = revision
      · subst hk
        rw [if_pos rfl, hl, if_pos ⟨rfl, by rw [Option.map_some, hp]⟩]
        rfl
      · rw [if_neg hk, if_neg fun h => hk h.1]
    · rw [if_neg hp, if_neg]
      rintro ⟨rfl, h⟩
      rw [hl, Option.map_some, Option.some.injEq] at h
      exact hp h

theorem markPublished_reported (r : PublicationRegistry) (revision k : Int) :
    (r.markPublished revision).reported k =
      if k = revision ∧ r.reported revision ≠ none then some .published else r.reported k := by
  rw [reported_eq, reported_eq, reported_eq]
  unfold markPublished HashMap.containsKey
  cases hl : r.records.lookup revision with
  | none => simp
  | some v =>
    simp only [Option.isSome_some, if_true, HashMap.lookup_insert]
    by_cases hk : k = revision
    · simp [hk]
    · simp [hk]

/-- Publishing reports the revision as published, or ages its record out at once. -/
theorem published_reported (r : PublicationRegistry) (revision k : Int) :
    (k ≠ revision ∧ (r.published revision).reported k = r.reported k) ∨
      ((r.published revision).reported k = none ∧ (k = revision ∨ r.reported k ≠ some .pending)) ∨
      (k = revision ∧ (r.published revision).reported k = some .published) := by
  unfold published
  have hm := markPublished_reported (r.pending revision) revision k
  by_cases hk : k = revision
  · subst hk
    rcases trim_aged ((r.pending k).markPublished k) k with h | ⟨h, _⟩
    · rw [h, hm]
      by_cases hn : (r.pending k).reported k = none
      · right; left
        rw [if_neg (fun h => h.2 hn)]
        exact ⟨hn, .inl rfl⟩
      · right; right
        exact ⟨rfl, if_pos ⟨rfl, hn⟩⟩
    · exact .inr (.inl ⟨h, .inl rfl⟩)
  · rw [if_neg fun h => hk h.1] at hm
    rcases trim_aged ((r.pending revision).markPublished revision) k with h | ⟨h, hne⟩
    · rw [h, hm]
      rcases pending_reported r revision k with hp | ⟨hp, hne'⟩ | ⟨rfl, _⟩
      · exact .inl ⟨hk, hp⟩
      · exact .inr (.inl ⟨hp, .inr hne'⟩)
      · exact absurd rfl hk
    · rw [hm] at hne
      rcases pending_reported r revision k with hp | ⟨hp, hne'⟩ | ⟨rfl, _⟩
      · exact .inr (.inl ⟨h, .inr (hp ▸ hne)⟩)
      · exact .inr (.inl ⟨h, .inr hne'⟩)
      · exact absurd rfl hk

end PublicationRegistry

end Pingsix
