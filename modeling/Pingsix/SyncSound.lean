import Pingsix.Etcd

/-!
# List and watch agree

Both decoders are measured against the resource etcd holds for a key. A list
that decodes holds exactly those resources (`list_holds`); a batch that decodes
carries each of them across its events (`batch_holds`). So a list at a revision
and the watch batches folded onto an earlier list give the same resources.
-/

namespace Pingsix

def StoredChange.key : StoredChange → ResourceKey
  | .put key _ => key
  | .delete key => key

/-- What a change leaves under its key. -/
def StoredChange.outcome : StoredChange → Option StoredResource
  | .put _ resource => some resource
  | .delete _ => none

/-- The pair is the one a resource is stored in. -/
def KeyValue.Of (pfx : String) (key : ResourceKey) (kv : KeyValue) : Prop :=
  kv.key = physicalKey pfx key ∧ key.isMetadata = false

instance (pfx : String) (key : ResourceKey) (kv : KeyValue) : Decidable (kv.Of pfx key) :=
  inferInstanceAs (Decidable (_ ∧ _))

theorem KeyValue.Of.fromUtf8Lossy {pfx : String} {key : ResourceKey} {kv : KeyValue} (h : kv.Of pfx key) :
    Utf8.fromUtf8Lossy kv.key = pfx ++ key.logicalPath := by
  rw [h.1]
  exact Utf8.fromUtf8Lossy_of_ok (Utf8.fromUtf8_toUTF8 _)

theorem KeyValue.Of.isMetadataKey {pfx : String} {key : ResourceKey} {kv : KeyValue} (h : kv.Of pfx key) :
    isMetadataKey kv.key = false := by
  rw [h.1, isMetadataKey_physicalKey, h.2]

theorem logicalPath_ne_graphRevisionKey (key : ResourceKey) : key.logicalPath ≠ graphRevisionKey := by
  intro h
  have hin : '/' ∈ key.logicalPath.toList := by simp [logicalPath_eq]
  rw [h] at hin
  exact absurd hin (by decide)

/-- A key outside the metadata decodes to a resource only when it is the key of that resource. -/
theorem of_of_decode {pfx : String} {key : ResourceKey} {kv : KeyValue} (hm : Pingsix.isMetadataKey kv.key = false)
    (h : physicalKeyToResourceKey kv.key pfx = .ok key) : kv.Of pfx key := by
  have hk := physicalKeyToResourceKey_eq_ok.mp h
  refine ⟨hk, ?_⟩
  rw [← isMetadataKey_physicalKey pfx key, ← hk, hm]

theorem of_unique {pfx : String} {key key' : ResourceKey} {kv : KeyValue} (h : kv.Of pfx key) (h' : kv.Of pfx key') :
    key = key' := physicalKey_inj.mp (h.1.symm.trans h'.1)

/-! ## The list -/

theorem listStep_lookup {pfx : String} {acc acc' : HashMap ResourceKey StoredResource × Option Int} {kv : KeyValue}
    (h : listStep pfx acc kv = .ok acc') (key : ResourceKey) :
    acc'.1.lookup key = if kv.Of pfx key then some kv.toStored else acc.1.lookup key := by
  unfold listStep at h
  simp only at h
  split at h
  · rename_i hp
    cases h
    rw [if_neg]
    intro hof
    rw [hof.fromUtf8Lossy, startsWith_physicalKey] at hp
    cases hp
  split at h
  · rename_i hg
    have hof : ¬ kv.Of pfx key := by
      intro hof
      rw [hof.fromUtf8Lossy, String.append_right_inj] at hg
      exact logicalPath_ne_graphRevisionKey key hg
    rw [if_neg hof]
    cases hv : validateGuardValue kv.value with
    | error e => rw [hv] at h; cases h
    | ok u => rw [hv] at h; cases h; rfl
  split at h
  · rename_i hm
    cases h
    rw [if_neg]
    intro hof
    rw [hof.isMetadataKey] at hm
    cases hm
  rename_i hm
  split at h
  · cases h
  rename_i resourceKey hk
  cases h
  have hof' := of_of_decode (by simpa using hm) hk
  rw [HashMap.lookup_insert]
  by_cases he : key = resourceKey
  · rw [if_pos he, if_pos (he ▸ hof')]
  · rw [if_neg he, if_neg fun hof => he (of_unique hof hof')]

theorem listFold_lookup {pfx : String} (key : ResourceKey) : ∀ (kvs : List KeyValue)
    {acc acc' : HashMap ResourceKey StoredResource × Option Int}, kvs.foldlM (listStep pfx) acc = .ok acc' →
    acc'.1.lookup key = kvs.foldl (fun o kv => if kv.Of pfx key then some kv.toStored else o) (acc.1.lookup key)
  | [], acc, acc', h => by
    cases h; rfl
  | kv :: kvs, acc, acc', h => by
    rw [List.foldlM_cons] at h
    cases hs : listStep pfx acc kv with
    | error e => rw [hs] at h; cases h
    | ok acc₁ =>
      rw [hs] at h
      rw [listFold_lookup key kvs h, List.foldl_cons, listStep_lookup hs]

theorem foldl_last_none {α β : Type} {p : α → Prop} [DecidablePred p] {f : α → β} : ∀ (l : List α) (a : Option β),
    (∀ x ∈ l, ¬ p x) → l.foldl (fun o x => if p x then some (f x) else o) a = a
  | [], _, _ => rfl
  | x :: l, a, hn => by
    rw [List.foldl_cons, if_neg (hn x List.mem_cons_self)]
    exact foldl_last_none l a fun y hy => hn y (List.mem_cons_of_mem _ hy)

/-- When all members with the property are one member, the fold ends on it or where it started. -/
theorem foldl_last_unique {α β : Type} {p : α → Prop} [DecidablePred p] {f : α → β} {x₀ : α} :
    ∀ (l : List α) (a : Option β), (∀ x ∈ l, p x → x = x₀) → a = some (f x₀) →
    l.foldl (fun o x => if p x then some (f x) else o) a = some (f x₀)
  | [], _, _, ha => ha
  | x :: l, a, hu, ha => by
    rw [List.foldl_cons]
    refine foldl_last_unique l _ (fun y hy => hu y (List.mem_cons_of_mem _ hy)) ?_
    by_cases hx : p x
    · rw [if_pos hx, hu x List.mem_cons_self hx]
    · rw [if_neg hx, ha]

theorem foldl_last_mem {α β : Type} {p : α → Prop} [DecidablePred p] {f : α → β} {x₀ : α} {l : List α}
    (a : Option β) (hu : ∀ x ∈ l, p x → x = x₀) (hin : x₀ ∈ l) (hp : p x₀) :
    l.foldl (fun o x => if p x then some (f x) else o) a = some (f x₀) := by
  obtain ⟨before, after, rfl⟩ := List.append_of_mem hin
  rw [List.foldl_append, List.foldl_cons, if_pos hp]
  exact foldl_last_unique after _ (fun x hx => hu x (by simp [hx])) rfl

/-- The range of a list or a watch covers the namespace of the canonical prefix. -/
def Covers (rangePrefix canonicalPrefix : String) : Prop := ∃ t, canonicalPrefix = rangePrefix ++ t

theorem inRange_of_covers {rp pfx : String} (hc : Covers rp pfx) (key : ResourceKey) :
    History.inRange rp (physicalKey pfx key) = true := by
  obtain ⟨t, rfl⟩ := hc
  unfold History.inRange physicalKey
  rw [List.isPrefixOf_iff_prefix]
  simp

theorem mem_range_iff {h : History} {rp : String} {r : Int} {kv : KeyValue} :
    kv ∈ h.range rp r ↔ (h.stateAt r).lookup kv.key = some kv ∧ History.inRange rp kv.key = true := by
  unfold History.range
  rw [List.mem_filter, HashMap.mem_values_iff]
  constructor
  · rintro ⟨⟨k, hk⟩, hr⟩
    exact ⟨by rw [keyed_stateAt h r k kv hk]; exact hk, hr⟩
  · rintro ⟨hk, hr⟩
    exact ⟨⟨_, hk⟩, hr⟩

/-- A list that decodes holds for every key what etcd holds for it. -/
theorem list_holds {h : History} {rp pfx : String} (hc : Covers rp pfx) {r revision : Int} {kvs : List KeyValue}
    (hkvs : kvs.Perm (h.range rp r)) {g : StoredGraph} (hg : graphSnapshotFromList kvs revision pfx = .ok g)
    (key : ResourceKey) : g.resources.lookup key = (h.stateAt r).held pfx key := by
  unfold graphSnapshotFromList at hg
  cases hf : kvs.foldlM (listStep pfx) (∅, none) with
  | error e => rw [hf] at hg; cases hg
  | ok acc =>
    rw [hf] at hg
    cases hg
    have hl := listFold_lookup key kvs hf
    rw [HashMap.lookup_empty] at hl
    refine hl.trans ?_
    have hmem : ∀ kv, kv ∈ kvs ↔ (h.stateAt r).lookup kv.key = some kv ∧ History.inRange rp kv.key = true :=
      fun kv => hkvs.mem_iff.trans mem_range_iff
    unfold EtcdState.held
    cases hm : key.isMetadata with
    | true =>
      simp only [if_true]
      exact foldl_last_none kvs none fun kv _ hof => by rw [hof.2] at hm; cases hm
    | false =>
      simp only [Bool.false_eq_true, if_false]
      cases hs : (h.stateAt r).lookup (physicalKey pfx key) with
      | none =>
        refine foldl_last_none kvs none fun kv hkv hof => ?_
        have := ((hmem kv).mp hkv).1
        rw [hof.1, hs] at this
        cases this
      | some kv₀ =>
        have hk₀ : kv₀.key = physicalKey pfx key := keyed_stateAt h r _ _ hs
        refine foldl_last_mem none (fun kv hkv hof => ?_) ((hmem kv₀).mpr ⟨?_, ?_⟩) ⟨hk₀, hm⟩
        · have := ((hmem kv).mp hkv).1
          rw [hof.1, hs] at this
          exact (Option.some.inj this).symm
        · rw [hk₀]; exact hs
        · rw [hk₀]; exact inRange_of_covers hc key

/-! ## The watch -/

/-- What an event leaves of the resource stored under a key. -/
def eventEffect (pfx : String) (key : ResourceKey) (o : Option StoredResource) (event : Event) :
    Option StoredResource :=
  match event.kv with
  | none => o
  | some kv =>
    if kv.Of pfx key then
      match event.eventType with
      | .put => some kv.toStored
      | .delete => none
    else o

/-- What a batch whose final change is `c` leaves. -/
def changeEffect (c : Option StoredChange) (o : Option StoredResource) : Option StoredResource :=
  match c with
  | none => o
  | some c => c.outcome

/-- The changes a decoded batch holds are stored under their own key. -/
def ChangesKeyed (m : HashMap ResourceKey StoredChange) : Prop := ∀ key c, m.lookup key = some c → c.key = key

theorem eventStep_spec {pfx : String} {m m' : HashMap ResourceKey StoredChange} {event : Event}
    (h : eventStep pfx m event = .ok m') :
    (ChangesKeyed m → ChangesKeyed m') ∧ ∀ key o,
      changeEffect (m'.lookup key) o = eventEffect pfx key (changeEffect (m.lookup key) o) event := by
  unfold eventStep at h
  split at h
  · cases h
  rename_i kv hkv
  simp only at h
  split at h
  · rename_i hm
    cases h
    refine ⟨id, fun key o => ?_⟩
    have hof : ¬ kv.Of pfx key := fun hof => by rw [hof.isMetadataKey] at hm; cases hm
    simp only [eventEffect, hkv, if_neg hof]
  rename_i hm
  split at h
  · rename_i hp
    cases h
    refine ⟨id, fun key o => ?_⟩
    have hof : ¬ kv.Of pfx key := fun hof => by
      rw [hof.fromUtf8Lossy, startsWith_physicalKey] at hp
      cases hp
    simp only [eventEffect, hkv, if_neg hof]
  split at h
  · cases h
  rename_i resourceKey hk
  have hof := of_of_decode (by simpa using hm) hk
  have key_step : ∀ c : StoredChange, c.key = resourceKey →
      c.outcome = (match event.eventType with | .put => some kv.toStored | .delete => none) →
      (ChangesKeyed m → ChangesKeyed (m.insert resourceKey c)) ∧ ∀ key o,
        changeEffect (AList.lookup key (m.insert resourceKey c)) o =
          eventEffect pfx key (changeEffect (m.lookup key) o) event := by
    intro c hc hout
    refine ⟨fun hkeyed key c' hl => ?_, fun key o => ?_⟩
    · rw [HashMap.lookup_insert] at hl
      split at hl
      · rename_i he; cases hl; rw [hc, he]
      · exact hkeyed key c' hl
    · rw [HashMap.lookup_insert]
      by_cases he : key = resourceKey
      · subst he
        simp only [if_true, changeEffect, eventEffect, hkv, if_pos hof, hout]
      · have hof' : ¬ kv.Of pfx key := fun hof' => he (of_unique hof' hof)
        simp only [if_neg he, eventEffect, hkv, if_neg hof']
  split at h
  · rename_i ht
    cases h
    exact key_step _ rfl (by rw [ht]; rfl)
  · rename_i ht
    cases h
    exact key_step _ rfl (by rw [ht]; rfl)

theorem eventFold_spec {pfx : String} : ∀ (events : List Event) {m m' : HashMap ResourceKey StoredChange},
    events.foldlM (eventStep pfx) m = .ok m' → (ChangesKeyed m → ChangesKeyed m') ∧ ∀ key o,
      changeEffect (m'.lookup key) o = events.foldl (eventEffect pfx key) (changeEffect (m.lookup key) o)
  | [], m, m', h => by
    cases h; exact ⟨id, fun _ _ => rfl⟩
  | event :: events, m, m', h => by
    rw [List.foldlM_cons] at h
    cases hs : eventStep pfx m event with
    | error e => rw [hs] at h; cases h
    | ok m₁ =>
      rw [hs] at h
      obtain ⟨hk₁, he₁⟩ := eventStep_spec hs
      obtain ⟨hk, he⟩ := eventFold_spec events h
      refine ⟨fun hm => hk (hk₁ hm), fun key o => ?_⟩
      rw [he, he₁, List.foldl_cons]

theorem applyChange_lookup (resources : HashMap ResourceKey StoredResource) (c : StoredChange) (key : ResourceKey) :
    (applyChange resources c).lookup key = if key = c.key then c.outcome else resources.lookup key := by
  cases c with
  | put k resource => exact HashMap.lookup_insert resources k key resource
  | delete k => exact HashMap.lookup_erase resources k key

theorem foldl_applyChange_lookup {key : ResourceKey} {o : Option StoredResource} : ∀ (changes : List StoredChange)
    (resources : HashMap ResourceKey StoredResource), (∀ c ∈ changes, c.key = key → c.outcome = o) →
    (changes.foldl applyChange resources).lookup key =
      if key ∈ changes.map StoredChange.key then o else resources.lookup key
  | [], resources, _ => by simp
  | c :: changes, resources, h => by
    rw [List.foldl_cons, foldl_applyChange_lookup changes _ fun c' h' => h c' (List.mem_cons_of_mem _ h')]
    by_cases hin : key ∈ changes.map StoredChange.key
    · rw [if_pos hin, List.map_cons, if_pos (List.mem_cons_of_mem _ hin)]
    · rw [if_neg hin, applyChange_lookup]
      by_cases hc : key = c.key
      · rw [if_pos hc, List.map_cons, if_pos (hc ▸ List.mem_cons_self ..), h c (List.mem_cons_self ..) hc.symm]
      · rw [if_neg hc, List.map_cons, if_neg]
        rw [List.mem_cons]
        exact fun h => h.elim hc hin

/-- A batch changes exactly the keys of its final changes, in whatever order it lists them. -/
theorem applyWatchBatch_lookup {m : HashMap ResourceKey StoredChange} (hm : ChangesKeyed m)
    {changes : List StoredChange} (hp : changes.Perm m.values) (base : StoredGraph) (revision : Int)
    (key : ResourceKey) : (applyWatchBatch base ⟨revision, changes⟩).resources.lookup key =
      changeEffect (m.lookup key) (base.resources.lookup key) := by
  have hmem : ∀ c, c ∈ changes ↔ m.lookup c.key = some c := by
    intro c
    rw [hp.mem_iff, HashMap.mem_values_iff]
    constructor
    · rintro ⟨k, hk⟩
      rw [hm k c hk]; exact hk
    · exact fun hk => ⟨_, hk⟩
  have hfold : (changes.foldl applyChange base.resources).lookup key =
      changeEffect (m.lookup key) (base.resources.lookup key) := by
    cases hl : m.lookup key with
    | none =>
      rw [foldl_applyChange_lookup (o := none) changes _ fun c hc he => by
        rw [hmem, he, hl] at hc; cases hc]
      rw [if_neg]
      · rfl
      · intro hin
        obtain ⟨c, hc, he⟩ := List.mem_map.mp hin
        rw [hmem, he, hl] at hc
        cases hc
    | some c₀ =>
      rw [foldl_applyChange_lookup (o := c₀.outcome) changes _ fun c hc he => by
        rw [hmem, he, hl] at hc; rw [Option.some.inj hc]]
      rw [if_pos]
      · rfl
      · have hk := hm key c₀ hl
        exact List.mem_map.mpr ⟨c₀, (hmem c₀).mpr (by rw [hk]; exact hl), hk⟩
  unfold applyWatchBatch
  simp only
  split
  · rename_i he
    rw [List.isEmpty_iff] at he
    rw [← hfold, he]; rfl
  · exact hfold

/-- The graphs a fold of watch responses can leave: each is decoded, and its changes listed in some order. -/
inductive WatchFold (pfx : String) : StoredGraph → List (List Event) → StoredGraph → Prop
  | nil (g : StoredGraph) : WatchFold pfx g [] g
  | cons {g g' : StoredGraph} {events : List Event} {batches : List (List Event)}
      {m : HashMap ResourceKey StoredChange} {changes : List StoredChange}
      (decoded : graphChangesFromEvents events pfx = .ok m) (listed : changes.Perm m.values)
      (rest : WatchFold pfx (applyWatchBatch g ⟨batchRevision events, changes⟩) batches g') :
      WatchFold pfx g (events :: batches) g'

theorem graphChangesFromEvents_effect {pfx : String} {events : List Event} {m : HashMap ResourceKey StoredChange}
    (h : graphChangesFromEvents events pfx = .ok m) : ChangesKeyed m ∧ ∀ key o,
      changeEffect (m.lookup key) o = events.foldl (eventEffect pfx key) o := by
  obtain ⟨hk, he⟩ := eventFold_spec events h
  refine ⟨hk ?_, fun key o => ?_⟩
  · intro key c hc
    rw [HashMap.lookup_empty] at hc
    cases hc
  · rw [he, HashMap.lookup_empty]
    rfl

/-- Folding the batches has, key by key, the effect of their events in order. -/
theorem watchFold_lookup {pfx : String} {g g' : StoredGraph} {batches : List (List Event)}
    (h : WatchFold pfx g batches g') (key : ResourceKey) :
    g'.resources.lookup key = batches.flatten.foldl (eventEffect pfx key) (g.resources.lookup key) := by
  induction h with
  | nil g => rfl
  | cons decoded listed rest ih =>
    obtain ⟨hk, he⟩ := graphChangesFromEvents_effect decoded
    rw [ih, applyWatchBatch_lookup hk listed, he, List.flatten_cons, List.foldl_append]

/-- Whether an event decodes does not depend on the events before it. -/
theorem eventStep_ok_any {pfx : String} {m m' : HashMap ResourceKey StoredChange} {event : Event}
    (h : eventStep pfx m event = .ok m') (n : HashMap ResourceKey StoredChange) :
    ∃ n', eventStep pfx n event = .ok n' := by
  unfold eventStep at h ⊢
  cases hkv : event.kv with
  | none => rw [hkv] at h; cases h
  | some kv =>
    rw [hkv] at h
    simp only at h ⊢
    split
    · exact ⟨n, rfl⟩
    rename_i hm
    rw [if_neg hm] at h
    split
    · exact ⟨n, rfl⟩
    rename_i hp
    rw [if_neg hp] at h
    cases hk : physicalKeyToResourceKey kv.key pfx with
    | error message => rw [hk] at h; cases h
    | ok resourceKey =>
      simp only
      split <;> exact ⟨_, rfl⟩

theorem eventFold_ok_any {pfx : String} : ∀ (events : List Event) {m m' : HashMap ResourceKey StoredChange},
    events.foldlM (eventStep pfx) m = .ok m' → ∀ n, ∃ n', events.foldlM (eventStep pfx) n = .ok n'
  | [], _, _, _, n => ⟨n, rfl⟩
  | event :: events, m, m', h, n => by
    rw [List.foldlM_cons] at h
    cases hs : eventStep pfx m event with
    | error e => rw [hs] at h; cases h
    | ok m₁ =>
      rw [hs] at h
      obtain ⟨n₁, hn₁⟩ := eventStep_ok_any hs n
      obtain ⟨n', hn'⟩ := eventFold_ok_any events h n₁
      refine ⟨n', ?_⟩
      rw [List.foldlM_cons, hn₁]
      exact hn'

/-- When the events decode as a whole, each batch of any split decodes. -/
theorem watchFold_exists {pfx : String} : ∀ (batches : List (List Event)) {m : HashMap ResourceKey StoredChange},
    graphChangesFromEvents batches.flatten pfx = .ok m → ∀ g, ∃ g', WatchFold pfx g batches g'
  | [], _, _, g => ⟨g, .nil g⟩
  | events :: batches, m, h, g => by
    unfold graphChangesFromEvents at h
    rw [List.flatten_cons, List.foldlM_append] at h
    cases hs : events.foldlM (eventStep pfx) ∅ with
    | error e => rw [hs] at h; cases h
    | ok m₁ =>
      rw [hs] at h
      obtain ⟨m₂, hm₂⟩ := eventFold_ok_any batches.flatten h ∅
      obtain ⟨g', hg'⟩ := watchFold_exists batches hm₂ (applyWatchBatch g ⟨batchRevision events, m₁.values⟩)
      exact ⟨g', .cons hs (.refl _) hg'⟩

/-! ## Events carry what etcd holds -/

theorem eventEffect_write {s : EtcdState} {pfx : String} (key : ResourceKey) (w : Write) :
    (s.write w).held pfx key = (s.event w).toList.foldl (eventEffect pfx key) (s.held pfx key) := by
  unfold EtcdState.held EtcdState.write EtcdState.event
  cases hm : key.isMetadata with
  | true =>
    have hnone : ∀ kv : KeyValue, ¬ kv.Of pfx key := fun kv hof => by rw [hof.2] at hm; cases hm
    cases w.op with
    | put k v => simp [eventEffect, hnone]
    | delete k =>
      simp only [if_true]
      cases s.lookup k with
      | none => rfl
      | some kv => simp [eventEffect, hnone]
  | false =>
    simp only [Bool.false_eq_true, if_false]
    cases hop : w.op with
    | put k v =>
      simp only [Option.toList, List.foldl_cons, List.foldl_nil, eventEffect]
      rw [HashMap.lookup_insert]
      by_cases he : physicalKey pfx key = k
      · have hof : (s.putKv w.revision k v).Of pfx key := ⟨he.symm, hm⟩
        rw [if_pos he, if_pos hof]; rfl
      · have hof : ¬ (s.putKv w.revision k v).Of pfx key := fun hof => he hof.1.symm
        rw [if_neg he, if_neg hof]
    | delete k =>
      simp only
      rw [HashMap.lookup_erase]
      by_cases he : physicalKey pfx key = k
      · subst he
        rw [if_pos rfl]
        cases hs : s.lookup (physicalKey pfx key) with
        | none => rfl
        | some kv =>
          have hof : (⟨physicalKey pfx key, ByteArray.empty, 0, w.revision⟩ : KeyValue).Of pfx key := ⟨rfl, hm⟩
          simp only [Option.map_some, Option.toList, List.foldl_cons, List.foldl_nil, eventEffect, if_pos hof,
            Option.map_none]
      · rw [if_neg he]
        cases hs : s.lookup k with
        | none => rfl
        | some kv =>
          have hof : ¬ (⟨k, ByteArray.empty, 0, w.revision⟩ : KeyValue).Of pfx key := fun hof => he hof.1.symm
          simp only [Option.map_some, Option.toList, List.foldl_cons, List.foldl_nil, eventEffect, if_neg hof]

theorem events_held {pfx : String} (key : ResourceKey) : ∀ (ws : List Write) (s : EtcdState),
    (ws.foldl EtcdState.write s).held pfx key =
      (EtcdState.events s ws).foldl (eventEffect pfx key) (s.held pfx key)
  | [], _ => rfl
  | w :: ws, s => by
    rw [List.foldl_cons, events_held key ws (s.write w), eventEffect_write, EtcdState.events, List.foldl_append]

/-- An event outside the range changes no resource of the namespace. -/
theorem foldl_filter_inRange {rp pfx : String} (hc : Covers rp pfx) (key : ResourceKey) : ∀ (events : List Event)
    (o : Option StoredResource),
    (events.filter fun e => e.kv.any fun kv => History.inRange rp kv.key).foldl (eventEffect pfx key) o =
      events.foldl (eventEffect pfx key) o
  | [], _ => rfl
  | e :: events, o => by
    rw [List.filter_cons, List.foldl_cons]
    split
    · rw [List.foldl_cons]; exact foldl_filter_inRange hc key events _
    · rename_i hr
      rw [foldl_filter_inRange hc key events o]
      congr 1
      unfold eventEffect
      split
      · rfl
      · rename_i kv hkv
        rw [if_neg]
        intro hof
        rw [hkv, Option.any_some, hof.1, inRange_of_covers hc key] at hr
        exact hr rfl

/-- The events between two revisions turn what is held at the first into what is held at the second. -/
theorem history_events_held {h : History} {rp pfx : String} (hc : Covers rp pfx) {r r' : Int} (hr : r ≤ r')
    (key : ResourceKey) : (h.stateAt r').held pfx key =
      (h.events rp r r').foldl (eventEffect pfx key) ((h.stateAt r).held pfx key) := by
  rw [stateAt_later h hr, events_held]
  unfold History.events
  rw [foldl_filter_inRange hc]

/-- Whatever the split into batches and the order within each, folding the watch onto the earlier list gives
the resources of the later one. -/
theorem watch_agrees_with_list (h : History) (pfx rp : String) (hc : Covers rp (canonicalizePrefix pfx))
    {r₀ r₁ : Int} (hr : r₀ ≤ r₁) {kvs₀ kvs₁ : List KeyValue} (h₀ : kvs₀.Perm (h.range rp r₀))
    (h₁ : kvs₁.Perm (h.range rp r₁)) {g₀ g₁ : StoredGraph}
    (hg₀ : graphSnapshotFromList kvs₀ r₀ (canonicalizePrefix pfx) = .ok g₀)
    (hg₁ : graphSnapshotFromList kvs₁ r₁ (canonicalizePrefix pfx) = .ok g₁)
    {m : HashMap ResourceKey StoredChange}
    (hm : graphChangesFromEvents (h.events rp r₀ r₁) (canonicalizePrefix pfx) = .ok m)
    {batches : List (List Event)} (hb : batches.flatten = h.events rp r₀ r₁) :
    (∃ g, WatchFold (canonicalizePrefix pfx) g₀ batches g) ∧
    ∀ g, WatchFold (canonicalizePrefix pfx) g₀ batches g → HashMap.SameEntries g.resources g₁.resources ∧
      ∀ key, g.resources.lookup key = (h.stateAt r₁).held (canonicalizePrefix pfx) key := by
  have agree : ∀ g, WatchFold (canonicalizePrefix pfx) g₀ batches g → ∀ key,
      g.resources.lookup key = (h.stateAt r₁).held (canonicalizePrefix pfx) key := by
    intro g hg key
    rw [watchFold_lookup hg, hb, list_holds hc h₀ hg₀, ← history_events_held hc hr]
  refine ⟨watchFold_exists batches (by rw [hb]; exact hm) g₀, fun g hg => ⟨fun key => ?_, agree g hg⟩⟩
  rw [agree g hg, list_holds hc h₁ hg₁]

/-- A route deleted and created again, a service deleted and the guard renewed, with a foreign key beside them. -/
def sampleHistory : History where
  writes :=
    [⟨1, .put "/p/routes/r".toUTF8 "a".toUTF8⟩, ⟨2, .put "/p/services/s".toUTF8 "b".toUTF8⟩,
      ⟨3, .put "/px".toUTF8 "foreign".toUTF8⟩, ⟨4, .delete "/p/routes/r".toUTF8⟩,
      ⟨5, .put "/p/routes/r".toUTF8 "c".toUTF8⟩, ⟨6, .delete "/p/services/s".toUTF8⟩,
      ⟨6, .put "/p/.pingsix_graph_revision".toUTF8 "1".toUTF8⟩]
  ordered := by decide

theorem watch_agrees_with_list_sample :
    ∃ g₀ g₁ g, graphSnapshotFromList (sampleHistory.range "/p" 2) 2 (canonicalizePrefix "/p") = .ok g₀ ∧
      graphSnapshotFromList (sampleHistory.range "/p" 6) 6 (canonicalizePrefix "/p") = .ok g₁ ∧
      WatchFold (canonicalizePrefix "/p") g₀ [(sampleHistory.events "/p" 2 6).take 2,
        (sampleHistory.events "/p" 2 6).drop 2] g ∧
      HashMap.SameEntries g.resources g₁.resources := by
  have hg₀ : ∃ g, graphSnapshotFromList (sampleHistory.range "/p" 2) 2 (canonicalizePrefix "/p") = .ok g :=
    ⟨_, rfl⟩
  have hg₁ : ∃ g, graphSnapshotFromList (sampleHistory.range "/p" 6) 6 (canonicalizePrefix "/p") = .ok g :=
    ⟨_, rfl⟩
  have hm : ∃ m, graphChangesFromEvents (sampleHistory.events "/p" 2 6) (canonicalizePrefix "/p") = .ok m :=
    ⟨_, rfl⟩
  obtain ⟨g₀, hg₀⟩ := hg₀
  obtain ⟨g₁, hg₁⟩ := hg₁
  obtain ⟨m, hm⟩ := hm
  have hb : [(sampleHistory.events "/p" 2 6).take 2, (sampleHistory.events "/p" 2 6).drop 2].flatten =
      sampleHistory.events "/p" 2 6 := by simp
  obtain ⟨⟨g, hg⟩, agree⟩ := watch_agrees_with_list sampleHistory "/p" "/p" ⟨"/", by decide⟩ (by decide)
    (.refl _) (.refl _) hg₀ hg₁ hm hb
  exact ⟨g₀, g₁, g, hg₀, hg₁, hg, (agree g hg).1⟩

end Pingsix
