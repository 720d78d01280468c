import Pingsix.Decode
import Pingsix.EtcdStore
import Pingsix.Lib.Except
import Pingsix.SyncSound

/-!
# Keys round trip between Admin and sync

`withPrefix` writes a resource under its physical key. Both decoders and the
exact read take that key back to the resource, and the guarded transaction that
stored it leaves a store in which it can be read, updated and deleted, exactly
when its id does not start with a dot.
-/

namespace Pingsix

theorem toUTF8_inj {s t : String} (h : s.toUTF8 = t.toUTF8) : s = t := by
  have := Utf8.fromUtf8_toUTF8 s
  rw [h, Utf8.fromUtf8_toUTF8] at this
  exact (Except.ok.inj this).symm

theorem Text.trimStartMatches_cons {s : String} {c d : Char} {l : List Char} (hs : s.toList = d :: l) (hd : d ≠ c) :
    Text.trimStartMatches s c = s := by
  unfold Text.trimStartMatches
  rw [hs, List.dropWhile_cons_of_neg (by simpa using hd), ← hs, String.ofList_toList]

def guardKey (canonicalPrefix : String) : ByteArray := (canonicalPrefix ++ graphRevisionKey).toUTF8

theorem guardKey_ne_physicalKey (p : String) (key : ResourceKey) : guardKey p ≠ physicalKey p key := by
  intro h
  have := toUTF8_inj h
  rw [String.append_right_inj] at this
  exact logicalPath_ne_graphRevisionKey key this.symm

theorem inRange_append (q t : String) : History.inRange q (q ++ t).toUTF8 = true := by
  unfold History.inRange
  rw [List.isPrefixOf_iff_prefix]
  simp

namespace EtcdGraphStore

variable {p : String} {e e' : Etcd} {commit : GraphCommit} {key : ResourceKey}

theorem withPrefix_kind (p : String) (kind : ResourceKind) (t : String) :
    withPrefix p (kind.asStr ++ t) = p ++ (kind.asStr ++ t) := by
  cases hl : kind.asStr.toList with
  | nil => exact absurd (String.toList_eq_nil_iff.mp hl) kind.asStr_ne_empty
  | cons d l =>
    have hd : d ≠ '/' := fun hd => kind.slash_notMem_asStr (by rw [hl, hd]; exact List.mem_cons_self)
    rw [withPrefix, Text.trimStartMatches_cons (by rw [String.toList_append, hl]; rfl) hd]

theorem withPrefix_logicalPath (p : String) (key : ResourceKey) :
    (withPrefix p key.logicalPath).toUTF8 = physicalKey p key := by
  have : key.logicalPath = key.kind.asStr ++ ("/" ++ key.id) := String.append_assoc ..
  rw [physicalKey, this, withPrefix_kind]

theorem withPrefix_guard (p : String) : (withPrefix p graphRevisionKey).toUTF8 = guardKey p := by
  rw [withPrefix, Text.trimStartMatches_cons (show graphRevisionKey.toList = '.' :: _ from rfl) (by decide), guardKey]

/-! ## The guarded transaction -/

theorem filter_bounded (e : Etcd) {r : Int} (hr : e.revision ≤ r) :
    e.history.writes.filter (fun w => decide (w.revision ≤ r)) = e.history.writes := by
  refine List.filter_eq_self.mpr fun w hw => ?_
  have := e.bounded w hw
  simp; omega

theorem transact_state (e : Etcd) (ops : List EtcdOp) : (e.transact ops).state =
    (ops.map (Write.mk (e.revision + 1))).foldl EtcdState.write e.state := by
  have h : (ops.map (Write.mk (e.revision + 1))).filter (fun w => decide (w.revision ≤ e.revision + 1)) =
      ops.map (Write.mk (e.revision + 1)) := by
    refine List.filter_eq_self.mpr fun w hw => ?_
    obtain ⟨op, _, rfl⟩ := List.mem_map.mp hw
    simp
  show ((e.history.writes ++ ops.map (Write.mk (e.revision + 1))).filter
    fun w => decide (w.revision ≤ e.revision + 1)).foldl EtcdState.write ∅ = _
  rw [List.filter_append, List.foldl_append, h, Etcd.state, History.stateAt, filter_bounded e (Int.le_refl _),
    filter_bounded e (by omega)]

theorem expecting_holds {s : EtcdState} {k : ByteArray} {o : Option Int}
    (h : (s.lookup k).map (·.modRevision) = o) : (Compare.expecting k o).holds s = true := by
  cases hs : s.lookup k with
  | none =>
    rw [hs] at h
    cases h
    show decide (((s.lookup k).map (·.createRevision)).getD 0 = 0) = true
    rw [hs]
    rfl
  | some kv =>
    rw [hs] at h
    cases h
    show decide (((s.lookup k).map (·.modRevision)).getD 0 = kv.modRevision) = true
    rw [hs]
    exact decide_eq_true rfl

theorem compareAndSwap_eq (p : String) (e : Etcd) (commit : GraphCommit) : compareAndSwap p e commit =
    if (Compare.expecting (physicalKey p commit.mutation.key) commit.expectedTargetModRevision).holds e.state ∧
        (Compare.expecting (guardKey p) commit.expectedGuardModRevision).holds e.state
    then (e.transact (mutationOps p commit.mutation), .ok (e.revision + 1)) else (e, .error .conflict) := by
  have txn : ∀ key ops, e.txn [Compare.expecting (physicalKey p key) commit.expectedTargetModRevision,
      Compare.expecting (guardKey p) commit.expectedGuardModRevision] ops =
      if (Compare.expecting (physicalKey p key) commit.expectedTargetModRevision).holds e.state ∧
        (Compare.expecting (guardKey p) commit.expectedGuardModRevision).holds e.state
      then some (e.transact ops) else none := by
    intro key ops
    unfold Etcd.txn
    simp only [List.all_cons, List.all_nil, Bool.and_true, Bool.and_eq_true]
  unfold compareAndSwap graphTxn
  cases commit.mutation with
  | put key value =>
    simp only [withPrefix_logicalPath, withPrefix_guard, txn]
    by_cases hc : (Compare.expecting (physicalKey p key) commit.expectedTargetModRevision).holds e.state ∧
        (Compare.expecting (guardKey p) commit.expectedGuardModRevision).holds e.state
    · rw [if_pos hc]
      exact (if_pos hc).symm
    · rw [if_neg hc]
      exact (if_neg hc).symm
  | delete key =>
    simp only [withPrefix_logicalPath, withPrefix_guard, txn]
    by_cases hc : (Compare.expecting (physicalKey p key) commit.expectedTargetModRevision).holds e.state ∧
        (Compare.expecting (guardKey p) commit.expectedGuardModRevision).holds e.state
    · rw [if_pos hc]
      exact (if_pos hc).symm
    · rw [if_neg hc]
      exact (if_neg hc).symm

theorem compareAndSwap_ok {revision : Int} (h : compareAndSwap p e commit = (e', .ok revision)) :
    e' = e.transact (mutationOps p commit.mutation) ∧ revision = e.revision + 1 := by
  rw [compareAndSwap_eq] at h
  split at h
  · cases h
    exact ⟨rfl, rfl⟩
  · cases h

theorem lookup_write_put (s : EtcdState) (r : Int) (k v a : ByteArray) :
    (s.write ⟨r, .put k v⟩).lookup a = if a = k then some (s.putKv r k v) else s.lookup a :=
  HashMap.lookup_insert s k a _

theorem lookup_write_delete (s : EtcdState) (r : Int) (k a : ByteArray) :
    (s.write ⟨r, .delete k⟩).lookup a = if a = k then none else s.lookup a := HashMap.lookup_erase s k a

theorem putKv_congr {s s' : EtcdState} {r : Int} {k v : ByteArray} (h : s.lookup k = s'.lookup k) :
    s.putKv r k v = s'.putKv r k v := by
  simp only [EtcdState.putKv, h]

/-- What a committed mutation leaves under each key. -/
theorem lookup_transact (p : String) (e : Etcd) (m : StoredMutation) (k : ByteArray) :
    (e.transact (mutationOps p m)).state.lookup k =
      if k = guardKey p then some (e.state.putKv (e.revision + 1) k graphProtocolVersion)
      else if k = physicalKey p m.key then
        match m with
        | .put _ value => some (e.state.putKv (e.revision + 1) k value)
        | .delete _ => none
      else e.state.lookup k := by
  rw [transact_state]
  cases m with
  | put key value =>
    show AList.lookup k ((e.state.write ⟨e.revision + 1, .put (physicalKey p key) value⟩).write
      ⟨e.revision + 1, .put (guardKey p) graphProtocolVersion⟩) = _
    rw [lookup_write_put]
    by_cases hg : k = guardKey p
    · subst hg
      rw [if_pos rfl, if_pos rfl]
      rw [putKv_congr]
      rw [lookup_write_put, if_neg (guardKey_ne_physicalKey p key)]
    · rw [if_neg hg, if_neg hg, lookup_write_put]
      by_cases hk : k = physicalKey p key
      · subst hk
        rfl
      · rw [if_neg hk]
        exact (if_neg hk).symm
  | delete key =>
    show AList.lookup k ((e.state.write ⟨e.revision + 1, .delete (physicalKey p key)⟩).write
      ⟨e.revision + 1, .put (guardKey p) graphProtocolVersion⟩) = _
    rw [lookup_write_put]
    by_cases hg : k = guardKey p
    · subst hg
      rw [if_pos rfl, if_pos rfl]
      rw [putKv_congr]
      rw [lookup_write_delete, if_neg (guardKey_ne_physicalKey p key)]
    · rw [if_neg hg, if_neg hg, lookup_write_delete]
      rfl

/-! ## Snapshots -/

theorem mem_range_state {kv : KeyValue} : kv ∈ e.history.range p e.revision ↔
    e.state.lookup kv.key = some kv ∧ History.inRange p kv.key = true := mem_range_iff

theorem keyed_state (e : Etcd) : e.state.Keyed := keyed_stateAt e.history e.revision

/-- Among the keys of the namespace only the guard decodes to the guard's name. -/
theorem eq_guardKey_iff {kv : KeyValue} (hr : History.inRange p kv.key = true) :
    Utf8.fromUtf8Lossy kv.key = p ++ graphRevisionKey ↔ kv.key = guardKey p := by
  constructor
  · intro h
    have hascii : graphRevisionKey.toList.all (fun c => 0 < c.toNat && c.toNat < 0x80) = true := rfl
    refine Utf8.fromUtf8Lossy_ascii (List.isPrefixOf_iff_prefix.mp hr) (fun c hc => ?_) h
    simpa using List.all_eq_true.mp hascii c hc
  · intro h
    rw [h, guardKey]
    exact Utf8.fromUtf8Lossy_of_ok (Utf8.fromUtf8_toUTF8 _)

theorem listStep_guard {acc acc' : HashMap ResourceKey StoredResource × Option Int} {kv : KeyValue}
    (hr : History.inRange p kv.key = true) (h : listStep p acc kv = .ok acc') :
    acc'.2 = if kv.key = guardKey p then some kv.modRevision else acc.2 := by
  unfold listStep at h
  simp only [eq_guardKey_iff hr] at h
  split at h
  · rename_i hp
    cases h
    rw [if_neg]
    intro hk
    rw [(eq_guardKey_iff hr).mpr hk, Text.startsWith_iff.mpr ⟨_, rfl⟩] at hp
    cases hp
  split at h
  · rename_i hk
    rw [if_pos hk]
    obtain ⟨_, _, h⟩ := Except.bind_eq_ok.mp h
    cases h
    rfl
  · rename_i hk
    rw [if_neg hk]
    split at h
    · cases h
      rfl
    split at h
    · cases h
    · cases h
      rfl

theorem listFold_guard : ∀ (kvs : List KeyValue) {acc acc' : HashMap ResourceKey StoredResource × Option Int},
    (∀ kv ∈ kvs, History.inRange p kv.key = true) → kvs.foldlM (listStep p) acc = .ok acc' →
    acc'.2 = kvs.foldl (fun o kv => if kv.key = guardKey p then some kv.modRevision else o) acc.2
  | [], _, _, _, h => by
    cases h
    rfl
  | kv :: kvs, acc, acc', hr, h => by
    rw [List.foldlM_cons] at h
    obtain ⟨acc₁, hs, h⟩ := Except.bind_eq_ok.mp h
    rw [listFold_guard kvs (fun kv' hkv => hr kv' (List.mem_cons_of_mem _ hkv)) h, List.foldl_cons,
      listStep_guard (hr kv List.mem_cons_self) hs]

theorem snapshot_fold {kvs : List KeyValue} {r : Int} {g : StoredGraph}
    (h : graphSnapshotFromList kvs r p = .ok g) : g.revision = r ∧
      kvs.foldlM (listStep p) (∅, none) = .ok (g.resources, g.guardModRevision) := by
  unfold graphSnapshotFromList at h
  obtain ⟨acc, hf, h⟩ := Except.bind_eq_ok.mp h
  cases h
  exact ⟨rfl, hf⟩

variable {g g' : StoredGraph}

theorem snapshot_revision (h : Snapshot p e g) : g.revision = e.revision := by
  obtain ⟨kvs, _, h⟩ := h
  exact (snapshot_fold h).1

/-- A snapshot holds of each resource what the state does; metadata keys are left out. -/
theorem snapshot_lookup (h : Snapshot p e g) (key : ResourceKey) : g.resources.lookup key = e.state.held p key := by
  obtain ⟨kvs, hp, h⟩ := h
  exact list_holds ⟨"", by simp⟩ hp h key

theorem snapshot_guard (h : Snapshot p e g) :
    g.guardModRevision = (e.state.lookup (guardKey p)).map (·.modRevision) := by
  obtain ⟨kvs, hp, h⟩ := h
  have hmem : ∀ kv, kv ∈ kvs ↔ e.state.lookup kv.key = some kv ∧ History.inRange p kv.key = true :=
    fun kv => hp.mem_iff.trans mem_range_state
  have hf := listFold_guard kvs (fun kv hkv => ((hmem kv).mp hkv).2) (snapshot_fold h).2
  refine hf.trans ?_
  cases hs : e.state.lookup (guardKey p) with
  | none =>
    refine foldl_last_none kvs none fun kv hkv hk => ?_
    have := ((hmem kv).mp hkv).1
    rw [hk, hs] at this
    cases this
  | some kv₀ =>
    have hk₀ := keyed_state e _ _ hs
    refine foldl_last_mem none (fun kv hkv hk => ?_) ((hmem kv₀).mpr ?_) hk₀
    · have := ((hmem kv).mp hkv).1
      rw [hk, hs] at this
      exact (Option.some.inj this).symm
    · rw [hk₀]
      exact ⟨hs, inRange_append p graphRevisionKey⟩

/-! ## A snapshot decodes again after a commit -/

/-- Whether a pair is refused does not depend on the pairs before it. -/
theorem listStep_ok_any {acc acc' : HashMap ResourceKey StoredResource × Option Int} {kv : KeyValue}
    (h : listStep p acc kv = .ok acc') (other : HashMap ResourceKey StoredResource × Option Int) :
    ∃ other', listStep p other kv = .ok other' := by
  unfold listStep at h ⊢
  simp only at h ⊢
  split
  · exact ⟨other, rfl⟩
  rename_i hp
  rw [if_neg hp] at h
  split
  · rename_i hk
    rw [if_pos hk] at h
    obtain ⟨_, hv, _⟩ := Except.bind_eq_ok.mp h
    exact ⟨_, Except.bind_eq_ok.mpr ⟨_, hv, rfl⟩⟩
  rename_i hk
  rw [if_neg hk] at h
  split
  · exact ⟨other, rfl⟩
  rename_i hm
  rw [if_neg hm] at h
  cases hd : physicalKeyToResourceKey kv.key p with
  | error message =>
    rw [hd] at h
    cases h
  | ok resourceKey => exact ⟨_, rfl⟩

theorem listFold_ok_iff : ∀ (kvs : List KeyValue) (acc : HashMap ResourceKey StoredResource × Option Int),
    (∃ acc', kvs.foldlM (listStep p) acc = .ok acc') ↔ ∀ kv ∈ kvs, ∃ acc', listStep p (∅, none) kv = .ok acc'
  | [], acc => by
    constructor
    · simp
    · exact fun _ => ⟨acc, rfl⟩
  | kv :: kvs, acc => by
    rw [List.foldlM_cons, List.forall_mem_cons]
    constructor
    · intro h
      obtain ⟨acc', h⟩ := h
      obtain ⟨acc₁, hs, h⟩ := Except.bind_eq_ok.mp h
      exact ⟨listStep_ok_any hs _, (listFold_ok_iff kvs acc₁).mp ⟨acc', h⟩⟩
    · intro h
      obtain ⟨_, hs⟩ := h.1
      obtain ⟨acc₁, hs⟩ := listStep_ok_any hs acc
      obtain ⟨acc', hf⟩ := (listFold_ok_iff kvs acc₁).mpr h.2
      exact ⟨acc', Except.bind_eq_ok.mpr ⟨acc₁, hs, hf⟩⟩

theorem snapshot_exists_iff : (∃ g, Snapshot p e g) ↔
    ∀ kv ∈ e.history.range p e.revision, ∃ acc', listStep p (∅, none) kv = .ok acc' := by
  constructor
  · intro h
    obtain ⟨g, kvs, hp, h⟩ := h
    have := (listFold_ok_iff kvs (∅, none)).mp ⟨_, (snapshot_fold h).2⟩
    exact fun kv hkv => this kv (hp.mem_iff.mpr hkv)
  · intro h
    obtain ⟨acc, hf⟩ := (listFold_ok_iff (e.history.range p e.revision) (∅, none)).mpr h
    refine ⟨⟨acc.1, acc.2, e.revision⟩, _, .refl _, ?_⟩
    unfold graphSnapshotFromList
    rw [hf]
    rfl

theorem listStep_guardKey (kv : KeyValue) (hk : kv.key = guardKey p) (hv : kv.value = graphProtocolVersion) :
    listStep p (∅, none) kv = .ok (∅, some kv.modRevision) := by
  have hl : Utf8.fromUtf8Lossy kv.key = p ++ graphRevisionKey := by
    rw [hk, guardKey]
    exact Utf8.fromUtf8Lossy_of_ok (Utf8.fromUtf8_toUTF8 _)
  have hp : Text.startsWith (p ++ graphRevisionKey) p = true := Text.startsWith_iff.mpr ⟨_, rfl⟩
  have hg : validateGuardValue graphProtocolVersion = .ok () := by simp [validateGuardValue]
  simp only [listStep, hl, hp, hv, hg, Bool.not_true, Bool.false_eq_true, if_false, if_true]
  rfl

theorem listStep_physicalKey (acc : HashMap ResourceKey StoredResource × Option Int) {kv : KeyValue}
    (hk : kv.key = physicalKey p key) : listStep p acc kv =
      .ok (if key.isMetadata then acc else (acc.1.insert key kv.toStored, acc.2)) := by
  have hl : Utf8.fromUtf8Lossy kv.key = p ++ key.logicalPath := by
    rw [hk, physicalKey]
    exact Utf8.fromUtf8Lossy_of_ok (Utf8.fromUtf8_toUTF8 _)
  have hg : p ++ key.logicalPath ≠ p ++ graphRevisionKey := by
    rw [Ne, String.append_right_inj]
    exact logicalPath_ne_graphRevisionKey key
  have hm : isMetadataKey kv.key = key.isMetadata := by rw [hk, isMetadataKey_physicalKey]
  have hd := physicalKeyToResourceKey_eq_ok.mpr hk
  simp only [listStep, hl, startsWith_physicalKey, hg, hm, hd, Bool.not_true, Bool.false_eq_true, if_false]
  by_cases h : key.isMetadata = true
  · rw [if_pos h, if_pos h]
  · rw [if_neg h, if_neg h]

theorem snapshot_transact (m : StoredMutation) (h : Snapshot p e g) :
    ∃ g', Snapshot p (e.transact (mutationOps p m)) g' := by
  refine snapshot_exists_iff.mpr fun kv hkv => ?_
  obtain ⟨hl, hr⟩ := mem_range_state.mp hkv
  rw [lookup_transact] at hl
  by_cases hg : kv.key = guardKey p
  · rw [if_pos hg, Option.some.injEq] at hl
    exact ⟨_, listStep_guardKey kv hg (by rw [← hl]; rfl)⟩
  rw [if_neg hg] at hl
  by_cases hk : kv.key = physicalKey p m.key
  · exact ⟨_, listStep_physicalKey _ hk⟩
  · rw [if_neg hk] at hl
    exact snapshot_exists_iff.mp ⟨g, h⟩ kv (mem_range_state.mpr ⟨hl, hr⟩)

/-! ## The round trip -/

theorem getExact_eq (p : String) (e : Etcd) (key : ResourceKey) :
    getExact p e key = (e.state.lookup (physicalKey p key)).map (·.toStored) := by
  rw [getExact, withPrefix_logicalPath]

theorem snapshot_getExact (hm : key.isMetadata = false) (h : Snapshot p e g) :
    g.resources.lookup key = getExact p e key := by
  rw [snapshot_lookup h, getExact_eq]
  simp [EtcdState.held, hm]

theorem getExact_transact (p : String) (e : Etcd) (m : StoredMutation) :
    getExact p (e.transact (mutationOps p m)) m.key =
      match m with
      | .put key value => some (e.state.putKv (e.revision + 1) (physicalKey p key) value).toStored
      | .delete _ => none := by
  rw [getExact_eq, lookup_transact, if_neg (guardKey_ne_physicalKey p m.key).symm, if_pos rfl]
  cases m with
  | put key value => rfl
  | delete key => rfl

/-- A commit with the expectations of a snapshot of the same state is accepted. -/
theorem compareAndSwap_snapshot (h : Snapshot p e g)
    (ht : commit.expectedTargetModRevision = (getExact p e commit.mutation.key).map (·.modRevision))
    (hg : commit.expectedGuardModRevision = g.guardModRevision) :
    compareAndSwap p e commit = (e.transact (mutationOps p commit.mutation), .ok (e.revision + 1)) := by
  rw [compareAndSwap_eq, if_pos]
  constructor
  · apply expecting_holds
    rw [ht, getExact_eq, Option.map_map]
    rfl
  · apply expecting_holds
    rw [hg, snapshot_guard h]

theorem kindEntry_eq_ok {kind : ResourceKind} {kv : KeyValue} {view : ResourceKey × StoredResource} :
    kindEntry p kind kv = .ok view ↔ kv.key = physicalKey p view.1 ∧ view.1.kind = kind ∧ view.2 = kv.toStored := by
  unfold kindEntry
  cases hd : physicalKeyToResourceKey kv.key p with
  | error message =>
    simp only [reduceCtorEq, false_iff]
    intro h
    rw [physicalKeyToResourceKey_eq_ok.mpr h.1] at hd
    cases hd
  | ok key =>
    have hk := physicalKeyToResourceKey_eq_ok.mp hd
    simp only [hk, physicalKey_inj]
    by_cases hkind : key.kind = kind
    · simp only [hkind, ne_eq, not_true, if_false, Except.ok.injEq]
      constructor
      · rintro rfl
        exact ⟨rfl, hkind, rfl⟩
      · intro h
        exact Prod.ext h.1 h.2.2.symm
    · simp only [ne_eq, hkind, not_false_eq_true, if_true, reduceCtorEq, false_iff]
      rintro ⟨rfl, h, _⟩
      exact hkind h

theorem mem_listKind {kvs : List KeyValue} {views : List (ResourceKey × StoredResource)}
    (hp : kvs.Perm (kindRange p key.kind e)) (h : listKind p key.kind kvs = .ok views) (stored : StoredResource) :
    (key, stored) ∈ views ↔ getExact p e key = some stored := by
  have hr : History.inRange (withPrefix p (key.kind.asStr ++ "/")) (physicalKey p key) = true := by
    have : p ++ key.logicalPath = p ++ (key.kind.asStr ++ "/") ++ key.id := by
      simp [ResourceKey.logicalPath, String.append_assoc]
    rw [withPrefix_kind, physicalKey, this]
    exact inRange_append _ _
  rw [Except.mem_mapM h, getExact_eq, Option.map_eq_some_iff]
  simp only [kindEntry_eq_ok, true_and, hp.mem_iff]
  constructor
  · intro h
    obtain ⟨kv, hkv, hk, hs⟩ := h
    obtain ⟨hl, _⟩ := mem_range_iff.mp hkv
    rw [hk] at hl
    exact ⟨kv, hl, hs.symm⟩
  · intro h
    obtain ⟨kv, hl, hs⟩ := h
    have hk := keyed_state e _ _ hl
    refine ⟨kv, mem_range_iff.mpr ⟨?_, ?_⟩, hk, hs.symm⟩
    · rw [hk]
      exact hl
    · rw [hk]
      exact hr

/-- What is asked of a resource key under a configured prefix. -/
structure RoundTrips (pfx : String) (key : ResourceKey) : Prop where
  decodes : physicalKeyToResourceKey (withPrefix (canonicalizePrefix pfx) key.logicalPath).toUTF8
    (canonicalizePrefix pfx) = .ok key
  separate : ∀ key', withPrefix (canonicalizePrefix pfx) key'.logicalPath =
    withPrefix (canonicalizePrefix pfx) key.logicalPath → key' = key
  listed : ∀ acc kv, kv.key = (withPrefix (canonicalizePrefix pfx) key.logicalPath).toUTF8 →
    listStep (canonicalizePrefix pfx) acc kv = .ok (acc.1.insert key kv.toStored, acc.2)
  watched : ∀ m kv, kv.key = (withPrefix (canonicalizePrefix pfx) key.logicalPath).toUTF8 →
    eventStep (canonicalizePrefix pfx) m ⟨.put, some kv⟩ = .ok (m.insert key (.put key kv.toStored)) ∧
    eventStep (canonicalizePrefix pfx) m ⟨.delete, some kv⟩ = .ok (m.insert key (.delete key))
  /-- In every state of etcd the snapshot and the exact read agree. -/
  read : ∀ e g, Snapshot (canonicalizePrefix pfx) e g →
    g.resources.lookup key = getExact (canonicalizePrefix pfx) e key
  kindListed : ∀ e kvs views, kvs.Perm (kindRange (canonicalizePrefix pfx) key.kind e) →
    listKind (canonicalizePrefix pfx) key.kind kvs = .ok views → ∀ stored,
    (key, stored) ∈ views ↔ getExact (canonicalizePrefix pfx) e key = some stored
  /-- An accepted PUT is in the next snapshot and in the exact read. -/
  visible : ∀ e commit e' revision value, commit.mutation = .put key value →
    compareAndSwap (canonicalizePrefix pfx) e commit = (e', .ok revision) →
    ((∃ g, Snapshot (canonicalizePrefix pfx) e g) → ∃ g', Snapshot (canonicalizePrefix pfx) e' g') ∧
    ∃ createRevision, getExact (canonicalizePrefix pfx) e' key = some ⟨value, createRevision, revision⟩ ∧
      ∀ g', Snapshot (canonicalizePrefix pfx) e' g' → g'.revision = revision ∧
        g'.resources.lookup key = some ⟨value, createRevision, revision⟩
  /-- What is stored can be updated and deleted from its snapshot. -/
  updatable : ∀ e g stored, Snapshot (canonicalizePrefix pfx) e g →
    getExact (canonicalizePrefix pfx) e key = some stored → ∀ ext keyring value commit,
    planPutMutation ext keyring g key value = .ok commit →
    ∃ e' createRevision, compareAndSwap (canonicalizePrefix pfx) e commit = (e', .ok (e.revision + 1)) ∧
      getExact (canonicalizePrefix pfx) e' key = some ⟨value, createRevision, e.revision + 1⟩
  deletable : ∀ e g stored, Snapshot (canonicalizePrefix pfx) e g →
    getExact (canonicalizePrefix pfx) e key = some stored → ∀ ext keyring,
    planDeleteMutation ext keyring g key ≠ .error (.notFound key) ∧
    ∀ commit, planDeleteMutation ext keyring g key = .ok commit →
      ∃ e', compareAndSwap (canonicalizePrefix pfx) e commit = (e', .ok (e.revision + 1)) ∧
        getExact (canonicalizePrefix pfx) e' key = none

theorem roundTrips_of_resource (pfx : String) {key : ResourceKey} (hm : key.isMetadata = false) :
    RoundTrips pfx key where
  decodes := by
    rw [withPrefix_logicalPath]
    exact physicalKeyToResourceKey_eq_ok.mpr rfl
  separate key' h := by
    have := congrArg String.toUTF8 h
    rw [withPrefix_logicalPath, withPrefix_logicalPath] at this
    exact physicalKey_inj.mp this
  listed acc kv hk := by
    rw [withPrefix_logicalPath] at hk
    rw [listStep_physicalKey acc hk, hm]
    rfl
  watched m kv hk := by
    rw [withPrefix_logicalPath] at hk
    have hof : kv.Of (canonicalizePrefix pfx) key := ⟨hk, hm⟩
    have hd := physicalKeyToResourceKey_eq_ok.mpr hk
    constructor
    · simp [eventStep, hof.fromUtf8Lossy, hof.isMetadataKey, startsWith_physicalKey, hd]
    · simp [eventStep, hof.fromUtf8Lossy, hof.isMetadataKey, startsWith_physicalKey, hd]
  read e g h := snapshot_getExact hm h
  kindListed e kvs views hp h stored := mem_listKind hp h stored
  visible e commit e' revision value hput h := by
    obtain ⟨rfl, rfl⟩ := compareAndSwap_ok h
    have hx := getExact_transact (canonicalizePrefix pfx) e commit.mutation
    rw [hput] at hx ⊢
    refine ⟨fun h => ?_, _, hx, fun g' hg' => ⟨snapshot_revision hg', ?_⟩⟩
    · obtain ⟨g, hg⟩ := h
      exact snapshot_transact _ hg
    · rw [snapshot_getExact hm hg']
      exact hx
  updatable e g stored hg hs ext keyring value commit hp := by
    unfold planPutMutation at hp
    split at hp
    · cases hp
    split at hp
    · cases hp
    · cases hp
      refine ⟨_, _, compareAndSwap_snapshot hg ?_ rfl, getExact_transact _ e (.put key value)⟩
      rw [snapshot_getExact hm hg]
      rfl
  deletable e g stored hg hs ext keyring := by
    have hl : g.resources.lookup key = some stored := by rw [snapshot_getExact hm hg, hs]
    unfold planDeleteMutation
    rw [hl]
    constructor
    · intro hd
      simp only at hd
      repeat' split at hd
      all_goals cases hd
    · intro commit hd
      simp only at hd
      split at hd
      · cases hd
      split at hd
      · cases hd
      · cases hd
        refine ⟨_, compareAndSwap_snapshot hg ?_ rfl, getExact_transact _ e (.delete key)⟩
        show _ = (getExact _ e key).map _
        rw [hs]
        rfl

/-- The list skips a key whose id starts with a dot as metadata. -/
theorem RoundTrips.resource {pfx : String} (h : RoundTrips pfx key) : key.isMetadata = false := by
  have hl := h.listed (∅, none) ⟨_, ByteArray.empty, 0, 0⟩ rfl
  rw [listStep_physicalKey _ (withPrefix_logicalPath _ _)] at hl
  cases hm : key.isMetadata with
  | false => rfl
  | true =>
    rw [hm, if_pos rfl] at hl
    have := congrArg (fun acc => AList.lookup key acc.1) (Except.ok.inj hl)
    simp only [HashMap.lookup_insert_self, HashMap.lookup_empty] at this
    cases this

/-- The round trip holds of exactly the keys whose id does not start with a dot. -/
theorem roundTrips_iff (pfx : String) (key : ResourceKey) : RoundTrips pfx key ↔ key.isMetadata = false :=
  ⟨RoundTrips.resource, roundTrips_of_resource pfx⟩

/-- An accepted PUT of the route `.hidden` that the exact read shows and the next snapshot does not. -/
theorem dotted_id_not_visible :
    let key : ResourceKey := ⟨.route, ".hidden", by decide⟩
    let empty : Etcd := ⟨⟨[], .nil⟩, 0, by simp, by decide⟩
    let put : GraphCommit := ⟨.put key "\x7b\x7d".toUTF8, none, none⟩
    ResourceKey.new .route ".hidden" = .ok key ∧ ¬ RoundTrips "/apisix" key ∧
    ∃ e', compareAndSwap "/apisix/" empty put = (e', .ok 1) ∧
      getExact "/apisix/" e' key = some ⟨"\x7b\x7d".toUTF8, 1, 1⟩ ∧
      ∃ g, Snapshot "/apisix/" e' g ∧ g.resources.lookup key = none := by
  intro key empty put
  have hs : Snapshot "/apisix/" empty ⟨∅, none, 0⟩ := ⟨[], .nil, rfl⟩
  obtain ⟨g, hg⟩ := snapshot_transact put.mutation hs
  have hx := getExact_transact "/apisix/" empty put.mutation
  refine ⟨by decide, fun h => absurd h.resource (by decide), _, compareAndSwap_snapshot hs rfl rfl, hx, g, hg, ?_⟩
  rw [snapshot_lookup hg, EtcdState.held, if_pos (by decide)]

end EtcdGraphStore

end Pingsix
