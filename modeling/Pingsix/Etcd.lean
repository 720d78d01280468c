import Pingsix.Sync

/-!
# The etcd the control plane relies on

Writes in revision order, the state they leave, a linearizable list at a
revision and the gap-free events between two revisions. Nothing here is
translated: it states what is assumed of etcd.
-/

namespace Pingsix

inductive EtcdOp where
  | put (key value : ByteArray)
  | delete (key : ByteArray)
  deriving DecidableEq

structure Write where
  revision : Int
  op : EtcdOp
  deriving DecidableEq

abbrev EtcdState := HashMap ByteArray KeyValue

namespace EtcdState

/-- A put keeps the create revision of a live key and renews that of an absent one. -/
def putKv (s : EtcdState) (revision : Int) (key value : ByteArray) : KeyValue :=
  ⟨key, value, ((s.lookup key).map (·.createRevision)).getD revision, revision⟩

def write (s : EtcdState) (w : Write) : EtcdState :=
  match w.op with
  | .put key value => AList.insert key (putKv s w.revision key value) s
  | .delete key => AList.erase key s

/-- The event a write causes; deleting an absent key causes none. -/
def event (s : EtcdState) (w : Write) : Option Event :=
  match w.op with
  | .put key value => some ⟨.put, some (putKv s w.revision key value)⟩
  | .delete key => (s.lookup key).map fun _ => ⟨.delete, some ⟨key, ByteArray.empty, 0, w.revision⟩⟩

def events : EtcdState → List Write → List Event
  | _, [] => []
  | s, w :: ws => (event s w).toList ++ events (write s w) ws

end EtcdState

/-- All writes so far, in revision order; the writes of one transaction share their revision. -/
structure History where
  writes : List Write
  ordered : writes.Pairwise fun w w' => w.revision ≤ w'.revision

namespace History

def stateAt (h : History) (r : Int) : EtcdState :=
  (h.writes.filter (·.revision ≤ r)).foldl EtcdState.write ∅

def inRange (pfx : String) (key : ByteArray) : Bool := pfx.toUTF8.data.toList.isPrefixOf key.data.toList

/-- The pairs a prefix list at revision `r` returns, up to order. -/
def range (h : History) (pfx : String) (r : Int) : List KeyValue :=
  (h.stateAt r).values.filter fun kv => inRange pfx kv.key

/-- The events a prefix watch delivers for the revisions after `r` up to `r'`. -/
def events (h : History) (pfx : String) (r r' : Int) : List Event :=
  (EtcdState.events (h.stateAt r) (h.writes.filter fun w => r < w.revision ∧ w.revision ≤ r')).filter
    fun e => e.kv.any fun kv => inRange pfx kv.key

end History

/-- The resource etcd holds for a key; metadata keys are not resources. -/
def EtcdState.held (s : EtcdState) (pfx : String) (key : ResourceKey) : Option StoredResource :=
  if key.isMetadata then none else (s.lookup (physicalKey pfx key)).map (·.toStored)

/-! ## States and events -/

/-- Every value is stored under its own key. -/
def EtcdState.Keyed (s : EtcdState) : Prop := ∀ k kv, s.lookup k = some kv → kv.key = k

theorem keyed_write {s : EtcdState} (hs : s.Keyed) (w : Write) : (s.write w).Keyed := by
  intro k kv hk
  unfold EtcdState.write at hk
  split at hk
  · rw [HashMap.lookup_insert] at hk
    split at hk
    · rename_i he
      rw [Option.some.injEq] at hk
      rw [← hk, he]; rfl
    · exact hs k kv hk
  · rw [HashMap.lookup_erase] at hk
    split at hk
    · cases hk
    · exact hs k kv hk

theorem keyed_foldl : ∀ (ws : List Write) {s : EtcdState}, s.Keyed → (ws.foldl EtcdState.write s).Keyed
  | [], _, hs => hs
  | w :: ws, _, hs => keyed_foldl ws (keyed_write hs w)

theorem keyed_stateAt (h : History) (r : Int) : (h.stateAt r).Keyed :=
  keyed_foldl _ fun k kv hk => by rw [HashMap.lookup_empty] at hk; cases hk

/-! ## Growth and splitting -/

/-- An etcd: all writes so far and its current revision. -/
structure Etcd where
  history : History
  revision : Int
  bounded : ∀ w ∈ history.writes, w.revision ≤ revision
  nonneg : 0 ≤ revision

/-- A transaction: its writes share the next revision. -/
def Etcd.transact (e : Etcd) (ops : List EtcdOp) : Etcd where
  history :=
    { writes := e.history.writes ++ ops.map (⟨e.revision + 1, ·⟩)
      ordered := by
        rw [List.pairwise_append]
        refine ⟨e.history.ordered, List.pairwise_map.mpr (List.pairwise_of_forall fun _ _ => Int.le_refl _), ?_⟩
        intro w hw w' hw'
        obtain ⟨op, _, rfl⟩ := List.mem_map.mp hw'
        have := e.bounded w hw
        exact Int.le_trans this (Int.le_of_lt (Int.lt_succ _)) }
  revision := e.revision + 1
  bounded := by
    intro w hw
    rcases List.mem_append.mp hw with hw | hw
    · have := e.bounded w hw
      omega
    · obtain ⟨op, _, rfl⟩ := List.mem_map.mp hw
      exact Int.le_refl _
  nonneg := by have := e.nonneg; omega

theorem transact_filter (e : Etcd) (ops : List EtcdOp) (p : Int → Bool) (hp : ∀ r, p r = true → r ≤ e.revision) :
    (e.transact ops).history.writes.filter (fun w => p w.revision) =
      e.history.writes.filter fun w => p w.revision := by
  have hnone : (ops.map (Write.mk (e.revision + 1))).filter (fun w => p w.revision) = [] := by
    refine List.filter_eq_nil_iff.mpr fun w hw => ?_
    obtain ⟨op, _, rfl⟩ := List.mem_map.mp hw
    intro h
    have : e.revision + 1 ≤ e.revision := hp _ h
    omega
  show (e.history.writes ++ ops.map (Write.mk (e.revision + 1))).filter _ = _
  rw [List.filter_append, hnone, List.append_nil]

/-- Later writes do not change the state at an earlier revision. -/
theorem transact_stateAt (e : Etcd) (ops : List EtcdOp) {r : Int} (hr : r ≤ e.revision) :
    (e.transact ops).history.stateAt r = e.history.stateAt r := by
  unfold History.stateAt
  rw [transact_filter e ops (fun r' => decide (r' ≤ r)) fun r' h => Int.le_trans (of_decide_eq_true h) hr]

theorem transact_range (e : Etcd) (ops : List EtcdOp) (pfx : String) {r : Int} (hr : r ≤ e.revision) :
    (e.transact ops).history.range pfx r = e.history.range pfx r := by
  unfold History.range
  rw [transact_stateAt e ops hr]

theorem transact_events (e : Etcd) (ops : List EtcdOp) (pfx : String) {r r' : Int} (hr : r ≤ r')
    (hr' : r' ≤ e.revision) : (e.transact ops).history.events pfx r r' = e.history.events pfx r r' := by
  unfold History.events
  rw [transact_stateAt e ops (Int.le_trans hr hr'),
    transact_filter e ops (fun x => decide (r < x ∧ x ≤ r')) fun x h => Int.le_trans (of_decide_eq_true h).2 hr']

theorem filter_le_split (ws : List Write) (ho : ws.Pairwise fun w w' => w.revision ≤ w'.revision) {r r' : Int}
    (hr : r ≤ r') : ws.filter (·.revision ≤ r') =
      ws.filter (·.revision ≤ r) ++ ws.filter fun w => r < w.revision ∧ w.revision ≤ r' := by
  induction ws with
  | nil => rfl
  | cons w ws ih =>
    obtain ⟨hw, ho'⟩ := List.pairwise_cons.mp ho
    have ih := ih ho'
    by_cases h₁ : w.revision ≤ r
    · have h₂ : ¬ r < w.revision := by omega
      have h₃ : w.revision ≤ r' := by omega
      simpa [h₁, h₂, h₃] using ih
    · have h₂ : r < w.revision := by omega
      have hnone : ws.filter (·.revision ≤ r) = [] := by
        refine List.filter_eq_nil_iff.mpr fun w' hw' => ?_
        have := hw w' hw'
        simp; omega
      rw [hnone] at ih
      by_cases h₃ : w.revision ≤ r'
      · simpa [h₁, h₂, h₃, hnone] using ih
      · simpa [h₁, h₂, h₃, hnone] using ih

/-- The state at a later revision is the earlier one plus the writes in between. -/
theorem stateAt_later (h : History) {r r' : Int} (hr : r ≤ r') :
    h.stateAt r' = (h.writes.filter fun w => r < w.revision ∧ w.revision ≤ r').foldl EtcdState.write
      (h.stateAt r) := by
  unfold History.stateAt
  rw [filter_le_split h.writes h.ordered hr, List.foldl_append]

theorem filter_between_split (ws : List Write) (ho : ws.Pairwise fun w w' => w.revision ≤ w'.revision)
    {r m r' : Int} (hm : r ≤ m) (hr : m ≤ r') : (ws.filter fun w => r < w.revision ∧ w.revision ≤ r') =
      (ws.filter fun w => r < w.revision ∧ w.revision ≤ m) ++ ws.filter fun w => m < w.revision ∧ w.revision ≤ r' := by
  have h := filter_le_split (ws.filter fun w => r < w.revision ∧ w.revision ≤ r') (ho.filter _) hr
  rw [List.filter_filter, List.filter_filter] at h
  have h₀ : (ws.filter fun w => r < w.revision ∧ w.revision ≤ r').filter (·.revision ≤ r') =
      ws.filter fun w => r < w.revision ∧ w.revision ≤ r' := by
    rw [List.filter_filter]
    refine List.filter_congr fun w _ => ?_
    simp only [← Bool.decide_and, decide_eq_decide]
    omega
  rw [List.filter_filter] at h₀
  rw [← h₀, h, List.filter_filter]
  congr 1
  · refine List.filter_congr fun w _ => ?_
    simp only [← Bool.decide_and, decide_eq_decide]
    omega
  · refine List.filter_congr fun w _ => ?_
    simp only [← Bool.decide_and, decide_eq_decide]
    omega

theorem etcdEvents_append : ∀ (ws ws' : List Write) (s : EtcdState),
    EtcdState.events s (ws ++ ws') = EtcdState.events s ws ++ EtcdState.events (ws.foldl EtcdState.write s) ws'
  | [], _, _ => rfl
  | w :: ws, ws', s => by
    rw [List.cons_append, EtcdState.events, EtcdState.events, etcdEvents_append ws ws', List.append_assoc]
    rfl

/-- The events of an interval are those of its two halves. -/
theorem events_split (h : History) (pfx : String) {r m r' : Int} (hm : r ≤ m) (hr : m ≤ r') :
    h.events pfx r r' = h.events pfx r m ++ h.events pfx m r' := by
  unfold History.events
  rw [filter_between_split h.writes h.ordered hm hr, etcdEvents_append, List.filter_append, ← stateAt_later h hm]

/-- An event carries the revision of the write that caused it. -/
theorem event_revision {s : EtcdState} {w : Write} {e : Event} (h : s.event w = some e) :
    ∃ kv, e.kv = some kv ∧ kv.modRevision = w.revision := by
  unfold EtcdState.event at h
  split at h
  · cases h; exact ⟨_, rfl, rfl⟩
  · obtain ⟨_, _, rfl⟩ := Option.map_eq_some_iff.mp h
    exact ⟨_, rfl, rfl⟩

theorem mem_etcdEvents : ∀ {ws : List Write} {s : EtcdState} {e : Event}, e ∈ EtcdState.events s ws →
    ∃ w ∈ ws, ∃ kv, e.kv = some kv ∧ kv.modRevision = w.revision
  | w :: ws, s, e, h => by
    rw [EtcdState.events, List.mem_append] at h
    rcases h with h | h
    · rw [Option.mem_toList] at h
      exact ⟨w, List.mem_cons_self .., event_revision h⟩
    · obtain ⟨w', hw', hkv⟩ := mem_etcdEvents h
      exact ⟨w', List.mem_cons_of_mem _ hw', hkv⟩

theorem mem_events_revision {h : History} {pfx : String} {r r' : Int} {e : Event} (he : e ∈ h.events pfx r r') :
    ∃ kv, e.kv = some kv ∧ r < kv.modRevision ∧ kv.modRevision ≤ r' := by
  obtain ⟨he, _⟩ := List.mem_filter.mp he
  obtain ⟨w, hw, kv, hkv, hrev⟩ := mem_etcdEvents he
  have := of_decide_eq_true (List.mem_filter.mp hw).2
  exact ⟨kv, hkv, by omega, by omega⟩

/-- The batch revision of a nonempty response is the revision of its last event. -/
theorem batchRevision_spec {events : List Event} (hne : events ≠ [])
    (hkv : ∀ e ∈ events, ∃ kv, e.kv = some kv) : (∃ e ∈ events, ∃ kv, e.kv = some kv ∧
      kv.modRevision = batchRevision events) ∧
    ∀ e ∈ events, ∀ kv, e.kv = some kv → kv.modRevision ≤ batchRevision events := by
  unfold batchRevision
  have hmem : ∀ x, (x ∈ events.filterMap fun event => event.kv.map (·.modRevision)) ↔
      ∃ e ∈ events, ∃ kv, e.kv = some kv ∧ kv.modRevision = x := by
    intro x
    rw [List.mem_filterMap]
    constructor
    · rintro ⟨e, he, h⟩
      obtain ⟨kv, hkv, hx⟩ := Option.map_eq_some_iff.mp h
      exact ⟨e, he, kv, hkv, hx⟩
    · rintro ⟨e, he, kv, hkv, hx⟩
      exact ⟨e, he, by rw [hkv, Option.map_some, hx]⟩
  cases hmax : (events.filterMap fun event => event.kv.map (·.modRevision)).max? with
  | none =>
    rw [List.max?_eq_none_iff] at hmax
    obtain ⟨e, he⟩ := List.exists_mem_of_ne_nil events hne
    obtain ⟨kv, h⟩ := hkv e he
    have := (hmem kv.modRevision).mpr ⟨e, he, kv, h, rfl⟩
    rw [hmax] at this
    cases this
  | some m =>
    rw [List.max?_eq_some_iff] at hmax
    refine ⟨(hmem m).mp hmax.1, fun e he kv h => ?_⟩
    exact hmax.2 _ ((hmem _).mpr ⟨e, he, kv, h, rfl⟩)

/-- Nothing follows the batch revision in its interval. -/
theorem events_after_batchRevision {h : History} {pfx : String} {r r' : Int}
    (hne : h.events pfx r r' ≠ []) : r < batchRevision (h.events pfx r r') ∧
      batchRevision (h.events pfx r r') ≤ r' ∧
      h.events pfx (batchRevision (h.events pfx r r')) r' = [] := by
  obtain ⟨⟨e, he, kv, hkv, hmax⟩, hall⟩ := batchRevision_spec hne fun e he =>
    (mem_events_revision he).imp fun kv h => h.1
  obtain ⟨kv', hkv', hlt, hle⟩ := mem_events_revision he
  rw [hkv] at hkv'
  cases hkv'
  have h₁ : r < batchRevision (h.events pfx r r') := by omega
  have h₂ : batchRevision (h.events pfx r r') ≤ r' := by omega
  refine ⟨h₁, h₂, List.eq_nil_iff_forall_not_mem.mpr fun e' he' => ?_⟩
  obtain ⟨kv', hkv', hlt', _⟩ := mem_events_revision he'
  have hin : e' ∈ h.events pfx r r' := by
    rw [events_split h pfx (Int.le_of_lt h₁) h₂]
    exact List.mem_append_right _ he'
  have := hall e' hin kv' hkv'
  omega

end Pingsix
