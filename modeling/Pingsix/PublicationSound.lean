import Pingsix.Gateway
import Pingsix.SyncSound
import Pingsix.WorkerSound

/-!
# Prefix consistency of publication

Every graph that is submitted, prepared or published holds what etcd held at
its revision (`Holds`), and the graph the next batch is layered on holds what
etcd held at the position of the watch (`UpTo`). Published revisions never
decrease and a superseded generation is never published.
-/

namespace Pingsix

variable {Logical : Type}

/-! ## The order of publications -/

namespace Authority

structure Ordered (ls : List Label) (a : Authority Logical) : Prop where
  published : ∀ g revision, .publish g revision ∈ ls → revision ≤ a.runtime.revision
  bumped : ∀ g, .bump g ∈ ls → g ≤ a.latestGeneration
  revisions : ls.Pairwise fun l l' => ∀ g revision g' revision',
    l = .publish g revision → l' = .publish g' revision' → revision ≤ revision'
  generations : ls.Pairwise fun l l' => ∀ g g' revision, l = .bump g → l' = .publish g' revision → g ≤ g'

theorem Step.latest_le {a a' : Authority Logical} {l : Label} (h : Step a l a') :
    a.latestGeneration ≤ a'.latestGeneration := by
  cases h with
  | submit h =>
    cases h with
    | ensureWorkerStarted _ ha => rcases ensureWorkerStarted_ok ha with rfl | ⟨_, rfl⟩ <;> exact Nat.le_refl _
    | bump => exact Nat.le_succ _
    | _ => exact Nat.le_refl _
  | worker h => exact Nat.le_of_eq h.sameControl.2.1.symm
  | submitFails h => cases h; exact Nat.le_refl _
  | _ => exact Nat.le_refl _

theorem Step.runtime_le {ls : List Label} {a a' : Authority Logical} {l : Label} (h : Step a l a')
    (hS : Served ls a) : a.runtime.revision ≤ a'.runtime.revision := by
  cases h with
  | submit h => exact Int.le_of_eq (by rw [h.frame.1])
  | worker h => exact h.runtime_le hS.newest
  | submitFails h => cases h; exact Int.le_refl _
  | _ => exact Int.le_refl _

/-- A snapshot becomes visible for the latest generation and at least at the published revision. -/
theorem Step.publish_spec {ls : List Label} {a a' : Authority Logical} {g : Nat} {revision : Int}
    (h : Step a (.publish g revision) a') (hS : Served ls a) :
    g = a.latestGeneration ∧ a.runtime.revision ≤ revision ∧ a'.runtime.revision = revision := by
  cases h with
  | submit h => cases h
  | worker h =>
    cases h with
    | publish hw => exact ⟨hS.fenced _ _ _ _ hw (by rw [hw]; rfl), hS.newest _ _ _ hw, rfl⟩

theorem Step.bump_spec {a a' : Authority Logical} {g : Nat} (h : Step a (.bump g) a') : g = a'.latestGeneration := by
  cases h with
  | submit h => cases h; rfl
  | worker h => cases h

theorem pairwise_snoc {α : Type} {R : α → α → Prop} {l : List α} {x : α} (hl : l.Pairwise R) (hx : ∀ y ∈ l, R y x) :
    (l ++ [x]).Pairwise R := by
  rw [List.pairwise_append]
  exact ⟨hl, List.pairwise_singleton R x, fun y hy z hz => List.mem_singleton.mp hz ▸ hx y hy⟩

theorem Step.preservesOrdered {ls : List Label} {a a' : Authority Logical} {l : Label} (h : Step a l a')
    (hS : Served ls a) (hO : Ordered ls a) : Ordered (ls ++ [l]) a' := by
  refine ⟨?_, ?_, pairwise_snoc hO.revisions ?_, pairwise_snoc hO.generations ?_⟩
  · intro g revision hin
    rcases List.mem_append.mp hin with hin | hin
    · exact Int.le_trans (hO.published g revision hin) (h.runtime_le hS)
    · cases List.mem_singleton.mp hin
      exact Int.le_of_eq (h.publish_spec hS).2.2.symm
  · intro g hin
    rcases List.mem_append.mp hin with hin | hin
    · exact Nat.le_trans (hO.bumped g hin) h.latest_le
    · cases List.mem_singleton.mp hin
      exact Nat.le_of_eq h.bump_spec
  · rintro l' hl' g revision g' revision' rfl rfl
    exact Int.le_trans (hO.published g revision hl') (h.publish_spec hS).2.1
  · rintro l' hl' g g' revision rfl rfl
    rw [(h.publish_spec hS).1]
    exact hO.bumped g hl'

theorem run_ordered {ls : List Label} {a : Authority Logical} (r : Run Step Initial ls a) : Ordered ls a := by
  refine r.invariant (fun _ _ => ⟨nofun, nofun, .nil, .nil⟩) fun r hO h => h.preservesOrdered (run_served r) hO

end Authority

/-! ## What a stored graph holds -/

/-- The graph holds the resources etcd held at its revision. -/
def Holds (canonicalPrefix : String) (e : Etcd) (stored : StoredGraph) : Prop :=
  stored.revision ≤ e.revision ∧
    ∀ key, stored.resources.lookup key = (e.history.stateAt stored.revision).held canonicalPrefix key

/-- No event between two revisions is about a resource. -/
def Quiet (canonicalPrefix : String) (e : Etcd) (r r' : Int) : Prop :=
  ∀ event ∈ e.history.events canonicalPrefix r r', ∀ kv, event.kv = some kv → ∀ key, ¬ kv.Of canonicalPrefix key

/-- The graph also holds what etcd held at a later revision, and no resource was written since its own. -/
structure UpTo (canonicalPrefix : String) (e : Etcd) (stored : StoredGraph) (position : Int) : Prop where
  le : stored.revision ≤ position
  held : ∀ key, stored.resources.lookup key = (e.history.stateAt position).held canonicalPrefix key
  quiet : Quiet canonicalPrefix e stored.revision position

theorem Holds.grow {cp : String} {e : Etcd} {stored : StoredGraph} (h : Holds cp e stored) (ops : List EtcdOp) :
    Holds cp (e.transact ops) stored := by
  refine ⟨Int.le_trans h.1 (Int.le_of_lt (Int.lt_succ _)), fun key => ?_⟩
  rw [transact_stateAt e ops h.1]
  exact h.2 key

theorem UpTo.grow {cp : String} {e : Etcd} {stored : StoredGraph} {p : Int} (h : UpTo cp e stored p)
    (hp : p ≤ e.revision) (ops : List EtcdOp) : UpTo cp (e.transact ops) stored p := by
  refine ⟨h.le, fun key => ?_, ?_⟩
  · rw [transact_stateAt e ops hp]
    exact h.held key
  · unfold Quiet
    rw [transact_events e ops cp h.le hp]
    exact h.quiet

theorem quiet_of_nil {cp : String} {e : Etcd} {r r' : Int} (h : e.history.events cp r r' = []) : Quiet cp e r r' := by
  unfold Quiet
  rw [h]
  exact nofun

theorem quiet_self (cp : String) (e : Etcd) (r : Int) : Quiet cp e r r := by
  refine quiet_of_nil (List.eq_nil_iff_forall_not_mem.mpr fun event he => ?_)
  obtain ⟨kv, _, h₁, h₂⟩ := mem_events_revision he
  omega

theorem Quiet.trans {cp : String} {e : Etcd} {r m r' : Int} (hm : r ≤ m) (hr : m ≤ r') (h : Quiet cp e r m)
    (h' : Quiet cp e m r') : Quiet cp e r r' := by
  unfold Quiet
  rw [events_split e.history cp hm hr]
  intro event he
  rcases List.mem_append.mp he with he | he
  · exact h event he
  · exact h' event he

theorem covers_self (cp : String) : Covers cp cp := ⟨"", by simp⟩

/-- A list that decodes holds what etcd held at its revision. -/
theorem list_upTo {cp : String} {e : Etcd} {revision : Int} {kvs : List KeyValue} (hr : revision ≤ e.revision)
    (hk : kvs.Perm (e.history.range cp revision)) {snapshot : StoredGraph}
    (hg : graphSnapshotFromList kvs revision cp = .ok snapshot) :
    snapshot.revision = revision ∧ Holds cp e snapshot ∧ UpTo cp e snapshot revision := by
  have hrev : snapshot.revision = revision := by
    unfold graphSnapshotFromList at hg
    cases hf : kvs.foldlM (listStep cp) (∅, none) with
    | error e => rw [hf] at hg; cases hg
    | ok acc => rw [hf] at hg; cases hg; rfl
  have hl := list_holds (covers_self cp) hk hg
  refine ⟨hrev, ⟨hrev ▸ hr, fun key => by rw [hrev]; exact hl key⟩, Int.le_of_eq hrev, hl, ?_⟩
  rw [hrev]
  exact quiet_self cp e revision

theorem changes_nil_of_events_nil {cp : String} {m : HashMap ResourceKey StoredChange} {changes : List StoredChange}
    (hm : graphChangesFromEvents [] cp = .ok m) (hc : changes.Perm m.values) : changes = [] := by
  cases hm
  exact List.Perm.eq_nil hc

theorem applyWatchBatch_revision {base : StoredGraph} {batch : WatchBatch} (hne : batch.changes.isEmpty = false) :
    (applyWatchBatch base batch).revision = batch.revision := by
  unfold applyWatchBatch
  rw [hne]; rfl

theorem events_of_changes {cp : String} {e : Etcd} {p n : Int} {m : HashMap ResourceKey StoredChange}
    {changes : List StoredChange} (hm : graphChangesFromEvents (e.history.events cp p n) cp = .ok m)
    (hc : changes.Perm m.values) (hne : changes.isEmpty = false) : e.history.events cp p n ≠ [] := by
  intro h0
  rw [h0] at hm
  rw [changes_nil_of_events_nil hm hc] at hne
  cases hne

/-- A batch layered on a graph that is up to its position holds what etcd held at the batch's revision. -/
theorem batch_upTo {cp : String} {e : Etcd} {p n : Int} (hp : p ≤ n) (hn : n ≤ e.revision) {base : StoredGraph}
    (hb : UpTo cp e base p) {m : HashMap ResourceKey StoredChange} {changes : List StoredChange}
    (hm : graphChangesFromEvents (e.history.events cp p n) cp = .ok m) (hc : changes.Perm m.values)
    (hne : changes.isEmpty = false) :
    Holds cp e (applyWatchBatch base ⟨batchRevision (e.history.events cp p n), changes⟩) ∧
      UpTo cp e (applyWatchBatch base ⟨batchRevision (e.history.events cp p n), changes⟩) n := by
  obtain ⟨-, hle, hafter⟩ := events_after_batchRevision (events_of_changes hm hc hne)
  have hrev : (applyWatchBatch base ⟨batchRevision (e.history.events cp p n), changes⟩).revision =
      batchRevision (e.history.events cp p n) := applyWatchBatch_revision hne
  obtain ⟨hkeyed, heffect⟩ := graphChangesFromEvents_effect hm
  have hat : ∀ key, (applyWatchBatch base ⟨batchRevision (e.history.events cp p n), changes⟩).resources.lookup key =
      (e.history.stateAt n).held cp key := by
    intro key
    rw [applyWatchBatch_lookup hkeyed hc, heffect, hb.held key, ← history_events_held (covers_self cp) hp]
  refine ⟨⟨by rw [hrev]; exact Int.le_trans hle hn, fun key => ?_⟩, by rw [hrev]; exact hle, hat, ?_⟩
  rotate_left
  · rw [hrev]
    exact quiet_of_nil hafter
  rw [hat, hrev, history_events_held (covers_self cp) hle, hafter]
  rfl

/-! ## The joint invariant -/

/-- A candidate that was accepted and holds what etcd held at its revision. -/
structure Faithful (cp : String) (accept : StoredGraph → ProxyResult Logical) (e : Etcd) (stored : StoredGraph)
    (logical : Logical) : Prop where
  holds : Holds cp e stored
  accepted : accept stored = .ok logical

theorem Faithful.grow {cp : String} {accept : StoredGraph → ProxyResult Logical} {e : Etcd} {stored : StoredGraph}
    {logical : Logical} (h : Faithful cp accept e stored logical) (ops : List EtcdOp) :
    Faithful cp accept (e.transact ops) stored logical := ⟨h.holds.grow ops, h.accepted⟩

namespace Gateway

variable (cp : String) (accept : StoredGraph → ProxyResult Logical)

/-- The pending graph is faithful and carries the revision of its graph. -/
def TargetFaithful (g : Gateway Logical) (t : PendingGraph Logical) : Prop :=
  Faithful cp accept g.etcd t.stored t.logical ∧ t.stored.revision = t.revision

/-- The graph the next batch is layered on is up to a position. -/
def TargetUpTo (g : Gateway Logical) (position : Int) : Prop :=
  ∃ t, g.authority.target = some t ∧ UpTo cp g.etcd t.stored position

/-- The submission in progress, or the target it became, is up to a position. -/
def SubmissionUpTo (g : Gateway Logical) (position : Int) : Prop :=
  match g.authority.writer with
  | none => TargetUpTo cp g position
  | some w => if w.pc = .signal then TargetUpTo cp g position else UpTo cp g.etcd w.submission.stored position

def PhaseOk (g : Gateway Logical) : SyncPhase → Prop
  | .listing => g.authority.writer = none
  | .listed revision kvs => g.authority.writer = none ∧ revision ≤ g.etcd.revision ∧
      kvs.Perm (g.etcd.history.range cp revision)
  | .replacing revision => revision ≤ g.etcd.revision ∧ SubmissionUpTo cp g revision
  | .connecting => g.authority.writer = none ∧ g.sync.revision ≤ g.etcd.revision ∧ TargetUpTo cp g g.sync.revision
  | .watching position => g.authority.writer = none ∧ position ≤ g.etcd.revision ∧ TargetUpTo cp g position
  | .received position next _ events => g.authority.writer = none ∧ position ≤ next ∧ next ≤ g.etcd.revision ∧
      events = g.etcd.history.events cp position next ∧ TargetUpTo cp g position
  | .applying next _ => next ≤ g.etcd.revision ∧ SubmissionUpTo cp g next

structure Consistent (g : Gateway Logical) : Prop where
  submission : ∀ w, g.authority.writer = some w →
    Faithful cp accept g.etcd w.submission.stored w.submission.logical
  target : ∀ t, g.authority.target = some t → TargetFaithful cp accept g t
  attempt : ∀ stage d att t, g.authority.worker = .attempting stage d att t → TargetFaithful cp accept g t
  runtime : g.authority.runtime = {} ∨ ∃ t, TargetFaithful cp accept g t ∧
    g.authority.runtime = ⟨t.revision, some t.logical⟩
  phase : PhaseOk cp g g.sync.phase

variable {cp : String} {accept : StoredGraph → ProxyResult Logical}

theorem TargetUpTo.congr {g g' : Gateway Logical} {p : Int} (h : TargetUpTo cp g p) (he : g'.etcd = g.etcd)
    (ht : g'.authority.target = g.authority.target) : TargetUpTo cp g' p := by
  unfold TargetUpTo
  rw [he, ht]
  exact h

theorem SubmissionUpTo.congr {g g' : Gateway Logical} {p : Int} (h : SubmissionUpTo cp g p) (he : g'.etcd = g.etcd)
    (ht : g'.authority.target = g.authority.target) (hw : g'.authority.writer = g.authority.writer) :
    SubmissionUpTo cp g' p := by
  unfold SubmissionUpTo at h ⊢
  rw [hw]
  split
  · rename_i hn; rw [hn] at h; exact TargetUpTo.congr h he ht
  · rename_i w hs
    rw [hs] at h
    simp only at h
    split
    · rename_i hpc; rw [if_pos hpc] at h; exact TargetUpTo.congr h he ht
    · rename_i hpc; rw [if_neg hpc] at h; rw [he]; exact h

theorem PhaseOk.congr {g g' : Gateway Logical} {phase : SyncPhase} (h : PhaseOk cp g phase)
    (he : g'.etcd = g.etcd) (hs : g'.sync = g.sync) (ht : g'.authority.target = g.authority.target)
    (hw : g'.authority.writer = g.authority.writer) : PhaseOk cp g' phase := by
  cases phase with
  | listing => exact hw.trans h
  | listed revision kvs => exact ⟨hw.trans h.1, by rw [he]; exact h.2.1, by rw [he]; exact h.2.2⟩
  | replacing revision => exact ⟨by rw [he]; exact h.1, h.2.congr he ht hw⟩
  | connecting => exact ⟨hw.trans h.1, by rw [he, hs]; exact h.2.1, by rw [hs]; exact h.2.2.congr he ht⟩
  | watching position => exact ⟨hw.trans h.1, by rw [he]; exact h.2.1, h.2.2.congr he ht⟩
  | received position next header events =>
    exact ⟨hw.trans h.1, h.2.1, by rw [he]; exact h.2.2.1, by rw [he]; exact h.2.2.2.1, h.2.2.2.2.congr he ht⟩
  | applying next header => exact ⟨by rw [he]; exact h.1, h.2.congr he ht hw⟩

/-- Steps that change neither etcd nor what is submitted, prepared or published. -/
theorem Consistent.congr {g g' : Gateway Logical} (hC : Consistent cp accept g) (he : g'.etcd = g.etcd)
    (ht : g'.authority.target = g.authority.target) (hw : g'.authority.writer = g.authority.writer)
    (hwk : g'.authority.worker = g.authority.worker) (hr : g'.authority.runtime = g.authority.runtime)
    (hp : PhaseOk cp g' g'.sync.phase) : Consistent cp accept g' := by
  refine ⟨?_, ?_, ?_, ?_, hp⟩
  · rw [hw, he]; exact hC.submission
  · unfold TargetFaithful; rw [ht, he]; exact hC.target
  · unfold TargetFaithful; rw [hwk, he]; exact hC.attempt
  · unfold TargetFaithful; rw [hr, he]; exact hC.runtime

theorem TargetUpTo.grow {g g' : Gateway Logical} {p : Int} (h : TargetUpTo cp g p) (hp : p ≤ g.etcd.revision)
    {ops : List EtcdOp} (he : g'.etcd = g.etcd.transact ops) (ha : g'.authority = g.authority) :
    TargetUpTo cp g' p := by
  obtain ⟨t, ht, hup⟩ := h
  exact ⟨t, by rw [ha]; exact ht, by rw [he]; exact hup.grow hp ops⟩

theorem SubmissionUpTo.grow {g g' : Gateway Logical} {p : Int} (h : SubmissionUpTo cp g p)
    (hp : p ≤ g.etcd.revision) {ops : List EtcdOp} (he : g'.etcd = g.etcd.transact ops)
    (ha : g'.authority = g.authority) : SubmissionUpTo cp g' p := by
  unfold SubmissionUpTo at h ⊢
  rw [ha]
  split
  · rename_i hn; rw [hn] at h; exact TargetUpTo.grow h hp he ha
  · rename_i w hs
    rw [hs] at h
    simp only at h
    split
    · rename_i hpc; rw [if_pos hpc] at h; exact TargetUpTo.grow h hp he ha
    · rename_i hpc; rw [if_neg hpc] at h; rw [he]; exact UpTo.grow h hp ops

/-- A write of etcd leaves everything listed, submitted or published as faithful as it was. -/
theorem Consistent.grow {g g' : Gateway Logical} (hC : Consistent cp accept g) {ops : List EtcdOp}
    (he : g'.etcd = g.etcd.transact ops) (ha : g'.authority = g.authority) (hs : g'.sync = g.sync) :
    Consistent cp accept g' := by
  have hle : g.etcd.revision ≤ g'.etcd.revision := by
    rw [he]; exact Int.le_of_lt (Int.lt_succ _)
  refine ⟨?_, ?_, ?_, ?_, ?_⟩
  · rw [ha, he]
    exact fun w hw => (hC.submission w hw).grow ops
  · unfold TargetFaithful
    rw [ha, he]
    exact fun t ht => ⟨(hC.target t ht).1.grow ops, (hC.target t ht).2⟩
  · unfold TargetFaithful
    rw [ha, he]
    exact fun stage d att t hw => ⟨(hC.attempt stage d att t hw).1.grow ops, (hC.attempt stage d att t hw).2⟩
  · unfold TargetFaithful
    rw [ha, he]
    exact hC.runtime.imp_right fun ⟨t, ht, hr⟩ => ⟨t, ⟨ht.1.grow ops, ht.2⟩, hr⟩
  · have hp := hC.phase
    rw [hs]
    cases hphase : g.sync.phase with
    | listing => rw [hphase] at hp; unfold PhaseOk at hp ⊢; rw [ha]; exact hp
    | listed revision kvs =>
      rw [hphase] at hp
      refine ⟨by rw [ha]; exact hp.1, Int.le_trans hp.2.1 hle, ?_⟩
      rw [he, transact_range _ ops cp hp.2.1]
      exact hp.2.2
    | replacing revision => rw [hphase] at hp; exact ⟨Int.le_trans hp.1 hle, hp.2.grow hp.1 he ha⟩
    | connecting =>
      rw [hphase] at hp
      refine ⟨by rw [ha]; exact hp.1, by rw [hs]; exact Int.le_trans hp.2.1 hle, ?_⟩
      rw [hs]
      exact hp.2.2.grow hp.2.1 he ha
    | watching position =>
      rw [hphase] at hp
      exact ⟨by rw [ha]; exact hp.1, Int.le_trans hp.2.1 hle, hp.2.2.grow hp.2.1 he ha⟩
    | received position next header events =>
      rw [hphase] at hp
      obtain ⟨hw, hpn, hn, hev, hup⟩ := hp
      refine ⟨by rw [ha]; exact hw, hpn, Int.le_trans hn hle, ?_, hup.grow (Int.le_trans hpn hn) he ha⟩
      rw [he, transact_events _ ops cp hpn hn]
      exact hev
    | applying next header => rw [hphase] at hp; exact ⟨Int.le_trans hp.1 hle, hp.2.grow hp.1 he ha⟩

/-! ## Worker and submit steps -/

/-- The worker attempts only the target, and publishes only what it attempts. -/
theorem workerStep_attempted {a a' : Authority Logical} {l : Label}
    (h : Authority.WorkerStep a l a') {P : PendingGraph Logical → Prop} (ht : ∀ t, a.target = some t → P t)
    (hw : ∀ stage d att t, a.worker = .attempting stage d att t → P t) :
    (∀ stage d att t, a'.worker = .attempting stage d att t → P t) ∧
      (a'.runtime = a.runtime ∨ ∃ t, P t ∧ a'.runtime = ⟨t.revision, some t.logical⟩) := by
  cases h with
  | take _ htgt =>
    refine ⟨fun stage d att t hat => ?_, .inl rfl⟩
    cases hat
    exact ht _ htgt
  | prepared hat₀ | compiled hat₀ | fenced hat₀ | commit hat₀ =>
    refine ⟨fun stage d att t hat => ?_, .inl rfl⟩
    cases hat
    exact hw _ _ _ _ hat₀
  | publish hat₀ =>
    refine ⟨fun stage d att t hat => ?_, .inr ⟨_, hw _ _ _ _ hat₀, rfl⟩⟩
    cases hat
    exact hw _ _ _ _ hat₀
  | reject | rejectNone =>
    exact ⟨fun _ _ _ _ hat => absurd hat (Authority.afterRejection_ne _ _ _ _ _), .inl rfl⟩
  | _ => exact ⟨fun _ _ _ _ hat => (nomatch hat), .inl rfl⟩

theorem Consistent.worker {g : Gateway Logical} (hC : Consistent cp accept g) {a : Authority Logical} {l : Label}
    (h : Authority.WorkerStep g.authority l a) : Consistent cp accept { g with authority := a } := by
  obtain ⟨hw, -, ht, -⟩ := h.sameControl
  obtain ⟨hat, hrt⟩ := workerStep_attempted h hC.target hC.attempt
  refine ⟨?_, ?_, hat, ?_, hC.phase.congr rfl rfl ht hw⟩
  · rw [hw]; exact hC.submission
  · rw [ht]; exact hC.target
  · rcases hrt with hrt | ⟨t, hP, hrt⟩
    · rw [hrt]; exact hC.runtime
    · exact .inr ⟨t, hP, hrt⟩

/-- While a writer is at work the loop waits for it. -/
theorem PhaseOk.writing {g : Gateway Logical} {phase : SyncPhase} (h : PhaseOk cp g phase)
    (hw : g.authority.writer ≠ none) : ∃ p, p ≤ g.etcd.revision ∧ SubmissionUpTo cp g p ∧
      ∀ g' : Gateway Logical, g'.etcd = g.etcd → SubmissionUpTo cp g' p → PhaseOk cp g' phase := by
  cases phase with
  | listing => exact absurd h hw
  | listed | connecting | watching | received => exact absurd h.1 hw
  | replacing revision => exact ⟨revision, h.1, h.2, fun g' he hup => ⟨by rw [he]; exact h.1, hup⟩⟩
  | applying next header => exact ⟨next, h.1, h.2, fun g' he hup => ⟨by rw [he]; exact h.1, hup⟩⟩

theorem submitStep_worker {a a' : Authority Logical} {l : Label} (h : Authority.SubmitStep a l a')
    {stage : Stage} {d : Nat} {att : Attempted} {t : PendingGraph Logical}
    (hw : a'.worker = .attempting stage d att t) : a.worker = .attempting stage d att t := by
  rcases h.frame.2 with ⟨he, _⟩ | ⟨_, _, he⟩
  · rw [← he]; exact hw
  · rw [he] at hw; cases hw

/-- The writer keeps its submission until it is done, and only its own submission becomes the target. -/
theorem submitStep_submission {a a' : Authority Logical} {l : Label} (h : Authority.SubmitStep a l a') :
    ∃ w, a.writer = some w ∧ (a'.writer = none ∨ ∃ pc, a'.writer = some ⟨pc, w.submission⟩) ∧
      ((a'.target = a.target ∧ (w.pc = .signal ↔ a'.writer = none) ∧
          ∀ pc, a'.writer = some ⟨pc, w.submission⟩ → pc ≠ .signal) ∨
        (w.pc ≠ .signal ∧ a'.writer = some ⟨.signal, w.submission⟩ ∧ ∃ g, a'.target =
          some ⟨g, w.submission.stored.revision, w.submission.stored, w.submission.logical, g⟩)) := by
  cases h with
  | ensureWorkerStarted hw ha =>
    refine ⟨_, hw, .inr ⟨_, rfl⟩, .inl ⟨?_, by simp, fun pc hpc => by cases hpc; exact nofun⟩⟩
    rcases Authority.ensureWorkerStarted_ok ha with rfl | ⟨_, rfl⟩ <;> rfl
  | bump hw | register hw | cancelPrevious hw =>
    exact ⟨_, hw, .inr ⟨_, rfl⟩, .inl ⟨rfl, by simp, fun pc hpc => by cases hpc; exact nofun⟩⟩
  | replaceTarget hw => exact ⟨_, hw, .inr ⟨_, rfl⟩, .inr ⟨nofun, rfl, _, rfl⟩⟩
  | signal hw => exact ⟨_, hw, .inl rfl, .inl ⟨rfl, by simp, nofun⟩⟩

theorem Consistent.submit {g : Gateway Logical} (hC : Consistent cp accept g) {a : Authority Logical} {l : Label}
    (h : Authority.SubmitStep g.authority l a) : Consistent cp accept { g with authority := a } := by
  obtain ⟨w, hw, hw', htgt⟩ := submitStep_submission h
  have hsub := hC.submission w hw
  obtain ⟨p, hp, hup, hphase⟩ := hC.phase.writing (by rw [hw]; exact nofun)
  refine ⟨fun w' hs => ?_, fun t ht => ?_, fun stage d att t hat => ?_, ?_, hphase _ rfl ?_⟩
  · rcases hw' with hn | ⟨pc, hpc⟩
    · rw [hn] at hs; cases hs
    · rw [hpc] at hs; cases hs; exact hsub
  · rcases htgt with ⟨he, -⟩ | ⟨-, -, gen, he⟩
    · exact hC.target t (he ▸ ht)
    · rw [he] at ht; cases ht; exact ⟨hsub, rfl⟩
  · exact hC.attempt stage d att t (submitStep_worker h hat)
  · rw [h.frame.1]; exact hC.runtime
  · -- before the target is replaced the submission carries the position, from then on the target does
    unfold SubmissionUpTo at hup
    rw [hw] at hup
    simp only at hup
    rcases htgt with ⟨he, hiff, hne⟩ | ⟨hpc, hs, gen, he⟩
    · unfold SubmissionUpTo
      rcases hw' with hn | ⟨pc, hpc⟩
      · rw [if_pos (hiff.mpr hn)] at hup
        simp only [hn]
        exact TargetUpTo.congr hup rfl he
      · have hpcs : w.pc ≠ .signal := fun hs => by rw [hiff.mp hs] at hpc; cases hpc
        rw [if_neg hpcs] at hup
        simp only [hpc, if_neg (hne pc hpc)]
        exact hup
    · rw [if_neg hpc] at hup
      unfold SubmissionUpTo
      simp only [hs, if_true]
      exact ⟨_, he, hup⟩

/-! ## The loop -/

theorem Consistent.relist {g : Gateway Logical} (hC : Consistent cp accept g) (status : StatusStore)
    (hw : g.authority.writer = none) : Consistent cp accept (g.relist status) :=
  hC.congr rfl rfl rfl rfl rfl hw

theorem Consistent.start {g : Gateway Logical} (hC : Consistent cp accept g) {sub : Submission Logical}
    (hsub : Faithful cp accept g.etcd sub.stored sub.logical) (phase : SyncPhase)
    (hp : PhaseOk cp (g.submitting sub phase) phase) : Consistent cp accept (g.submitting sub phase) := by
  refine ⟨fun w hw => ?_, hC.target, hC.attempt, hC.runtime, hp⟩
  cases hw
  exact hsub

theorem submissionUpTo_start {g : Gateway Logical} {sub : Submission Logical} {p : Int} (phase : SyncPhase)
    (hup : UpTo cp g.etcd sub.stored p) : SubmissionUpTo cp (g.submitting sub phase) p := hup

theorem replaceAll_eq_ok {snapshot : StoredGraph} {sub : Submission Logical}
    (h : Authority.replaceAll accept snapshot = .ok sub) :
    sub.stored = snapshot ∧ accept snapshot = .ok sub.logical := by
  unfold Authority.replaceAll at h
  split at h
  · cases h
  · rename_i logical hacc
    cases h
    exact ⟨rfl, hacc⟩

theorem applyWatch_eq_some {a : Authority Logical} {batch : WatchBatch} {sub : Submission Logical}
    (h : a.applyWatch accept batch = .ok (some sub)) :
    batch.changes.isEmpty = false ∧ a.runtime.revision ≤ batch.revision ∧
      sub.stored = applyWatchBatch a.watchBase batch ∧ accept sub.stored = .ok sub.logical := by
  unfold Authority.applyWatch at h
  split at h
  · cases h
  rename_i hne
  split at h
  · cases h
  rename_i hrev
  simp only at h
  split at h
  · cases h
  · rename_i logical hacc
    cases h
    exact ⟨by simpa using hne, Int.not_lt.mp hrev, rfl, hacc⟩

theorem applyWatch_eq_none {a : Authority Logical} {batch : WatchBatch}
    (h : a.applyWatch accept batch = .ok none) : batch.changes = [] := by
  unfold Authority.applyWatch at h
  split at h
  · rename_i he; exact List.isEmpty_iff.mp he
  split at h
  · cases h
  simp only at h
  split at h <;> cases h

theorem eventEffect_of {pfx : String} {key : ResourceKey} {event : Event} {kv : KeyValue} (hkv : event.kv = some kv)
    (hof : kv.Of pfx key) (o o' : Option StoredResource) :
    eventEffect pfx key o event = eventEffect pfx key o' event := by
  unfold eventEffect
  simp only [hkv, if_pos hof]

/-- Events that decode to no change are about no resource. -/
theorem quiet_of_no_changes {e : Etcd} {p n : Int} {m : HashMap ResourceKey StoredChange}
    (hm : graphChangesFromEvents (e.history.events cp p n) cp = .ok m)
    (hc : ([] : List StoredChange).Perm m.values) : Quiet cp e p n := by
  intro event he kv hkv key hof
  obtain ⟨-, heffect⟩ := graphChangesFromEvents_effect hm
  have hnone : m.lookup key = none := by
    cases hl : m.lookup key with
    | none => rfl
    | some c =>
      have := (HashMap.mem_values_iff m c).mpr ⟨key, hl⟩
      rw [← hc.mem_iff] at this
      cases this
  obtain ⟨before, after, hsplit⟩ := List.append_of_mem he
  have hconst : ∀ o o', (e.history.events cp p n).foldl (eventEffect cp key) o =
      (e.history.events cp p n).foldl (eventEffect cp key) o' := by
    intro o o'
    rw [hsplit, List.foldl_append, List.foldl_append, List.foldl_cons, List.foldl_cons, eventEffect_of hkv hof]
  have h := hconst none (some kv.toStored)
  rw [← heffect, ← heffect, hnone] at h
  cases h

/-- A batch without changes leaves what etcd held. -/
theorem upTo_ignored {e : Etcd} {p n : Int} (hp : p ≤ n) {base : StoredGraph} (hb : UpTo cp e base p)
    {m : HashMap ResourceKey StoredChange} (hm : graphChangesFromEvents (e.history.events cp p n) cp = .ok m)
    (hc : ([] : List StoredChange).Perm m.values) : UpTo cp e base n := by
  obtain ⟨hkeyed, heffect⟩ := graphChangesFromEvents_effect hm
  refine ⟨Int.le_trans hb.le hp, fun key => ?_, hb.quiet.trans hb.le hp (quiet_of_no_changes hm hc)⟩
  have h := applyWatchBatch_lookup hkeyed hc base 0 key
  rw [heffect, hb.held key, ← history_events_held (covers_self cp) hp] at h
  rw [← h]
  rfl

theorem Step.preservesConsistent {g g' : Gateway Logical} {l : GatewayLabel} (h : Step cp accept g l g')
    (hctl : Authority.Control g.authority) (hC : Consistent cp accept g) : Consistent cp accept g' := by
  have hphase := hC.phase
  cases h with
  | write ops => exact hC.grow rfl rfl rfl
  | commit mutation => exact hC.grow rfl rfl rfl
  | recordPending => exact hC.congr rfl rfl rfl rfl rfl (hC.phase.congr rfl rfl rfl rfl)
  | worker h => exact hC.worker h
  | submit h => exact hC.submit h
  | submitFails h => exact absurd h hctl.submit_runs
  | list hp hk =>
    rw [hp] at hphase
    exact hC.congr rfl rfl rfl rfl rfl ⟨hphase, Int.le_refl _, hk⟩
  | listFailed error hp =>
    rw [hp] at hphase
    exact hC.relist _ hphase
  | listUnmapped error hp =>
    rw [hp] at hphase
    exact hC.relist _ hphase.1
  | listRejected hp =>
    rw [hp] at hphase
    exact hC.relist _ hphase.1
  | replaceAll hp hl hg hr =>
    rw [hp] at hphase
    obtain ⟨hw, hle, hk⟩ := hphase
    obtain ⟨hsub, hacc⟩ := replaceAll_eq_ok hr
    obtain ⟨-, hholds, hup⟩ := list_upTo hle hk hg
    rw [← hsub] at hholds hup hacc
    exact hC.start ⟨hholds, hacc⟩ _ ⟨hle, submissionUpTo_start _ hup⟩
  | replaced hp hw =>
    rw [hp] at hphase
    obtain ⟨hle, hup⟩ := hphase
    unfold SubmissionUpTo at hup
    rw [hw] at hup
    exact hC.congr rfl rfl rfl rfl rfl ⟨hw, hle, hup⟩
  | watchStarted hp =>
    rw [hp] at hphase
    exact hC.congr rfl rfl rfl rfl rfl hphase
  | respond hp hn hb =>
    rw [hp] at hphase
    obtain ⟨hw, hle, hup⟩ := hphase
    exact hC.congr rfl rfl rfl rfl rfl ⟨hw, hn, hb, rfl, hup⟩
  | undecodable error hp =>
    rw [hp] at hphase
    exact hC.relist _ hphase.1
  | ignored hp hl hm hc ha =>
    rw [hp] at hphase
    obtain ⟨hw, hpn, hle, rfl, t, ht, hup⟩ := hphase
    have hnil := applyWatch_eq_none ha
    simp only at hnil
    rw [hnil] at hc
    exact hC.congr rfl rfl rfl rfl rfl ⟨hw, hle, t, ht, upTo_ignored hpn hup hm hc⟩
  | batchRejected hp =>
    rw [hp] at hphase
    exact hC.relist _ hphase.1
  | applyWatch hp hl hm hc ha =>
    rw [hp] at hphase
    obtain ⟨hw, hpn, hle, rfl, t, ht, hup⟩ := hphase
    obtain ⟨hne, -, hstored, hacc⟩ := applyWatch_eq_some ha
    have hbase : g.authority.watchBase = t.stored := by unfold Authority.watchBase; rw [ht]
    obtain ⟨hholds, hup'⟩ := batch_upTo hpn hle hup hm hc hne
    rw [hbase] at hstored
    rw [← hstored] at hholds hup'
    exact hC.start ⟨hholds, hacc⟩ _ ⟨hle, submissionUpTo_start _ hup'⟩
  | applied hp hw =>
    rw [hp] at hphase
    obtain ⟨hle, hup⟩ := hphase
    unfold SubmissionUpTo at hup
    rw [hw] at hup
    exact hC.congr rfl rfl rfl rfl rfl ⟨hw, hle, hup⟩
  | watchEnded status hp =>
    refine hC.relist _ ?_
    rcases hp with hp | ⟨position, hp⟩
    · rw [hp] at hphase; exact hphase.1
    · rw [hp] at hphase; exact hphase.1

/-- Each step of the gateway is a step of its authority, or leaves it alone. -/
theorem Step.authority {g g' : Gateway Logical} {l : GatewayLabel} (h : Step cp accept g l g') :
    (l.authority? = none ∧ g'.authority = g.authority) ∨
      ∃ l', l.authority? = some l' ∧ Authority.Step g.authority l' g'.authority := by
  cases h with
  | write | commit | respond => exact .inl ⟨rfl, rfl⟩
  | recordPending => exact .inr ⟨_, rfl, .recordPending _⟩
  | worker h => exact .inr ⟨_, rfl, .worker h⟩
  | submit h => exact .inr ⟨_, rfl, .submit h⟩
  | submitFails h => exact .inr ⟨_, rfl, .submitFails h⟩
  | replaceAll _ hl | applyWatch _ hl => exact .inr ⟨_, rfl, .enter _ hl⟩
  | _ => exact .inr ⟨_, rfl, .status _⟩

theorem run_authority {ls : List GatewayLabel} {g : Gateway Logical} (r : Run (Step cp accept) Initial ls g) :
    Run Authority.Step Authority.Initial (ls.filterMap GatewayLabel.authority?) g.authority :=
  r.project (fun g => g.authority) GatewayLabel.authority? (fun _ h => h.2.1) fun h => h.authority

theorem run_consistent {ls : List GatewayLabel} {g : Gateway Logical} (r : Run (Step cp accept) Initial ls g) :
    Consistent cp accept g := by
  refine Run.invariant (I := fun _ g => Consistent cp accept g) (fun g h => ?_) (fun r hC h => ?_) r
  · obtain ⟨hs, ha, -⟩ := h
    refine ⟨?_, ?_, ?_, ?_, ?_⟩
    · rw [ha]; exact nofun
    · rw [ha]; exact nofun
    · rw [ha]; exact nofun
    · rw [ha]; exact .inl rfl
    · rw [hs]
      show g.authority.writer = none
      rw [ha]
  · exact h.preservesConsistent (Authority.run_served (run_authority r)).control hC

/-- Every visible snapshot was compiled from the configuration etcd held at its revision, published revisions
never decrease, and nothing is published after a later generation was submitted. -/
theorem publication_prefix_consistent (pfx : String) {ls : List GatewayLabel} {g : Gateway Logical}
    (r : Run (Step (canonicalizePrefix pfx) accept) Initial ls g) :
    (g.authority.runtime = {} ∨ ∃ stored logical, g.authority.runtime = ⟨stored.revision, some logical⟩ ∧
      accept stored = .ok logical ∧ stored.revision ≤ g.etcd.revision ∧ ∀ key, stored.resources.lookup key =
        (g.etcd.history.stateAt stored.revision).held (canonicalizePrefix pfx) key) ∧
    (ls.Pairwise fun l l' => ∀ gen revision gen' revision', l = .authority (.publish gen revision) →
      l' = .authority (.publish gen' revision') → revision ≤ revision') ∧
    ls.Pairwise fun l l' => ∀ gen gen' revision, l = .authority (.bump gen) →
      l' = .authority (.publish gen' revision) → gen ≤ gen' := by
  have hO := Authority.run_ordered (run_authority r)
  refine ⟨?_, ?_, ?_⟩
  · rcases (run_consistent r).runtime with h | ⟨t, ⟨hF, hrev⟩, h⟩
    · exact .inl h
    · exact .inr ⟨t.stored, t.logical, by rw [hrev]; exact h, hF.accepted, hF.holds.1, hF.holds.2⟩
  · refine (List.pairwise_filterMap.mp hO.revisions).imp fun h gen revision gen' revision' hl hl' => ?_
    rw [hl, hl'] at h
    exact h _ rfl _ rfl _ _ _ _ rfl rfl
  · refine (List.pairwise_filterMap.mp hO.generations).imp fun h gen gen' revision hl hl' => ?_
    rw [hl, hl'] at h
    exact h _ rfl _ rfl _ _ _ rfl rfl

def sampleEtcd : Etcd := ⟨sampleHistory, 6, by decide, by decide⟩

/-- The list of the sample etcd, submitted, prepared and published. -/
theorem run_listed : ∃ ls, ∃ g : Gateway Unit, Run (Step (canonicalizePrefix "/p") fun _ => .ok ()) Initial ls g ∧
    g.authority.runtime = ⟨6, some ()⟩ := by
  have r₀ : Run (Step (canonicalizePrefix "/p") fun _ => .ok ()) Initial [] ({ etcd := sampleEtcd } : Gateway Unit) :=
    .start ⟨rfl, rfl, rfl⟩
  have r₁ := (r₀.snoc (.list rfl (.refl _))).snoc (.replaceAll rfl ⟨rfl, rfl⟩ rfl rfl)
  have r₂ := r₁.snoc (.submit (.ensureWorkerStarted rfl rfl))
  have r₃ := (r₂.snoc (.submit (.bump rfl))).snoc (.submit (.register rfl))
  have r₄ := (r₃.snoc (.submit (.cancelPrevious rfl))).snoc (.submit (.replaceTarget rfl))
  have r₅ := (r₄.snoc (.submit (.signal rfl))).snoc (.replaced rfl rfl)
  have r₆ := (r₅.snoc (.worker (.receive rfl rfl))).snoc (.worker (.observe rfl))
  have r₇ := (r₆.snoc (.worker (.take rfl rfl))).snoc (.worker (.prepared rfl))
  have r₈ := (r₇.snoc (.worker (.compiled rfl))).snoc (.worker (.fenced rfl ⟨rfl, rfl⟩ nofun (by decide)))
  exact ⟨_, _, r₈.snoc (.worker (.publish rfl)), rfl⟩

theorem publication_prefix_consistent_listed : ∃ g : Gateway Unit, ∃ stored : StoredGraph,
    g.authority.runtime = ⟨stored.revision, some ()⟩ ∧ stored.revision = 6 ∧
      ∀ key, stored.resources.lookup key =
        (g.etcd.history.stateAt stored.revision).held (canonicalizePrefix "/p") key := by
  obtain ⟨ls, g, r, hr⟩ := run_listed
  obtain ⟨h | ⟨stored, logical, h, -, -, hheld⟩, -⟩ := publication_prefix_consistent "/p" r
  · rw [hr] at h; cases h
  · refine ⟨g, stored, h, ?_, hheld⟩
    rw [hr] at h
    exact (congrArg PublishedSnapshot.revision h).symm

end Gateway

end Pingsix
