import Pingsix.PublicationSound

/-!
# The readiness fence

A list that restores the connection closes readiness. Only a publication opens
it again, and one of a candidate submitted before the reconnect does so unless
the worker publishes nothing until the first submission after it; from that
submission on the generation fence holds older candidates back.
-/

namespace Pingsix

variable {Logical : Type}

/-! ## The status -/

/-- Readiness is closed for lack of a publication, whatever the policy and the clock say. -/
def StatusStore.Fenced (s : StatusStore) : Prop := s.initialized = true → s.awaitingPublishAfterReconnect = true

/-- What the sync loop and the worker record besides publications. -/
inductive StatusStep : StatusStore → StatusStore → Prop
  | unchanged (s : StatusStore) : StatusStep s s
  | syncSuccess (s : StatusStore) (revision : Int) : StatusStep s (s.recordSyncSuccess revision)
  | syncError (s : StatusStore) (error : String) : StatusStep s (s.recordSyncError error)
  | preparationError (s : StatusStore) (error : String) : StatusStep s (s.recordPreparationError error)
  | revision (s : StatusStore) (revision : Option Int) : StatusStep s (s.setRevision revision)
  | connected (s : StatusStore) : StatusStep s (s.markEtcdConnected true)

namespace StatusStore

theorem Fenced.notReady {s : StatusStore} (h : s.Fenced) (failReadinessWhenStale overdue : Bool) :
    s.computeReady failReadinessWhenStale overdue = false := by
  unfold computeReady
  rw [if_pos]
  cases hi : s.initialized with
  | false => rfl
  | true => simp [h hi]

theorem recordSyncSuccess_revision (s : StatusStore) (revision : Int) :
    (s.recordSyncSuccess revision).revision = some revision := by
  unfold recordSyncSuccess
  simp only
  repeat' split
  all_goals rfl

theorem recordSyncSuccess_initialized (s : StatusStore) (revision : Int) :
    (s.recordSyncSuccess revision).initialized = s.initialized := by
  unfold recordSyncSuccess
  simp only
  repeat' split
  all_goals rfl

theorem recordSyncSuccess_awaiting (s : StatusStore) (revision : Int) :
    (s.recordSyncSuccess revision).awaitingPublishAfterReconnect =
      (s.awaitingPublishAfterReconnect || (!s.connected && s.initialized)) := by
  unfold recordSyncSuccess
  simp only
  cases s.connected <;> cases s.initialized <;> repeat' split
  all_goals simp_all

/-- A list that restores the connection fences readiness. -/
theorem fenced_of_reconnect {s : StatusStore} (hs : s.connected = false) (revision : Int) :
    (s.recordSyncSuccess revision).Fenced := by
  intro hi
  rw [recordSyncSuccess_initialized] at hi
  rw [recordSyncSuccess_awaiting, hs, hi]
  simp

end StatusStore

theorem StatusStep.fenced {s s' : StatusStore} (h : StatusStep s s') (hf : s.Fenced) : s'.Fenced := by
  cases h with
  | syncSuccess revision =>
    intro hi
    rw [StatusStore.recordSyncSuccess_initialized] at hi
    rw [StatusStore.recordSyncSuccess_awaiting, hf hi]
    rfl
  | _ => exact hf

namespace Authority

theorem WorkerStep.status {a a' : Authority Logical} {l : Label} (h : WorkerStep a l a') :
    StatusStep a.status a'.status ∨ ∃ gen revision, l = .publish gen revision ∧
      a'.status = a.status.setPublishedRevision revision := by
  cases h with
  | publish => exact .inr ⟨_, _, rfl, rfl⟩
  | prepareFailed | reject | rejectNone => exact .inl (.preparationError _ _)
  | _ => exact .inl (.unchanged _)

theorem SubmitStep.status {a a' : Authority Logical} {l : Label} (h : SubmitStep a l a') :
    a'.status = a.status := by
  cases h with
  | ensureWorkerStarted _ ha => rcases ensureWorkerStarted_ok ha with rfl | ⟨_, rfl⟩ <;> rfl
  | _ => rfl

end Authority

namespace Gateway

variable {cp : String} {accept : StoredGraph → ProxyResult Logical}

theorem rejected_status (g : Gateway Logical) (e : GraphError) :
    StatusStep g.authority.status (g.rejected e).authority.status := by
  show StatusStep _ (recordRejection _ e)
  unfold recordRejection
  by_cases h : isDataRejection e
  · rw [if_pos h]
    exact .preparationError _ _
  · rw [if_neg h]
    exact .syncError _ _

theorem Step.status {g g' : Gateway Logical} {l : GatewayLabel} (h : Step cp accept g l g') :
    StatusStep g.authority.status g'.authority.status ∨ ∃ gen revision, l = .authority (.publish gen revision) ∧
      g'.authority.status = g.authority.status.setPublishedRevision revision := by
  cases h with
  | worker h =>
    rcases h.status with hs | ⟨gen, revision, rfl, hs⟩
    · exact .inl hs
    · exact .inr ⟨gen, revision, rfl, hs⟩
  | submit h =>
    rw [h.status]
    exact .inl (.unchanged _)
  | submitFails h =>
    cases h
    exact .inl (.unchanged _)
  | list | ignored | applied => exact .inl (.syncSuccess _ _)
  | listFailed | listUnmapped | undecodable => exact .inl (.syncError _ _)
  | listRejected | batchRejected => exact .inl (rejected_status _ _)
  | replaced => exact .inl (.revision _ _)
  | watchStarted => exact .inl (.connected _)
  | watchEnded status _ hs =>
    rcases hs with rfl | ⟨error, rfl⟩
    · exact .inl (.unchanged _)
    · exact .inl (.syncError _ _)
  | _ => exact .inl (.unchanged _)

/-! ## Reconnects -/

/-- A list at `revision` restored the connection. -/
def Reconnects (s s' : StatusStore) (revision : Int) : Prop :=
  s.connected = false ∧ s'.connected = true ∧ s'.revision = some revision

/-- Only a loop that is about to list is disconnected. -/
def ConnectedPast (g : Gateway Logical) : Prop :=
  g.sync.phase ≠ .listing → g.authority.status.connected = true

theorem WorkerStep.connected {a a' : Authority Logical} {l : Label} (h : Authority.WorkerStep a l a') :
    a'.status.connected = a.status.connected := by
  cases h with
  | publish =>
    simp only [StatusStore.setPublishedRevision]
    split <;> rfl
  | _ => rfl

theorem Step.preservesConnected {g g' : Gateway Logical} {l : GatewayLabel} (h : Step cp accept g l g')
    (hK : ConnectedPast g) : ConnectedPast g' := by
  intro hp
  cases h with
  | write | commit | recordPending => exact hK hp
  | worker h => exact (WorkerStep.connected h).trans (hK hp)
  | submit h => exact (congrArg StatusStore.connected h.status).trans (hK hp)
  | list | watchStarted | ignored | applied => rfl
  | respond hw => exact hK (by rw [hw]; exact nofun)
  | replaceAll hw => exact hK (by rw [hw]; exact nofun)
  | replaced hw => exact hK (by rw [hw]; exact nofun)
  | applyWatch hw => exact hK (by rw [hw]; exact nofun)
  | _ => exact absurd rfl hp

/-- A reconnect is a list of the whole namespace at the current revision. -/
theorem Step.reconnects {g g' : Gateway Logical} {l : GatewayLabel} {r : Int} (h : Step cp accept g l g')
    (hK : ConnectedPast g) (hr : Reconnects g.authority.status g'.authority.status r) :
    g.sync.phase = .listing ∧ r = g.etcd.revision ∧ ∃ kvs, g' =
      (g.withStatus (g.authority.status.recordSyncSuccess g.etcd.revision)).withPhase (.listed g.etcd.revision kvs) := by
  obtain ⟨hd, hc, hrev⟩ := hr
  have hlisting : g.sync.phase = .listing := by
    by_cases hp : g.sync.phase = .listing
    · exact hp
    · rw [hK hp] at hd
      cases hd
  refine ⟨hlisting, ?_⟩
  cases h with
  | list hp hk =>
    refine ⟨?_, _, rfl⟩
    exact Option.some.inj (hrev.symm.trans (StatusStore.recordSyncSuccess_revision _ _))
  | worker h =>
    have := (WorkerStep.connected h).symm.trans hc
    rw [hd] at this
    cases this
  | submit h =>
    have := (congrArg StatusStore.connected h.status).symm.trans hc
    rw [hd] at this
    cases this
  | submitFails h =>
    cases h
    cases hd.symm.trans hc
  | write | commit | recordPending => cases hd.symm.trans hc
  | listFailed => cases hc
  | listRejected hp | replaceAll hp | replaced hp | watchStarted hp =>
    rw [hlisting] at hp
    cases hp
  | respond hp | ignored hp | batchRejected hp | applyWatch hp | applied hp =>
    rw [hlisting] at hp
    cases hp
  | listUnmapped _ hp | undecodable _ hp =>
    rw [hlisting] at hp
    cases hp
  | watchEnded _ hp =>
    rw [hlisting] at hp
    rcases hp with hp | ⟨_, hp⟩ <;> cases hp

/-! ## From a reconnect on -/

/-- Whatever the loop holds from a reconnect at `r` on was listed or delivered at `r` or later. -/
def SyncFrom (r : Int) (sync : EtcdConfigSync) : Prop :=
  match sync.phase with
  | .listing => True
  | .listed revision _ | .replacing revision => r ≤ revision
  | .connecting => r ≤ sync.revision
  | .watching position | .received position _ _ _ | .applying position _ => r ≤ position

/-- The state after a reconnect at `r` when `n` candidates had been submitted before it. -/
structure After (r : Int) (n : Nat) (ls : List GatewayLabel) (g : Gateway Logical) : Prop where
  etcd : r ≤ g.etcd.revision
  sync : SyncFrom r g.sync
  writer : ∀ w, g.authority.writer = some w → r ≤ w.submission.stored.revision
  target : ∀ t, g.authority.target = some t → n < t.generation → r ≤ t.revision
  attempt : ∀ stage d att t, g.authority.worker = .attempting stage d att t → n < t.generation → r ≤ t.revision
  latest : n ≤ g.authority.latestGeneration
  bumped : ∀ m, .authority (.bump m) ∈ ls → n < g.authority.latestGeneration
  fenced : g.authority.status.Fenced ∨
    ∃ gen revision, .authority (.publish gen revision) ∈ ls ∧ n < gen ∧ r ≤ revision

/-- No candidate is published from a reconnect on before a graph has been submitted. -/
def SubmitsFirst (ls : List GatewayLabel) (_ : Gateway Logical) (l : GatewayLabel) : Prop :=
  ∀ gen revision, l = .authority (.publish gen revision) → ∃ m, .authority (.bump m) ∈ ls

variable {r : Int} {n : Nat} {ls : List GatewayLabel}

theorem After.fenced_snoc {g g' : Gateway Logical} {l : GatewayLabel} (hA : After r n ls g)
    (hs : StatusStep g.authority.status g'.authority.status) : g'.authority.status.Fenced ∨
      ∃ gen revision, .authority (.publish gen revision) ∈ ls ++ [l] ∧ n < gen ∧ r ≤ revision := by
  rcases hA.fenced with hf | ⟨gen, revision, hin, h⟩
  · exact .inl (hs.fenced hf)
  · exact .inr ⟨gen, revision, List.mem_append_left _ hin, h⟩

/-- Steps that neither submit nor publish. -/
theorem After.keep {g g' : Gateway Logical} {l : GatewayLabel} (hA : After r n ls g)
    (he : g.etcd.revision ≤ g'.etcd.revision) (hs : SyncFrom r g'.sync)
    (hw : ∀ w, g'.authority.writer = some w → r ≤ w.submission.stored.revision)
    (ht : g'.authority.target = g.authority.target) (hwk : g'.authority.worker = g.authority.worker)
    (hn : g'.authority.latestGeneration = g.authority.latestGeneration)
    (hst : StatusStep g.authority.status g'.authority.status) (hl : ∀ m, .authority (.bump m) ≠ l) :
    After r n (ls ++ [l]) g' where
  etcd := Int.le_trans hA.etcd he
  sync := hs
  writer := hw
  target := by
    rw [ht]
    exact hA.target
  attempt := by
    rw [hwk]
    exact hA.attempt
  latest := by
    rw [hn]
    exact hA.latest
  bumped m hm := by
    rw [hn]
    rcases List.mem_append.mp hm with hm | hm
    · exact hA.bumped m hm
    · exact absurd (List.mem_singleton.mp hm) (hl m)
  fenced := hA.fenced_snoc hst

theorem After.worker {g : Gateway Logical} {a : Authority Logical} {l : Label} {las : List Label}
    (hA : After r n ls g) (h : Authority.WorkerStep g.authority l a) (hV : Authority.Served las g.authority)
    (hok : SubmitsFirst ls g (.authority l)) : After r n (ls ++ [.authority l]) { g with authority := a } := by
  obtain ⟨hw, hn, ht, -⟩ := h.sameControl
  refine ⟨hA.etcd, hA.sync, ?_, ?_, ?_, ?_, ?_, ?_⟩
  · rw [hw]
    exact hA.writer
  · rw [ht]
    exact hA.target
  · exact (workerStep_attempted h hA.target hA.attempt).1
  · rw [hn]
    exact hA.latest
  · intro m hm
    rw [hn]
    rcases List.mem_append.mp hm with hm | hm
    · exact hA.bumped m hm
    · cases List.mem_singleton.mp hm
      cases h
  · rcases h.status with hs | ⟨gen, revision, rfl, -⟩
    · exact hA.fenced_snoc hs
    · -- a publication comes after a submission, and the fence lets only the latest generation through
      obtain ⟨m, hm⟩ := hok gen revision rfl
      have hlt := hA.bumped m hm
      rw [← ((Authority.Step.worker h).publish_spec hV).1] at hlt
      refine .inr ⟨gen, revision, List.mem_append_right _ (List.mem_singleton_self _), hlt, ?_⟩
      cases h with
      | publish hat => exact hA.attempt _ _ _ _ hat hlt

theorem After.submit {g : Gateway Logical} {a : Authority Logical} {l : Label} (hA : After r n ls g)
    (h : Authority.SubmitStep g.authority l a) : After r n (ls ++ [.authority l]) { g with authority := a } := by
  obtain ⟨w, hw, hw', htgt⟩ := submitStep_submission h
  have hle := (Authority.Step.submit h).latest_le
  refine ⟨hA.etcd, hA.sync, ?_, ?_, ?_, Nat.le_trans hA.latest hle, ?_, ?_⟩
  · intro w' hs
    rcases hw' with hn | ⟨pc, hpc⟩
    · rw [hn] at hs
      cases hs
    · rw [hpc] at hs
      cases hs
      exact hA.writer w hw
  · intro t ht hlt
    rcases htgt with ⟨he, -⟩ | ⟨-, -, gen, he⟩
    · exact hA.target t (he ▸ ht) hlt
    · rw [he] at ht
      cases ht
      exact hA.writer w hw
  · exact fun stage d att t hat => hA.attempt stage d att t (submitStep_worker h hat)
  · intro m hm
    rcases List.mem_append.mp hm with hm | hm
    · exact Nat.lt_of_lt_of_le (hA.bumped m hm) hle
    · cases List.mem_singleton.mp hm
      cases h with
      | bump => exact Nat.lt_succ_of_le hA.latest
  · refine hA.fenced_snoc ?_
    rw [h.status]
    exact .unchanged _

theorem Step.preservesAfter {g g' : Gateway Logical} {l : GatewayLabel} {las : List Label}
    (h : Step cp accept g l g') (hV : Authority.Served las g.authority) (hC : Consistent cp accept g)
    (hok : SubmitsFirst ls g l) (hA : After r n ls g) : After r n (ls ++ [l]) g' := by
  have hsync := hA.sync
  have hphase := hC.phase
  unfold SyncFrom at hsync
  cases h with
  | write ops => exact hA.keep (Int.le_of_lt (Int.lt_succ _)) hA.sync hA.writer rfl rfl rfl (.unchanged _) nofun
  | commit mutation =>
    exact hA.keep (Int.le_of_lt (Int.lt_succ _)) hA.sync hA.writer rfl rfl rfl (.unchanged _) nofun
  | recordPending => exact hA.keep (Int.le_refl _) hA.sync hA.writer rfl rfl rfl (.unchanged _) nofun
  | worker h => exact hA.worker h hV hok
  | submit h => exact hA.submit h
  | submitFails h => exact absurd h hV.control.submit_runs
  | list hp hk => exact hA.keep (Int.le_refl _) hA.etcd hA.writer rfl rfl rfl (.syncSuccess _ _) nofun
  | listFailed error hp => exact hA.keep (Int.le_refl _) trivial hA.writer rfl rfl rfl (.syncError _ _) nofun
  | listUnmapped error hp => exact hA.keep (Int.le_refl _) trivial hA.writer rfl rfl rfl (.syncError _ _) nofun
  | listRejected hp => exact hA.keep (Int.le_refl _) trivial hA.writer rfl rfl rfl (rejected_status _ _) nofun
  | replaceAll hp hl hg hr =>
    rw [hp] at hsync hphase
    refine hA.keep (Int.le_refl _) hsync (fun w hw => ?_) rfl rfl rfl (.unchanged _) nofun
    cases hw
    rw [(replaceAll_eq_ok hr).1, (list_upTo hphase.2.1 hphase.2.2 hg).1]
    exact hsync
  | replaced hp hw =>
    rw [hp] at hsync
    exact hA.keep (Int.le_refl _) hsync hA.writer rfl rfl rfl (.revision _ _) nofun
  | watchStarted hp =>
    rw [hp] at hsync
    exact hA.keep (Int.le_refl _) hsync hA.writer rfl rfl rfl (.connected _) nofun
  | respond hp hn hb =>
    rw [hp] at hsync
    exact hA.keep (Int.le_refl _) hsync hA.writer rfl rfl rfl (.unchanged _) nofun
  | undecodable error hp => exact hA.keep (Int.le_refl _) trivial hA.writer rfl rfl rfl (.syncError _ _) nofun
  | ignored hp hl hm hc ha =>
    rw [hp] at hsync hphase
    exact hA.keep (Int.le_refl _) (Int.le_trans hsync hphase.2.1) hA.writer rfl rfl rfl (.syncSuccess _ _) nofun
  | batchRejected hp => exact hA.keep (Int.le_refl _) trivial hA.writer rfl rfl rfl (rejected_status _ _) nofun
  | applyWatch hp hl hm hc ha =>
    rw [hp] at hsync hphase
    obtain ⟨-, hpn, -, rfl, -⟩ := hphase
    obtain ⟨hne, -, hstored, -⟩ := applyWatch_eq_some ha
    refine hA.keep (Int.le_refl _) (Int.le_trans hsync hpn) (fun w hw => ?_) rfl rfl rfl (.unchanged _) nofun
    cases hw
    rw [hstored, applyWatchBatch_revision hne]
    have hlt := (events_after_batchRevision (events_of_changes hm hc hne)).1
    exact Int.le_trans hsync (Int.le_of_lt hlt)
  | applied hp hw =>
    rw [hp] at hsync
    exact hA.keep (Int.le_refl _) hsync hA.writer rfl rfl rfl (.syncSuccess _ _) nofun
  | watchEnded status hp hs =>
    refine hA.keep (Int.le_refl _) trivial hA.writer rfl rfl rfl ?_ nofun
    rcases hs with rfl | ⟨error, rfl⟩
    · exact .unchanged _
    · exact .syncError _ _

/-- Readiness is open only if, since the reconnect at `r` that led to `g₁`, a snapshot of that revision or later was
published whose candidate was submitted after the reconnect. -/
def OpenedAfresh (r : Int) (g₁ : Gateway Logical) (ls : List GatewayLabel) (g : Gateway Logical) : Prop :=
  ∀ failReadinessWhenStale overdue, g.authority.status.computeReady failReadinessWhenStale overdue = true →
    ∃ gen revision, .authority (.publish gen revision) ∈ ls ∧ g₁.authority.latestGeneration < gen ∧ r ≤ revision

theorem run_connected {g : Gateway Logical} (r : Run (Step cp accept) Initial ls g) : ConnectedPast g := by
  refine Run.invariant (I := fun _ g => ConnectedPast g) (fun g h => ?_) (fun _ hK h => h.preservesConnected hK) r
  intro hp
  rw [h.1] at hp
  exact absurd rfl hp

theorem after_reconnect {g : Gateway Logical} (run : Run (Step cp accept) Initial ls g) {kvs : List KeyValue}
    (hp : g.sync.phase = .listing) (hd : g.authority.status.connected = false) :
    After g.etcd.revision g.authority.latestGeneration []
      ((g.withStatus (g.authority.status.recordSyncSuccess g.etcd.revision)).withPhase
        (.listed g.etcd.revision kvs)) := by
  have hV := Authority.run_served (run_authority run)
  have hphase := (run_consistent run).phase
  rw [hp] at hphase
  have hw : g.authority.writer = none := hphase
  refine ⟨Int.le_refl _, Int.le_refl _, fun w h => ?_, fun t ht hlt => ?_, fun stage d att t hat hlt => ?_,
    Nat.le_refl _, nofun, .inl (StatusStore.fenced_of_reconnect hd _)⟩
  · cases hw.symm.trans h
  · have := (hV.control.target_generation ht).1
    have := g.authority.targetGeneration_le
    omega
  · have hb := hV.bounded
    rw [show g.authority.worker = .attempting stage d att t from hat] at hb
    have := hb.2.2.2
    have := g.authority.targetGeneration_le
    omega

/-- In a run that publishes nothing between a reconnect and the first submission after it, readiness stays closed
until a candidate submitted after the reconnect is published at the revision of its list or later. -/
theorem readiness_fenced {g g₁ : Gateway Logical} {l : GatewayLabel} (before : Run (Step cp accept) Initial ls g)
    (h : Step cp accept g l g₁) (hr : Reconnects g.authority.status g₁.authority.status r) {ls' : List GatewayLabel}
    {g₂ : Gateway Logical} (after : RunMeeting (Step cp accept) (fun s => s = g₁) SubmitsFirst ls' g₂) :
    OpenedAfresh r g₁ ls' g₂ := by
  obtain ⟨hp, rfl, kvs, rfl⟩ := h.reconnects (run_connected before) hr
  have hA : After g.etcd.revision g.authority.latestGeneration ls' g₂ := by
    refine RunMeeting.invariant (I := After g.etcd.revision g.authority.latestGeneration) (fun s hs => ?_)
      (fun run hA hok h => ?_) after
    · rw [hs]
      exact after_reconnect before hp hr.1
    · have all := (before.snoc ‹_›).trans run
      exact h.preservesAfter (Authority.run_served (run_authority all)) (run_consistent all) hok hA
  intro failReadinessWhenStale overdue ready
  rcases hA.fenced with hf | hx
  · rw [hf.notReady] at ready
    cases ready
  · exact hx

def publishedRevision : GatewayLabel → Option Int
  | .authority (.publish _ revision) => some revision
  | _ => none

/-- A reconnect at 7 while the graph listed at 6 waits for the worker, which either prepares and publishes it at
once or first sees the graph listed at 7. -/
theorem run_reconnected : ∃ ls, ∃ g g₁ : Gateway Unit, ∃ l,
    Run (Step (canonicalizePrefix "/p") fun _ => .ok ()) Initial ls g ∧
    Step (canonicalizePrefix "/p") (fun _ => .ok ()) g l g₁ ∧
    Reconnects g.authority.status g₁.authority.status 7 ∧
    (∃ ls' g₂, Run (Step (canonicalizePrefix "/p") fun _ => .ok ()) (fun s => s = g₁) ls' g₂ ∧
      g₂.authority.status.computeReady true true = true ∧ ls'.filterMap publishedRevision = [6]) ∧
    ∃ ls' g₂, RunMeeting (Step (canonicalizePrefix "/p") fun _ => .ok ()) (fun s => s = g₁) SubmitsFirst ls' g₂ ∧
      g₂.authority.status.computeReady true true = true ∧ g₂.authority.runtime.revision = 7 := by
  have r₀ : Run (Step (canonicalizePrefix "/p") fun _ => .ok ()) Initial [] ({ etcd := sampleEtcd } : Gateway Unit) :=
    .start ⟨rfl, rfl, rfl⟩
  have r₁ := (r₀.snoc (.list rfl (.refl _))).snoc (.replaceAll rfl ⟨rfl, rfl⟩ rfl rfl)
  have r₂ := r₁.snoc (.submit (.ensureWorkerStarted rfl rfl))
  have r₃ := (r₂.snoc (.submit (.bump rfl))).snoc (.submit (.register rfl))
  have r₄ := (r₃.snoc (.submit (.cancelPrevious rfl))).snoc (.submit (.replaceTarget rfl))
  have r₅ := ((r₄.snoc (.submit (.signal rfl))).snoc (.replaced rfl rfl)).snoc (.watchStarted rfl)
  have r₆ := (r₅.snoc (.watchEnded _ (.inr ⟨_, rfl⟩) (.inr ⟨"stream reset", rfl⟩))).snoc (.write [])
  have r₇ := r₆.snoc (.list rfl (.refl _))
  have e₀ := ((r₇.restart fun _ _ _ => True).snoc (.worker (.receive rfl rfl)) trivial).snoc (.worker (.observe rfl)) trivial
  have e₁ := (e₀.snoc (.worker (.take rfl rfl)) trivial).snoc (.worker (.prepared rfl)) trivial
  have e₂ := (e₁.snoc (.worker (.compiled rfl)) trivial).snoc
    (.worker (.fenced rfl ⟨rfl, rfl⟩ nofun (by decide))) trivial
  have e₃ := e₂.snoc (.worker (.publish rfl)) trivial
  have f₀ := (r₇.restart SubmitsFirst).snoc (.replaceAll rfl ⟨rfl, rfl⟩ rfl rfl) nofun
  have f₁ := (f₀.snoc (.submit (.ensureWorkerStarted rfl rfl)) nofun).snoc (.submit (.bump rfl)) nofun
  have f₂ := (f₁.snoc (.submit (.register rfl)) nofun).snoc (.submit (.cancelPrevious rfl)) nofun
  have f₃ := (f₂.snoc (.submit (.replaceTarget rfl)) nofun).snoc (.submit (.signal rfl)) nofun
  have f₄ := (f₃.snoc (.worker (.receive rfl rfl)) nofun).snoc (.worker (.observe rfl)) nofun
  have f₅ := (f₄.snoc (.worker (.take rfl rfl)) nofun).snoc (.worker (.prepared rfl)) nofun
  have f₆ := (f₅.snoc (.worker (.compiled rfl)) nofun).snoc
    (.worker (.fenced rfl ⟨rfl, rfl⟩ (by decide) (by decide))) nofun
  have f₇ := f₆.snoc (.worker (.publish rfl)) fun _ _ _ => ⟨2, by decide⟩
  exact ⟨_, _, _, _, r₆, .list rfl (.refl _), ⟨rfl, rfl, rfl⟩, ⟨_, _, e₃.run, rfl, rfl⟩, _, _, f₇, rfl, rfl⟩

/-- The graph listed before the disconnect is published after the list at 7 and opens readiness at revision 6. -/
theorem readiness_opened_early : ¬ ∀ (r : Int) (ls ls' : List GatewayLabel) (g g₁ g₂ : Gateway Unit) (l : GatewayLabel),
    Run (Step (canonicalizePrefix "/p") fun _ => .ok ()) Initial ls g →
    Step (canonicalizePrefix "/p") (fun _ => .ok ()) g l g₁ →
    Reconnects g.authority.status g₁.authority.status r →
    Run (Step (canonicalizePrefix "/p") fun _ => .ok ()) (fun s => s = g₁) ls' g₂ → OpenedAfresh r g₁ ls' g₂ := by
  intro h
  obtain ⟨ls, g, g₁, l, before, step, hr, ⟨ls', g₂, early, ready, hpub⟩, -⟩ := run_reconnected
  obtain ⟨gen, revision, hin, -, hle⟩ := h 7 ls ls' g g₁ g₂ l before step hr early true true ready
  have : revision ∈ ls'.filterMap publishedRevision := List.mem_filterMap.mpr ⟨_, hin, rfl⟩
  rw [hpub, List.mem_singleton] at this
  omega

theorem readiness_fenced_listed : ∃ (ls' : List GatewayLabel) (g₁ g₂ : Gateway Unit),
    g₂.authority.status.computeReady true true = true ∧ OpenedAfresh 7 g₁ ls' g₂ ∧
      g₂.authority.runtime.revision = 7 := by
  obtain ⟨ls, g, g₁, l, before, step, hr, -, ls', g₂, after, ready, hrt⟩ := run_reconnected
  exact ⟨ls', g₁, g₂, ready, readiness_fenced before step hr after, hrt⟩

end Gateway

end Pingsix
