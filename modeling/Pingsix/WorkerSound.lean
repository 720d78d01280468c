import Pingsix.Authority
import Pingsix.Lib.System

/-!
# No submission is stranded

The generation counter, the active token and the target differ only inside a
`submit` in progress (`Control`). Whenever none is, the latest generation has
its outcome, or a signal is queued for it, or the worker is on it (`Served`).
-/

namespace Pingsix

variable {Logical : Type}

/-- The token and target generation zero names none. -/
def tokenOf (generation : Nat) : Option Nat := if generation = 0 then none else some generation

theorem tokenOf_eq_some {n g : Nat} : tokenOf n = some g ↔ n = g ∧ 1 ≤ g := by
  unfold tokenOf
  split
  · constructor
    · intro h; cases h
    · rintro ⟨h, hg⟩; omega
  · rw [Option.some.injEq]
    constructor
    · intro h; omega
    · exact fun h => h.1

theorem tokenOf_eq_none {n : Nat} : tokenOf n = none ↔ n = 0 := by
  unfold tokenOf
  split
  · simp [*]
  · simp [*]

namespace SubmitPc

/-- The generation a `submit` works for once it has bumped the counter. -/
def generation : SubmitPc → Option Nat
  | register g | cancelPrevious g | replaceTarget g => some g
  | _ => none

/-- The submission's token is not active yet. -/
def beforeCancel : SubmitPc → Bool
  | register _ | cancelPrevious _ => true
  | _ => false

/-- The submission is not the target yet. -/
def beforeReplace : SubmitPc → Bool
  | register _ | cancelPrevious _ | replaceTarget _ => true
  | _ => false

end SubmitPc

namespace Authority

/-- The generation whose token is active. -/
def activeGeneration (a : Authority Logical) : Nat :=
  if (a.writer.map fun w => w.pc.beforeCancel) = some true then a.latestGeneration - 1 else a.latestGeneration

/-- The generation that is the target. -/
def targetGeneration (a : Authority Logical) : Nat :=
  if (a.writer.map fun w => w.pc.beforeReplace) = some true then a.latestGeneration - 1 else a.latestGeneration

/-- Every token before the active one is cancelled, and the target is the latest generation that replaced it. -/
structure Control (a : Authority Logical) : Prop where
  running : a.lifecycle = .running
  writerGeneration : ∀ w g, a.writer = some w → w.pc.generation = some g → g = a.latestGeneration ∧ 1 ≤ g
  signalling : ∀ w, a.writer = some w → w.pc = .signal → 1 ≤ a.latestGeneration
  workerTx : ∀ w, a.writer = some w → w.pc ≠ .ensureWorkerStarted → a.workerTx = true
  active : a.activeCancellation = tokenOf a.activeGeneration
  target : a.target.map (·.generation) = tokenOf a.targetGeneration
  token : ∀ t, a.target = some t → t.cancellation = t.generation
  cancelled : ∀ token : Nat, token ∈ a.cancelled ↔ 1 ≤ token ∧ token < a.activeGeneration

/-- The fields of the control state, which no worker step touches. -/
def SameControl (a a' : Authority Logical) : Prop :=
  a'.writer = a.writer ∧ a'.latestGeneration = a.latestGeneration ∧ a'.target = a.target ∧
    a'.activeCancellation = a.activeCancellation ∧ a'.cancelled = a.cancelled ∧ a'.workerTx = a.workerTx ∧
    a'.lifecycle = a.lifecycle

theorem WorkerStep.sameControl {a a' : Authority Logical} {l : Label} (h : WorkerStep a l a') :
    SameControl a a' := by
  cases h <;> exact ⟨rfl, rfl, rfl, rfl, rfl, rfl, rfl⟩

theorem SameControl.activeGeneration {a a' : Authority Logical} (h : SameControl a a') :
    a'.activeGeneration = a.activeGeneration := by
  unfold Authority.activeGeneration; rw [h.1, h.2.1]

theorem SameControl.targetGeneration {a a' : Authority Logical} (h : SameControl a a') :
    a'.targetGeneration = a.targetGeneration := by
  unfold Authority.targetGeneration; rw [h.1, h.2.1]

theorem SameControl.control {a a' : Authority Logical} (h : SameControl a a') (hc : Control a) : Control a' := by
  have hact := h.activeGeneration
  have htgt := h.targetGeneration
  obtain ⟨hw, hl, ht, ha, hcan, htx, hlc⟩ := h
  constructor
  · rw [hlc]; exact hc.running
  · rw [hw, hl]; exact hc.writerGeneration
  · rw [hw, hl]; exact hc.signalling
  · rw [hw, htx]; exact hc.workerTx
  · rw [ha, hact]; exact hc.active
  · rw [ht, htgt]; exact hc.target
  · rw [ht]; exact hc.token
  · rw [hcan, hact]; exact hc.cancelled

theorem ensureWorkerStarted_ok {a a' : Authority Logical} (h : a.ensureWorkerStarted = .ok a') :
    a' = a ∨ (a.workerTx = false ∧ a' = { a with workerTx := true, signal := false, worker := .receiving }) := by
  unfold Authority.ensureWorkerStarted at h
  split at h
  · cases h
  split at h
  · cases h; exact .inl rfl
  · rename_i htx
    cases h
    exact .inr ⟨by simpa using htx, rfl⟩

theorem Control.submit_runs {a a' : Authority Logical} {e : GraphError} (hc : Control a) : ¬ SubmitFails a e a' := by
  rintro ⟨_, ha⟩
  unfold Authority.ensureWorkerStarted at ha
  rw [if_neg (by simp [hc.running])] at ha
  split at ha <;> cases ha

theorem SubmitStep.control {a a' : Authority Logical} {l : Label} (h : SubmitStep a l a') (hc : Control a) :
    Control a' := by
  have hact := hc.active
  have htgt := hc.target
  have hcan := hc.cancelled
  unfold Authority.activeGeneration at hact hcan
  unfold Authority.targetGeneration at htgt
  cases h with
  | ensureWorkerStarted hw ha =>
    rw [hw] at hact htgt hcan
    rcases ensureWorkerStarted_ok ha with rfl | ⟨_, rfl⟩
    · refine ⟨hc.running, ?_, ?_, fun w hw' _ => ?_, hact, htgt, hc.token, hcan⟩
      · intro w g hw' hg; cases hw'; cases hg
      · intro w hw' hpc; cases hw'; cases hpc
      · unfold Authority.ensureWorkerStarted at ha
        rw [if_neg (by simp [hc.running])] at ha
        split at ha
        · assumption
        · exact (congrArg Authority.workerTx (Except.ok.inj ha)).symm
    · refine ⟨hc.running, ?_, ?_, fun _ _ _ => rfl, hact, htgt, hc.token, hcan⟩
      · intro w g hw' hg; cases hw'; cases hg
      · intro w hw' hpc; cases hw'; cases hpc
  | bump hw =>
    rw [hw] at hact htgt hcan
    refine ⟨hc.running, ?_, ?_, fun _ _ _ => hc.workerTx _ hw (by simp), hact, htgt, hc.token, hcan⟩
    · intro w g hw' hg; cases hw'; cases hg
      exact ⟨rfl, Nat.le_add_left ..⟩
    · intro w hw' hpc; cases hw'; cases hpc
  | register hw =>
    rw [hw] at hact htgt hcan
    refine ⟨hc.running, ?_, ?_, fun _ _ _ => hc.workerTx _ hw (by simp), hact, htgt, hc.token, hcan⟩
    · intro w g hw' hg; cases hw'
      exact hc.writerGeneration _ _ hw hg
    · intro w hw' hpc; cases hw'; cases hpc
  | cancelPrevious hw =>
    rename_i sub generation
    rw [hw] at hact htgt hcan
    obtain ⟨hg, hpos⟩ := hc.writerGeneration _ generation hw rfl
    simp only [Option.map_some, SubmitPc.beforeCancel, if_true] at hact hcan
    refine ⟨hc.running, ?_, ?_, fun _ _ _ => hc.workerTx _ hw (by simp), ?_, htgt, hc.token, ?_⟩
    · intro w g hw' hg'; cases hw'; cases hg'
      exact ⟨hg, hpos⟩
    · intro w hw' hpc; cases hw'; cases hpc
    · exact (tokenOf_eq_some.mpr ⟨hg.symm, hpos⟩).symm
    · intro token
      unfold Authority.activeGeneration
      simp only [Option.map_some, SubmitPc.beforeCancel, Option.some.injEq, Bool.false_eq_true, if_false]
      rw [List.mem_append, hcan, Option.mem_toList, hact, tokenOf_eq_some]
      omega
  | replaceTarget hw =>
    rename_i sub generation
    rw [hw] at hact hcan
    obtain ⟨hg, hpos⟩ := hc.writerGeneration _ generation hw rfl
    refine ⟨hc.running, ?_, ?_, fun _ _ _ => hc.workerTx _ hw (by simp), hact, ?_, ?_, hcan⟩
    · intro w g hw' hg'; cases hw'; cases hg'
    · intro w hw' _; cases hw'
      exact hg ▸ hpos
    · exact (tokenOf_eq_some.mpr ⟨hg.symm, hpos⟩).symm
    · rintro t ht; cases ht; rfl
  | signal hw =>
    rw [hw] at hact htgt hcan
    refine ⟨hc.running, ?_, ?_, ?_, hact, htgt, hc.token, hcan⟩
    · intro w g hw'; cases hw'
    · intro w hw'; cases hw'
    · intro w hw'; cases hw'

/-! ## The worker's tokens -/

/-- An observed target: its token is its own, and it is at most generation `n`. -/
def Observed (n : Nat) (att : Attempted) : Prop := ∃ g, att = some (g, g) ∧ 1 ≤ g ∧ g ≤ n

end Authority

/-- A worker at work has observed a target, and what it holds is at most generation `n`. -/
def Worker.Bounded (n : Nat) : Worker Logical → Prop
  | .absent | .receiving => True
  | .observing _ => 1 ≤ n
  | .taking _ att | .failedTransient _ att | .failedPermanent att | .rejecting att _ => Authority.Observed n att
  | .attempting _ _ att t => Authority.Observed n att ∧ t.cancellation = t.generation ∧ 1 ≤ t.generation ∧
      t.generation ≤ n
  | .backoff _ token | .parked token => 1 ≤ token ∧ token ≤ n

/-- The worker is on generation `g`: its next attempt serves it, or it holds the outcome or the token of `g`. -/
def Worker.On (g : Nat) : Worker Logical → Prop
  | .absent | .receiving => False
  | .observing _ => True
  | .taking _ att | .failedTransient _ att | .failedPermanent att | .rejecting att _ => att = some (g, g)
  | .attempting _ _ att t => att = some (g, g) ∧ t.generation = g
  | .backoff _ token | .parked token => token = g

theorem Worker.Bounded.mono {n m : Nat} (h : n ≤ m) {w : Worker Logical} (hb : w.Bounded n) : w.Bounded m := by
  have hobs : ∀ {att}, Authority.Observed n att → Authority.Observed m att :=
    fun ⟨g, ha, h₁, h₂⟩ => ⟨g, ha, h₁, Nat.le_trans h₂ h⟩
  cases w with
  | absent => trivial
  | receiving => trivial
  | observing => exact Nat.le_trans hb h
  | taking => exact hobs hb
  | attempting => exact ⟨hobs hb.1, hb.2.1, hb.2.2.1, Nat.le_trans hb.2.2.2 h⟩
  | failedTransient => exact hobs hb
  | backoff => exact ⟨hb.1, Nat.le_trans hb.2 h⟩
  | failedPermanent => exact hobs hb
  | rejecting => exact hobs hb
  | parked => exact ⟨hb.1, Nat.le_trans hb.2 h⟩

namespace Authority

/-- A generation has reached its outcome: it was published, or found older than the published snapshot. -/
def Settled (ls : List Label) (a : Authority Logical) (g : Nat) : Prop :=
  ∃ revision, .publish g revision ∈ ls ∨ (.settleStale g revision ∈ ls ∧ revision < a.runtime.revision)

structure Served (ls : List Label) (a : Authority Logical) : Prop where
  control : Control a
  bounded : a.worker.Bounded a.targetGeneration
  absent : a.workerTx = false → a.worker = .absent
  signalled : a.signal = true → 1 ≤ a.targetGeneration
  locked : a.worker.holdsWriteLock = true → a.writer = none
  fenced : ∀ stage d att t, a.worker = .attempting stage d att t → a.worker.holdsWriteLock = true →
    t.generation = a.latestGeneration
  newest : ∀ d att t, a.worker = .attempting .publishing d att t → a.runtime.revision ≤ t.revision
  published : ∀ stage d att t, a.worker = .attempting stage d att t → stage = .committing ∨ stage = .recording →
    .publish t.generation t.revision ∈ ls
  stale : ∀ g revision, .settleStale g revision ∈ ls → revision < a.runtime.revision
  served : a.writer = none → a.latestGeneration = 0 ∨ Settled ls a a.latestGeneration ∨ a.signal = true ∨
    a.worker.On a.latestGeneration

theorem activeGeneration_of_idle {a : Authority Logical} (h : a.writer = none) :
    a.activeGeneration = a.latestGeneration := by
  unfold Authority.activeGeneration; rw [h]; rfl

theorem targetGeneration_of_idle {a : Authority Logical} (h : a.writer = none) :
    a.targetGeneration = a.latestGeneration := by
  unfold Authority.targetGeneration; rw [h]; rfl

theorem targetGeneration_le (a : Authority Logical) : a.targetGeneration ≤ a.latestGeneration := by
  unfold Authority.targetGeneration
  split <;> omega

theorem Control.observed {a : Authority Logical} (hc : Control a) (hpos : 1 ≤ a.targetGeneration) :
    a.currentTarget = some (a.targetGeneration, a.targetGeneration) := by
  have ht := hc.target
  unfold Authority.currentTarget
  cases htgt : a.target with
  | none =>
    rw [htgt] at ht
    have := tokenOf_eq_none.mp ht.symm
    omega
  | some t =>
    rw [htgt] at ht
    have hg := (tokenOf_eq_some.mp ht.symm).1
    rw [Option.map_some, hc.token t htgt, hg]

theorem Control.target_generation {a : Authority Logical} (hc : Control a) {t : PendingGraph Logical}
    (ht : a.target = some t) : t.generation = a.targetGeneration ∧ 1 ≤ t.generation := by
  have h := hc.target
  rw [ht] at h
  obtain ⟨h₁, h₂⟩ := tokenOf_eq_some.mp h.symm
  exact ⟨h₁.symm, h₂⟩

theorem WorkerStep.bounded {a a' : Authority Logical} {l : Label} (h : WorkerStep a l a') (hc : Control a)
    (hs : a.signal = true → 1 ≤ a.targetGeneration) (hb : a.worker.Bounded a.targetGeneration) :
    a'.worker.Bounded a.targetGeneration := by
  cases h with
  | receive _ hsig => exact hs hsig
  | observe hw =>
    rw [hw] at hb
    exact ⟨a.targetGeneration, hc.observed hb, hb, Nat.le_refl _⟩
  | take hw ht =>
    rw [hw] at hb
    obtain ⟨hg, hpos⟩ := hc.target_generation ht
    exact ⟨hb, hc.token _ ht, hpos, Nat.le_of_eq hg⟩
  | takeNone | cancelled | superseded | stale | recordPublished | giveUp | backoffCancelled | unpark => trivial
  | prepared hw | compiled hw | fenced hw | publish hw | commit hw | findRejected hw => rw [hw] at hb; exact hb
  | prepareFailed hw | compileFailed hw => rw [hw] at hb; exact hb.1
  | retryNow hw | backOff hw =>
    rw [hw] at hb
    obtain ⟨g, hg, h₁, h₂⟩ := hb
    cases hg
    first
      | exact ⟨h₁, h₂⟩
      | exact Nat.le_trans h₁ h₂
  | sleepOver hw => rw [hw] at hb; exact Nat.le_trans hb.1 hb.2
  | reject hw | rejectNone hw =>
    rw [hw] at hb
    obtain ⟨g, rfl, hg⟩ := hb
    exact hg

theorem afterRejection_ne (att att' : Attempted) (stage : Stage) (d : Nat) (t : PendingGraph Logical) :
    Worker.afterRejection att ≠ .attempting stage d att' t := by
  unfold Worker.afterRejection
  split <;> exact nofun

theorem afterRejection_ne_rejecting (att att' : Attempted) (revision : Option Int) :
    (Worker.afterRejection att : Worker Logical) ≠ .rejecting att' revision := by
  unfold Worker.afterRejection
  split <;> exact nofun

theorem afterRejection_eq_parked {att : Attempted} {token : CancellationToken}
    (h : (Worker.afterRejection att : Worker Logical) = .parked token) : ∃ gen, att = some (gen, token) := by
  unfold Worker.afterRejection at h
  split at h
  · rename_i gen _
    cases h
    exact ⟨gen, rfl⟩
  · cases h

theorem holdsWriteLock_afterRejection (att : Attempted) :
    (Worker.afterRejection att : Worker Logical).holdsWriteLock = false := by
  unfold Worker.afterRejection
  split <;> rfl

/-- The lock the worker holds keeps writers out and its generation the latest. -/
theorem WorkerStep.lock {a a' : Authority Logical} {l : Label} (h : WorkerStep a l a')
    (hlocked : a.worker.holdsWriteLock = true → a.writer = none)
    (hf : ∀ stage d att t, a.worker = .attempting stage d att t → a.worker.holdsWriteLock = true →
      t.generation = a.latestGeneration) :
    (a'.worker.holdsWriteLock = true → a'.writer = none) ∧
    ∀ stage d att t, a'.worker = .attempting stage d att t → a'.worker.holdsWriteLock = true →
      t.generation = a'.latestGeneration := by
  cases h with
  | receive | observe | takeNone | take | prepared | prepareFailed | compiled | compileFailed | cancelled |
    superseded | stale | recordPublished | retryNow | giveUp | backOff | sleepOver | backoffCancelled |
    findRejected | unpark =>
    refine ⟨fun hh => ?_, fun _ _ _ _ _ hh => ?_⟩ <;> cases hh
  | fenced hw hl hc =>
    refine ⟨fun _ => hl.1, fun stage d att t hw' _ => ?_⟩
    cases hw'
    exact (not_not.mp (not_or.mp hc).2).symm
  | publish hw | commit hw =>
    rw [hw] at hlocked hf
    refine ⟨fun _ => hlocked rfl, fun stage d att t hw' _ => ?_⟩
    cases hw'
    exact hf _ _ _ _ rfl rfl
  | reject | rejectNone =>
    refine ⟨fun hh => ?_, fun _ _ _ _ hw' _ => absurd hw' (afterRejection_ne _ _ _ _ _)⟩
    rw [holdsWriteLock_afterRejection] at hh
    cases hh

theorem WorkerStep.newest {a a' : Authority Logical} {l : Label} (h : WorkerStep a l a') :
    ∀ d att t, a'.worker = .attempting .publishing d att t → a'.runtime.revision ≤ t.revision := by
  intro d att t hw'
  cases h with
  | fenced _ _ _ hr => cases hw'; exact Int.not_lt.mp hr
  | reject | rejectNone => exact absurd hw' (afterRejection_ne _ _ _ _ _)
  | _ => cases hw'

/-- A published revision is at least the one published before. -/
theorem WorkerStep.runtime_le {a a' : Authority Logical} {l : Label} (h : WorkerStep a l a')
    (hn : ∀ d att t, a.worker = .attempting .publishing d att t → a.runtime.revision ≤ t.revision) :
    a.runtime.revision ≤ a'.runtime.revision := by
  cases h with
  | publish hw => exact hn _ _ _ hw
  | _ => exact Int.le_refl _

theorem Settled.mono {ls : List Label} {a a' : Authority Logical} {g : Nat} (l : Label)
    (hr : a.runtime.revision ≤ a'.runtime.revision) (h : Settled ls a g) : Settled (ls ++ [l]) a' g := by
  obtain ⟨revision, h | ⟨h, hlt⟩⟩ := h
  · exact ⟨revision, .inl (List.mem_append_left _ h)⟩
  · exact ⟨revision, .inr ⟨List.mem_append_left _ h, Int.lt_of_lt_of_le hlt hr⟩⟩

theorem WorkerStep.published {ls : List Label} {a a' : Authority Logical} {l : Label} (h : WorkerStep a l a')
    (hp : ∀ stage d att t, a.worker = .attempting stage d att t → stage = .committing ∨ stage = .recording →
      .publish t.generation t.revision ∈ ls) :
    ∀ stage d att t, a'.worker = .attempting stage d att t → stage = .committing ∨ stage = .recording →
      .publish t.generation t.revision ∈ ls ++ [l] := by
  intro stage d att t hw' hst
  cases h with
  | publish =>
    cases hw'
    exact List.mem_append_right _ (List.mem_singleton.mpr rfl)
  | commit hw =>
    cases hw'
    exact List.mem_append_left _ (hp _ _ _ _ hw (.inl rfl))
  | reject | rejectNone => exact absurd hw' (afterRejection_ne _ _ _ _ _)
  | _ => cases hw' <;> rcases hst with hst | hst <;> cases hst

theorem WorkerStep.signal {a a' : Authority Logical} {l : Label} (h : WorkerStep a l a') (hs : a.signal = true) :
    a'.signal = true ∨ ∃ d, a'.worker = .observing d := by
  cases h with
  | receive => exact .inr ⟨1, rfl⟩
  | _ => exact .inl hs

/-- The case analysis of a worker step that starts on the latest generation. -/
theorem WorkerStep.on {ls : List Label} {a a' : Authority Logical} {l : Label} (h : WorkerStep a l a')
    (hS : Served ls a) (hwr : a.writer = none) (hon : a.worker.On a.latestGeneration) :
    a.latestGeneration = 0 ∨ Settled (ls ++ [l]) a' a.latestGeneration ∨ a'.worker.On a.latestGeneration := by
  have hcan : a.latestGeneration ∉ a.cancelled := by
    rw [hS.control.cancelled, activeGeneration_of_idle hwr]
    omega
  have hb := hS.bounded
  cases h with
  | receive hw => rw [hw] at hon; cases hon
  | observe hw =>
    rw [hw] at hb
    have := hS.control.observed hb
    rw [targetGeneration_of_idle hwr] at this
    exact .inr (.inr this)
  | takeNone hw ht =>
    have := hS.control.target
    rw [ht, targetGeneration_of_idle hwr] at this
    exact .inl (tokenOf_eq_none.mp this.symm)
  | take hw ht =>
    rw [hw] at hon
    have := (hS.control.target_generation ht).1
    rw [targetGeneration_of_idle hwr] at this
    exact .inr (.inr ⟨hon, this⟩)
  | prepared hw | compiled hw | fenced hw | publish hw | commit hw | findRejected hw =>
    rw [hw] at hon
    exact .inr (.inr hon)
  | prepareFailed hw | compileFailed hw => rw [hw] at hon; exact .inr (.inr hon.1)
  | cancelled hw _ hc =>
    rw [hw] at hon hb
    rw [hb.2.1, hon.2] at hc
    exact absurd hc hcan
  | superseded hw _ hc =>
    rw [hw] at hon hb
    rw [hb.2.1, hon.2] at hc
    exact absurd hc (not_or.mpr ⟨hcan, not_not.mpr rfl⟩)
  | stale hw _ _ hr =>
    rw [hw] at hon
    refine .inr (.inl ⟨_, .inr ⟨List.mem_append_right _ (List.mem_singleton.mpr ?_), hr⟩⟩)
    rw [hon.2]
  | recordPublished hw =>
    have := hS.published _ _ _ _ hw (.inr rfl)
    rw [hw] at hon
    rw [hon.2] at this
    exact .inr (.inl ⟨_, .inl (List.mem_append_left _ this)⟩)
  | retryNow | sleepOver => exact .inr (.inr trivial)
  | giveUp hw => rw [hw] at hon; cases hon
  | backOff hw =>
    rw [hw] at hon
    cases hon
    exact .inr (.inr rfl)
  | backoffCancelled hw hc | unpark hw hc =>
    rw [hw] at hon
    cases hon
    exact absurd hc hcan
  | reject hw | rejectNone hw =>
    rw [hw] at hon
    cases hon
    exact .inr (.inr rfl)

theorem WorkerStep.started {a a' : Authority Logical} {l : Label} (h : WorkerStep a l a') :
    a.worker ≠ .absent := by
  cases h <;> rename_i hw <;> intro ha <;> simp_all

theorem WorkerStep.preservesServed {ls : List Label} {a a' : Authority Logical} {l : Label} (h : WorkerStep a l a')
    (hS : Served ls a) : Served (ls ++ [l]) a' := by
  have hsame := h.sameControl
  have hlock := h.lock hS.locked hS.fenced
  have hr := h.runtime_le hS.newest
  obtain ⟨hw, hl, -, -, -, htx, -⟩ := id hsame
  refine ⟨hsame.control hS.control, ?_, ?_, ?_, hlock.1, hlock.2, h.newest, h.published hS.published, ?_, ?_⟩
  · rw [hsame.targetGeneration]
    exact h.bounded hS.control hS.signalled hS.bounded
  · intro hn
    exact absurd (hS.absent (htx ▸ hn)) h.started
  · rw [hsame.targetGeneration]
    intro hs
    refine hS.signalled ?_
    cases h with
    | receive => cases hs
    | _ => exact hs
  · intro g revision hin
    rcases List.mem_append.mp hin with hin | hin
    · exact Int.lt_of_lt_of_le (hS.stale g revision hin) hr
    · cases h with
      | stale _ _ _ hlt =>
        cases List.mem_singleton.mp hin
        exact hlt
      | _ => cases List.mem_singleton.mp hin
  · rw [hw, hl]
    intro hwr
    rcases hS.served hwr with h0 | hset | hs | hon
    · exact .inl h0
    · exact .inr (.inl (hset.mono l hr))
    · rcases h.signal hs with hs' | ⟨d, hd⟩
      · exact .inr (.inr (.inl hs'))
      · exact .inr (.inr (.inr (by rw [hd]; trivial)))
    · rcases h.on hS hwr hon with h0 | hset | hon'
      · exact .inl h0
      · exact .inr (.inl hset)
      · exact .inr (.inr (.inr hon'))

/-! ## Submissions and runs -/

theorem SubmitStep.writing {a a' : Authority Logical} {l : Label} (h : SubmitStep a l a') :
    a.writer ≠ none := by
  intro hn
  cases h with
  | ensureWorkerStarted hw | bump hw | register hw | cancelPrevious hw | replaceTarget hw =>
    rw [hw] at hn; cases hn
  | signal hw => rw [hw] at hn; cases hn

/-- A submission starts the worker when there is none, and otherwise leaves it alone. -/
theorem SubmitStep.frame {a a' : Authority Logical} {l : Label} (h : SubmitStep a l a') :
    a'.runtime = a.runtime ∧ ((a'.worker = a.worker ∧ a'.workerTx = a.workerTx) ∨
      (a.workerTx = false ∧ a'.workerTx = true ∧ a'.worker = .receiving)) := by
  cases h with
  | ensureWorkerStarted _ ha =>
    rcases ensureWorkerStarted_ok ha with rfl | ⟨htx, rfl⟩
    · exact ⟨rfl, .inl ⟨rfl, rfl⟩⟩
    · exact ⟨rfl, .inr ⟨htx, rfl, rfl⟩⟩
  | _ => exact ⟨rfl, .inl ⟨rfl, rfl⟩⟩

theorem SubmitStep.targetGeneration_le {a a' : Authority Logical} {l : Label} (h : SubmitStep a l a') :
    a.targetGeneration ≤ a'.targetGeneration := by
  unfold Authority.targetGeneration
  cases h with
  | ensureWorkerStarted hw ha =>
    rcases ensureWorkerStarted_ok ha with rfl | ⟨_, rfl⟩ <;> rw [hw] <;> exact Nat.le_refl _
  | bump hw | register hw | cancelPrevious hw => rw [hw]; exact Nat.le_refl _
  | replaceTarget hw => rw [hw]; exact Nat.sub_le _ _
  | signal hw => rw [hw]; exact Nat.le_refl _

theorem SubmitStep.signal_bound {a a' : Authority Logical} {l : Label} (h : SubmitStep a l a') (hc : Control a)
    (hs : a.signal = true → 1 ≤ a.targetGeneration) : a'.signal = true → 1 ≤ a'.targetGeneration := by
  intro hs'
  have hle := h.targetGeneration_le
  cases h with
  | ensureWorkerStarted hw ha =>
    rcases ensureWorkerStarted_ok ha with rfl | ⟨_, rfl⟩
    · exact Nat.le_trans (hs hs') hle
    · cases hs'
  | signal hw => exact hc.signalling _ hw rfl
  | _ => exact Nat.le_trans (hs hs') hle

/-- A finished submission leaves a signal queued. -/
theorem SubmitStep.finished {a a' : Authority Logical} {l : Label} (h : SubmitStep a l a') (hc : Control a)
    (hn : a'.writer = none) : a'.signal = true := by
  cases h with
  | signal hw =>
    simp only [hc.workerTx _ hw (by simp), Bool.or_true]
  | _ => cases hn

theorem SubmitStep.noEvent {a a' : Authority Logical} {l : Label} (h : SubmitStep a l a') (g : Nat)
    (revision : Int) : l ≠ .settleStale g revision := by
  cases h <;> exact nofun

theorem SubmitStep.preservesServed {ls : List Label} {a a' : Authority Logical} {l : Label}
    (h : SubmitStep a l a') (hS : Served ls a) : Served (ls ++ [l]) a' := by
  have hwr := h.writing
  have hunlocked : a.worker.holdsWriteLock = false := by
    cases hh : a.worker.holdsWriteLock with
    | false => rfl
    | true => exact absurd (hS.locked hh) hwr
  obtain ⟨hrt, hframe⟩ := h.frame
  have hworker : ∀ stage d att t, a'.worker = .attempting stage d att t →
      a.worker = .attempting stage d att t := by
    intro stage d att t hw
    rcases hframe with ⟨he, _⟩ | ⟨_, _, he⟩
    · rw [← he]; exact hw
    · rw [he] at hw; cases hw
  have hunlocked' : a'.worker.holdsWriteLock = false := by
    rcases hframe with ⟨he, _⟩ | ⟨_, _, he⟩
    · rw [he]; exact hunlocked
    · rw [he]; rfl
  refine ⟨h.control hS.control, ?_, ?_, h.signal_bound hS.control hS.signalled, ?_, ?_, ?_, ?_, ?_, ?_⟩
  · rcases hframe with ⟨he, _⟩ | ⟨_, _, he⟩
    · rw [he]; exact hS.bounded.mono h.targetGeneration_le
    · rw [he]; trivial
  · intro hn
    rcases hframe with ⟨he, htx⟩ | ⟨_, htx, _⟩
    · rw [he]; exact hS.absent (htx ▸ hn)
    · rw [htx] at hn; cases hn
  · intro hh; rw [hunlocked'] at hh; cases hh
  · intro _ _ _ _ _ hh; rw [hunlocked'] at hh; cases hh
  · intro d att t hw
    rw [hrt]
    exact hS.newest d att t (hworker _ _ _ _ hw)
  · intro stage d att t hw hst
    exact List.mem_append_left _ (hS.published stage d att t (hworker _ _ _ _ hw) hst)
  · intro g revision hin
    rw [hrt]
    rcases List.mem_append.mp hin with hin | hin
    · exact hS.stale g revision hin
    · exact absurd (List.mem_singleton.mp hin).symm (h.noEvent g revision)
  · exact fun hn => .inr (.inr (.inl (h.finished hS.control hn)))

/-- Steps outside the control state, the worker and the snapshot change nothing of it. -/
theorem Served.keep {ls : List Label} {a a' : Authority Logical} {l : Label} (hS : Served ls a)
    (hsame : SameControl a a') (hw : a'.worker = a.worker) (hs : a'.signal = a.signal)
    (hr : a'.runtime = a.runtime) (hl : ∀ g revision, l ≠ .settleStale g revision) : Served (ls ++ [l]) a' := by
  have hctl := hsame.control hS.control
  have htgt := hsame.targetGeneration
  obtain ⟨hwr, hlg, -, -, -, htx, -⟩ := hsame
  refine ⟨hctl, ?_, ?_, ?_, ?_, ?_, ?_, ?_, ?_, ?_⟩
  · rw [hw, htgt]; exact hS.bounded
  · rw [htx, hw]; exact hS.absent
  · rw [hs, htgt]; exact hS.signalled
  · rw [hw, hwr]; exact hS.locked
  · rw [hw, hlg]; exact hS.fenced
  · rw [hw, hr]; exact hS.newest
  · rw [hw]
    intro stage d att t hat hst
    exact List.mem_append_left _ (hS.published stage d att t hat hst)
  · rw [hr]
    intro g revision hin
    rcases List.mem_append.mp hin with hin | hin
    · exact hS.stale g revision hin
    · exact absurd (List.mem_singleton.mp hin).symm (hl g revision)
  · rw [hwr, hlg, hs, hw]
    intro hn
    rcases hS.served hn with h | h | h | h
    · exact .inl h
    · exact .inr (.inl (h.mono l (Int.le_of_eq (by rw [hr]))))
    · exact .inr (.inr (.inl h))
    · exact .inr (.inr (.inr h))

theorem Step.preservesServed {ls : List Label} {a a' : Authority Logical} {l : Label} (h : Step a l a')
    (hS : Served ls a) : Served (ls ++ [l]) a' := by
  cases h with
  | submit h => exact h.preservesServed hS
  | submitFails h => exact absurd h hS.control.submit_runs
  | worker h => exact h.preservesServed hS
  | enter sub hl =>
    obtain ⟨hn, hunlocked⟩ := hl
    have hact : (a.startSubmit sub).activeGeneration = a.activeGeneration := by
      rw [activeGeneration_of_idle hn]; rfl
    have htgt : (a.startSubmit sub).targetGeneration = a.targetGeneration := by
      rw [targetGeneration_of_idle hn]; rfl
    have hc := hS.control
    refine ⟨⟨hc.running, ?_, ?_, ?_, ?_, ?_, hc.token, ?_⟩, ?_, hS.absent, ?_, ?_, hS.fenced, hS.newest, ?_, ?_, ?_⟩
    · intro w g hw hg; cases hw; cases hg
    · intro w hw hpc; cases hw; cases hpc
    · intro w hw hpc; cases hw; exact absurd rfl hpc
    · rw [hact]; exact hc.active
    · rw [htgt]; exact hc.target
    · rw [hact]; exact hc.cancelled
    · rw [htgt]; exact hS.bounded
    · rw [htgt]; exact hS.signalled
    · intro hh; rw [show (a.startSubmit sub).worker = a.worker from rfl, hunlocked] at hh; cases hh
    · intro stage d att t hat hst
      exact List.mem_append_left _ (hS.published stage d att t hat hst)
    · intro g revision hin
      rcases List.mem_append.mp hin with hin | hin
      · exact hS.stale g revision hin
      · cases List.mem_singleton.mp hin
    · intro hw; cases hw
  | recordPending revision => exact hS.keep ⟨rfl, rfl, rfl, rfl, rfl, rfl, rfl⟩ rfl rfl rfl nofun
  | status status => exact hS.keep ⟨rfl, rfl, rfl, rfl, rfl, rfl, rfl⟩ rfl rfl rfl nofun

theorem Initial.served {a : Authority Logical} (h : Initial a) : Served [] a := by
  cases h
  refine ⟨⟨rfl, nofun, nofun, nofun, rfl, rfl, nofun, ?_⟩, trivial, fun _ => rfl, nofun, nofun, nofun, nofun,
    nofun, nofun, fun _ => .inl rfl⟩
  intro token
  constructor
  · intro h; cases h
  · rintro ⟨h₁, h₂⟩
    exact absurd h₂ (by unfold Authority.activeGeneration; simp)

theorem run_served {ls : List Label} {a : Authority Logical} (r : Run Step Initial ls a) : Served ls a :=
  r.invariant (fun _ h => h.served) fun _ hS h => h.preservesServed hS

/-- Whenever the worker waits and nothing is queued or in progress, the latest generation has its outcome; a
parked worker waits on the token the next submission cancels. -/
theorem no_submission_stranded {ls : List Label} {a : Authority Logical} (r : Run Step Initial ls a) :
    (a.worker = .receiving → a.signal = false → a.writer = none →
      a.latestGeneration = 0 ∨ Settled ls a a.latestGeneration) ∧
    ∀ token, a.worker = .parked token → token ∈ a.cancelled ∨
      (a.activeCancellation = some token ∧ ∀ a', SubmitStep a .cancelPrevious a' → token ∈ a'.cancelled) := by
  have hS := run_served r
  constructor
  · intro hw hs hn
    rcases hS.served hn with h | h | h | h
    · exact .inl h
    · exact .inr h
    · rw [hs] at h; cases h
    · rw [hw] at h; cases h
  · intro token hw
    have hb := hS.bounded
    rw [hw] at hb
    by_cases hc : token ∈ a.cancelled
    · exact .inl hc
    · have hle : a.targetGeneration ≤ a.activeGeneration := by
        unfold Authority.targetGeneration Authority.activeGeneration
        cases a.writer with
        | none => exact Nat.le_refl _
        | some w =>
          cases w with
          | mk pc sub => cases pc <;> simp [SubmitPc.beforeReplace, SubmitPc.beforeCancel]
      have hact : a.activeCancellation = some token := by
        rw [hS.control.active]
        refine tokenOf_eq_some.mpr ⟨?_, hb.1⟩
        rw [hS.control.cancelled] at hc
        have hge : ¬ token < a.activeGeneration := fun h => hc ⟨hb.1, h⟩
        exact Nat.le_antisymm (Nat.not_lt.mp hge) (Nat.le_trans hb.2 hle)
      refine .inr ⟨hact, fun a' h => ?_⟩
      cases h with
      | cancelPrevious =>
        simp [hact]

/-- One submission, prepared, compiled and published. -/
theorem run_published : ∃ ls, ∃ a : Authority Unit, Run Step Initial ls a ∧ a.worker = .receiving ∧
    a.signal = false ∧ a.writer = none ∧ a.latestGeneration = 1 := by
  have r₀ : Run Step Initial [] ({} : Authority Unit) := .start rfl
  have r₁ := r₀.snoc (.enter ⟨⟨∅, none, 1⟩, ()⟩ ⟨rfl, rfl⟩)
  have r₂ := r₁.snoc (.submit (.ensureWorkerStarted rfl rfl))
  have r₃ := (r₂.snoc (.submit (.bump rfl))).snoc (.submit (.register rfl))
  have r₄ := (r₃.snoc (.submit (.cancelPrevious rfl))).snoc (.submit (.replaceTarget rfl))
  have r₅ := (r₄.snoc (.submit (.signal rfl))).snoc (.worker (.receive rfl rfl))
  have r₆ := (r₅.snoc (.worker (.observe rfl))).snoc (.worker (.take rfl rfl))
  have r₇ := (r₆.snoc (.worker (.prepared rfl))).snoc (.worker (.compiled rfl))
  have r₈ := r₇.snoc (.worker (.fenced rfl ⟨rfl, rfl⟩ (by simp [startSubmit]) (by decide)))
  have r₉ := (r₈.snoc (.worker (.publish rfl))).snoc (.worker (.commit rfl))
  exact ⟨_, _, r₉.snoc (.worker (.recordPublished rfl)), rfl, rfl, rfl, rfl⟩

theorem no_submission_stranded_published :
    ∃ ls, ∃ a : Authority Unit, Run Step Initial ls a ∧ a.latestGeneration = 1 ∧ Settled ls a 1 := by
  obtain ⟨ls, a, r, hw, hs, hn, hg⟩ := run_published
  have h := (no_submission_stranded r).1 hw hs hn
  rw [hg] at h
  exact ⟨ls, a, r, hg, h.resolve_left (by decide)⟩

end Authority

end Pingsix
