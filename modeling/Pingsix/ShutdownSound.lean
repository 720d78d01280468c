import Pingsix.Lib.System
import Pingsix.Shutdown
import Pingsix.WorkerSound

/-!
# Shutdown is terminal

`ensure_worker_started` checks the lifecycle first and starts the worker later.
While no submission starts a worker across the sections in which `shutdown`
takes the sender and the task, there is one task at most and `shutdown` joins
it; a submission that starts one afterwards outlives the shutdown.
-/

namespace Pingsix

namespace ShutdownPc

/-- `shutdown` has taken the sender. -/
def closed : ShutdownPc → Bool
  | .idle | .cancelling | .closing => false
  | _ => true

/-- `shutdown` has taken the task. -/
def joined : ShutdownPc → Bool
  | .joining _ | .aborting _ | .returned => true
  | _ => false

end ShutdownPc

namespace EnsurePc

/-- The submission has stored a sender whose task is not stored yet. -/
def starting : EnsurePc → Bool
  | .spawn _ | .storeTask _ => true
  | _ => false

end EnsurePc

namespace Inner

variable {Logical : Type}

/-- No worker exists, nothing is published, started or accepted, and a new submission is refused. -/
structure Terminal (s : Inner Logical) : Prop where
  refuses : s.shared.lifecycle = .stopped ∧ ∀ sub, s.shared.writer = some ⟨.ensureWorkerStarted, sub⟩ →
    s.ensure = .checkLifecycle → Step s .refuse s.finish
  absent : ∀ i, s.tasks i = .absent
  quiet : ∀ l s', Step s l s' → l ≠ .accept ∧ (∀ i, l ≠ .spawn i) ∧
    ∀ generation revision, l ≠ .authority (.publish generation revision)

/-- A sender is stored only before `shutdown` takes it, and the task is taken only once it is stored. -/
def StartsInTime (_ : List ShutdownLabel) (s : Inner Logical) (l : ShutdownLabel) : Prop :=
  (l = .storeSender → s.shutdown.closed = false) ∧ (l = .takeTask → s.ensure.starting = false)

/-- There is one task at most, and `shutdown` joins it. -/
structure Single (s : Inner Logical) : Prop where
  lifecycle : s.shutdown ≠ .idle → s.shared.lifecycle = .stopped
  closed : s.shutdown.closed = true → s.workerTx = none
  idle : (∀ sub, s.shared.writer ≠ some ⟨.ensureWorkerStarted, sub⟩) → s.ensure = .checkLifecycle
  fresh : s.shutdown.closed = false → s.workerTx = none →
    (∀ i, s.tasks i = .absent) ∧ s.workerTask = none ∧ s.ensure.starting = false
  storing : s.ensure = .storeSender → s.workerTx = none
  spawning : ∀ i, s.ensure = .spawn i → (∀ j, s.tasks j = .absent) ∧ s.workerTask = none
  storingTask : ∀ i, s.ensure = .storeTask i → (∀ j, s.tasks j ≠ .absent → j = i) ∧ s.workerTask = none
  joined : s.shutdown.joined = true → s.workerTask = none ∧ s.ensure.starting = false
  live : ∀ i, s.tasks i ≠ .absent → s.workerTask = some i ∨ s.ensure = .storeTask i ∨
    s.shutdown = .joining i ∨ s.shutdown = .aborting i

theorem not_joined_of_open {pc : ShutdownPc} (h : pc.closed = false) : pc.joined = false := by
  cases pc <;> first | rfl | cases h

variable {s s' : Inner Logical}

theorem Single.live_open (hS : Single s) (hj : s.shutdown.joined = false) {i : Nat} (hi : s.tasks i ≠ .absent) :
    s.workerTask = some i ∨ s.ensure = .storeTask i := by
  rcases hS.live i hi with h | h | h | h
  · exact .inl h
  · exact .inr h
  · rw [h] at hj
    cases hj
  · rw [h] at hj
    cases hj

/-- A task that has ended is one task less. -/
theorem Single.ended (hS : Single s) (i : Nat) :
    Single { s with tasks := Function.update s.tasks i .absent } := by
  have hsub : ∀ j, Function.update s.tasks i .absent j ≠ .absent → s.tasks j ≠ .absent := by
    intro j hj h
    by_cases he : j = i
    · rw [he, Function.update_self] at hj
      exact hj rfl
    · rw [Function.update_of_ne he] at hj
      exact hj h
  have hall : (∀ j, s.tasks j = .absent) → ∀ j, Function.update s.tasks i .absent j = .absent := by
    intro h j
    by_contra hj
    exact hsub j hj (h j)
  refine { hS with fresh := ?_, spawning := ?_, storingTask := ?_, live := ?_ }
  · exact fun hc ht => ⟨hall (hS.fresh hc ht).1, (hS.fresh hc ht).2⟩
  · exact fun j hj => ⟨hall (hS.spawning j hj).1, (hS.spawning j hj).2⟩
  · exact fun j hj => ⟨fun k hk => (hS.storingTask j hj).1 k (hsub k hk), (hS.storingTask j hj).2⟩
  · exact fun j hj => hS.live j (hsub j hj)

/-- A `submit` that is past the start of its worker, or done. -/
theorem Single.leaves (hS : Single s) (he : s.ensure.starting = false) (w : Option (Writer Logical)) :
    Single { s with shared := { s.shared with writer := w }, ensure := .checkLifecycle } := by
  refine { hS with idle := fun _ => rfl, fresh := ?_, storing := nofun, spawning := nofun, storingTask := nofun,
                   joined := ?_, live := ?_ }
  · exact fun hc ht => ⟨(hS.fresh hc ht).1, (hS.fresh hc ht).2.1, rfl⟩
  · exact fun hj => ⟨(hS.joined hj).1, rfl⟩
  · intro i hi
    rcases hS.live i hi with h | h | h
    · exact .inl h
    · rw [h] at he
      cases he
    · exact .inr (.inr h)

/-- The sections of `submit` past the start of the worker. -/
theorem Single.submits (hS : Single s) {w : Writer Logical} {l : Label} {a : Authority Logical}
    (hw : s.shared.writer = some w) (hp : w.pc ≠ .ensureWorkerStarted ∧ w.pc ≠ .signal)
    (h : Authority.SubmitStep s.shared l a) : Single { s with shared := a } := by
  have he : s.ensure = .checkLifecycle := hS.idle fun sub h => by
    rw [hw] at h
    cases h
    exact hp.1 rfl
  have hl : a.lifecycle = s.shared.lifecycle := by
    cases h with
    | ensureWorkerStarted h =>
      rw [hw] at h
      cases h
      exact absurd rfl hp.1
    | _ => rfl
  exact { hS with lifecycle := fun hs => hl.trans (hS.lifecycle hs), idle := fun _ => he }

/-- A task that steps was there before. -/
theorem task_present {i : Nat} {l : Label} {a : Authority Logical} (h : Authority.WorkerStep (s.asTask i) l a) :
    s.tasks i ≠ .absent := by
  intro ha
  have ha : (s.asTask i).worker = .absent := ha
  cases h <;> simp_all

theorem Single.task (hS : Single s) {i : Nat} {l : Label} {a : Authority Logical}
    (h : Authority.WorkerStep (s.asTask i) l a) : Single (s.fromTask i a) := by
  have hi := task_present h
  obtain ⟨hw, -, -, -, -, -, hl⟩ := h.sameControl
  have hlive : ∀ j, (s.fromTask i a).tasks j ≠ .absent → s.tasks j ≠ .absent := by
    intro j hj
    by_cases he : j = i
    · rw [he]
      exact hi
    · have : (s.fromTask i a).tasks j = s.tasks j := Function.update_of_ne he _ _
      rw [← this]
      exact hj
  refine ⟨?_, hS.closed, ?_, ?_, hS.storing, ?_, ?_, hS.joined, fun j hj => hS.live j (hlive j hj)⟩
  · exact fun hs => hl.trans (hS.lifecycle hs)
  · exact fun h => hS.idle fun sub => by rw [← show a.writer = s.shared.writer from hw]; exact h sub
  · exact fun hc ht => absurd ((hS.fresh hc ht).1 i) hi
  · exact fun j hj => absurd ((hS.spawning j hj).1 i) hi
  · exact fun j hj => ⟨fun k hk => (hS.storingTask j hj).1 k (hlive k hk), (hS.storingTask j hj).2⟩

theorem Single.spawned (hS : Single s) {i : Nat} (he : s.ensure = .spawn i) {sub : Submission Logical}
    (hw : s.shared.writer = some ⟨.ensureWorkerStarted, sub⟩) :
    Single { s with tasks := Function.update s.tasks i .receiving, ensure := .storeTask i } := by
  obtain ⟨habsent, htask⟩ := hS.spawning i he
  have honly : ∀ j, Function.update s.tasks i .receiving j ≠ .absent → j = i := by
    intro j hj
    by_contra hne
    rw [Function.update_of_ne hne] at hj
    exact hj (habsent j)
  refine { hS with idle := fun h => absurd hw (h sub), fresh := ?_, storing := nofun, spawning := nofun,
                   storingTask := ?_, joined := ?_, live := ?_ }
  · intro hc ht
    have := (hS.fresh hc ht).2.2
    rw [he] at this
    cases this
  · intro j hj
    cases hj
    exact ⟨honly, htask⟩
  · intro hj
    have := (hS.joined hj).2
    rw [he] at this
    cases this
  · exact fun j hj => .inr (.inl (by rw [honly j hj]))

/-- The sections that start no worker. -/
theorem Single.checks (hS : Single s) (he : s.ensure.starting = false) {sub : Submission Logical}
    (hw : s.shared.writer = some ⟨.ensureWorkerStarted, sub⟩) {pc : EnsurePc} (hp : pc.starting = false)
    (ht : pc = .storeSender → s.workerTx = none) : Single { s with ensure := pc } := by
  refine { hS with idle := fun h => absurd hw (h sub), fresh := ?_, storing := ht, spawning := ?_,
                   storingTask := ?_, joined := ?_, live := ?_ }
  · exact fun hc ht => ⟨(hS.fresh hc ht).1, (hS.fresh hc ht).2.1, hp⟩
  · intro i hi
    rw [show pc = .spawn i from hi] at hp
    cases hp
  · intro i hi
    rw [show pc = .storeTask i from hi] at hp
    cases hp
  · exact fun hj => ⟨(hS.joined hj).1, hp⟩
  · intro i hi
    rcases hS.live i hi with h | h | h
    · exact .inl h
    · rw [h] at he
      cases he
    · exact .inr (.inr h)

theorem Single.storesSender (hS : Single s) (he : s.ensure = .storeSender) {sub : Submission Logical}
    (hw : s.shared.writer = some ⟨.ensureWorkerStarted, sub⟩) (hc : s.shutdown.closed = false)
    (queued : Nat → Bool) : Single { s with workerTx := some s.spawned, queued, spawned := s.spawned + 1,
                                            ensure := .spawn s.spawned } := by
  obtain ⟨habsent, htask, -⟩ := hS.fresh hc (hS.storing he)
  refine { hS with closed := ?_, idle := fun h => absurd hw (h sub), fresh := nofun, storing := nofun,
                   spawning := fun _ _ => ⟨habsent, htask⟩, storingTask := nofun, joined := ?_, live := ?_ }
  · intro h
    rw [show s.shutdown.closed = true from h] at hc
    cases hc
  · intro h
    have := not_joined_of_open hc
    rw [show s.shutdown.joined = true from h] at this
    cases this
  · exact fun i hi => absurd (habsent i) hi

theorem Single.storesTask (hS : Single s) {i : Nat} (he : s.ensure = .storeTask i) (w : Option (Writer Logical)) :
    Single { s with workerTask := some i, shared := { s.shared with writer := w }, ensure := .checkLifecycle } := by
  have hstart : s.ensure.starting = true := by rw [he]; rfl
  refine { hS with idle := fun _ => rfl, fresh := ?_, storing := nofun, spawning := nofun, storingTask := nofun,
                   joined := ?_, live := ?_ }
  · intro hc ht
    rw [(hS.fresh hc ht).2.2] at hstart
    cases hstart
  · intro hj
    rw [(hS.joined hj).2] at hstart
    cases hstart
  · exact fun j hj => .inl (by rw [(hS.storingTask i he).1 j hj])

/-- Once the task is joined nothing lives. -/
theorem Single.returns (hS : Single s) (hj : s.shutdown.joined = true)
    (hx : ∀ i, s.shutdown = .joining i ∨ s.shutdown = .aborting i → s.tasks i = .absent) :
    Single { s with shutdown := .returned } := by
  obtain ⟨ht, he⟩ := hS.joined hj
  have hclosed : s.shutdown.closed = true := by
    cases hc : s.shutdown.closed with
    | true => rfl
    | false =>
      rw [not_joined_of_open hc] at hj
      cases hj
  refine { hS with lifecycle := fun _ => hS.lifecycle ?_, closed := fun _ => hS.closed hclosed, fresh := nofun,
                   joined := fun _ => ⟨ht, he⟩, live := ?_ }
  · intro hi
    rw [hi] at hj
    cases hj
  · intro i hi
    rcases hS.live i hi with h | h | h
    · rw [ht] at h
      cases h
    · rw [h] at he
      cases he
    · exact absurd (hx i h) hi

theorem Step.preservesSingle {l : ShutdownLabel} {ls : List ShutdownLabel} (h : Step s l s')
    (hok : StartsInTime ls s l) (hS : Single s) : Single s' := by
  cases h with
  | enter sub hl =>
    have he := hS.idle fun sub' h => by rw [hl.1] at h; cases h
    refine { hS.leaves (by rw [he]; rfl) none with idle := fun h => absurd rfl (h sub) }
  | stopped hw he => exact hS.leaves (by rw [he]; rfl) none
  | running hw he => exact hS.checks (by rw [he]; rfl) hw rfl nofun
  | started hw he => exact hS.leaves (by rw [he]; rfl) _
  | unstarted hw he ht => exact hS.checks (by rw [he]; rfl) hw rfl fun _ => ht
  | storeSender hw he => exact hS.storesSender he hw (hok.1 rfl) _
  | spawn hw he => exact hS.spawned he hw
  | storeTask hw he => exact hS.storesTask he _
  | submit hw hp h => exact hS.submits hw hp h
  | signal hw =>
    have he := hS.idle fun sub h => by rw [hw] at h; cases h
    exact { hS.leaves (by rw [he]; rfl) none with }
  | unsignalled hw =>
    have he := hS.idle fun sub h => by rw [hw] at h; cases h
    exact hS.leaves (by rw [he]; rfl) none
  | task i h => exact hS.task h
  | closed i => exact hS.ended i
  | recordPending | status => exact { hS with }
  | stop hs =>
    refine { hS with lifecycle := fun _ => rfl, closed := nofun, fresh := fun _ ht => hS.fresh (by rw [hs]; rfl) ht,
                     joined := nofun, live := fun i hi => ?_ }
    exact (hS.live_open (by rw [hs]; rfl) hi).imp_right .inl
  | cancel hs =>
    refine { hS with lifecycle := fun _ => hS.lifecycle (by rw [hs]; nofun), closed := nofun,
                     fresh := fun _ ht => hS.fresh (by rw [hs]; rfl) ht, joined := nofun, live := fun i hi => ?_ }
    exact (hS.live_open (by rw [hs]; rfl) hi).imp_right .inl
  | close hs =>
    refine { hS with lifecycle := fun _ => hS.lifecycle (by rw [hs]; nofun), closed := fun _ => rfl, fresh := nofun,
                     storing := fun _ => rfl, joined := nofun, live := fun i hi => ?_ }
    exact (hS.live_open (by rw [hs]; rfl) hi).imp_right .inl
  | takeTask hs ht =>
    have he := hok.2 rfl
    refine { hS with lifecycle := fun _ => hS.lifecycle (by rw [hs]; nofun),
                     closed := fun _ => hS.closed (by rw [hs]; rfl), fresh := nofun,
                     spawning := fun j hj => ⟨(hS.spawning j hj).1, rfl⟩,
                     storingTask := fun j hj => ⟨(hS.storingTask j hj).1, rfl⟩,
                     joined := fun _ => ⟨rfl, he⟩, live := fun j hj => ?_ }
    rcases hS.live_open (by rw [hs]; rfl) hj with h | h
    · rw [ht] at h
      cases h
      exact .inr (.inr (.inl rfl))
    · rw [h] at he
      cases he
  | takeNone hs ht =>
    have he := hok.2 rfl
    refine { hS with lifecycle := fun _ => hS.lifecycle (by rw [hs]; nofun),
                     closed := fun _ => hS.closed (by rw [hs]; rfl), fresh := nofun,
                     joined := fun _ => ⟨ht, he⟩, live := fun j hj => ?_ }
    rcases hS.live_open (by rw [hs]; rfl) hj with h | h
    · rw [ht] at h
      cases h
    · rw [h] at he
      cases he
  | joined hs ht =>
    refine hS.returns (by rw [hs]; rfl) fun i h => ?_
    rw [hs] at h
    rcases h with h | h
    · cases h
      exact ht
    · cases h
  | abort hs =>
    refine { hS with lifecycle := fun _ => hS.lifecycle (by rw [hs]; nofun),
                     closed := fun _ => hS.closed (by rw [hs]; rfl), fresh := nofun,
                     joined := fun _ => hS.joined (by rw [hs]; rfl), live := ?_ }
    intro i hi
    have := hS.live i hi
    rw [hs] at this
    simpa using this
  | aborted => exact hS.ended _
  | abortJoined hs ht =>
    refine hS.returns (by rw [hs]; rfl) fun i h => ?_
    rw [hs] at h
    rcases h with h | h
    · cases h
    · cases h
      exact ht

theorem Initial.single (h : Initial s) : Single s := by
  cases h
  refine ⟨fun h => absurd rfl h, nofun, fun _ => rfl, fun _ _ => ⟨fun _ => rfl, rfl, rfl⟩, nofun, nofun, nofun,
    nofun, fun i hi => absurd rfl hi⟩

/-- Once `shutdown` has returned, a gateway with one joined task is at rest for good. -/
theorem Single.terminal (hS : Single s) (hr : s.shutdown = .returned) : Terminal s := by
  obtain ⟨ht, he⟩ := hS.joined (by rw [hr]; rfl)
  have habsent : ∀ i, s.tasks i = .absent := by
    intro i
    by_contra hi
    rcases hS.live i hi with h | h | h | h
    · rw [ht] at h
      cases h
    · rw [h] at he
      cases he
    · rw [hr] at h
      cases h
    · rw [hr] at h
      cases h
  have hl := hS.lifecycle (by rw [hr]; nofun)
  refine ⟨⟨hl, fun sub hw he => .stopped hw he (by rw [hl]; nofun)⟩, habsent, fun l s' h => ?_⟩
  have hx := hS.closed (by rw [hr]; rfl)
  cases h with
  | signal _ ht =>
    rw [hx] at ht
    cases ht
  | spawn _ hp =>
    rw [hp] at he
    cases he
  | task i h => exact absurd (habsent i) (task_present h)
  | submit _ _ h => exact ⟨nofun, nofun, fun _ _ he => by cases he; cases h⟩
  | _ => exact ⟨nofun, nofun, nofun⟩

/-- In every run in which no submission starts a worker across the sections of `shutdown`, nothing is published,
started or accepted once it has returned. -/
theorem shutdown_terminal {ls : List ShutdownLabel} (r : RunMeeting Step Initial StartsInTime ls s)
    (hr : s.shutdown = .returned) : Terminal s := by
  refine Single.terminal (r.invariant (I := fun _ s => Single s) (fun _ h => h.single) ?_) hr
  exact fun _ hS hok h => h.preservesSingle hok hS

/-- A submission passes the lifecycle check, `shutdown` runs as a whole, and the submission starts the worker. -/
theorem run_resurrected : ∃ ls, ∃ s : Inner Unit, Run Step Initial ls s ∧ s.shutdown = .returned ∧
    s.tasks 0 = .receiving ∧ s.shared.runtime.revision = 1 := by
  have r₀ : Run Step Initial [] ({} : Inner Unit) := .start rfl
  have r₁ := (r₀.snoc (.enter ⟨⟨∅, none, 1⟩, ()⟩ ⟨rfl, fun _ => rfl⟩)).snoc (.running rfl rfl rfl)
  have r₂ := (r₁.snoc (.stop rfl rfl)).snoc (.cancel rfl)
  have r₃ := (r₂.snoc (.close rfl)).snoc (.takeNone rfl rfl)
  have r₄ := (r₃.snoc (.unstarted rfl rfl rfl)).snoc (.storeSender rfl rfl)
  have r₅ := (r₄.snoc (.spawn rfl rfl)).snoc (.storeTask rfl rfl)
  have r₆ := (r₅.snoc (.submit rfl ⟨nofun, nofun⟩ (.bump rfl))).snoc (.submit rfl ⟨nofun, nofun⟩ (.register rfl))
  have r₇ := (r₆.snoc (.submit rfl ⟨nofun, nofun⟩ (.cancelPrevious rfl))).snoc
    (.submit rfl ⟨nofun, nofun⟩ (.replaceTarget rfl))
  have r₈ := (r₇.snoc (.signal rfl rfl nofun)).snoc (.task 0 (.receive rfl rfl) nofun)
  have r₉ := (r₈.snoc (.task 0 (.observe rfl) nofun)).snoc
    (.task 0 (.take rfl rfl) fun _ _ _ j => by cases j <;> rfl)
  have r₁₀ := (r₉.snoc (.task 0 (.prepared rfl) nofun)).snoc (.task 0 (.compiled rfl) nofun)
  have r₁₁ := r₁₀.snoc (.task 0 (.fenced rfl ⟨rfl, rfl⟩ nofun (by decide)) nofun)
  have r₁₂ := (r₁₁.snoc (.task 0 (.publish rfl) nofun)).snoc (.task 0 (.commit rfl) nofun)
  exact ⟨_, _, r₁₂.snoc (.task 0 (.recordPublished rfl) nofun), rfl, rfl, rfl⟩

/-- A submission that overlaps `shutdown` starts a worker that publishes after it returned. -/
theorem shutdown_not_terminal : ¬ ∀ (ls : List ShutdownLabel) (s : Inner Unit), Run Step Initial ls s →
    s.shutdown = .returned → Terminal s := by
  intro h
  obtain ⟨ls, s, r, hr, hw, -⟩ := run_resurrected
  have := (h ls s r hr).absent 0
  rw [hw] at this
  cases this

/-- A worker started by an earlier submission ends once its channel is closed, and is joined. -/
theorem shutdown_terminal_joined : ∃ s : Inner Unit, s.shutdown = .returned ∧ s.spawned = 1 ∧ Terminal s := by
  have r₀ : RunMeeting Step Initial StartsInTime [] ({} : Inner Unit) := .start rfl
  have internal : ∀ (ls : List ShutdownLabel) (s : Inner Unit), StartsInTime ls s .internal := fun _ _ => ⟨nofun, nofun⟩
  have r₁ := (r₀.snoc (.enter ⟨⟨∅, none, 1⟩, ()⟩ ⟨rfl, fun _ => rfl⟩) (internal _ _)).snoc
    (.running rfl rfl rfl) (internal _ _)
  have r₂ := (r₁.snoc (.unstarted rfl rfl rfl) (internal _ _)).snoc (.storeSender rfl rfl) ⟨fun _ => rfl, nofun⟩
  have r₃ := (r₂.snoc (.spawn rfl rfl) ⟨nofun, nofun⟩).snoc (.storeTask rfl rfl) (internal _ _)
  have r₄ := (r₃.snoc (.stop rfl rfl) (internal _ _)).snoc (.cancel rfl) (internal _ _)
  have r₅ := (r₄.snoc (.close rfl) (internal _ _)).snoc (.takeTask rfl rfl) ⟨nofun, fun _ => rfl⟩
  have r₆ := (r₅.snoc (.closed 0 rfl rfl nofun) (internal _ _)).snoc (.joined rfl rfl) (internal _ _)
  exact ⟨_, rfl, rfl, shutdown_terminal r₆ rfl⟩

end Inner

end Pingsix
