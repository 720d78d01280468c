import Pingsix.PublicationSound

/-!
# What the publication registry reports

The status of a committed revision against the history of the run: what was
submitted, what was decided and what the watch has delivered. It is truthful in
every run in which revisions are recorded and submitted in order; a submission
below a pending revision marks that revision superseded by nothing.
-/

namespace Pingsix

variable {Logical : Type}

namespace Gateway

/-- A candidate at a revision was submitted. -/
def Registered (ls : List GatewayLabel) (revision : Int) : Prop := ∃ gen, .authority (.register gen revision) ∈ ls

/-- The worker waits for a signal or for a new revision, and no submission is in progress. -/
def Idle (g : Gateway Logical) : Prop :=
  g.authority.writer = none ∧ ((g.authority.worker = .receiving ∧ g.authority.signal = false) ∨
    ∃ token, g.authority.worker = .parked token ∧ token ∉ g.authority.cancelled)

/-- The watch has delivered every event etcd has. -/
def Delivered (g : Gateway Logical) : Prop := g.sync.phase = .watching g.etcd.revision

/-- The statuses reported are consistent with the history of the run. -/
structure Truthful (cp : String) (accept : StoredGraph → ProxyResult Logical) (ls : List GatewayLabel)
    (g : Gateway Logical) : Prop where
  /-- A superseded commit is contained in a newer candidate that was submitted after it. -/
  superseded : ∀ revision key, .commit revision key ∈ ls →
    g.authority.publications.reported revision = some .superseded →
    ∃ before after gen newer, ls = before ++ .authority (.register gen newer) :: after ∧
      .commit revision key ∈ before ∧ revision < newer ∧
      ∃ stored logical, stored.revision = newer ∧ Faithful cp accept g.etcd stored logical
  /-- A decided revision is reported as it was decided, and only so. -/
  published : ∀ revision, .authority (.recordPublished revision) ∈ ls →
    ∀ state, g.authority.publications.reported revision = some state → state = .published
  rejected : ∀ revision, .authority (.reject revision) ∈ ls →
    ∀ state, g.authority.publications.reported revision = some state → state = .rejected
  decided : ∀ revision, (g.authority.publications.reported revision = some .published →
      .authority (.recordPublished revision) ∈ ls) ∧
    (g.authority.publications.reported revision = some .rejected → .authority (.reject revision) ∈ ls)
  /-- Once everything is delivered and the worker is idle, no commit is pending. -/
  settled : Delivered g → Idle g → ∀ revision key, .commit revision key ∈ ls →
    g.authority.publications.reported revision ≠ some .pending

/-- The steps that keep the registry truthful. -/
def InOrder (ls : List GatewayLabel) (g : Gateway Logical) : GatewayLabel → Prop
  | .commit _ key => key.isMetadata = false
  | .authority (.recordPending revision) => g.authority.publications.reported revision ≠ none ∨
      ∀ newer, Registered ls newer → newer < revision
  | .authority (.register _ revision) =>
      (∀ later, revision < later → g.authority.publications.reported later ≠ some .pending) ∧
      (g.authority.publications.reported revision = none →
        .authority (.recordPublished revision) ∉ ls ∧ .authority (.reject revision) ∉ ls)
  | .authority (.recordPublished revision) => .authority (.reject revision) ∉ ls
  | .authority (.reject revision) => .authority (.recordPublished revision) ∉ ls ∧
      g.authority.publications.reported revision ≠ some .superseded
  | _ => True

theorem Registered.snoc {ls : List GatewayLabel} {revision : Int} (h : Registered ls revision) (l : GatewayLabel) :
    Registered (ls ++ [l]) revision := h.imp fun _ hin => List.mem_append_left _ hin

theorem registered_snoc {ls : List GatewayLabel} {l : GatewayLabel} {revision : Int}
    (h : Registered (ls ++ [l]) revision) :
    Registered ls revision ∨ ∃ gen, l = .authority (.register gen revision) := by
  obtain ⟨gen, hin⟩ := h
  rcases List.mem_append.mp hin with hin | hin
  · exact .inl ⟨gen, hin⟩
  · exact .inr ⟨gen, (List.mem_singleton.mp hin).symm⟩

/-- No candidate was submitted at a later revision. -/
def Top (ls : List GatewayLabel) (revision : Int) : Prop := ∀ newer, Registered ls newer → newer ≤ revision

/-! ## The order of submissions -/

/-- Submissions come in revision order, and what the worker holds was submitted. -/
structure Submissions (cp : String) (accept : StoredGraph → ProxyResult Logical) (ls : List GatewayLabel)
    (g : Gateway Logical) : Prop where
  faithful : ∀ revision, Registered ls revision →
    ∃ stored logical, stored.revision = revision ∧ Faithful cp accept g.etcd stored logical
  generation : ∀ gen revision, .authority (.register gen revision) ∈ ls → gen ≤ g.authority.latestGeneration
  fresh : ∀ gen sub, g.authority.writer = some ⟨.register gen, sub⟩ →
    ∀ revision, .authority (.register gen revision) ∉ ls
  unique : ∀ gen revision revision', .authority (.register gen revision) ∈ ls →
    .authority (.register gen revision') ∈ ls → revision = revision'
  writerTop : ∀ w, g.authority.writer = some w → Top ls w.submission.stored.revision
  writerRegistered : ∀ w gen, g.authority.writer = some w → w.pc = .cancelPrevious gen ∨ w.pc = .replaceTarget gen →
    .authority (.register gen w.submission.stored.revision) ∈ ls
  targetTop : ∀ t, g.authority.target = some t → (∀ w gen, g.authority.writer = some w →
    w.pc ≠ .cancelPrevious gen ∧ w.pc ≠ .replaceTarget gen) → Top ls t.revision
  targetRegistered : ∀ t, g.authority.target = some t → .authority (.register t.generation t.revision) ∈ ls
  attemptRegistered : ∀ stage d att t, g.authority.worker = .attempting stage d att t →
    .authority (.register t.generation t.revision) ∈ ls
  listedTop : ∀ revision kvs, g.sync.phase = .listed revision kvs → Top ls revision

/-- The label is no submission. -/
def NoRegister (l : GatewayLabel) : Prop := ∀ gen revision, l ≠ .authority (.register gen revision)

theorem mem_register_snoc {ls : List GatewayLabel} {l : GatewayLabel} (hl : NoRegister l) {gen : Nat}
    {revision : Int} : .authority (.register gen revision) ∈ ls ++ [l] ↔ .authority (.register gen revision) ∈ ls := by
  rw [List.mem_append, List.mem_singleton]
  constructor
  · rintro (h | h)
    · exact h
    · exact absurd h.symm (hl gen revision)
  · exact .inl

theorem registered_snoc_iff {ls : List GatewayLabel} {l : GatewayLabel} (hl : NoRegister l) {revision : Int} :
    Registered (ls ++ [l]) revision ↔ Registered ls revision := by
  unfold Registered
  simp only [mem_register_snoc hl]

theorem top_snoc_iff {ls : List GatewayLabel} {l : GatewayLabel} (hl : NoRegister l) {revision : Int} :
    Top (ls ++ [l]) revision ↔ Top ls revision := by
  unfold Top
  simp only [registered_snoc_iff hl]

section
variable {cp : String} {accept : StoredGraph → ProxyResult Logical} {ls : List GatewayLabel}

/-- Steps that submit nothing: etcd may grow and the worker may take the target. -/
theorem Submissions.keep {g g' : Gateway Logical} {l : GatewayLabel} (hS : Submissions cp accept ls g)
    (hl : NoRegister l) (he : g'.etcd = g.etcd ∨ ∃ ops, g'.etcd = g.etcd.transact ops)
    (hg : g'.authority.latestGeneration = g.authority.latestGeneration)
    (hw : g'.authority.writer = g.authority.writer) (ht : g'.authority.target = g.authority.target)
    (hat : ∀ stage d att t, g'.authority.worker = .attempting stage d att t →
      .authority (.register t.generation t.revision) ∈ ls)
    (hp : ∀ revision kvs, g'.sync.phase = .listed revision kvs → Top ls revision) :
    Submissions cp accept (ls ++ [l]) g' := by
  refine ⟨?_, ?_, ?_, ?_, ?_, ?_, ?_, ?_, ?_, ?_⟩ <;>
    simp only [registered_snoc_iff hl, mem_register_snoc hl, top_snoc_iff hl, hg, hw, ht]
  · intro revision hr
    obtain ⟨stored, logical, hrev, hF⟩ := hS.faithful revision hr
    rcases he with he | ⟨ops, he⟩
    · exact ⟨stored, logical, hrev, by rw [he]; exact hF⟩
    · exact ⟨stored, logical, hrev, by rw [he]; exact hF.grow ops⟩
  · exact hS.generation
  · exact hS.fresh
  · exact hS.unique
  · exact hS.writerTop
  · exact hS.writerRegistered
  · exact hS.targetTop
  · exact hS.targetRegistered
  · exact hat
  · exact hp

theorem Submissions.worker {g : Gateway Logical} (hS : Submissions cp accept ls g) {a : Authority Logical}
    {l : Label} (h : Authority.WorkerStep g.authority l a) :
    Submissions cp accept (ls ++ [.authority l]) { g with authority := a } := by
  obtain ⟨hw, hlg, ht, -⟩ := h.sameControl
  have hl : NoRegister (.authority l) := by
    intro gen revision hl
    cases h <;> cases hl
  exact hS.keep hl (.inl rfl) hlg hw ht (workerStep_attempted h hS.targetRegistered hS.attemptRegistered).1
    hS.listedTop

/-- Steps of a `submit` between its entry in the registry and the replaced target. -/
theorem Submissions.move {g : Gateway Logical} (hS : Submissions cp accept ls g) {a : Authority Logical} {l : Label}
    {w₀ : Writer Logical} (hl : NoRegister (.authority l)) (hw₀ : g.authority.writer = some w₀)
    (hg : g.authority.latestGeneration ≤ a.latestGeneration) (ht : a.target = g.authority.target)
    (hat : ∀ stage d att t, a.worker = .attempting stage d att t →
      .authority (.register t.generation t.revision) ∈ ls)
    (hp : ∀ revision kvs, g.sync.phase ≠ .listed revision kvs)
    (hfresh : ∀ gen sub, a.writer = some ⟨.register gen, sub⟩ → gen = g.authority.latestGeneration + 1)
    (hsub : ∀ w, a.writer = some w → w.submission = w₀.submission)
    (hreg : ∀ w gen, a.writer = some w → w.pc = .cancelPrevious gen ∨ w.pc = .replaceTarget gen →
      w₀.pc = .cancelPrevious gen)
    (htop : (∀ w gen, a.writer = some w → w.pc ≠ .cancelPrevious gen ∧ w.pc ≠ .replaceTarget gen) →
      ∀ gen, w₀.pc ≠ .cancelPrevious gen ∧ w₀.pc ≠ .replaceTarget gen) :
    Submissions cp accept (ls ++ [.authority l]) { g with authority := a } := by
  refine ⟨?_, ?_, ?_, ?_, ?_, ?_, ?_, ?_, ?_, ?_⟩ <;>
    simp only [registered_snoc_iff hl, mem_register_snoc hl, top_snoc_iff hl, ht]
  · exact hS.faithful
  · exact fun gen revision hin => Nat.le_trans (hS.generation gen revision hin) hg
  · intro gen sub hw revision hin
    have hle := hS.generation gen revision hin
    have := hfresh gen sub hw
    omega
  · exact hS.unique
  · intro w hw
    rw [hsub w hw]
    exact hS.writerTop w₀ hw₀
  · intro w gen hw hpc
    rw [hsub w hw]
    exact hS.writerRegistered w₀ gen hw₀ (.inl (hreg w gen hw hpc))
  · intro t hts hc
    refine hS.targetTop t hts fun w gen hw => ?_
    rw [hw₀] at hw
    cases hw
    exact htop hc gen
  · exact hS.targetRegistered
  · exact hat
  · exact fun revision kvs h => absurd h (hp revision kvs)

/-- A `submit` in progress enters its submission once, at a revision no earlier one exceeds. -/
theorem Submissions.submit {g : Gateway Logical} (hC : Consistent cp accept g)
    (hctl : Authority.Control g.authority) (hS : Submissions cp accept ls g) {a : Authority Logical} {l : Label}
    (h : Authority.SubmitStep g.authority l a) :
    Submissions cp accept (ls ++ [.authority l]) { g with authority := a } := by
  have hat : ∀ stage d att t, a.worker = .attempting stage d att t →
      .authority (.register t.generation t.revision) ∈ ls :=
    fun stage d att t hw => hS.attemptRegistered stage d att t (submitStep_worker h hw)
  have hwr := h.writing
  have hnl : ∀ revision kvs, g.sync.phase ≠ .listed revision kvs := by
    intro revision kvs hp
    have := hC.phase
    rw [hp] at this
    exact hwr this.1
  cases h with
  | ensureWorkerStarted hw ha =>
    have hsame := Authority.ensureWorkerStarted_ok ha
    refine hS.move nofun hw ?_ ?_ hat hnl nofun ?_ ?_ ?_
    · rcases hsame with rfl | ⟨_, rfl⟩ <;> exact Nat.le_refl _
    · rcases hsame with rfl | ⟨_, rfl⟩ <;> rfl
    · intro w hw'; cases hw'; rfl
    · rintro w gen hw' (hpc | hpc) <;> cases hw' <;> cases hpc
    · intro _ gen; exact ⟨nofun, nofun⟩
  | bump hw =>
    refine hS.move nofun hw (Nat.le_succ _) rfl hat hnl ?_ ?_ ?_ ?_
    · intro gen sub hw'; cases hw'; rfl
    · intro w hw'; cases hw'; rfl
    · rintro w gen hw' (hpc | hpc) <;> cases hw' <;> cases hpc
    · intro _ gen; exact ⟨nofun, nofun⟩
  | cancelPrevious hw =>
    refine hS.move nofun hw (Nat.le_refl _) rfl hat hnl nofun ?_ ?_ ?_
    · intro w hw'; cases hw'; rfl
    · rintro w gen hw' (hpc | hpc) <;> cases hw' <;> cases hpc; rfl
    · exact fun hc => absurd rfl (hc _ _ rfl).2
  | signal hw =>
    refine hS.move nofun hw (Nat.le_refl _) rfl hat hnl nofun nofun nofun ?_
    intro _ gen; exact ⟨nofun, nofun⟩
  | replaceTarget hw =>
    have hl : NoRegister (.authority .internal) := nofun
    have htop := hS.writerTop _ hw
    refine ⟨?_, ?_, nofun, ?_, ?_, ?_, ?_, ?_, ?_, fun revision kvs h => absurd h (hnl revision kvs)⟩ <;>
      simp only [registered_snoc_iff hl, mem_register_snoc hl, top_snoc_iff hl]
    · exact hS.faithful
    · exact hS.generation
    · exact hS.unique
    · intro w hw'; cases hw'; exact htop
    · rintro w gen hw' (hpc | hpc) <;> cases hw' <;> cases hpc
    · intro t ht _; cases ht; exact htop
    · intro t ht; cases ht; exact hS.writerRegistered _ _ hw (.inr rfl)
    · exact hat
  | register hw =>
    rename_i sub generation
    -- the revision of the submission is at least every one before it
    have htop := hS.writerTop _ hw
    have hgen := (hctl.writerGeneration _ generation hw rfl).1
    have hmem : ∀ gen revision, .authority (.register gen revision) ∈
        ls ++ [GatewayLabel.authority (.register generation sub.stored.revision)] →
        .authority (.register gen revision) ∈ ls ∨ (gen = generation ∧ revision = sub.stored.revision) := by
      intro gen revision hin
      rcases List.mem_append.mp hin with hin | hin
      · exact .inl hin
      · cases List.mem_singleton.mp hin
        exact .inr ⟨rfl, rfl⟩
    have hreg : ∀ revision, Registered (ls ++ [.authority (.register generation sub.stored.revision)]) revision →
        Registered ls revision ∨ revision = sub.stored.revision := by
      rintro revision ⟨gen, hin⟩
      rcases hmem gen revision hin with h | ⟨-, h⟩
      · exact .inl ⟨gen, h⟩
      · exact .inr h
    have hnew : Top (ls ++ [.authority (.register generation sub.stored.revision)]) sub.stored.revision := by
      intro newer hr
      rcases hreg newer hr with hr | rfl
      · exact htop newer hr
      · exact Int.le_refl _
    refine ⟨?_, ?_, nofun, ?_, ?_, ?_, ?_, ?_, ?_, fun revision kvs h => absurd h (hnl revision kvs)⟩
    · intro revision hr
      rcases hreg revision hr with hr | rfl
      · exact hS.faithful revision hr
      · exact ⟨sub.stored, sub.logical, rfl, hC.submission _ hw⟩
    · intro gen revision hin
      rcases hmem gen revision hin with hin | ⟨rfl, -⟩
      · exact hS.generation gen revision hin
      · exact Nat.le_of_eq hgen
    · intro gen revision revision' hin hin'
      rcases hmem gen revision hin with h₁ | ⟨hg, hr⟩
      · rcases hmem gen revision' hin' with h₂ | ⟨rfl, -⟩
        · exact hS.unique gen revision revision' h₁ h₂
        · exact absurd h₁ (hS.fresh _ _ hw _)
      · rcases hmem gen revision' hin' with h₂ | ⟨-, hr'⟩
        · exact absurd h₂ (hg ▸ hS.fresh _ _ hw _)
        · rw [hr, hr']
    · intro w hw'; cases hw'; exact hnew
    · rintro w gen hw' (hpc | hpc) <;> cases hw' <;> cases hpc
      exact List.mem_append_right _ (List.mem_singleton.mpr rfl)
    · exact fun t _ hc => absurd rfl (hc _ _ rfl).1
    · exact fun t ht => List.mem_append_left _ (hS.targetRegistered t ht)
    · exact fun stage d att t hw' => List.mem_append_left _ (hat stage d att t hw')

/-- A submission may start at any revision no earlier one exceeds. -/
theorem Submissions.start {g : Gateway Logical} (hS : Submissions cp accept ls g) {sub : Submission Logical}
    (hw : g.authority.writer = none) (htop : Top ls sub.stored.revision) (phase : SyncPhase)
    (hp : ∀ revision kvs, phase ≠ .listed revision kvs) :
    Submissions cp accept (ls ++ [.authority .internal]) (g.submitting sub phase) := by
  have hl : NoRegister (.authority .internal) := nofun
  refine ⟨?_, ?_, nofun, ?_, ?_, ?_, ?_, ?_, ?_, fun revision kvs h => absurd h (hp revision kvs)⟩ <;>
    simp only [registered_snoc_iff hl, mem_register_snoc hl, top_snoc_iff hl]
  · exact hS.faithful
  · exact hS.generation
  · exact hS.unique
  · intro w hw'; cases hw'; exact htop
  · rintro w gen hw' (hpc | hpc) <;> cases hw' <;> cases hpc
  · exact fun t ht _ => hS.targetTop t ht fun w gen hw' => by rw [hw] at hw'; cases hw'
  · exact hS.targetRegistered
  · exact hS.attemptRegistered

theorem top_of_faithful {g : Gateway Logical} (hS : Submissions cp accept ls g) : Top ls g.etcd.revision := by
  intro revision hr
  obtain ⟨stored, logical, rfl, hF⟩ := hS.faithful revision hr
  exact hF.holds.1

theorem Step.preservesSubmissions {g g' : Gateway Logical} {l : GatewayLabel} (h : Step cp accept g l g')
    (hctl : Authority.Control g.authority) (hC : Consistent cp accept g) (hS : Submissions cp accept ls g) :
    Submissions cp accept (ls ++ [l]) g' := by
  have hphase := hC.phase
  cases h with
  | write ops => exact hS.keep nofun (.inr ⟨_, rfl⟩) rfl rfl rfl hS.attemptRegistered hS.listedTop
  | commit mutation => exact hS.keep nofun (.inr ⟨_, rfl⟩) rfl rfl rfl hS.attemptRegistered hS.listedTop
  | recordPending => exact hS.keep nofun (.inl rfl) rfl rfl rfl hS.attemptRegistered hS.listedTop
  | worker h => exact hS.worker h
  | submit h => exact hS.submit hC hctl h
  | submitFails h => exact absurd h hctl.submit_runs
  | list hp hk =>
    refine hS.keep nofun (.inl rfl) rfl rfl rfl hS.attemptRegistered fun revision kvs hl => ?_
    cases hl
    exact top_of_faithful hS
  | replaceAll hp hl hg hr =>
    rw [hp] at hphase
    refine hS.start hl.1 ?_ _ nofun
    rw [(replaceAll_eq_ok hr).1, (list_upTo hphase.2.1 hphase.2.2 hg).1]
    exact hS.listedTop _ _ hp
  | applyWatch hp hl hm hc ha =>
    rw [hp] at hphase
    obtain ⟨hw, hpn, hle, rfl, t, ht, hup⟩ := hphase
    obtain ⟨hne, -, hstored, -⟩ := applyWatch_eq_some ha
    refine hS.start hw ?_ _ nofun
    intro newer hr
    have h₁ := hS.targetTop t ht (fun w gen hw' => by rw [hw] at hw'; cases hw') newer hr
    have h₂ := (hC.target t ht).2
    have h₃ := hup.le
    have h₄ := (events_after_batchRevision (events_of_changes hm hc hne)).1
    rw [hstored, applyWatchBatch_revision hne]
    show newer ≤ batchRevision (g.etcd.history.events cp _ _)
    omega
  | _ => exact hS.keep nofun (.inl rfl) rfl rfl rfl hS.attemptRegistered nofun

/-! ## Commits -/

/-- The write of a resource that is no metadata causes an event about it. -/
theorem commit_event {e : Etcd} {mutation : StoredMutation} (happ : mutationApplies cp e mutation)
    (hm : mutation.key.isMetadata = false) :
    ∃ event ∈ (e.transact (mutationOps cp mutation)).history.events cp e.revision (e.revision + 1),
      ∃ kv, event.kv = some kv ∧ kv.Of cp mutation.key := by
  have hwrites : ((e.transact (mutationOps cp mutation)).history.writes.filter
      fun w => e.revision < w.revision ∧ w.revision ≤ e.revision + 1) =
      (mutationOps cp mutation).map (Write.mk (e.revision + 1)) := by
    show (e.history.writes ++ (mutationOps cp mutation).map (Write.mk (e.revision + 1))).filter _ = _
    rw [List.filter_append]
    have h₁ : e.history.writes.filter (fun w => e.revision < w.revision ∧ w.revision ≤ e.revision + 1) = [] := by
      refine List.filter_eq_nil_iff.mpr fun w hw h => ?_
      have := e.bounded w hw
      have := (of_decide_eq_true h).1
      omega
    have h₂ : ((mutationOps cp mutation).map (Write.mk (e.revision + 1))).filter
        (fun w => e.revision < w.revision ∧ w.revision ≤ e.revision + 1) =
        (mutationOps cp mutation).map (Write.mk (e.revision + 1)) := by
      refine List.filter_eq_self.mpr fun w hw => ?_
      obtain ⟨op, _, rfl⟩ := List.mem_map.mp hw
      exact decide_eq_true ⟨Int.lt_succ _, Int.le_refl _⟩
    rw [h₁, h₂, List.nil_append]
  unfold History.events
  rw [hwrites, transact_stateAt _ _ (Int.le_refl _)]
  cases mutation with
  | put key value =>
    refine ⟨⟨.put, some (EtcdState.putKv (e.history.stateAt e.revision) (e.revision + 1) (physicalKey cp key) value)⟩,
      List.mem_filter.mpr ⟨List.mem_append_left _ ?_, ?_⟩, _, rfl, rfl, hm⟩
    · exact Option.mem_toList.mpr rfl
    · exact inRange_of_covers (covers_self cp) key
  | delete key =>
    refine ⟨⟨.delete, some ⟨physicalKey cp key, ByteArray.empty, 0, e.revision + 1⟩⟩,
      List.mem_filter.mpr ⟨List.mem_append_left _ ?_, ?_⟩, _, rfl, rfl, hm⟩
    · obtain ⟨kv, hkv⟩ := Option.isSome_iff_exists.mp happ
      refine Option.mem_toList.mpr ?_
      simp only [EtcdState.event, hkv, Option.map_some]
    · exact inRange_of_covers (covers_self cp) key

/-- Commits are in etcd, visible in the namespace and later than the candidates submitted before them. -/
structure Commits (cp : String) (ls : List GatewayLabel) (g : Gateway Logical) : Prop where
  event : ∀ revision key, .commit revision key ∈ ls → 0 < revision ∧ revision ≤ g.etcd.revision ∧
    ∃ event ∈ g.etcd.history.events cp (revision - 1) revision, ∃ kv, event.kv = some kv ∧ kv.Of cp key
  order : ls.Pairwise fun l l' => ∀ gen newer revision key, l = .authority (.register gen newer) →
    l' = .commit revision key → newer < revision

theorem Commits.grow {g g' : Gateway Logical} {l : GatewayLabel} (hK : Commits cp ls g)
    (he : g'.etcd = g.etcd ∨ ∃ ops, g'.etcd = g.etcd.transact ops) (hl : ∀ revision key, l ≠ .commit revision key) :
    Commits cp (ls ++ [l]) g' := by
  refine ⟨fun revision key hin => ?_, Authority.pairwise_snoc hK.order fun _ _ _ _ revision key _ h =>
    absurd h (hl revision key)⟩
  have hin' : .commit revision key ∈ ls := by
    rcases List.mem_append.mp hin with h | h
    · exact h
    · exact absurd (List.mem_singleton.mp h).symm (hl revision key)
  obtain ⟨hpos, hle, hev⟩ := hK.event revision key hin'
  rcases he with he | ⟨ops, he⟩
  · rw [he]; exact ⟨hpos, hle, hev⟩
  · rw [he]
    refine ⟨hpos, Int.le_trans hle (Int.le_of_lt (Int.lt_succ _)), ?_⟩
    rw [transact_events _ ops cp (by omega) hle]
    exact hev

theorem Step.preservesCommits {g g' : Gateway Logical} {l : GatewayLabel} (h : Step cp accept g l g')
    (hS : Submissions cp accept ls g) (hok : InOrder ls g l) (hK : Commits cp ls g) : Commits cp (ls ++ [l]) g' := by
  cases h with
  | commit mutation happ =>
    refine ⟨fun revision key hin => ?_, Authority.pairwise_snoc hK.order ?_⟩
    · rcases List.mem_append.mp hin with hin | hin
      · obtain ⟨hpos, hle, hev⟩ := hK.event revision key hin
        refine ⟨hpos, Int.le_trans hle (Int.le_of_lt (Int.lt_succ _)), ?_⟩
        rw [transact_events _ _ cp (by omega) hle]
        exact hev
      · cases List.mem_singleton.mp hin
        have := g.etcd.nonneg
        refine ⟨by omega, Int.le_refl _, ?_⟩
        rw [Int.add_sub_cancel]
        exact commit_event happ hok
    · rintro l hl gen newer revision key rfl hc
      cases hc
      have := top_of_faithful hS newer ⟨gen, hl⟩
      omega
  | write => exact hK.grow (.inr ⟨_, rfl⟩) fun _ _ heq => nomatch heq
  | _ => exact hK.grow (.inl rfl) fun _ _ heq => nomatch heq

/-! ## Outcomes -/

/-- The revision found for a rejected generation is that of the target, while it is the target. -/
def Found (target : Option (PendingGraph Logical)) (gen : Nat) : Option Int → Prop
  | some revision => ∀ t, target = some t → t.generation = gen → t.revision = revision
  | none => ∀ t, target = some t → t.generation ≠ gen

/-- Outcomes are those of submitted candidates, and the worker parks only on one it has recorded. -/
structure Outcomes (ls : List GatewayLabel) (g : Gateway Logical) : Prop where
  runtime : g.authority.runtime = {} ∨ Registered ls g.authority.runtime.revision
  published : ∀ gen revision, .authority (.publish gen revision) ∈ ls →
    .authority (.register gen revision) ∈ ls ∧ (.authority (.recordPublished revision) ∈ ls ∨
      ∃ stage d att t, g.authority.worker = .attempting stage d att t ∧ (stage = .committing ∨ stage = .recording) ∧
        t.revision = revision)
  stale : ∀ gen revision, .authority (.settleStale gen revision) ∈ ls → .authority (.register gen revision) ∈ ls
  recorded : ∀ revision, .authority (.recordPublished revision) ∈ ls → Registered ls revision
  rejected : ∀ revision, .authority (.reject revision) ∈ ls → Registered ls revision
  rejecting : ∀ gen token revision, g.authority.worker = .rejecting (some (gen, token)) revision →
    Found g.authority.target gen revision
  rejectingRegistered : ∀ att revision, g.authority.worker = .rejecting att (some revision) → Registered ls revision
  parked : ∀ token, g.authority.worker = .parked token → ∀ t, g.authority.target = some t →
    t.generation = token → .authority (.reject t.revision) ∈ ls

/-- The label is no outcome. -/
def NoOutcome (l : GatewayLabel) : Prop :=
  (∀ gen revision, l ≠ .authority (.publish gen revision)) ∧
    (∀ gen revision, l ≠ .authority (.settleStale gen revision)) ∧
    (∀ revision, l ≠ .authority (.recordPublished revision)) ∧ ∀ revision, l ≠ .authority (.reject revision)

theorem mem_snoc_ne {ls : List GatewayLabel} {l x : GatewayLabel} (h : x ∈ ls ++ [l]) (hne : l ≠ x) : x ∈ ls := by
  rcases List.mem_append.mp h with h | h
  · exact h
  · exact absurd (List.mem_singleton.mp h).symm hne

theorem found_congr {target target' : Option (PendingGraph Logical)} {gen : Nat} {revision : Option Int}
    (h : Found target gen revision) (ht : target' = target ∨ ∃ t, target' = some t ∧ t.generation ≠ gen) :
    Found target' gen revision := by
  rcases ht with rfl | ⟨t₀, rfl, hne⟩
  · exact h
  · cases revision with
    | none => intro t ht; cases ht; exact hne
    | some revision => intro t ht hg; cases ht; exact absurd hg hne

/-- Steps without an outcome: the snapshot stays, the worker stays or waits, and a new target is a new generation. -/
theorem Outcomes.keep {g g' : Gateway Logical} {l : GatewayLabel} (hO : Outcomes ls g) (hl : NoOutcome l)
    (hr : g'.authority.runtime = g.authority.runtime)
    (hw : g'.authority.worker = g.authority.worker ∨ (g.authority.worker = .absent ∧
      g'.authority.worker = .receiving))
    (ht : g'.authority.target = g.authority.target ∨ ∃ t, g'.authority.target = some t ∧
      g.authority.targetGeneration < t.generation)
    (hb : g.authority.worker.Bounded g.authority.targetGeneration) : Outcomes (ls ++ [l]) g' := by
  obtain ⟨hl₁, hl₂, hl₃, hl₄⟩ := hl
  have hwk : ∀ w, g'.authority.worker = w → w ≠ .receiving → g.authority.worker = w := by
    intro w hw' hne
    rcases hw with he | ⟨_, he⟩
    · rw [← he]; exact hw'
    · rw [he] at hw'; exact absurd hw'.symm hne
  refine ⟨?_, ?_, ?_, ?_, ?_, ?_, ?_, ?_⟩
  · rw [hr]
    exact hO.runtime.imp_right fun h => h.snoc l
  · intro gen revision hin
    obtain ⟨hreg, hrec⟩ := hO.published gen revision (mem_snoc_ne hin (hl₁ _ _))
    refine ⟨List.mem_append_left _ hreg, ?_⟩
    rcases hrec with hrec | ⟨stage, d, att, t, hat, hst⟩
    · exact .inl (List.mem_append_left _ hrec)
    · rcases hw with he | ⟨habs, _⟩
      · exact .inr ⟨stage, d, att, t, by rw [he]; exact hat, hst⟩
      · rw [habs] at hat; cases hat
  · exact fun gen revision hin => List.mem_append_left _ (hO.stale gen revision (mem_snoc_ne hin (hl₂ _ _)))
  · exact fun revision hin => (hO.recorded revision (mem_snoc_ne hin (hl₃ _))).snoc l
  · exact fun revision hin => (hO.rejected revision (mem_snoc_ne hin (hl₄ _))).snoc l
  · intro gen token revision hw'
    have hw₀ := hwk _ hw' nofun
    refine found_congr (hO.rejecting gen token revision hw₀) (ht.imp_right fun ⟨t, hts, hlt⟩ => ⟨t, hts, ?_⟩)
    rw [hw₀] at hb
    obtain ⟨g₀, hg₀, -, hle⟩ := hb
    cases hg₀
    omega
  · exact fun att revision hw' => (hO.rejectingRegistered att revision (hwk _ hw' nofun)).snoc l
  · intro token hw' t hts hgen
    have hw₀ := hwk _ hw' nofun
    rcases ht with he | ⟨t₀, he, hlt⟩
    · exact List.mem_append_left _ (hO.parked token hw₀ t (he ▸ hts) hgen)
    · rw [he] at hts
      cases hts
      rw [hw₀] at hb
      have hle := hb.2
      rw [← hgen] at hle
      exact absurd hlt (Nat.not_lt.mpr hle)

theorem submitStep_target {a a' : Authority Logical} {l : Label} (h : Authority.SubmitStep a l a')
    (hc : Authority.Control a) :
    a'.target = a.target ∨ ∃ t, a'.target = some t ∧ a.targetGeneration < t.generation := by
  cases h with
  | ensureWorkerStarted hw ha =>
    rcases Authority.ensureWorkerStarted_ok ha with rfl | ⟨_, rfl⟩ <;> exact .inl rfl
  | replaceTarget hw =>
    rename_i sub generation
    obtain ⟨hg, hpos⟩ := hc.writerGeneration _ generation hw rfl
    refine .inr ⟨_, rfl, ?_⟩
    unfold Authority.targetGeneration
    rw [hw]
    show a.latestGeneration - 1 < generation
    omega
  | _ => exact .inl rfl

theorem Outcomes.submit {g : Gateway Logical} {las : List Label} (hV : Authority.Served las g.authority)
    (hO : Outcomes ls g) {a : Authority Logical} {l : Label} (h : Authority.SubmitStep g.authority l a) :
    Outcomes (ls ++ [.authority l]) { g with authority := a } := by
  have hl : NoOutcome (.authority l) := by
    cases h <;> exact ⟨nofun, nofun, nofun, nofun⟩
  refine hO.keep hl h.frame.1 ?_ (submitStep_target h hV.control) hV.bounded
  rcases h.frame.2 with ⟨he, _⟩ | ⟨htx, _, he⟩
  · exact .inl he
  · exact .inr ⟨hV.absent htx, he⟩

theorem rejectedRevision_found (a : Authority Logical) (gen : Nat) (token : CancellationToken) :
    Found a.target gen (a.rejectedRevision (some (gen, token))) := by
  unfold Authority.rejectedRevision
  cases ht : a.target with
  | none => exact nofun
  | some t =>
    by_cases hg : t.generation = gen
    · simp only [Option.bind_some, Option.filter_some, hg, decide_true, if_true, Option.map_some]
      intro t' ht' _
      cases ht'
      rfl
    · simp only [Option.bind_some, Option.filter_some, hg, decide_false, Bool.false_eq_true, if_false, Option.map_none]
      intro t' ht'
      cases ht'
      exact hg

theorem rejectedRevision_eq_some {a : Authority Logical} {att : Attempted} {revision : Int}
    (h : a.rejectedRevision att = some revision) : ∃ t, a.target = some t ∧ t.revision = revision := by
  unfold Authority.rejectedRevision at h
  obtain ⟨failed, -, h⟩ := Option.bind_eq_some_iff.mp h
  obtain ⟨t, hf, hr⟩ := Option.map_eq_some_iff.mp h
  exact ⟨t, (Option.filter_eq_some_iff.mp hf).1, hr⟩

/-- A worker step shows an outcome only of the candidate it attempts, and parks only after recording it. -/
theorem Outcomes.worker {g : Gateway Logical} {las : List Label} (hV : Authority.Served las g.authority)
    (hS : Submissions cp accept ls g) (hO : Outcomes ls g) {a : Authority Logical} {l : Label} (h : Authority.WorkerStep g.authority l a) :
    Outcomes (ls ++ [.authority l]) { g with authority := a } := by
  obtain ⟨-, -, ht, -⟩ := h.sameControl
  have hmem : ∀ x, x ∈ ls → x ∈ ls ++ [GatewayLabel.authority l] := fun _ => List.mem_append_left _
  have hself : GatewayLabel.authority l ∈ ls ++ [GatewayLabel.authority l] :=
    List.mem_append_right _ (List.mem_singleton.mpr rfl)
  refine ⟨?_, ?_, ?_, ?_, ?_, ?_, ?_, ?_⟩
  · cases h with
    | publish hw => exact .inr ⟨_, hmem _ (hS.attemptRegistered _ _ _ _ hw)⟩
    | _ => exact hO.runtime.imp_right fun h => h.snoc _
  · intro gen revision hin
    by_cases hnew : .authority (.publish gen revision) ∈ ls
    · obtain ⟨hreg, hrec⟩ := hO.published gen revision hnew
      refine ⟨hmem _ hreg, ?_⟩
      rcases hrec with hrec | ⟨stage, d, att, t, hat, hst, hrev⟩
      · exact .inl (hmem _ hrec)
      · cases h with
        | commit hw =>
          rw [hw] at hat
          cases hat
          exact .inr ⟨_, _, _, _, rfl, .inr rfl, hrev⟩
        | recordPublished hw =>
          rw [hw] at hat
          cases hat
          exact .inl (hrev ▸ hself)
        | cancelled hw hs =>
          rw [hw] at hat
          cases hat
          rcases hs with rfl | rfl <;> rcases hst with hst | hst <;> cases hst
        | _ hw =>
          rw [hw] at hat
          first
            | cases hat; done
            | (cases hat; rcases hst with hst | hst <;> cases hst)
    · rcases List.mem_append.mp hin with hin | hin
      · exact absurd hin hnew
      · cases List.mem_singleton.mp hin
        cases h with
        | publish hw => exact ⟨hmem _ (hS.attemptRegistered _ _ _ _ hw), .inr ⟨_, _, _, _, rfl, .inl rfl, rfl⟩⟩
  · intro gen revision hin
    rcases List.mem_append.mp hin with hin | hin
    · exact hmem _ (hO.stale gen revision hin)
    · cases List.mem_singleton.mp hin
      cases h with
      | stale hw => exact hmem _ (hS.attemptRegistered _ _ _ _ hw)
  · intro revision hin
    rcases List.mem_append.mp hin with hin | hin
    · exact (hO.recorded revision hin).snoc _
    · cases List.mem_singleton.mp hin
      cases h with
      | recordPublished hw => exact ⟨_, hmem _ (hS.attemptRegistered _ _ _ _ hw)⟩
  · intro revision hin
    rcases List.mem_append.mp hin with hin | hin
    · exact (hO.rejected revision hin).snoc _
    · cases List.mem_singleton.mp hin
      cases h with
      | reject hw => exact (hO.rejectingRegistered _ _ hw).snoc _
  · intro gen token revision hw'
    cases h with
    | findRejected hw =>
      cases hw'
      exact rejectedRevision_found g.authority gen token
    | reject | rejectNone => exact absurd hw' (Authority.afterRejection_ne_rejecting _ _ _)
    | _ => cases hw'
  · intro att revision hw'
    cases h with
    | findRejected hw =>
      injection hw' with h₁ h₂
      obtain ⟨t, hts, rfl⟩ := rejectedRevision_eq_some h₂
      exact ⟨_, hmem _ (hS.targetRegistered t hts)⟩
    | reject | rejectNone => exact absurd hw' (Authority.afterRejection_ne_rejecting _ _ _)
    | _ => cases hw'
  · intro token hw' t hts hgen
    have hb := hV.bounded
    cases h with
    | reject hw =>
      obtain ⟨gen, rfl⟩ := Authority.afterRejection_eq_parked hw'
      rw [hw] at hb
      obtain ⟨g₀, hg₀, -⟩ := hb
      cases hg₀
      rw [hO.rejecting _ _ _ hw t hts hgen]
      exact hself
    | rejectNone hw =>
      obtain ⟨gen, rfl⟩ := Authority.afterRejection_eq_parked hw'
      rw [hw] at hb
      obtain ⟨g₀, hg₀, -⟩ := hb
      cases hg₀
      exact absurd hgen (hO.rejecting _ _ _ hw t hts)
    | _ => cases hw'

theorem Step.preservesOutcomes {g g' : Gateway Logical} {l : GatewayLabel} (h : Step cp accept g l g')
    {las : List Label} (hV : Authority.Served las g.authority) (hS : Submissions cp accept ls g)
    (hO : Outcomes ls g) : Outcomes (ls ++ [l]) g' := by
  cases h with
  | worker h => exact hO.worker hV hS h
  | submit h => exact hO.submit hV h
  | submitFails h => exact absurd h hV.control.submit_runs
  | _ => exact hO.keep ⟨nofun, nofun, nofun, nofun⟩ rfl (.inl rfl) (.inl rfl) hV.bounded

/-! ## Reports -/

/-- What the registry reports, against the submissions and outcomes so far. -/
structure Reports (ls : List GatewayLabel) (publications : PublicationRegistry) : Prop where
  superseded : ∀ r, publications.reported r = some .superseded → ∃ newer, Registered ls newer ∧ r < newer
  pending : ∀ r, publications.reported r = some .pending → Top ls r
  published : ∀ r, .authority (.recordPublished r) ∈ ls →
    publications.reported r = none ∨ publications.reported r = some .published
  rejected : ∀ r, .authority (.reject r) ∈ ls →
    publications.reported r = none ∨ publications.reported r = some .rejected
  decided : ∀ r, (publications.reported r = some .published → .authority (.recordPublished r) ∈ ls) ∧
    (publications.reported r = some .rejected → .authority (.reject r) ∈ ls)

theorem Reports.keep {publications : PublicationRegistry} {l : GatewayLabel} (hR : Reports ls publications)
    (hl : NoRegister l) (hp : ∀ r, l ≠ .authority (.recordPublished r)) (hr : ∀ r, l ≠ .authority (.reject r)) :
    Reports (ls ++ [l]) publications := by
  refine ⟨fun r h => ?_, fun r h => ?_, fun r h => ?_, fun r h => ?_, fun r => ⟨fun h => ?_, fun h => ?_⟩⟩
  · exact (hR.superseded r h).imp fun newer hn => ⟨hn.1.snoc l, hn.2⟩
  · rw [top_snoc_iff hl]; exact hR.pending r h
  · exact hR.published r (mem_snoc_ne h (hp r))
  · exact hR.rejected r (mem_snoc_ne h (hr r))
  · exact List.mem_append_left _ ((hR.decided r).1 h)
  · exact List.mem_append_left _ ((hR.decided r).2 h)

/-- Entering a revision as pending is harmless when every candidate so far is older, and when it has a record. -/
theorem Reports.enter {publications : PublicationRegistry} {revision : Int} (hR : Reports ls publications)
    (htop : publications.reported revision = none → Top ls revision)
    (hout : publications.reported revision = none →
      .authority (.recordPublished revision) ∉ ls ∧ .authority (.reject revision) ∉ ls) :
    Reports ls (publications.pending revision) := by
  refine ⟨fun r h => ?_, fun r h => ?_, fun r h => ?_, fun r h => ?_, fun r => ⟨fun h => ?_, fun h => ?_⟩⟩ <;>
    rcases PublicationRegistry.pending_reported publications revision r with he | ⟨he, hne⟩ | ⟨rfl, hn, he⟩
  · exact hR.superseded r (he ▸ h)
  · rw [he] at h; cases h
  · rw [he] at h; cases h
  · exact hR.pending r (he ▸ h)
  · rw [he] at h; cases h
  · exact htop hn
  · rw [he]; exact hR.published r h
  · exact .inl he
  · exact absurd h (hout hn).1
  · rw [he]; exact hR.rejected r h
  · exact .inl he
  · exact absurd h (hout hn).2
  · exact (hR.decided r).1 (he ▸ h)
  · rw [he] at h; cases h
  · rw [he] at h; cases h
  · exact (hR.decided r).2 (he ▸ h)
  · rw [he] at h; cases h
  · rw [he] at h; cases h

theorem mem_snoc_self (ls : List GatewayLabel) (l : GatewayLabel) : l ∈ ls ++ [l] :=
  List.mem_append_right _ (List.mem_singleton.mpr rfl)

/-- A submission at the top supersedes only what it contains, when nothing above it is pending. -/
theorem Reports.register {publications : PublicationRegistry} {gen : Nat} {revision : Int}
    (hR : Reports ls publications) (htop : Top ls revision)
    (hlater : ∀ later, revision < later → publications.reported later ≠ some .pending)
    (hout : publications.reported revision = none →
      .authority (.recordPublished revision) ∉ ls ∧ .authority (.reject revision) ∉ ls) :
    Reports (ls ++ [.authority (.register gen revision)])
      ((publications.pending revision).supersedePendingExcept revision) := by
  have hE := hR.enter (fun _ => htop) hout
  have hpend : ∀ r, (publications.pending revision).reported r = some .pending → r ≤ revision := by
    intro r h
    rcases PublicationRegistry.pending_reported publications revision r with he | ⟨he, _⟩ | ⟨rfl, _, _⟩
    · exact Int.not_lt.mp fun hlt => hlater r hlt (he ▸ h)
    · rw [he] at h; cases h
    · exact Int.le_refl _
  have hmem : ∀ x : GatewayLabel, (∀ gen revision, x ≠ .authority (.register gen revision)) →
      x ∈ ls ++ [.authority (.register gen revision)] → x ∈ ls :=
    fun x hx h => mem_snoc_ne h fun he => hx _ _ he.symm
  refine ⟨fun r h => ?_, fun r h => ?_, fun r h => ?_, fun r h => ?_, fun r => ⟨fun h => ?_, fun h => ?_⟩⟩ <;>
    rw [PublicationRegistry.supersede_reported] at *
  · split at h
    · rename_i hc
      have := hpend r hc.2
      exact ⟨revision, ⟨gen, mem_snoc_self _ _⟩, by have := hc.1; omega⟩
    · exact (hE.superseded r h).imp fun newer hn => ⟨hn.1.snoc _, hn.2⟩
  · split at h
    · cases h
    · rename_i hc
      -- only the submitted revision stays pending
      have hr : r = revision := by
        by_contra hne
        exact hc ⟨hne, h⟩
      subst hr
      intro newer hn
      rcases registered_snoc hn with hn | ⟨_, hn⟩
      · exact htop newer hn
      · cases hn; exact Int.le_refl _
  · have := hE.published r (hmem _ nofun h)
    rw [if_neg]
    · exact this
    · rintro ⟨_, hp⟩
      rw [hp] at this
      rcases this with h | h <;> cases h
  · have := hE.rejected r (hmem _ nofun h)
    rw [if_neg]
    · exact this
    · rintro ⟨_, hp⟩
      rw [hp] at this
      rcases this with h | h <;> cases h
  · split at h
    · cases h
    · exact List.mem_append_left _ ((hE.decided r).1 h)
  · split at h
    · cases h
    · exact List.mem_append_left _ ((hE.decided r).2 h)

theorem Reports.recordPublished {publications : PublicationRegistry} {revision : Int} (hR : Reports ls publications)
    (hreg : Registered ls revision) (hnot : .authority (.reject revision) ∉ ls) :
    Reports (ls ++ [.authority (.recordPublished revision)]) (publications.published revision) := by
  have hl : NoRegister (.authority (.recordPublished revision)) := nofun
  refine ⟨fun r h => ?_, fun r h => ?_, fun r h => ?_, fun r h => ?_, fun r => ⟨fun h => ?_, fun h => ?_⟩⟩ <;>
    rcases PublicationRegistry.published_reported publications revision r with ⟨hne, he⟩ | ⟨he, _⟩ | ⟨rfl, he⟩
  · exact (hR.superseded r (he ▸ h)).imp fun newer hn => ⟨hn.1.snoc _, hn.2⟩
  · rw [he] at h; cases h
  · rw [he] at h; cases h
  · rw [top_snoc_iff hl]; exact hR.pending r (he ▸ h)
  · rw [he] at h; cases h
  · rw [he] at h; cases h
  · rw [he]
    exact hR.published r (mem_snoc_ne h fun hc => by cases hc; exact hne rfl)
  · exact .inl he
  · exact .inr he
  · rw [he]; exact hR.rejected r (mem_snoc_ne h nofun)
  · exact .inl he
  · exact absurd (mem_snoc_ne h nofun) hnot
  · exact List.mem_append_left _ ((hR.decided r).1 (he ▸ h))
  · rw [he] at h; cases h
  · exact mem_snoc_self _ _
  · exact List.mem_append_left _ ((hR.decided r).2 (he ▸ h))
  · rw [he] at h; cases h
  · rw [he] at h; cases h

theorem Reports.reject {publications : PublicationRegistry} {revision : Int} {error : String}
    (hR : Reports ls publications) (hnot : .authority (.recordPublished revision) ∉ ls)
    (hs : publications.reported revision ≠ some .superseded) :
    Reports (ls ++ [.authority (.reject revision)]) (publications.rejected revision error) := by
  have hl : NoRegister (.authority (.reject revision)) := nofun
  refine ⟨fun r h => ?_, fun r h => ?_, fun r h => ?_, fun r h => ?_, fun r => ⟨fun h => ?_, fun h => ?_⟩⟩ <;>
    rw [PublicationRegistry.rejected_reported] at *
  · split at h
    · cases h
    · exact (hR.superseded r h).imp fun newer hn => ⟨hn.1.snoc _, hn.2⟩
  · split at h
    · cases h
    · rw [top_snoc_iff hl]; exact hR.pending r h
  · have := hR.published r (mem_snoc_ne h nofun)
    rw [if_neg]
    · exact this
    · rintro ⟨_, hp⟩
      rw [hp] at this
      rcases this with h | h <;> cases h
  · by_cases hr : r = revision
    · subst hr
      cases hrep : publications.reported r with
      | none => exact .inl (if_neg nofun)
      | some state =>
        right
        cases state with
        | pending => exact if_pos ⟨rfl, rfl⟩
        | published => exact absurd ((hR.decided r).1 hrep) hnot
        | rejected => exact if_neg nofun
        | superseded => exact absurd hrep hs
    · rw [if_neg fun hc => hr hc.1]
      exact hR.rejected r (mem_snoc_ne h fun hc => by cases hc; exact hr rfl)
  · split at h
    · cases h
    · exact List.mem_append_left _ ((hR.decided r).1 h)
  · split at h
    · rename_i hc
      rw [hc.1]
      exact mem_snoc_self _ _
    · exact List.mem_append_left _ ((hR.decided r).2 h)

theorem Step.preservesReports {g g' : Gateway Logical} {l : GatewayLabel} (h : Step cp accept g l g')
    (hctl : Authority.Control g.authority) (hS : Submissions cp accept ls g) (hO : Outcomes ls g)
    (hok : InOrder ls g l) (hR : Reports ls g.authority.publications) :
    Reports (ls ++ [l]) g'.authority.publications := by
  cases h with
  | recordPending =>
    rename_i revision _
    have hnew : g.authority.publications.reported revision = none → ∀ newer, Registered ls newer →
        newer < revision := fun hn => hok.resolve_left fun h => h hn
    refine (hR.enter (fun hn newer hr => Int.le_of_lt (hnew hn newer hr)) fun hn => ⟨fun h => ?_, fun h => ?_⟩).keep
      nofun nofun nofun
    · exact absurd (hnew hn revision (hO.recorded revision h)) (Int.lt_irrefl _)
    · exact absurd (hnew hn revision (hO.rejected revision h)) (Int.lt_irrefl _)
  | worker h =>
    cases h with
    | recordPublished hw => exact hR.recordPublished ⟨_, hS.attemptRegistered _ _ _ _ hw⟩ hok
    | reject hw => exact hR.reject hok.1 hok.2
    | _ => exact hR.keep nofun nofun nofun
  | submit h =>
    cases h with
    | register hw => exact hR.register (hS.writerTop _ hw) hok.1 hok.2
    | ensureWorkerStarted hw ha =>
      rcases Authority.ensureWorkerStarted_ok ha with rfl | ⟨_, rfl⟩ <;> exact hR.keep nofun nofun nofun
    | _ => exact hR.keep nofun nofun nofun
  | submitFails h => exact absurd h hctl.submit_runs
  | _ => exact hR.keep nofun nofun nofun

/-- Everything a run in order keeps. -/
structure InOrderRun (cp : String) (accept : StoredGraph → ProxyResult Logical) (ls : List GatewayLabel)
    (g : Gateway Logical) : Prop where
  submissions : Submissions cp accept ls g
  outcomes : Outcomes ls g
  commits : Commits cp ls g
  reports : Reports ls g.authority.publications

theorem run_inOrder {g : Gateway Logical} (r : RunMeeting (Step cp accept) Initial InOrder ls g) :
    InOrderRun cp accept ls g := by
  refine r.invariant (fun g h => ?_) fun {ls g l g'} r hI hok h => ?_
  · obtain ⟨hs, ha, -⟩ := h
    have hnr : ∀ revision, ¬ Registered [] revision := by rintro revision ⟨_, h⟩; cases h
    refine ⟨⟨?_, nofun, nofun, nofun, ?_, ?_, ?_, ?_, ?_, ?_⟩, ⟨?_, nofun, nofun, nofun, nofun, ?_, ?_, ?_⟩,
      ⟨nofun, .nil⟩, ?_⟩
    · exact fun revision h => absurd h (hnr revision)
    · rw [ha]; exact nofun
    · rw [ha]; exact nofun
    · rw [ha]; exact nofun
    · rw [ha]; exact nofun
    · rw [ha]; exact nofun
    · rw [hs]; exact nofun
    · rw [ha]; exact .inl rfl
    · rw [ha]; exact nofun
    · rw [ha]; exact nofun
    · rw [ha]; exact nofun
    · rw [ha]
      exact ⟨nofun, nofun, nofun, nofun, fun _ => ⟨nofun, nofun⟩⟩
  · have hV := Authority.run_served (run_authority r)
    have hC := run_consistent r
    exact ⟨h.preservesSubmissions hV.control hC hI.submissions, h.preservesOutcomes hV hI.submissions hI.outcomes,
      h.preservesCommits hI.submissions hok hI.commits,
      h.preservesReports hV.control hI.submissions hI.outcomes hok hI.reports⟩

/-- The outcome of the target when the worker is idle: it is recorded. -/
theorem idle_recorded {g : Gateway Logical} {las : List Label} (hV : Authority.Served las g.authority)
    (hlas : las = ls.filterMap GatewayLabel.authority?) (hI : InOrderRun cp accept ls g) (hidle : Idle g)
    {t : PendingGraph Logical} (ht : g.authority.target = some t) (hpos : 0 < t.revision) :
    .authority (.recordPublished t.revision) ∈ ls ∨ .authority (.reject t.revision) ∈ ls := by
  obtain ⟨hw, hidle⟩ := hidle
  have hgen := (hV.control.target_generation ht).1
  rw [Authority.targetGeneration_of_idle hw] at hgen
  have hpos' := (hV.control.target_generation ht).2
  have hin : ∀ l, l ∈ las → .authority l ∈ ls := by
    intro l hl
    rw [hlas] at hl
    obtain ⟨x, hx, he⟩ := List.mem_filterMap.mp hl
    cases x with
    | authority l' => cases he; exact hx
    | _ => cases he
  rcases hidle with ⟨hwk, hs⟩ | ⟨token, hwk, hc⟩
  · rcases hV.served hw with h0 | ⟨revision, hset⟩ | h | h
    · omega
    · rcases hset with hpub | ⟨hstale, hlt⟩
      · obtain ⟨hreg, hrec⟩ := hI.outcomes.published _ _ (hin _ hpub)
        rw [← hgen] at hreg
        rw [hI.submissions.unique _ _ _ (hI.submissions.targetRegistered t ht) hreg]
        rcases hrec with hrec | ⟨stage, d, att, t', hat, -⟩
        · exact .inl hrec
        · rw [hwk] at hat; cases hat
      · -- a candidate at the last revision is not older than the published snapshot
        have hreg := hI.outcomes.stale _ _ (hin _ hstale)
        rw [← hgen] at hreg
        have hrev := hI.submissions.unique _ _ _ (hI.submissions.targetRegistered t ht) hreg
        have htop := hI.submissions.targetTop t ht fun w gen hw' => by rw [hw] at hw'; cases hw'
        rcases hI.outcomes.runtime with hr | hr
        · rw [hr] at hlt
          simp only at hlt
          omega
        · have := htop _ hr
          omega
    · rw [hs] at h; cases h
    · rw [hwk] at h; cases h
  · have hb := hV.bounded
    rw [hwk] at hb
    refine .inr (hI.outcomes.parked token hwk t ht ?_)
    rw [hV.control.cancelled, Authority.activeGeneration_of_idle hw] at hc
    have hle := hb.2
    rw [Authority.targetGeneration_of_idle hw] at hle
    have hge : ¬ token < g.authority.latestGeneration := fun h => hc ⟨hb.1, h⟩
    rw [hgen]
    exact Nat.le_antisymm (Nat.not_lt.mp hge) hle

/-- Every delivered commit is contained in the target. -/
theorem delivered_le_target {g : Gateway Logical} (hC : Consistent cp accept g) (hK : Commits cp ls g)
    (hd : Delivered g) {revision : Int} {key : ResourceKey} (hc : .commit revision key ∈ ls) :
    ∃ t, g.authority.target = some t ∧ revision ≤ t.revision := by
  have hphase := hC.phase
  unfold Delivered at hd
  rw [hd] at hphase
  obtain ⟨hw, hle, t, ht, hup⟩ := hphase
  obtain ⟨hpos, hrle, event, hev, kv, hkv, hof⟩ := hK.event revision key hc
  refine ⟨t, ht, ?_⟩
  rw [← (hC.target t ht).2]
  by_contra hlt
  have hlt : t.stored.revision ≤ revision - 1 := by omega
  refine hup.quiet event ?_ kv hkv key hof
  rw [events_split _ cp (Int.le_trans hlt (by omega)) hrle, events_split _ cp hlt (by omega)]
  exact List.mem_append_left _ (List.mem_append_right _ hev)

/-- In a run whose steps come in order the registry is truthful in every state. -/
theorem registry_truthful_in_order (pfx : String) {ls : List GatewayLabel} {g : Gateway Logical}
    (r : RunMeeting (Step (canonicalizePrefix pfx) accept) Initial InOrder ls g) :
    Truthful (canonicalizePrefix pfx) accept ls g := by
  have hI := run_inOrder r
  have hC := run_consistent r.run
  have hV := Authority.run_served (run_authority r.run)
  refine ⟨fun revision key hc hrep => ?_, fun revision h state hrep => ?_, fun revision h state hrep => ?_,
    hI.reports.decided, fun hd hidle revision key hc hrep => ?_⟩
  · obtain ⟨newer, ⟨gen, hreg⟩, hlt⟩ := hI.reports.superseded revision hrep
    obtain ⟨before, after, hsplit⟩ := List.append_of_mem hreg
    refine ⟨before, after, gen, newer, hsplit, ?_, hlt, hI.submissions.faithful newer ⟨gen, hreg⟩⟩
    rw [hsplit] at hc
    rcases List.mem_append.mp hc with hc | hc
    · exact hc
    · rcases List.mem_cons.mp hc with hc | hc
      · cases hc
      · -- a commit after the submission would be newer than it
        have horder := hI.commits.order
        rw [hsplit, List.pairwise_append] at horder
        have := (List.pairwise_cons.mp horder.2.1).1 _ hc gen newer revision key rfl rfl
        omega
  · rcases hI.reports.published revision h with h | h
    · rw [h] at hrep; cases hrep
    · rw [h] at hrep; cases hrep; rfl
  · rcases hI.reports.rejected revision h with h | h
    · rw [h] at hrep; cases hrep
    · rw [h] at hrep; cases hrep; rfl
  · obtain ⟨t, ht, hle⟩ := delivered_le_target hC hI.commits hd hc
    have hpos := (hI.commits.event revision key hc).1
    have hge := hI.reports.pending revision hrep t.revision ⟨_, hI.submissions.targetRegistered t ht⟩
    have heq : revision = t.revision := Int.le_antisymm hle hge
    rcases idle_recorded hV rfl hI hidle ht (by omega) with h | h
    · rw [heq] at hrep
      rcases hI.reports.published _ h with h | h <;> rw [h] at hrep <;> cases hrep
    · rw [heq] at hrep
      rcases hI.reports.rejected _ h with h | h <;> rw [h] at hrep <;> cases hrep

end

/-! ## Runs -/

def sampleKey (id : String) (h : id ≠ "" ∧ Text.containsChar id '/' = false) : ResourceKey := ⟨.route, id, h⟩

def submittedUpTo (revision : Int) : GatewayLabel → Bool
  | .authority (.register _ newer) => newer ≤ revision
  | _ => true

/-- Two commits are stored and the second is recorded before the batch with the first is submitted. -/
theorem run_recorded_early : ∃ ls, ∃ g : Gateway Unit,
    Run (Step (canonicalizePrefix "/p") fun _ => .ok ()) Initial ls g ∧
    .commit 8 (sampleKey "b" (by decide)) ∈ ls ∧ g.authority.publications.reported 8 = some .superseded ∧
    ls.all (submittedUpTo 7) = true := by
  have r₀ : Run (Step (canonicalizePrefix "/p") fun _ => .ok ()) Initial [] ({ etcd := sampleEtcd } : Gateway Unit) :=
    .start ⟨rfl, rfl, rfl⟩
  have r₁ := (r₀.snoc (.list rfl (.refl _))).snoc (.replaceAll rfl ⟨rfl, rfl⟩ rfl rfl)
  have r₂ := r₁.snoc (.submit (.ensureWorkerStarted rfl rfl))
  have r₃ := (r₂.snoc (.submit (.bump rfl))).snoc (.submit (.register rfl))
  have r₄ := (r₃.snoc (.submit (.cancelPrevious rfl))).snoc (.submit (.replaceTarget rfl))
  have r₅ := ((r₄.snoc (.submit (.signal rfl))).snoc (.replaced rfl rfl)).snoc (.watchStarted rfl)
  have r₆ := r₅.snoc (.commit (.put (sampleKey "a" (by decide)) "x".toUTF8) trivial)
  have r₇ := r₆.snoc (.respond rfl (by decide) (Int.le_refl 7))
  have r₈ := r₇.snoc (.commit (.put (sampleKey "b" (by decide)) "y".toUTF8) trivial)
  have r₉ := r₈.snoc (.recordPending (List.mem_cons_self ..))
  have r₁₀ := r₉.snoc (.applyWatch rfl ⟨rfl, rfl⟩ rfl (.refl _) rfl)
  have r₁₁ := (r₁₀.snoc (.submit (.ensureWorkerStarted rfl rfl))).snoc (.submit (.bump rfl))
  refine ⟨_, _, r₁₁.snoc (.submit (.register rfl)), ?_, ?_, ?_⟩
  · decide
  · rfl
  · rfl

/-- A revision recorded before an older batch is submitted is reported superseded by nothing. -/
theorem registry_supersedes_newer : ¬ ∀ (ls : List GatewayLabel) (g : Gateway Unit),
    Run (Step (canonicalizePrefix "/p") fun _ => .ok ()) Initial ls g →
    Truthful (canonicalizePrefix "/p") (fun _ => .ok ()) ls g := by
  intro h
  obtain ⟨ls, g, r, hc, hrep, hall⟩ := run_recorded_early
  obtain ⟨before, after, gen, newer, rfl, -, hlt, -⟩ := (h ls g r).superseded 8 _ hc hrep
  have := List.all_eq_true.mp hall (.authority (.register gen newer)) (by simp)
  have : newer ≤ 7 := of_decide_eq_true this
  omega

/-- The same commits recorded in order: the first candidate is published and reported so. -/
theorem registry_truthful_in_order_published : ∃ ls, ∃ g : Gateway Unit,
    .authority (.recordPublished 6) ∈ ls ∧ Truthful (canonicalizePrefix "/p") (fun _ => .ok ()) ls g := by
  have r₀ : RunMeeting (Step (canonicalizePrefix "/p") fun _ => .ok ()) Initial InOrder []
      ({ etcd := sampleEtcd } : Gateway Unit) := .start ⟨rfl, rfl, rfl⟩
  have r₁ := (r₀.snoc (.list rfl (.refl _)) trivial).snoc (.replaceAll rfl ⟨rfl, rfl⟩ rfl rfl) trivial
  have r₂ := r₁.snoc (.submit (.ensureWorkerStarted rfl rfl)) trivial
  have r₃ := (r₂.snoc (.submit (.bump rfl)) trivial).snoc (.submit (.register rfl))
    ⟨nofun, fun _ => ⟨by decide, by decide⟩⟩
  have r₄ := (r₃.snoc (.submit (.cancelPrevious rfl)) trivial).snoc (.submit (.replaceTarget rfl)) trivial
  have r₅ := (r₄.snoc (.submit (.signal rfl)) trivial).snoc (.replaced rfl rfl) trivial
  have r₆ := (r₅.snoc (.worker (.receive rfl rfl)) trivial).snoc (.worker (.observe rfl)) trivial
  have r₇ := (r₆.snoc (.worker (.take rfl rfl)) trivial).snoc (.worker (.prepared rfl)) trivial
  have r₈ := (r₇.snoc (.worker (.compiled rfl)) trivial).snoc (.worker (.fenced rfl ⟨rfl, rfl⟩ nofun (by decide)))
    trivial
  have r₉ := (r₈.snoc (.worker (.publish rfl)) trivial).snoc (.worker (.commit rfl)) trivial
  have r₁₀ := r₉.snoc (.worker (.recordPublished rfl)) (by unfold InOrder; decide)
  exact ⟨_, _, by decide, registry_truthful_in_order "/p" r₁₀⟩

end Gateway

end Pingsix
