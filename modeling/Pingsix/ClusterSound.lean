import Pingsix.AlikeSound
import Pingsix.Cluster
import Pingsix.PublicationSound

/-!
# Gateways over one etcd serve alike

What an instance serves was compiled from what etcd held at the revision it has
published, and so instances that have published the same resources answer alike,
whatever each of them published before and reused.
-/

namespace Pingsix

/-! ## What a stored graph decodes to -/

section
variable {ext : Externals} {keyring : KeyringService}

theorem acceptForRuntime_eq_ok {stored : StoredGraph} {logical : ResourceConfigSet}
    (h : acceptForRuntime ext keyring stored = .ok logical) :
    decodeGraph ext keyring stored .decryptForRuntime = .ok logical ∧ validateRuntimeForm ext logical = .ok () := by
  obtain ⟨set, hset, h⟩ := Except.bind_eq_ok.mp h
  obtain ⟨⟨⟩, hvalid, h⟩ := Except.bind_eq_ok.mp h
  cases Except.pure_eq_ok.mp h
  exact ⟨hset, hvalid⟩

/-- Graphs with the same values decode to sets with the same entries. -/
theorem sameEntries_of_accept {stored stored' : StoredGraph} {logical logical' : ResourceConfigSet}
    (h : acceptForRuntime ext keyring stored = .ok logical) (h' : acceptForRuntime ext keyring stored' = .ok logical')
    (hv : ∀ key, (stored.resources.lookup key).map (·.value) = (stored'.resources.lookup key).map (·.value)) :
    logical.SameEntries logical' := by
  have hd := (acceptForRuntime_eq_ok h).1
  have hd' := (acceptForRuntime_eq_ok h').1
  intro kind id
  refine Option.ext fun r => ?_
  rw [decodeGraph_lookup hd, decodeGraph_lookup hd']
  have hsame (stored stored' : StoredGraph)
      (hv : ∀ key, (stored.resources.lookup key).map (·.value) = (stored'.resources.lookup key).map (·.value)) :
      (∃ key res, key.kind = kind ∧ key.id = id ∧ stored.resources.lookup key = some res ∧
        decodeStored ext keyring kind id res.value true = .ok r) →
      ∃ key res, key.kind = kind ∧ key.id = id ∧ stored'.resources.lookup key = some res ∧
        decodeStored ext keyring kind id res.value true = .ok r := by
    intro h
    obtain ⟨key, res, hk, hi, hl, hdecode⟩ := h
    obtain ⟨res', hl', hvalue⟩ := Option.map_eq_some_iff.mp ((hv key).symm.trans (congrArg _ hl))
    exact ⟨key, res', hk, hi, hl', hvalue ▸ hdecode⟩
  exact ⟨hsame stored stored' hv, hsame stored' stored fun key => (hv key).symm⟩

end

/-! ## One instance -/

namespace Authority

variable {Logical : Type} {a a' : Authority Logical} {l : Label}

/-- The target has passed the fence, or is about to. -/
def Fenced (a : Authority Logical) (target : PendingGraph Logical) : Prop :=
  ∃ stage delay attempted, (stage = .fencing ∨ stage = .publishing) ∧
    a.worker = .attempting stage delay attempted target

/-- What is published has passed the fence, and only a publication changes what is published. -/
theorem WorkerStep.fenced_of (h : WorkerStep a l a') :
    (∀ delay attempted target, a'.worker = .attempting .publishing delay attempted target → a.Fenced target) ∧
      ((∀ generation revision, l ≠ .publish generation revision) → a'.runtime = a.runtime) := by
  cases h with
  | fenced hw =>
    refine ⟨fun delay attempted target he => ?_, fun _ => rfl⟩
    cases he
    exact ⟨.fencing, _, _, .inl rfl, hw⟩
  | publish hw => exact ⟨fun _ _ _ he => (nomatch he), fun hne => absurd rfl (hne _ _)⟩
  | reject | rejectNone => exact ⟨fun _ _ _ he => absurd he (afterRejection_ne _ _ _ _ _), fun _ => rfl⟩
  | _ => exact ⟨fun _ _ _ he => (nomatch he), fun _ => rfl⟩

theorem Step.fenced_of (h : Step a l a') :
    (∀ delay attempted target, a'.worker = .attempting .publishing delay attempted target → a.Fenced target) ∧
      ((∀ generation revision, l ≠ .publish generation revision) → a'.runtime = a.runtime) := by
  have hsame (he : a'.worker = a.worker) (delay : Nat) (attempted : Attempted) (target : PendingGraph Logical)
      (hw : a'.worker = .attempting .publishing delay attempted target) : a.Fenced target :=
    ⟨.publishing, delay, attempted, .inr rfl, he.symm.trans hw⟩
  cases h with
  | worker h => exact h.fenced_of
  | submit h =>
    cases h with
    | ensureWorkerStarted hw hstart =>
      obtain rfl | ⟨-, rfl⟩ := ensureWorkerStarted_ok hstart
      · exact ⟨hsame rfl, fun _ => rfl⟩
      · exact ⟨fun _ _ _ he => (nomatch he), fun _ => rfl⟩
    | _ => exact ⟨hsame rfl, fun _ => rfl⟩
  | submitFails h =>
    cases h
    exact ⟨hsame rfl, fun _ => rfl⟩
  | _ => exact ⟨hsame rfl, fun _ => rfl⟩

end Authority

theorem Gateway.Step.fenced_of {Logical : Type} {cp : String} {accept : StoredGraph → ProxyResult Logical}
    {g g' : Gateway Logical} {l : GatewayLabel} (h : Gateway.Step cp accept g l g') :
    (∀ delay attempted target, g'.authority.worker = .attempting .publishing delay attempted target →
      g.authority.Fenced target) ∧
      ((∀ generation revision, l ≠ .authority (.publish generation revision)) →
        g'.authority.runtime = g.authority.runtime) := by
  rcases h.authority with ⟨-, ha⟩ | ⟨l', hl', ha⟩
  · rw [ha]
    exact ⟨fun delay attempted target hw => ⟨.publishing, delay, attempted, .inr rfl, hw⟩, fun _ => rfl⟩
  · obtain ⟨hf, hr⟩ := ha.fenced_of
    refine ⟨hf, fun hne => hr fun generation revision he => hne generation revision ?_⟩
    cases l with
    | authority l =>
      cases hl'
      rw [he]
    | _ => cases hl'

theorem RuntimeSnapshot.revision_compile {M : Matchit} {candidate : CandidateSnapshot} {revision : Int}
    {snapshot : RuntimeSnapshot} (h : compile M candidate revision = .ok snapshot) : snapshot.revision = revision := by
  obtain ⟨routeMatcher, -, h⟩ := Except.bind_eq_ok.mp h
  obtain ⟨sslMatcher, -, h⟩ := Except.bind_eq_ok.mp h
  cases Except.pure_eq_ok.mp h
  rfl

namespace GatewayState

variable {M : Matchit} {ext : Externals} {keyring : KeyringService} {cp : String} {s s' : GatewayState} {l : GatewayLabel}

/-- Each step of an instance is one of its gateway. -/
theorem Step.graph (h : Step M ext keyring cp s l s') :
    Gateway.Step cp (acceptForRuntime ext keyring) s.graph l s'.graph := by
  cases h with
  | load hw ht => exact .worker (.take hw ht)
  | compile hw => exact .worker (.compiled hw)
  | publish hw h => exact h
  | other h => exact h

theorem run_graph {ls : List GatewayLabel} (r : Run (Step M ext keyring cp) Initial ls s) :
    Run (Gateway.Step cp (acceptForRuntime ext keyring)) Gateway.Initial ls s.graph := by
  have h : Run (Gateway.Step cp (acceptForRuntime ext keyring)) Gateway.Initial (ls.filterMap some) s.graph := by
    refine r.project (fun s => s.graph) some ?_ fun h => .inr ⟨_, rfl, h.graph⟩
    intro s h
    obtain ⟨etcd, rfl⟩ := h
    exact ⟨rfl, rfl, rfl⟩
  rwa [List.filterMap_some] at h

/-- What is loaded, compiled and published was compiled, the attempt's snapshot from its target. -/
structure Serves (M : Matchit) (ext : Externals) (s : GatewayState) : Prop where
  runtime : s.graph.authority.runtime = {} ∧ s.runtime = .empty ∨
    ∃ config, s.graph.authority.runtime = ⟨s.runtime.revision, some config⟩ ∧ Compiled M ext config s.runtime
  previous : ∃ config, Compiled M ext config s.previous
  compiled : ∀ target, s.graph.authority.Fenced target → ∃ snapshot, s.compiled = some snapshot ∧
    snapshot.revision = target.revision ∧ Compiled M ext target.logical snapshot

theorem Serves.current (h : Serves M ext s) : ∃ config, Compiled M ext config s.runtime := by
  cases h.runtime with
  | inl he => exact ⟨{}, he.2 ▸ .empty⟩
  | inr he =>
    obtain ⟨config, -, hc⟩ := he
    exact ⟨config, hc⟩

theorem publish_runtime {g g' : Gateway ResourceConfigSet} {accept : StoredGraph → ProxyResult ResourceConfigSet}
    {generation : Nat} {revision : Int} (h : Gateway.Step cp accept g (.authority (.publish generation revision)) g')
    {delay : Nat} {attempted : Attempted} {target : PendingGraph ResourceConfigSet}
    (hw : g.authority.worker = .attempting .publishing delay attempted target) :
    g'.authority.runtime = ⟨target.revision, some target.logical⟩ ∧
      g'.authority.worker = .attempting .committing delay attempted target := by
  cases h with
  | worker h =>
    cases h with
    | publish hw' =>
      cases hw'.symm.trans hw
      exact ⟨rfl, rfl⟩
  | submit h => cases h

theorem Step.serves (h : Step M ext keyring cp s l s') (hg : Gateway.Consistent cp (acceptForRuntime ext keyring) s.graph)
    (hs : Serves M ext s) : Serves M ext s' := by
  cases h with
  | load hw ht =>
    refine ⟨hs.runtime, hs.current, fun target hf => ?_⟩
    obtain ⟨stage, delay, attempted, hstage, hw'⟩ := hf
    cases hw'
    cases hstage with
    | inl h => cases h
    | inr h => cases h
  | @compile delay attempted target plan ctx candidate snapshot hw hplan hext hbuild hcompile =>
    refine ⟨hs.runtime, hs.previous, fun target' hf => ?_⟩
    obtain ⟨stage, delay', attempted', hstage, hw'⟩ := hf
    cases hw'
    obtain ⟨before, hprevious⟩ := hs.previous
    have hid := ResourceConfigSet.identified_decodeGraph
      (acceptForRuntime_eq_ok (hg.attempt _ _ _ _ hw).1.accepted).1
    exact ⟨snapshot, rfl, RuntimeSnapshot.revision_compile hcompile, hprevious.next hid hplan hext hbuild hcompile⟩
  | @publish delay attempted target g snapshot hw h hc =>
    obtain ⟨snapshot', hc', hrevision, hcompiled⟩ := hs.compiled target ⟨_, _, _, .inr rfl, hw⟩
    cases Option.some.inj (hc.symm.trans hc')
    obtain ⟨hr, hworker⟩ := publish_runtime h hw
    refine ⟨.inr ⟨target.logical, ?_, hcompiled⟩, hs.previous, fun target' hf => ?_⟩
    · rw [hrevision]
      exact hr
    · obtain ⟨stage, delay', attempted', hstage, hw'⟩ := hf
      cases hworker.symm.trans hw'
      cases hstage with
      | inl h => cases h
      | inr h => cases h
  | @other l g h hl hk =>
    obtain ⟨hf, hr⟩ := h.fenced_of
    refine ⟨?_, hs.previous, fun target hfenced => ?_⟩
    · show g.authority.runtime = _ ∧ _ ∨ ∃ config, g.authority.runtime = _ ∧ _
      rw [hr hl]
      exact hs.runtime
    · obtain ⟨stage, delay, attempted, hstage, hw⟩ := hfenced
      refine hs.compiled target ?_
      cases hstage with
      | inl he =>
        subst he
        exact ⟨.fencing, delay, attempted, .inl rfl, (hk _ _ _ _ hw (.inr rfl)).symm.trans hw⟩
      | inr he =>
        subst he
        exact hf _ _ _ hw

theorem serves_run {ls : List GatewayLabel} (r : Run (Step M ext keyring cp) Initial ls s) : Serves M ext s := by
  refine Run.invariant (I := fun _ s => Serves M ext s) (fun s h => ?_) (fun r hs h => ?_) r
  · obtain ⟨etcd, rfl⟩ := h
    refine ⟨.inl ⟨rfl, rfl⟩, ⟨{}, .empty⟩, fun target hf => ?_⟩
    obtain ⟨stage, delay, attempted, -, hw⟩ := hf
    cases hw
  · exact h.serves (Gateway.run_consistent (run_graph r)) hs

end GatewayState

/-! ## Many instances -/

theorem Gateway.Step.etcd {Logical : Type} {cp : String} {accept : StoredGraph → ProxyResult Logical}
    {g g' : Gateway Logical} {l : GatewayLabel} (h : Gateway.Step cp accept g l g') :
    g'.etcd = g.etcd ∨ ∃ ops, g'.etcd = g.etcd.transact ops := by
  cases h with
  | write ops => exact .inr ⟨ops, rfl⟩
  | commit mutation => exact .inr ⟨_, rfl⟩
  | _ => exact .inl rfl

namespace Cluster

variable {ι : Type} [DecidableEq ι] {M : Matchit} {ext : Externals} {keyring : KeyringService} {cp : String}
  {c : Cluster ι} {ls : List (ι × GatewayLabel)}

theorem etcd_run (r : Run (Step M ext keyring cp) Init ls c) : ∀ i j, (c i).graph.etcd = (c j).graph.etcd := by
  refine Run.invariant (I := fun _ c => ∀ i j, (c i).graph.etcd = (c j).graph.etcd) (fun c h => h.2) (fun _ ih h => ?_) r
  obtain ⟨s, -, rfl⟩ := h
  have hetcd (l : ι × GatewayLabel) (c : Cluster ι) (i : ι) :
      (if i = l.1 then s else (c i).withEtcd s.graph.etcd : GatewayState).graph.etcd = s.graph.etcd := by
    by_cases hi : i = l.1
    · rw [if_pos hi]
    · rw [if_neg hi]
      rfl
  intro i j
  exact (hetcd _ _ i).trans (hetcd _ _ j).symm

/-- To each instance the others are other writers of etcd. -/
theorem run_instance (r : Run (Step M ext keyring cp) Init ls c) (i : ι) :
    ∃ ls', Run (GatewayState.Step M ext keyring cp) GatewayState.Initial ls' (c i) := by
  induction r with
  | start h => exact ⟨[], .start (h.1 i)⟩
  | @snoc ls c c' l r h ih =>
    obtain ⟨ls', ih⟩ := ih
    obtain ⟨s, hs, rfl⟩ := h
    by_cases hi : i = l.1
    · subst hi
      simp only [if_pos]
      exact ⟨_, ih.snoc hs⟩
    · simp only [if_neg hi]
      have hetcd := etcd_run r i l.1
      cases hs.graph.etcd with
      | inl he =>
        rw [he, ← hetcd]
        exact ⟨ls', ih⟩
      | inr he =>
        obtain ⟨ops, he⟩ := he
        rw [he, ← hetcd]
        refine ⟨_, ih.snoc (.other (.write ops) (fun _ _ he => (nomatch he)) ?_)⟩
        intro stage delay attempted target hw _
        rfl

/-- What an instance has published: a configuration accepted from what etcd held at the revision, and compiled. -/
theorem published_run {pfx : String} (r : Run (Step M ext keyring (canonicalizePrefix pfx)) Init ls c) (i : ι) :
    (c i).graph.authority.runtime = {} ∧ (c i).runtime = .empty ∨ ∃ stored config,
      (c i).graph.authority.runtime = ⟨(c i).runtime.revision, some config⟩ ∧ Compiled M ext config (c i).runtime ∧
        acceptForRuntime ext keyring stored = .ok config ∧ (c i).runtime.revision ≤ (c i).graph.etcd.revision ∧
        ∀ key, stored.resources.lookup key =
          ((c i).graph.etcd.history.stateAt (c i).runtime.revision).held (canonicalizePrefix pfx) key := by
  obtain ⟨ls', ri⟩ := run_instance r i
  cases (GatewayState.serves_run ri).runtime with
  | inl h => exact .inl h
  | inr h =>
    obtain ⟨config, hr, hc⟩ := h
    cases (Gateway.run_consistent (GatewayState.run_graph ri)).runtime with
    | inl he => cases congrArg (·.logical) (hr.symm.trans he)
    | inr he =>
      obtain ⟨target, ⟨⟨⟨hle, hheld⟩, haccepted⟩, hrevision⟩, he⟩ := he
      obtain ⟨htarget, hlogical⟩ := PublishedSnapshot.mk.inj (hr.symm.trans he)
      cases hlogical
      rw [hrevision, ← htarget] at hle hheld
      exact .inr ⟨target.stored, target.logical, hr, hc, haccepted, hle, hheld⟩

/-- An instance that has published serves exactly what etcd held at the revision it has published, decoded, valid and
compiled with whatever it could reuse. -/
theorem serves_etcd {pfx : String} (r : Run (Step M ext keyring (canonicalizePrefix pfx)) Init ls c) (i : ι) :
    (c i).graph.authority.runtime = {} ∧ (c i).runtime = .empty ∨ ∃ config,
      (c i).graph.authority.runtime = ⟨(c i).runtime.revision, some config⟩ ∧ Compiled M ext config (c i).runtime ∧
        (c i).runtime.revision ≤ (c i).graph.etcd.revision ∧ validateRuntimeForm ext config = .ok () ∧
        ∀ kind id (resource : Resource kind), (config.slot kind).lookup id = some resource ↔
          ∃ key res, key.kind = kind ∧ key.id = id ∧
            ((c i).graph.etcd.history.stateAt (c i).runtime.revision).held (canonicalizePrefix pfx) key = some res ∧
            decodeStored ext keyring kind id res.value true = .ok resource := by
  cases published_run r i with
  | inl h => exact .inl h
  | inr h =>
    obtain ⟨stored, config, hr, hc, haccepted, hle, hheld⟩ := h
    obtain ⟨hdecode, hvalid⟩ := acceptForRuntime_eq_ok haccepted
    refine .inr ⟨config, hr, hc, hle, hvalid, fun kind id resource => ?_⟩
    simp only [← hheld]
    exact decodeGraph_lookup hdecode

/-- Two instances that have published revisions at which etcd held the same values answer alike, whatever either of them
published before and reused. -/
theorem instances_alike (hM : M.Lawful) (hO : M.OrderFree) {pfx : String}
    (r : Run (Step M ext keyring (canonicalizePrefix pfx)) Init ls c) {i j : ι}
    (hi : (c i).graph.authority.runtime ≠ {}) (hj : (c j).graph.authority.runtime ≠ {})
    (hsame : ∀ key,
      (((c i).graph.etcd.history.stateAt (c i).runtime.revision).held (canonicalizePrefix pfx) key).map (·.value) =
        (((c j).graph.etcd.history.stateAt (c j).runtime.revision).held (canonicalizePrefix pfx) key).map (·.value)) :
    (c i).runtime.Alike M (c j).runtime := by
  obtain ⟨stored, config, -, hc, haccepted, -, hheld⟩ := (published_run r i).resolve_left fun h => hi h.1
  obtain ⟨stored', config', -, hc', haccepted', -, hheld'⟩ := (published_run r j).resolve_left fun h => hj h.1
  refine compiled_alike hM hO (sameEntries_of_accept haccepted haccepted' fun key => ?_) hc hc'
  rw [hheld, hheld']
  exact hsame key

/-! ## Two instances -/

/-- What one instance does alone is what the cluster does. -/
theorem run_alone {s : GatewayState} {i : ι} {labels : List GatewayLabel} (hetcd : ∀ i j, (c i).graph.etcd = (c j).graph.etcd)
    (r : Run (GatewayState.Step M ext keyring cp) (fun t => t = c i) labels s) :
    Run (Step M ext keyring cp) (fun t => t = c) (labels.map fun l => (i, l))
      (fun j => if j = i then s else (c j).withEtcd s.graph.etcd) := by
  induction r with
  | start h =>
    subst h
    refine .start (funext fun j => ?_)
    by_cases hj : j = i
    · rw [if_pos hj, hj]
    · rw [if_neg hj, hetcd i j]
      rfl
  | @snoc labels s s' l r h ih =>
    rw [List.map_append]
    refine ih.snoc ⟨s', ?_, funext fun j => ?_⟩
    · simpa using h
    · by_cases hj : j = i
      · rw [if_pos hj, if_pos hj]
      · simp only [if_neg hj]
        rfl

def oneUpstream : Etcd where
  history := ⟨[⟨1, .put "/p/upstreams/u1".toUTF8 ((Admin.tableCodec Admin.sampleDocs).toVec Admin.sampleUpstream)⟩], by decide⟩
  revision := 1
  bounded := by decide
  nonneg := by decide

def sampleContext (generation : Nat) : BuildContext where
  ext := Admin.sampleExternals Admin.sampleDocs
  prepared := AList.singleton (.named "u1") ⟨["127.0.0.1:80"]⟩
  generation
  uuid _ := ""

def afterTaking : Worker ResourceConfigSet → Bool
  | .attempting .preparing .. | .attempting .fencing .. => true
  | _ => false

/-- A run goes on with a step that takes no target, compiles none and publishes none. -/
theorem snoc_other {init : GatewayState → Prop} {s : GatewayState} {labels : List GatewayLabel} {l : GatewayLabel}
    {g : Gateway ResourceConfigSet} (r : Run (GatewayState.Step M ext keyring cp) init labels s)
    (h : Gateway.Step cp (acceptForRuntime ext keyring) s.graph l g) (hk : afterTaking g.authority.worker = false)
    (hl : ∀ generation revision, l ≠ .authority (.publish generation revision)) :
    Run (GatewayState.Step M ext keyring cp) init (labels ++ [l]) { s with graph := g } := by
  refine r.snoc (.other h hl fun stage delay attempted target he hs => ?_)
  rw [he] at hk
  rcases hs with rfl | rfl
  · cases hk
  · cases hk

/-- An instance lists the upstream, submits it, prepares, compiles and publishes it. -/
theorem run_one (generation : Nat) : ∃ (labels : List GatewayLabel) (s : GatewayState),
    Run (GatewayState.Step Matchit.staticFirst (Admin.sampleExternals Admin.sampleDocs) .disabled (canonicalizePrefix "/p"))
      (fun t => t = { graph := { etcd := oneUpstream } }) labels s ∧ s.graph.etcd = oneUpstream ∧
        s.graph.authority.runtime.logical.isSome = true ∧ s.runtime.revision = 1 := by
  have r₀ : Run (GatewayState.Step Matchit.staticFirst (Admin.sampleExternals Admin.sampleDocs) .disabled
      (canonicalizePrefix "/p")) (fun t => t = { graph := { etcd := oneUpstream } }) [] { graph := { etcd := oneUpstream } } :=
    .start rfl
  have r₁ := snoc_other r₀ (.list rfl (.refl _)) rfl nofun
  have r₂ := snoc_other r₁ (.replaceAll rfl ⟨rfl, rfl⟩ rfl rfl) rfl nofun
  have r₃ := snoc_other r₂ (.submit (.ensureWorkerStarted rfl rfl)) rfl nofun
  have r₄ := snoc_other r₃ (.submit (.bump rfl)) rfl nofun
  have r₅ := snoc_other r₄ (.submit (.register rfl)) rfl nofun
  have r₆ := snoc_other r₅ (.submit (.cancelPrevious rfl)) rfl nofun
  have r₇ := snoc_other r₆ (.submit (.replaceTarget rfl)) rfl nofun
  have r₈ := snoc_other r₇ (.submit (.signal rfl)) rfl nofun
  have r₉ := snoc_other r₈ (.worker (.receive rfl rfl)) rfl nofun
  have r₁₀ := snoc_other r₉ (.worker (.observe rfl)) rfl nofun
  have r₁₁ := r₁₀.snoc (.load rfl rfl)
  have r₁₂ := snoc_other r₁₁ (.worker (.prepared rfl)) rfl nofun
  have r₁₃ := r₁₂.snoc (.compile rfl rfl (show (sampleContext generation).ext = _ from rfl) rfl rfl)
  have r₁₄ := snoc_other r₁₃ (.worker (.fenced rfl ⟨rfl, rfl⟩ nofun (by show ¬ (1 : Int) < 0; decide))) rfl nofun
  have r₁₅ := r₁₄.snoc (.publish rfl (.worker (.publish rfl)) rfl)
  exact ⟨_, _, r₁₅, rfl, rfl, rfl⟩

/-- Two instances that start over one etcd, one after the other. -/
theorem run_two : ∃ (ls : List (Bool × GatewayLabel)) (c : Cluster Bool),
    Run (Step Matchit.staticFirst (Admin.sampleExternals Admin.sampleDocs) .disabled (canonicalizePrefix "/p")) Init ls c ∧
      ∀ i, (c i).graph.authority.runtime.logical.isSome = true ∧ (c i).graph.etcd = oneUpstream ∧ (c i).runtime.revision = 1 := by
  obtain ⟨labels, s, r, hetcd, hpublished, hrevision⟩ := run_one 1
  obtain ⟨labels', s', r', hetcd', hpublished', hrevision'⟩ := run_one 2
  have hstart : Run (Step Matchit.staticFirst (Admin.sampleExternals Admin.sampleDocs) .disabled (canonicalizePrefix "/p")) Init
      [] fun _ : Bool => { graph := { etcd := oneUpstream } } := .start ⟨fun i => ⟨oneUpstream, rfl⟩, fun i j => rfl⟩
  have hfirst := hstart.trans (run_alone (i := true) (etcd_run hstart) r)
  have hfalse : (if false = true then s else GatewayState.withEtcd { graph := { etcd := oneUpstream } } s.graph.etcd) =
      { graph := { etcd := oneUpstream } } := by
    rw [hetcd]
    rfl
  have hsecond := hfirst.trans (run_alone (i := false) (etcd_run hfirst) (by rw [hfalse]; exact r'))
  refine ⟨_, _, hsecond, fun i => ?_⟩
  cases i with
  | false => exact ⟨hpublished', hetcd', hrevision'⟩
  | true => exact ⟨hpublished, hetcd', hrevision⟩

/-- The two serve alike. -/
theorem instances_alike_two : ∃ c : Cluster Bool, (c true).graph.authority.runtime.logical.isSome = true ∧
    (c true).runtime.Alike Matchit.staticFirst (c false).runtime := by
  obtain ⟨ls, c, r, h⟩ := run_two
  have hpublished (i : Bool) : (c i).graph.authority.runtime ≠ {} := by
    intro he
    have hi := (h i).1
    rw [he] at hi
    cases hi
  refine ⟨c, (h true).1, instances_alike Matchit.staticFirst_lawful Matchit.staticFirst_orderFree r (hpublished true)
    (hpublished false) fun key => ?_⟩
  rw [(h true).2.1, (h false).2.1, (h true).2.2, (h false).2.2]

/-- Each of the two serves the upstream etcd holds. -/
theorem serves_etcd_two : ∃ (c : Cluster Bool) (config : ResourceConfigSet), (c true).graph.authority.runtime = ⟨1, some config⟩ ∧
    ((c true).graph.etcd.history.stateAt 1).held (canonicalizePrefix "/p") Admin.sampleKey ≠ none := by
  obtain ⟨ls, c, r, h⟩ := run_two
  have hpublished : (c true).graph.authority.runtime ≠ {} := by
    intro he
    have hi := (h true).1
    rw [he] at hi
    cases hi
  obtain ⟨config, hr, -⟩ := (serves_etcd r true).resolve_left fun h => hpublished h.1
  rw [(h true).2.2] at hr
  refine ⟨c, config, hr, ?_⟩
  rw [(h true).2.1]
  decide

end Cluster

end Pingsix
