import Pingsix.Admin
import Pingsix.DecodeSound

/-!
# Admin mutations are serializable

The guard revision of a snapshot tells whether the store has moved on: a commit
that passes compare-and-swap was planned against the very store it changes. So
every run leaves what its committed requests leave one after another, and every
store of a run decodes and validates.
-/

namespace Pingsix

section
variable {ext : Externals} {keyring : KeyringService}

/-! ## Plans -/

theorem planPutMutation_eq_ok {snapshot : StoredGraph} {key : ResourceKey} {value : ByteArray} {commit : GraphCommit} :
    planPutMutation ext keyring snapshot key value = .ok commit ↔
      (∃ set, decodeGraph ext keyring (putCandidate snapshot key value) .preserveStored = .ok set ∧
        validateStoredForm ext set = .ok ()) ∧
      commit =
        { mutation := .put key value
          expectedTargetModRevision := (snapshot.resources.lookup key).map (·.modRevision)
          expectedGuardModRevision := snapshot.guardModRevision } := by
  unfold planPutMutation
  cases decodeGraph ext keyring (putCandidate snapshot key value) .preserveStored with
  | error e => simp
  | ok set =>
    cases hv : validateStoredForm ext set with
    | error e => simp [hv]
    | ok u => simp [hv, eq_comm]

theorem planDeleteMutation_eq_ok {snapshot : StoredGraph} {key : ResourceKey} {commit : GraphCommit} :
    planDeleteMutation ext keyring snapshot key = .ok commit ↔
      ∃ existing, snapshot.resources.lookup key = some existing ∧
        (∃ set, decodeGraph ext keyring (deleteCandidate snapshot key) .preserveStored = .ok set ∧
          validateStoredForm ext set = .ok ()) ∧
        commit =
          { mutation := .delete key
            expectedTargetModRevision := some existing.modRevision
            expectedGuardModRevision := snapshot.guardModRevision } := by
  unfold planDeleteMutation
  cases snapshot.resources.lookup key with
  | none => simp
  | some existing =>
    cases decodeGraph ext keyring (deleteCandidate snapshot key) .preserveStored with
    | error e => simp
    | ok set =>
      cases hv : validateStoredForm ext set with
      | error e => simp [hv]
      | ok u => simp [hv, eq_comm]

/-- The graph a mutation leaves in the maps; revisions aside, what the store holds after it. -/
def candidate (snapshot : StoredGraph) : StoredMutation → StoredGraph
  | .put key value => putCandidate snapshot key value
  | .delete key => deleteCandidate snapshot key

/-- The stored form of a graph decodes and validates. -/
def ValidStored (ext : Externals) (keyring : KeyringService) (g : StoredGraph) : Prop :=
  ∃ set, decodeGraph ext keyring g .preserveStored = .ok set ∧ validateStoredForm ext set = .ok ()

theorem mapError_eq_ok {ε ε' α : Type} {x : Except ε α} {f : ε → ε'} {a : α} :
    x.mapError f = .ok a ↔ x = .ok a := by
  cases x <;> simp [Except.mapError]

theorem planPut_eq_ok {nonces : SecretPath → ByteArray} {snapshot : StoredGraph} {key : ResourceKey} {value : Json}
    {commit : GraphCommit} :
    planPut ext keyring nonces snapshot key value = .ok commit ↔
      ∃ body restored stored, normalizeBodyId key value = .ok body ∧
        restoreFromStored ext keyring snapshot key body = .ok restored ∧
        validateResourceJson ext key.kind restored = .ok () ∧
        encryptForStorage ext keyring nonces key.kind restored = .ok stored ∧
        planPutMutation ext keyring snapshot key stored = .ok commit := by
  unfold planPut
  simp only [Except.bind_eq_ok, mapError_eq_ok]
  refine exists_congr fun body => ?_
  constructor
  · rintro ⟨hb, restored, hr, h⟩
    cases hv : validateResourceJson ext key.kind restored with
    | error e => simp [hv] at h
    | ok u =>
      cases he : encryptForStorage ext keyring nonces key.kind restored with
      | error e => simp [hv, he] at h
      | ok stored =>
        simp only [hv, he, mapError_eq_ok] at h
        exact ⟨restored, stored, hb, hr, hv, he, h⟩
  · rintro ⟨restored, stored, hb, hr, hv, he, h⟩
    refine ⟨hb, restored, hr, ?_⟩
    simp only [hv, he, mapError_eq_ok]
    exact h

/-- What every plan says: the mutation of its request, checked against the snapshot, expecting its revisions. -/
structure Planned (ext : Externals) (keyring : KeyringService) (request : AdminRequest) (snapshot : StoredGraph)
    (commit : GraphCommit) : Prop where
  valid : ValidStored ext keyring (candidate snapshot commit.mutation)
  key : commit.mutation.key = request.key
  target : commit.expectedTargetModRevision = (snapshot.resources.lookup request.key).map (·.modRevision)
  guard : commit.expectedGuardModRevision = snapshot.guardModRevision
  delete : ∀ key, request = .delete key → commit.mutation = .delete key ∧ snapshot.resources.lookup key ≠ none

theorem plan_planned {request : AdminRequest} {snapshot : StoredGraph} {commit : GraphCommit}
    (h : request.plan ext keyring snapshot = .ok commit) : Planned ext keyring request snapshot commit := by
  cases request with
  | put key value nonces =>
    obtain ⟨_, _, stored, -, -, -, -, hp⟩ := planPut_eq_ok.mp h
    obtain ⟨hv, rfl⟩ := planPutMutation_eq_ok.mp hp
    exact ⟨hv, rfl, rfl, rfl, fun _ hd => by cases hd⟩
  | delete key =>
    obtain ⟨existing, he, hv, rfl⟩ := planDeleteMutation_eq_ok.mp (mapError_eq_ok.mp h)
    refine ⟨hv, rfl, ?_, rfl, ?_⟩
    · show some existing.modRevision = (snapshot.resources.lookup key).map (·.modRevision)
      rw [he]; rfl
    · intro key' hd
      cases hd
      exact ⟨rfl, by rw [he]; exact Option.some_ne_none _⟩

/-! ## Commits -/

theorem values_commitTo (s : InMemoryState) (mutation : StoredMutation) :
    (s.commitTo mutation).graph.values = (candidate s.graph mutation).values := by
  cases mutation with
  | put key value =>
    show ((AList.insert key _ s.graph.resources).entries.map _) = ((AList.insert key _ s.graph.resources).entries.map _)
    rw [AList.entries_insert, AList.entries_insert]
    rfl
  | delete key => rfl

theorem validStored_congr {g g' : StoredGraph} (h : g.values = g'.values) (hv : ValidStored ext keyring g) :
    ValidStored ext keyring g' := by
  unfold ValidStored at hv ⊢
  rw [← decodeGraph_congr h]
  exact hv

/-- A plan against the graph of a store passes compare-and-swap on that store. -/
theorem compareAndSwap_planned {request : AdminRequest} {s : InMemoryState} {commit : GraphCommit}
    (h : Planned ext keyring request s.graph commit) :
    s.compareAndSwap commit = (s.commitTo commit.mutation, .ok s.nextRevision) := by
  have htarget : s.targetOk commit = true := by
    unfold InMemoryState.targetOk
    rw [h.target, h.key]
    cases hl : s.graph.resources.lookup request.key with
    | none => simp [HashMap.containsKey, hl]
    | some res => simp
  have hguard : s.guardOk commit = true := by
    unfold InMemoryState.guardOk
    rw [h.guard]
    cases hl : s.graph.guardModRevision with
    | none => simp
    | some rev => simp
  unfold InMemoryState.compareAndSwap
  simp [htarget, hguard]

theorem compareAndSwap_eq_ok {s s' : InMemoryState} {commit : GraphCommit} {revision : Int}
    (h : s.compareAndSwap commit = (s', .ok revision)) :
    s.guardOk commit = true ∧ s' = s.commitTo commit.mutation ∧ revision = s.nextRevision := by
  unfold InMemoryState.compareAndSwap at h
  split at h
  · cases h
  · rename_i hok
    simp only [Bool.or_eq_true, Bool.not_eq_true', not_or, Bool.not_eq_false] at hok
    cases h
    exact ⟨hok.2, rfl, rfl⟩

theorem compareAndSwap_eq_error {s s' : InMemoryState} {commit : GraphCommit} {e : StoreError}
    (h : s.compareAndSwap commit = (s', .error e)) : s' = s := by
  unfold InMemoryState.compareAndSwap at h
  split at h
  · cases h; rfl
  · cases h

/-- A request run by itself commits exactly when it can be planned. -/
theorem perform_of_plan {request : AdminRequest} {s : InMemoryState} {commit : GraphCommit}
    (h : request.plan ext keyring s.graph = .ok commit) :
    request.perform ext keyring s = (s.commitTo commit.mutation, .ok s.nextRevision) := by
  unfold AdminRequest.perform
  rw [h]
  simp only [compareAndSwap_planned (plan_planned h)]

/-! ## Unreferenced resources -/

end

/-! ## Runs -/

namespace Admin

variable {ext : Externals} {keyring : KeyringService} {Client : Type}

/-- The graph is the current one, or its guard is behind the current guard. -/
def Seen (s : InMemoryState) (g : StoredGraph) : Prop :=
  g = s.graph ∨ ∃ b, s.graph.guardModRevision = some b ∧ ∀ a, g.guardModRevision = some a → a < b

/-- What a client holds was read from the store, and its commit was planned from that. -/
def PhaseOk (ext : Externals) (keyring : KeyringService) (s : InMemoryState) : Phase → Prop
  | .idle => True
  | .planning _ snapshot => Seen s snapshot
  | .committing request snapshot commit => Seen s snapshot ∧ request.plan ext keyring snapshot = .ok commit

structure Inv (ext : Externals) (keyring : KeyringService) (ls : List (Label Client)) (σ : State Client) : Prop where
  serial : serially ext keyring .new (committedRequests ls) = some σ.store
  valid : ValidStored ext keyring σ.store.graph
  bound : ∀ b, σ.store.graph.guardModRevision = some b → b < σ.store.nextRevision
  phases : ∀ c, PhaseOk ext keyring σ.store (σ.phase c)

theorem Seen.commitTo {s : InMemoryState} {g : StoredGraph} (h : Seen s g)
    (hb : ∀ b, s.graph.guardModRevision = some b → b < s.nextRevision) (mutation : StoredMutation) :
    Seen (s.commitTo mutation) g := by
  refine .inr ⟨s.nextRevision, rfl, ?_⟩
  intro a ha
  cases h with
  | inl h => exact hb a (h ▸ ha)
  | inr h =>
    obtain ⟨b, hbs, hlt⟩ := h
    exact lt_trans (hlt a ha) (hb b hbs)

/-- A guard that matches means nothing was committed since the snapshot. -/
theorem Seen.eq_of_guardOk {s : InMemoryState} {request : AdminRequest} {g : StoredGraph} {commit : GraphCommit}
    (h : Seen s g) (hp : Planned ext keyring request g commit) (hg : s.guardOk commit = true) : g = s.graph := by
  cases h with
  | inl h => exact h
  | inr h =>
    obtain ⟨b, hb, hlt⟩ := h
    unfold InMemoryState.guardOk at hg
    rw [hp.guard] at hg
    cases ha : g.guardModRevision with
    | none => simp [ha, hb] at hg
    | some a =>
      have hab : a = b := by simpa [ha, hb, eq_comm] using hg
      exact absurd (hlt a ha) (by rw [hab]; exact lt_irrefl b)

theorem PhaseOk.commitTo {s : InMemoryState} {p : Phase} (h : PhaseOk ext keyring s p)
    (hb : ∀ b, s.graph.guardModRevision = some b → b < s.nextRevision) (mutation : StoredMutation) :
    PhaseOk ext keyring (s.commitTo mutation) p := by
  cases p with
  | idle => trivial
  | planning request snapshot => exact Seen.commitTo h hb mutation
  | committing request snapshot commit => exact ⟨h.1.commitTo hb mutation, h.2⟩

theorem phases_setPhase [DecidableEq Client] {s : InMemoryState} {phase : Client → Phase} {c : Client} {p : Phase}
    (h : ∀ c, PhaseOk ext keyring s (phase c)) (hp : PhaseOk ext keyring s p) :
    ∀ c', PhaseOk ext keyring s (Function.update phase c p c') := by
  intro c'
  by_cases hc : c' = c
  · subst hc
    rw [Function.update_self]
    exact hp
  · rw [Function.update_of_ne hc]
    exact h c'

theorem serially_append {ext : Externals} {keyring : KeyringService} : ∀ (rs : List (AdminRequest × Int))
    (rs' : List (AdminRequest × Int)) (s : InMemoryState),
    serially ext keyring s (rs ++ rs') = (serially ext keyring s rs).bind fun s => serially ext keyring s rs'
  | [], _, _ => rfl
  | (request, revision) :: rs, rs', s => by
    rw [List.cons_append, serially, serially]
    cases h : request.perform ext keyring s with
    | mk s' res =>
      cases res with
      | error e => rfl
      | ok r =>
        by_cases hr : r = revision
        · simp only [if_pos hr]
          exact serially_append rs rs' s'
        · simp only [if_neg hr]
          rfl

theorem committedRequests_append (ls : List (Label Client)) (l : Label Client) :
    committedRequests (ls ++ [l]) = committedRequests ls ++ committedRequests [l] := by
  unfold committedRequests
  rw [List.filterMap_append]

/-- What a commit step of a reachable state does: its request, run by itself, does the same. -/
theorem committed_perform {ls : List (Label Client)} {σ : State Client} {c : Client} {request : AdminRequest}
    {snapshot : StoredGraph} {commit : GraphCommit} {s' : InMemoryState} {revision : Int} (hI : Inv ext keyring ls σ)
    (h : σ.phase c = .committing request snapshot commit)
    (hc : σ.store.compareAndSwap commit = (s', .ok revision)) :
    Planned ext keyring request σ.store.graph commit ∧ s' = σ.store.commitTo commit.mutation ∧
      request.perform ext keyring σ.store = (s', .ok revision) := by
  have hph := hI.phases c
  rw [h] at hph
  obtain ⟨hseen, hplan⟩ := hph
  obtain ⟨hg, hs', hrev⟩ := compareAndSwap_eq_ok hc
  have hsnap := hseen.eq_of_guardOk (plan_planned hplan) hg
  rw [hsnap] at hplan
  refine ⟨plan_planned hplan, hs', ?_⟩
  rw [perform_of_plan hplan, hs', hrev]

theorem inv_step [DecidableEq Client] {ls : List (Label Client)} {σ σ' : State Client} {l : Label Client} (hI : Inv ext keyring ls σ)
    (h : Step ext keyring σ l σ') : Inv ext keyring (ls ++ [l]) σ' := by
  -- a step that leaves the store and commits nothing keeps all but the phase of its client
  have hkeep : ∀ {l : Label Client} {c : Client} {p : Phase}, committedRequests [l] = [] →
      PhaseOk ext keyring σ.store p → Inv ext keyring (ls ++ [l]) (σ.setPhase c p) := by
    intro l c p hl hp
    refine ⟨?_, hI.valid, hI.bound, phases_setPhase hI.phases hp⟩
    rw [committedRequests_append, hl, List.append_nil]
    exact hI.serial
  cases h with
  | snapshot request h => exact hkeep rfl (.inl rfl)
  | @planned c request snapshot commit h hp =>
    have hph := hI.phases c
    rw [h] at hph
    exact hkeep rfl ⟨hph, hp⟩
  | rejected h hp => exact hkeep rfl trivial
  | @conflict c _ _ _ _ _ h hc =>
    have hs := compareAndSwap_eq_error hc
    subst hs
    exact hkeep rfl trivial
  | @committed c request snapshot commit s' revision h hc =>
    obtain ⟨hplan, hs', hperf⟩ := committed_perform hI h hc
    refine ⟨?_, ?_, ?_, ?_⟩
    · rw [committedRequests_append, serially_append, hI.serial]
      show serially ext keyring σ.store [(request, revision)] = some s'
      rw [serially, hperf]
      simp only [if_true]
      rfl
    · show ValidStored ext keyring s'.graph
      rw [hs']
      exact validStored_congr (values_commitTo _ _).symm hplan.valid
    · intro b hb
      have hb' : some σ.store.nextRevision = some b := by rw [hs'] at hb; exact hb
      cases hb'
      show σ.store.nextRevision < s'.nextRevision
      rw [hs']
      exact Int.lt_succ _
    · show ∀ c', PhaseOk ext keyring s' (Function.update σ.phase c .idle c')
      rw [hs']
      exact phases_setPhase (fun c => (hI.phases c).commitTo hI.bound _) trivial

theorem validStored_empty : ValidStored ext keyring {} := by
  refine ⟨{}, rfl, ?_⟩
  rfl

theorem inv_init {σ : State Client} (h : Init σ) : Inv ext keyring [] σ := by
  obtain ⟨hs, hp⟩ := h
  refine ⟨by rw [hs]; rfl, ?_, ?_, fun c => by rw [hp c]; trivial⟩
  · rw [hs]
    exact validStored_empty
  · intro b hb
    rw [hs] at hb
    cases hb

theorem inv_run [DecidableEq Client] {ls : List (Label Client)} {σ : State Client} (r : Run (Step ext keyring) Init ls σ) :
    Inv ext keyring ls σ :=
  r.invariant (fun _ h => inv_init h) fun _ hI h => inv_step hI h

/-- A codec that knows the texts of the listed documents. -/
def tableCodec (docs : List (Json × String)) : JsonCodec where
  fromSlice bytes :=
    match docs.find? fun d => d.2.toUTF8 = bytes with
    | some d => .ok d.1
    | none => .error (.malformed "expected value at line 1 column 1")
  toVec v :=
    match docs.find? fun d => d.1 = v with
    | some d => d.2.toUTF8
    | none => "null".toUTF8
  render _ := "invalid document"

/-- Externals with encryption off, no URL or certificate to read, and every plain plugin accepted. -/
def sampleExternals (docs : List (Json × String)) : Externals where
  json := tableCodec docs
  crypto := ⟨fun _ => .error "", fun _ _ _ => .error "", fun _ _ _ => none, fun _ => "", fun _ => .error ""⟩
  http := ⟨fun _ => .error "", fun _ => [], fun _ => .ok (), fun _ => .ok (), fun _ => .ok (), fun _ _ => .ok ()⟩
  x509 := ⟨fun _ => .error "", fun _ => .error "", fun _ => .error "", fun _ => .error "", fun _ _ => false⟩
  plain := ⟨fun _ _ => .ok (), fun _ _ => .ok ()⟩

def sampleUpstream : Json :=
  .obj [("id", .str "u1"), ("nodes", .obj [("127.0.0.1:80", .num (.posInt 1))])]

def sampleDocs : List (Json × String) :=
  [(sampleUpstream, "\x7b\"id\":\"u1\",\"nodes\":\x7b\"127.0.0.1:80\":1\x7d\x7d")]

def sampleKey : ResourceKey := ⟨.upstream, "u1", by decide⟩

end Admin

end Pingsix
