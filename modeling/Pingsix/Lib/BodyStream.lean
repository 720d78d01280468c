import Mathlib.Data.List.Basic

/-!
# Bodies in chunks

A body arrives chunk by chunk, its end with or without a last chunk. A filter
rewrites one chunk after another under a state, and an error ends the body.
-/

namespace BodyStream

variable {α σ ε : Type}

abbrev Chunk (α : Type) := Option (List α)

/-- What the chunks hold together. -/
def content (chunks : List (Chunk α)) : List α := chunks.flatMap (·.getD [])

/-- The chunks before the end, and what comes with the end. -/
structure Arrival (α : Type) where
  before : List (Chunk α)
  last : Chunk α

def Arrival.body (a : Arrival α) : List α := content a.before ++ a.last.getD []

/-- One call with a chunk, and whether the body ends with it. -/
abbrev Filter (σ ε α : Type) := σ → Chunk α → Bool → Except ε (Chunk α × σ)

/-- What leaves a filter before the end, and the state or error it comes to. -/
def runBefore (f : Filter σ ε α) : σ → List (Chunk α) → List (Chunk α) × Except ε σ
  | s, [] => ([], .ok s)
  | s, chunk :: rest =>
    match f s chunk false with
    | .error e => ([], .error e)
    | .ok (out, s') => (out :: (runBefore f s' rest).1, (runBefore f s' rest).2)

structure Emission (σ ε α : Type) where
  before : List (Chunk α)
  last : Except ε (Chunk α × σ)

def run (f : Filter σ ε α) (s : σ) (a : Arrival α) : Emission σ ε α where
  before := (runBefore f s a.before).1
  last :=
    match (runBefore f s a.before).2 with
    | .error e => .error e
    | .ok s' => f s' a.last true

/-- All that leaves; nothing more after an error. -/
def Emission.bytes (em : Emission σ ε α) : List α :=
  content em.before ++
    match em.last with
    | .error _ => []
    | .ok (out, _) => out.getD []

/-- Filters one after another on one state; the first error counts. -/
def chain : List (Filter σ ε α) → Filter σ ε α
  | [], s, chunk, _ => .ok (chunk, s)
  | f :: fs, s, chunk, endOfStream =>
    match f s chunk endOfStream with
    | .error e => .error e
    | .ok (out, s') => chain fs s' out endOfStream

/-! ## Runs -/

theorem content_cons (chunk : Chunk α) (rest : List (Chunk α)) : content (chunk :: rest) = chunk.getD [] ++ content rest :=
  rfl

theorem content_nil : content ([] : List (Chunk α)) = [] := rfl

theorem chain_cons {f : Filter σ ε α} {fs : List (Filter σ ε α)} {s s' : σ} {chunk out : Chunk α} {endOfStream : Bool}
    (h : f s chunk endOfStream = .ok (out, s')) : chain (f :: fs) s chunk endOfStream = chain fs s' out endOfStream := by
  rw [chain, h]

theorem chain_cons_error {f : Filter σ ε α} {fs : List (Filter σ ε α)} {s : σ} {chunk : Chunk α} {endOfStream : Bool}
    {e : ε} (h : f s chunk endOfStream = .error e) : chain (f :: fs) s chunk endOfStream = .error e := by
  rw [chain, h]

/-- An invariant of what came, what left and the state, kept by each call before the end. -/
def Keeps (f : Filter σ ε α) (Inv : List α → List α → σ → Prop) : Prop :=
  ∀ received sent s chunk out s', Inv received sent s → f s chunk false = .ok (out, s') →
    Inv (received ++ chunk.getD []) (sent ++ out.getD []) s'

theorem Keeps.runBefore {f : Filter σ ε α} {Inv : List α → List α → σ → Prop} (hf : Keeps f Inv) :
    ∀ {chunks : List (Chunk α)} {received sent : List α} {s s' : σ}, Inv received sent s →
      (runBefore f s chunks).2 = .ok s' →
      Inv (received ++ content chunks) (sent ++ content (runBefore f s chunks).1) s'
  | [], received, sent, s, s', hi, hr => by
    cases hr
    rw [BodyStream.runBefore, content_nil, List.append_nil, List.append_nil]
    exact hi
  | chunk :: rest, received, sent, s, s', hi, hr => by
    rw [BodyStream.runBefore] at hr ⊢
    cases hstep : f s chunk false with
    | error e =>
      rw [hstep] at hr
      cases hr
    | ok next =>
      obtain ⟨out, s₁⟩ := next
      rw [hstep] at hr
      have ih := hf.runBefore (hf _ _ _ _ _ _ hi hstep) hr
      rw [List.append_assoc, List.append_assoc] at ih
      exact ih

/-- With an invariant under which nothing leaves, nothing leaves before the end, also when the run fails. -/
theorem Keeps.silent {f : Filter σ ε α} {Inv : List α → List α → σ → Prop} (hf : Keeps f Inv)
    (hs : ∀ {received sent s}, Inv received sent s → sent = []) :
    ∀ {chunks : List (Chunk α)} {received : List α} {s : σ}, Inv received [] s → content (BodyStream.runBefore f s chunks).1 = []
  | [], _, _, _ => rfl
  | chunk :: rest, received, s, hi => by
    rw [BodyStream.runBefore]
    cases hstep : f s chunk false with
    | error e => rfl
    | ok next =>
      obtain ⟨out, s₁⟩ := next
      have hnext := hf _ _ _ _ _ _ hi hstep
      have hout : out.getD [] = [] := hs hnext
      rw [List.nil_append, hout] at hnext
      rw [content_cons, hout, List.nil_append]
      exact hf.silent hs hnext

/-- A run that does not fail: the invariant holds before the last call. -/
theorem Keeps.run {f : Filter σ ε α} {Inv : List α → List α → σ → Prop} (hf : Keeps f Inv) {s s'' : σ} {a : Arrival α}
    {out : Chunk α} (hi : Inv [] [] s) (h : (BodyStream.run f s a).last = .ok (out, s'')) :
    ∃ s', Inv (content a.before) (content (BodyStream.run f s a).before) s' ∧ f s' a.last true = .ok (out, s'') := by
  unfold BodyStream.run at h ⊢
  cases hb : (BodyStream.runBefore f s a.before).2 with
  | error e =>
    simp only [hb] at h
    cases h
  | ok s' =>
    simp only [hb] at h
    exact ⟨s', hf.runBefore hi hb, h⟩

/-- A filter that passes every chunk passes the body. -/
theorem run_of_passes {f : Filter σ ε α} {s : σ} (h : ∀ chunk endOfStream, f s chunk endOfStream = .ok (chunk, s))
    (a : Arrival α) : BodyStream.run f s a = ⟨a.before, .ok (a.last, s)⟩ := by
  have hbefore : ∀ chunks : List (Chunk α), BodyStream.runBefore f s chunks = (chunks, .ok s) := by
    intro chunks
    induction chunks with
    | nil => rfl
    | cons chunk rest ih =>
      rw [BodyStream.runBefore, h]
      simp only [ih]
  unfold BodyStream.run
  simp only [hbefore, h]

theorem runBefore_snoc (f : Filter σ ε α) (s : σ) (chunks : List (Chunk α)) (chunk : Chunk α) :
    runBefore f s (chunks ++ [chunk]) =
      match (runBefore f s chunks).2 with
      | .error e => ((runBefore f s chunks).1, .error e)
      | .ok s' =>
        match f s' chunk false with
        | .error e => ((runBefore f s chunks).1, .error e)
        | .ok (out, s'') => ((runBefore f s chunks).1 ++ [out], .ok s'') := by
  induction chunks generalizing s with
  | nil =>
    cases hf : f s chunk false with
    | error e => simp [BodyStream.runBefore, hf]
    | ok next => simp [BodyStream.runBefore, hf]
  | cons c rest ih =>
    rw [List.cons_append, BodyStream.runBefore, BodyStream.runBefore]
    cases f s c false with
    | error e => rfl
    | ok next =>
      simp only [ih]
      cases (BodyStream.runBefore f next.2 rest).2 with
      | error e => rfl
      | ok s' =>
        cases hf : f s' chunk false with
        | error e => simp only [hf]
        | ok next => simp only [hf, List.cons_append]

/-- For a filter that does not look at the end, the last chunk is one more chunk. -/
theorem run_of_flagless {f : Filter σ ε α} (hf : ∀ s chunk, f s chunk true = f s chunk false) (s : σ) (a : Arrival α) :
    (run f s a).bytes = content (runBefore f s (a.before ++ [a.last])).1 ∧
      ((∃ e, (run f s a).last = .error e) ↔ ∃ e, (runBefore f s (a.before ++ [a.last])).2 = .error e) := by
  rw [runBefore_snoc]
  unfold run Emission.bytes
  simp only [hf]
  cases (runBefore f s a.before).2 with
  | error e => simp
  | ok s' =>
    cases hlast : f s' a.last false with
    | error e => simp [hlast]
    | ok next => simp [hlast, content]

theorem Emission.bytes_of_ok {em : Emission σ ε α} {out : Chunk α} {s : σ} (h : em.last = .ok (out, s)) :
    em.bytes = content em.before ++ out.getD [] := by
  unfold bytes
  rw [h]

theorem Emission.bytes_of_error {em : Emission σ ε α} {e : ε} (h : em.last = .error e) : em.bytes = content em.before := by
  unfold bytes
  rw [h, List.append_nil]

end BodyStream
