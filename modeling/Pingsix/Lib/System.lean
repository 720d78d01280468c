import Mathlib.Data.List.Basic

/-!
# Labelled transition systems

Runs of a labelled step relation with the labels passed so far, the invariant
rule over both, runs whose steps meet a condition, and runs seen through a map
to a smaller system.
-/

universe u v w x

variable {σ : Type u} {α : Type v}

/-- A run from an initial state: the labels of its steps, oldest first, and the state it reaches. -/
inductive Run (step : σ → α → σ → Prop) (init : σ → Prop) : List α → σ → Prop
  | start {s : σ} (h : init s) : Run step init [] s
  | snoc {ls : List α} {s s' : σ} {l : α} (r : Run step init ls s) (h : step s l s') : Run step init (ls ++ [l]) s'

/-- A run each of whose steps meets a condition on the labels before it, the state before it and its label. -/
inductive RunMeeting (step : σ → α → σ → Prop) (init : σ → Prop) (ok : List α → σ → α → Prop) :
    List α → σ → Prop
  | start {s : σ} (h : init s) : RunMeeting step init ok [] s
  | snoc {ls : List α} {s s' : σ} {l : α} (r : RunMeeting step init ok ls s) (h : step s l s') (hok : ok ls s l) :
      RunMeeting step init ok (ls ++ [l]) s'

section
variable {step : σ → α → σ → Prop} {init : σ → Prop} {ok : List α → σ → α → Prop}

/-- What holds initially and is preserved by each step of a run holds at its end. -/
theorem Run.invariant {I : List α → σ → Prop} (hinit : ∀ s, init s → I [] s)
    (hstep : ∀ {ls s l s'}, Run step init ls s → I ls s → step s l s' → I (ls ++ [l]) s') {ls : List α} {s : σ}
    (r : Run step init ls s) : I ls s := by
  induction r with
  | start h => exact hinit _ h
  | snoc r h ih => exact hstep r ih h

/-- A run goes on with any run from the state it reached. -/
theorem Run.trans {ls ls' : List α} {s s' : σ} (r : Run step init ls s) (r' : Run step (fun t => t = s) ls' s') :
    Run step init (ls ++ ls') s' := by
  induction r' with
  | start h =>
    rw [List.append_nil, h]
    exact r
  | snoc _ h ih =>
    rw [← List.append_assoc]
    exact .snoc ih h

/-- The empty run from the state a run has reached. -/
theorem Run.restart {ls : List α} {s : σ} (_ : Run step init ls s) (cond : List α → σ → α → Prop) :
    RunMeeting step (fun t => t = s) cond [] s := .start rfl

theorem RunMeeting.run {ls : List α} {s : σ} (r : RunMeeting step init ok ls s) : Run step init ls s := by
  induction r with
  | start h => exact .start h
  | snoc _ h _ ih => exact .snoc ih h

/-- A run whose labels meet the condition wherever they are taken. -/
theorem Run.meeting {ls : List α} {s : σ} (r : Run step init ls s) (h : ∀ l ∈ ls, ∀ past t, ok past t l) :
    RunMeeting step init ok ls s := by
  induction r with
  | start hs => exact .start hs
  | snoc r hs ih =>
    have hpast := ih fun l hl => h l (List.mem_append_left _ hl)
    exact .snoc hpast hs (h _ (List.mem_append_right _ List.mem_cons_self) _ _)

theorem RunMeeting.invariant {I : List α → σ → Prop} (hinit : ∀ s, init s → I [] s)
    (hstep : ∀ {ls s l s'}, Run step init ls s → I ls s → ok ls s l → step s l s' → I (ls ++ [l]) s')
    {ls : List α} {s : σ} (r : RunMeeting step init ok ls s) : I ls s := by
  induction r with
  | start h => exact hinit _ h
  | snoc r h hok ih => exact hstep r.run ih hok h

/-- The steps of a partial step function one after another. -/
def stepAll (f : σ → α → Option σ) : σ → List α → Option σ
  | s, [] => some s
  | s, a :: as => (f s a).bind (stepAll f · as)

theorem Run.stepAll {f : σ → α → Option σ} {ls : List α} {s s' : σ} (r : Run (fun s a s' => f s a = some s') init ls s) :
    ∀ {as : List α}, stepAll f s as = some s' → Run (fun s a s' => f s a = some s') init (ls ++ as) s'
  | [], h => by
    cases h
    rwa [List.append_nil]
  | a :: as, h => by
    obtain ⟨t, ht, h⟩ := Option.bind_eq_some_iff.mp h
    have hnext := (r.snoc ht).stepAll h
    rwa [List.append_assoc] at hnext

/-- A run of a system is a run of a smaller one when each of its steps is one there or changes nothing there. -/
theorem Run.project {τ : Type w} {β : Type x} {step' : τ → β → τ → Prop} {init' : τ → Prop} (f : σ → τ)
    (g : α → Option β) (hinit : ∀ s, init s → init' (f s))
    (hstep : ∀ {s l s'}, step s l s' → (g l = none ∧ f s' = f s) ∨ ∃ b, g l = some b ∧ step' (f s) b (f s'))
    {ls : List α} {s : σ} (r : Run step init ls s) : Run step' init' (ls.filterMap g) (f s) := by
  induction r with
  | start h => exact .start (hinit _ h)
  | snoc r h ih =>
    rw [List.filterMap_append]
    rcases hstep h with ⟨hg, hf⟩ | ⟨b, hg, hb⟩
    · simp only [List.filterMap_cons, hg, List.filterMap_nil, List.append_nil, hf]
      exact ih
    · simp only [List.filterMap_cons, hg, List.filterMap_nil]
      exact .snoc ih hb

end
