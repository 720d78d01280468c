import Mathlib.Data.List.Induction
import Pingsix.RequestContext

/-!
# The phases of the plugins

The executor keeps the plugins apart by the phases they declare, and the
pipeline runs the global layer before that of the route. As long as the other
hooks of a plugin do nothing, this is to run the hook of every plugin in order.
-/

namespace Pingsix

namespace Phases

/-! ## Declared phases -/

/-- A set of phases as the bits of a byte. -/
structure PluginPhases where
  bits : BitVec 8
  deriving DecidableEq, Repr

namespace PluginPhases

def earlyRequest : PluginPhases := ⟨1#8 <<< 0⟩
def request : PluginPhases := ⟨1#8 <<< 1⟩
def upstreamRequest : PluginPhases := ⟨1#8 <<< 2⟩
def requestBody : PluginPhases := ⟨1#8 <<< 3⟩
def response : PluginPhases := ⟨1#8 <<< 4⟩
def responseBody : PluginPhases := ⟨1#8 <<< 5⟩
def logging : PluginPhases := ⟨1#8 <<< 6⟩
def upstreamPeer : PluginPhases := ⟨1#8 <<< 7⟩

def empty : PluginPhases := ⟨0⟩

def contains (self other : PluginPhases) : Bool := self.bits &&& other.bits = other.bits

def union (self other : PluginPhases) : PluginPhases := ⟨self.bits ||| other.bits⟩

end PluginPhases

/-- The phases whose hooks may fail and have no verdict. -/
inductive FilterPhase where
  | earlyRequest
  | upstreamRequest
  | requestBody
  | response
  | responseBody
  | upstreamPeer
  deriving DecidableEq, Repr

def FilterPhase.flag : FilterPhase → PluginPhases
  | earlyRequest => .earlyRequest
  | upstreamRequest => .upstreamRequest
  | requestBody => .requestBody
  | response => .response
  | responseBody => .responseBody
  | upstreamPeer => .upstreamPeer

/-! ## Plugins -/

/-- The hooks of a plugin over the session, the context and the message at hand; by themselves they do nothing. -/
structure ProxyPlugin (ε σ : Type) where
  name : String
  priority : Int
  requestFilter : σ → Except ε FilterVerdict × σ := fun s => (.ok .continue, s)
  filter : FilterPhase → σ → Except ε Unit × σ := fun _ s => (.ok (), s)
  logging : σ → σ := id

structure PluginEntry (ε σ : Type) where
  plugin : ProxyPlugin ε σ
  phases : PluginPhases

variable {ε σ : Type}

/-- The plugins in order, and apart by phase. -/
structure ProxyPluginExecutor (ε σ : Type) where
  plugins : List (PluginEntry ε σ) := []
  earlyRequest : List (ProxyPlugin ε σ) := []
  request : List (ProxyPlugin ε σ) := []
  upstreamRequest : List (ProxyPlugin ε σ) := []
  requestBody : List (ProxyPlugin ε σ) := []
  response : List (ProxyPlugin ε σ) := []
  responseBody : List (ProxyPlugin ε σ) := []
  logged : List (ProxyPlugin ε σ) := []
  upstreamPeer : List (ProxyPlugin ε σ) := []

/-- Invokes a hook on each plugin in sequence, up to the first error. -/
def forEachPlugin (hook : ProxyPlugin ε σ → σ → Except ε Unit × σ) : List (ProxyPlugin ε σ) → σ → Except ε Unit × σ
  | [], s => (.ok (), s)
  | plugin :: plugins, s =>
    match hook plugin s with
    | (.ok (), s) => forEachPlugin hook plugins s
    | (.error e, s) => (.error e, s)

/-- The first verdict that is not to continue, and nothing of the plugins after. -/
def firstVerdict : List (ProxyPlugin ε σ) → σ → Except ε FilterVerdict × σ
  | [], s => (.ok .continue, s)
  | plugin :: plugins, s =>
    match plugin.requestFilter s with
    | (.ok .continue, s) => firstVerdict plugins s
    | (.ok verdict, s) => (.ok verdict, s)
    | (.error e, s) => (.error e, s)

namespace ProxyPluginExecutor

def push (executor : ProxyPluginExecutor ε σ) (entry : PluginEntry ε σ) : ProxyPluginExecutor ε σ :=
  let add (phase : PluginPhases) (plugins : List (ProxyPlugin ε σ)) :=
    if entry.phases.contains phase then plugins ++ [entry.plugin] else plugins
  { executor with
    earlyRequest := add .earlyRequest executor.earlyRequest
    request := add .request executor.request
    upstreamRequest := add .upstreamRequest executor.upstreamRequest
    requestBody := add .requestBody executor.requestBody
    response := add .response executor.response
    responseBody := add .responseBody executor.responseBody
    logged := add .logging executor.logged
    upstreamPeer := add .upstreamPeer executor.upstreamPeer }

def fromSorted (plugins : List (PluginEntry ε σ)) : ProxyPluginExecutor ε σ := plugins.foldl push { plugins }

def filtered (executor : ProxyPluginExecutor ε σ) : FilterPhase → List (ProxyPlugin ε σ)
  | .earlyRequest => executor.earlyRequest
  | .upstreamRequest => executor.upstreamRequest
  | .requestBody => executor.requestBody
  | .response => executor.response
  | .responseBody => executor.responseBody
  | .upstreamPeer => executor.upstreamPeer

def requestFilter (executor : ProxyPluginExecutor ε σ) (s : σ) : Except ε FilterVerdict × σ :=
  firstVerdict executor.request s

def filter (executor : ProxyPluginExecutor ε σ) (phase : FilterPhase) (s : σ) : Except ε Unit × σ :=
  forEachPlugin (fun plugin => plugin.filter phase) (executor.filtered phase) s

def logging (executor : ProxyPluginExecutor ε σ) (s : σ) : σ :=
  executor.logged.foldl (fun s plugin => plugin.logging s) s

end ProxyPluginExecutor

/-- The global rules, and the route with its service. -/
structure CompiledPluginPipeline (ε σ : Type) where
  global : ProxyPluginExecutor ε σ
  route : ProxyPluginExecutor ε σ

namespace CompiledPluginPipeline

/-- A rejection is written for the plugin, and the request has been answered. -/
def answer (sendRejection : Rejection → σ → Except ε Unit × σ) : Except ε FilterVerdict × σ → Except ε Bool × σ
  | (.ok .continue, s) => (.ok false, s)
  | (.ok (.reject rejection), s) =>
    match sendRejection rejection s with
    | (.ok (), s) => (.ok true, s)
    | (.error e, s) => (.error e, s)
  | (.error e, s) => (.error e, s)

/-- Whether the request has been answered. A rejection of the global layer skips the route's. -/
def requestFilter (pipeline : CompiledPluginPipeline ε σ) (sendRejection : Rejection → σ → Except ε Unit × σ) (s : σ) :
    Except ε Bool × σ :=
  let verdict :=
    match pipeline.global.requestFilter s with
    | (.ok .continue, s) => pipeline.route.requestFilter s
    | result => result
  answer sendRejection verdict

def filter (pipeline : CompiledPluginPipeline ε σ) (phase : FilterPhase) (s : σ) : Except ε Unit × σ :=
  match pipeline.global.filter phase s with
  | (.ok (), s) => pipeline.route.filter phase s
  | (.error e, s) => (.error e, s)

def logging (pipeline : CompiledPluginPipeline ε σ) (s : σ) : σ := pipeline.route.logging (pipeline.global.logging s)

end CompiledPluginPipeline

/-! ## The lists of the phases -/

/-- Plugins that declare a phase, in order. -/
def declaring (phase : PluginPhases) (entries : List (PluginEntry ε σ)) : List (ProxyPlugin ε σ) :=
  (entries.filter fun entry => entry.phases.contains phase).map fun entry => entry.plugin

theorem declaring_append (phase : PluginPhases) (entries entries' : List (PluginEntry ε σ)) :
    declaring phase (entries ++ entries') = declaring phase entries ++ declaring phase entries' := by
  unfold declaring
  rw [List.filter_append, List.map_append]

theorem declaring_singleton (phase : PluginPhases) (entry : PluginEntry ε σ) (plugins : List (ProxyPlugin ε σ)) :
    (if entry.phases.contains phase then plugins ++ [entry.plugin] else plugins) = plugins ++ declaring phase [entry] := by
  unfold declaring
  cases h : entry.phases.contains phase <;> simp [h]

/-- The executor of these entries. -/
theorem fromSorted_eq (entries : List (PluginEntry ε σ)) : ProxyPluginExecutor.fromSorted entries =
    { plugins := entries
      earlyRequest := declaring .earlyRequest entries
      request := declaring .request entries
      upstreamRequest := declaring .upstreamRequest entries
      requestBody := declaring .requestBody entries
      response := declaring .response entries
      responseBody := declaring .responseBody entries
      logged := declaring .logging entries
      upstreamPeer := declaring .upstreamPeer entries } := by
  have hfold (plugins : List (PluginEntry ε σ)) : entries.foldl ProxyPluginExecutor.push { plugins } =
      { plugins
        earlyRequest := declaring .earlyRequest entries
        request := declaring .request entries
        upstreamRequest := declaring .upstreamRequest entries
        requestBody := declaring .requestBody entries
        response := declaring .response entries
        responseBody := declaring .responseBody entries
        logged := declaring .logging entries
        upstreamPeer := declaring .upstreamPeer entries } := by
    induction entries using List.reverseRecOn with
    | nil => rfl
    | append_singleton entries entry ih =>
      rw [List.foldl_append, ih]
      simp only [List.foldl_cons, List.foldl_nil, ProxyPluginExecutor.push, declaring_append, declaring_singleton]
  exact hfold entries

theorem filtered_fromSorted (entries : List (PluginEntry ε σ)) (phase : FilterPhase) :
    (ProxyPluginExecutor.fromSorted entries).filtered phase = declaring phase.flag entries := by
  rw [fromSorted_eq]
  cases phase <;> rfl

/-! ## Undeclared hooks -/

/-- The hooks of undeclared phases are the ones that do nothing. -/
structure PluginEntry.Honest (entry : PluginEntry ε σ) : Prop where
  request (h : entry.phases.contains .request = false) (s : σ) : entry.plugin.requestFilter s = (.ok .continue, s)
  filter {phase : FilterPhase} (h : entry.phases.contains phase.flag = false) (s : σ) :
    entry.plugin.filter phase s = (.ok (), s)
  logging (h : entry.phases.contains .logging = false) (s : σ) : entry.plugin.logging s = s

def pluginsOf (entries : List (PluginEntry ε σ)) : List (ProxyPlugin ε σ) := entries.map fun entry => entry.plugin

theorem declaring_cons (phase : PluginPhases) (entry : PluginEntry ε σ) (entries : List (PluginEntry ε σ)) :
    declaring phase (entry :: entries) =
      if entry.phases.contains phase then entry.plugin :: declaring phase entries else declaring phase entries := by
  unfold declaring
  cases h : entry.phases.contains phase <;> simp [h]

theorem forEachPlugin_declaring {phase : FilterPhase} : ∀ {entries : List (PluginEntry ε σ)},
    (∀ entry ∈ entries, entry.Honest) → ∀ s : σ,
      forEachPlugin (fun plugin => plugin.filter phase) (declaring phase.flag entries) s =
        forEachPlugin (fun plugin => plugin.filter phase) (pluginsOf entries) s
  | [], _, _ => rfl
  | entry :: entries, h, s => by
    have ih : ∀ s : σ, forEachPlugin (fun plugin => plugin.filter phase) (declaring phase.flag entries) s =
        forEachPlugin (fun plugin => plugin.filter phase) (pluginsOf entries) s :=
      forEachPlugin_declaring fun e he => h e (List.mem_cons_of_mem entry he)
    rw [declaring_cons, pluginsOf, List.map_cons]
    cases hp : entry.phases.contains phase.flag with
    | false =>
      rw [forEachPlugin, (h entry List.mem_cons_self).filter hp s]
      exact ih s
    | true =>
      rw [if_pos rfl, forEachPlugin, forEachPlugin]
      cases entry.plugin.filter phase s with
      | mk result s =>
        cases result with
        | error e => rfl
        | ok u => exact ih s

theorem firstVerdict_declaring : ∀ {entries : List (PluginEntry ε σ)}, (∀ entry ∈ entries, entry.Honest) → ∀ s : σ,
    firstVerdict (declaring .request entries) s = firstVerdict (pluginsOf entries) s
  | [], _, _ => rfl
  | entry :: entries, h, s => by
    have ih := firstVerdict_declaring fun e he => h e (List.mem_cons_of_mem entry he)
    rw [declaring_cons, pluginsOf, List.map_cons]
    cases hp : entry.phases.contains .request with
    | false =>
      rw [firstVerdict, (h entry List.mem_cons_self).request hp s]
      exact ih s
    | true =>
      rw [if_pos rfl, firstVerdict, firstVerdict]
      cases entry.plugin.requestFilter s with
      | mk result s =>
        cases result with
        | error e => rfl
        | ok verdict =>
          cases verdict with
          | reject rejection => rfl
          | «continue» => exact ih s

theorem logging_declaring : ∀ {entries : List (PluginEntry ε σ)}, (∀ entry ∈ entries, entry.Honest) → ∀ s : σ,
    (declaring .logging entries).foldl (fun s plugin => plugin.logging s) s =
      (pluginsOf entries).foldl (fun s plugin => plugin.logging s) s
  | [], _, _ => rfl
  | entry :: entries, h, s => by
    have ih := logging_declaring fun e he => h e (List.mem_cons_of_mem entry he)
    rw [declaring_cons, pluginsOf, List.map_cons, List.foldl_cons]
    cases hp : entry.phases.contains .logging with
    | false =>
      rw [(h entry List.mem_cons_self).logging hp s]
      exact ih s
    | true => exact ih _

/-! ## Verdicts -/

/-- Each of the plugins lets the request continue. -/
inductive Passes : List (ProxyPlugin ε σ) → σ → σ → Prop
  | nil (s : σ) : Passes [] s s
  | cons {plugin : ProxyPlugin ε σ} {plugins : List (ProxyPlugin ε σ)} {s t u : σ}
      (h : plugin.requestFilter s = (.ok .continue, t)) (hs : Passes plugins t u) : Passes (plugin :: plugins) s u

/-- One of the plugins does not, and those before it do. -/
def StopsWith (plugins : List (ProxyPlugin ε σ)) (s : σ) (result : Except ε FilterVerdict) (t : σ) : Prop :=
  ∃ before plugin after u, plugins = before ++ plugin :: after ∧ Passes before s u ∧ plugin.requestFilter u = (result, t)

variable {plugins rest : List (ProxyPlugin ε σ)} {s t u : σ} {result : Except ε FilterVerdict}

theorem firstVerdict_continue {plugin : ProxyPlugin ε σ} (h : plugin.requestFilter s = (.ok .continue, t)) :
    firstVerdict (plugin :: plugins) s = firstVerdict plugins t := by
  rw [firstVerdict, h]

theorem firstVerdict_stop {plugin : ProxyPlugin ε σ} (h : plugin.requestFilter s = (result, t))
    (hr : result ≠ .ok .continue) : firstVerdict (plugin :: plugins) s = (result, t) := by
  rw [firstVerdict, h]
  cases result with
  | error e => rfl
  | ok verdict =>
    cases verdict with
    | reject rejection => rfl
    | «continue» => exact absurd rfl hr

theorem Passes.firstVerdict (h : Passes plugins s t) : firstVerdict (plugins ++ rest) s = firstVerdict rest t := by
  induction h with
  | nil s => rfl
  | cons h hs ih => rw [List.cons_append, firstVerdict_continue h, ih]

theorem firstVerdict_eq_continue : ∀ {plugins : List (ProxyPlugin ε σ)} {s t : σ},
    firstVerdict plugins s = (.ok .continue, t) ↔ Passes plugins s t
  | [], s, t => by
    constructor
    · intro h
      cases h
      exact .nil s
    · intro h
      cases h
      rfl
  | plugin :: plugins, s, t => by
    constructor
    · intro h
      cases hp : plugin.requestFilter s with
      | mk result u =>
        by_cases hr : result = .ok .continue
        · subst hr
          rw [firstVerdict_continue hp] at h
          exact .cons hp (firstVerdict_eq_continue.mp h)
        · rw [firstVerdict_stop hp hr] at h
          cases h
          exact absurd rfl hr
    · intro h
      have heq := @Passes.firstVerdict _ _ _ [] _ _ h
      rwa [List.append_nil] at heq

theorem firstVerdict_eq_stop (hr : result ≠ .ok .continue) : ∀ {plugins : List (ProxyPlugin ε σ)} {s : σ},
    firstVerdict plugins s = (result, t) ↔ StopsWith plugins s result t
  | [], s => by
    constructor
    · intro h
      cases h
      exact absurd rfl hr
    · intro h
      obtain ⟨before, plugin, after, u, he, -⟩ := h
      simp at he
  | plugin :: plugins, s => by
    constructor
    · intro h
      cases hp : plugin.requestFilter s with
      | mk result' u =>
        by_cases hr' : result' = .ok .continue
        · subst hr'
          rw [firstVerdict_continue hp] at h
          obtain ⟨before, last, after, v, rfl, hb, hl⟩ := (firstVerdict_eq_stop hr).mp h
          exact ⟨plugin :: before, last, after, v, rfl, .cons hp hb, hl⟩
        · rw [firstVerdict_stop hp hr'] at h
          cases h
          exact ⟨[], plugin, plugins, s, rfl, .nil s, hp⟩
    · intro h
      obtain ⟨before, last, after, v, he, hb, hl⟩ := h
      rw [he, hb.firstVerdict, firstVerdict_stop hl hr]

theorem answer_eq_false {sendRejection : Rejection → σ → Except ε Unit × σ} {verdict : Except ε FilterVerdict × σ} :
    CompiledPluginPipeline.answer sendRejection verdict = (.ok false, t) ↔ verdict = (.ok .continue, t) := by
  obtain ⟨result, u⟩ := verdict
  cases result with
  | error e => simp [CompiledPluginPipeline.answer]
  | ok verdict =>
    cases verdict with
    | «continue» => simp [CompiledPluginPipeline.answer]
    | reject rejection =>
      rw [CompiledPluginPipeline.answer]
      cases sendRejection rejection u with
      | mk result v => cases result <;> simp

theorem answer_eq_true {sendRejection : Rejection → σ → Except ε Unit × σ} {verdict : Except ε FilterVerdict × σ} :
    CompiledPluginPipeline.answer sendRejection verdict = (.ok true, t) ↔ ∃ rejection u,
      verdict = (.ok (.reject rejection), u) ∧ sendRejection rejection u = (.ok (), t) := by
  obtain ⟨result, u⟩ := verdict
  cases result with
  | error e => simp [CompiledPluginPipeline.answer]
  | ok verdict =>
    cases verdict with
    | «continue» => simp [CompiledPluginPipeline.answer]
    | reject rejection =>
      rw [CompiledPluginPipeline.answer]
      cases h : sendRejection rejection u with
      | mk result v => cases result <;> simp [h]

theorem answer_eq_error {sendRejection : Rejection → σ → Except ε Unit × σ} {verdict : Except ε FilterVerdict × σ} {e : ε} :
    CompiledPluginPipeline.answer sendRejection verdict = (.error e, t) ↔ verdict = (.error e, t) ∨ ∃ rejection u,
      verdict = (.ok (.reject rejection), u) ∧ sendRejection rejection u = (.error e, t) := by
  obtain ⟨result, u⟩ := verdict
  cases result with
  | error e => simp [CompiledPluginPipeline.answer]
  | ok verdict =>
    cases verdict with
    | «continue» => simp [CompiledPluginPipeline.answer]
    | reject rejection =>
      rw [CompiledPluginPipeline.answer]
      cases h : sendRejection rejection u with
      | mk result v => cases result <;> simp [h]

theorem firstVerdict_append (hr : result ≠ .ok .continue) (h : firstVerdict plugins s = (result, t)) :
    firstVerdict (plugins ++ rest) s = (result, t) := by
  rw [firstVerdict_eq_stop hr] at h ⊢
  obtain ⟨before, plugin, after, u, rfl, hb, hp⟩ := h
  exact ⟨before, plugin, after ++ rest, u, by simp, hb, hp⟩

theorem forEachPlugin_append (hook : ProxyPlugin ε σ → σ → Except ε Unit × σ) : ∀ (plugins : List (ProxyPlugin ε σ)) (s : σ),
    (∀ t, forEachPlugin hook plugins s = (.ok (), t) → forEachPlugin hook (plugins ++ rest) s = forEachPlugin hook rest t) ∧
    ∀ e t, forEachPlugin hook plugins s = (.error e, t) → forEachPlugin hook (plugins ++ rest) s = (.error e, t)
  | [], s => by
    constructor
    · intro t h
      cases h
      rfl
    · intro e t h
      cases h
  | plugin :: plugins, s => by
    rw [List.cons_append, forEachPlugin, forEachPlugin]
    cases hook plugin s with
    | mk result u =>
      cases result with
      | error e => exact ⟨fun t h => (nomatch h), fun e t h => h⟩
      | ok _ => exact forEachPlugin_append hook plugins u

/-! ## The pipeline -/

section
variable {globals routes : List (PluginEntry ε σ)}

/-- The pipeline of the plugins of the global rules and of the route. -/
def pipelineOf (globals routes : List (PluginEntry ε σ)) : CompiledPluginPipeline ε σ :=
  ⟨.fromSorted globals, .fromSorted routes⟩

theorem pluginsOf_append : pluginsOf (globals ++ routes) = pluginsOf globals ++ pluginsOf routes := List.map_append

theorem requestFilter_fromSorted (h : ∀ entry ∈ globals, entry.Honest) (s : σ) :
    (ProxyPluginExecutor.fromSorted globals).requestFilter s = firstVerdict (pluginsOf globals) s := by
  rw [← firstVerdict_declaring h, fromSorted_eq]
  rfl

theorem filter_fromSorted (h : ∀ entry ∈ globals, entry.Honest) (phase : FilterPhase) (s : σ) :
    (ProxyPluginExecutor.fromSorted globals).filter phase s =
      forEachPlugin (fun plugin => plugin.filter phase) (pluginsOf globals) s := by
  rw [← forEachPlugin_declaring h, ← filtered_fromSorted]
  rfl

theorem logging_fromSorted (h : ∀ entry ∈ globals, entry.Honest) (s : σ) :
    (ProxyPluginExecutor.fromSorted globals).logging s = (pluginsOf globals).foldl (fun s plugin => plugin.logging s) s := by
  rw [← logging_declaring h, fromSorted_eq]
  rfl

theorem requestFilter_pipelineOf (hg : ∀ entry ∈ globals, entry.Honest) (hr : ∀ entry ∈ routes, entry.Honest)
    (sendRejection : Rejection → σ → Except ε Unit × σ) (s : σ) : (pipelineOf globals routes).requestFilter sendRejection s =
      CompiledPluginPipeline.answer sendRejection (firstVerdict (pluginsOf (globals ++ routes)) s) := by
  unfold CompiledPluginPipeline.requestFilter pipelineOf
  simp only [requestFilter_fromSorted hg, requestFilter_fromSorted hr]
  rw [pluginsOf_append]
  cases hf : firstVerdict (pluginsOf globals) s with
  | mk result t =>
    by_cases hc : result = .ok .continue
    · subst hc
      rw [(firstVerdict_eq_continue.mp hf).firstVerdict]
    · rw [firstVerdict_append hc hf]
      cases result with
      | error e => rfl
      | ok verdict =>
        cases verdict with
        | reject rejection => rfl
        | «continue» => exact absurd rfl hc

theorem filter_pipelineOf (hg : ∀ entry ∈ globals, entry.Honest) (hr : ∀ entry ∈ routes, entry.Honest)
    (phase : FilterPhase) (s : σ) : (pipelineOf globals routes).filter phase s =
      forEachPlugin (fun plugin => plugin.filter phase) (pluginsOf (globals ++ routes)) s := by
  unfold CompiledPluginPipeline.filter pipelineOf
  simp only [filter_fromSorted hg, filter_fromSorted hr]
  rw [pluginsOf_append]
  obtain ⟨hok, herror⟩ := @forEachPlugin_append ε σ (pluginsOf routes) (fun plugin => plugin.filter phase)
    (pluginsOf globals) s
  cases hf : forEachPlugin (fun plugin => plugin.filter phase) (pluginsOf globals) s with
  | mk result t =>
    cases result with
    | error e => exact (herror e t hf).symm
    | ok u => exact (hok t hf).symm

/-- Every phase runs the plugins of the global rules and then those of the route, whatever phases they declare; a request
is answered exactly by the first plugin that rejects it, once, with all plugins before it passed and none after it run. -/
theorem pipeline_runs_in_order (hg : ∀ entry ∈ globals, entry.Honest) (hr : ∀ entry ∈ routes, entry.Honest)
    (sendRejection : Rejection → σ → Except ε Unit × σ) (s t : σ) :
    ((pipelineOf globals routes).requestFilter sendRejection s = (.ok false, t) ↔
      Passes (pluginsOf (globals ++ routes)) s t) ∧
    ((pipelineOf globals routes).requestFilter sendRejection s = (.ok true, t) ↔ ∃ rejection u,
      StopsWith (pluginsOf (globals ++ routes)) s (.ok (.reject rejection)) u ∧ sendRejection rejection u = (.ok (), t)) ∧
    (∀ e, (pipelineOf globals routes).requestFilter sendRejection s = (.error e, t) ↔
      StopsWith (pluginsOf (globals ++ routes)) s (.error e) t ∨ ∃ rejection u,
        StopsWith (pluginsOf (globals ++ routes)) s (.ok (.reject rejection)) u ∧
          sendRejection rejection u = (.error e, t)) ∧
    (∀ phase, (pipelineOf globals routes).filter phase s =
      forEachPlugin (fun plugin => plugin.filter phase) (pluginsOf (globals ++ routes)) s) ∧
    (pipelineOf globals routes).logging s =
      (pluginsOf (globals ++ routes)).foldl (fun s plugin => plugin.logging s) s := by
  have hstop (result : Except ε FilterVerdict) (hne : result ≠ .ok .continue) (u : σ) :
      firstVerdict (pluginsOf (globals ++ routes)) s = (result, u) ↔ StopsWith (pluginsOf (globals ++ routes)) s result u :=
    firstVerdict_eq_stop hne
  have hreject (rejection : Rejection) (u : σ) := hstop (.ok (.reject rejection)) (fun h => nomatch h) u
  rw [requestFilter_pipelineOf hg hr, answer_eq_false, answer_eq_true, firstVerdict_eq_continue]
  refine ⟨Iff.rfl, ?_, fun e => ?_, fun phase => filter_pipelineOf hg hr phase s, ?_⟩
  · simp only [hreject]
  · rw [answer_eq_error, hstop (.error e) (fun h => nomatch h) t]
    simp only [hreject]
  · unfold CompiledPluginPipeline.logging pipelineOf
    rw [logging_fromSorted hg, logging_fromSorted hr, pluginsOf_append, List.foldl_append]

end

/-! ## A rejected request -/

/-- It lets everything pass and notes that it ran. -/
def counting : PluginEntry String Nat where
  plugin := { name := "limit-count", priority := 1002, requestFilter := fun s => (.ok .continue, s + 1) }
  phases := .request

def rejecting : PluginEntry String Nat where
  plugin := { name := "key-auth", priority := 2500, requestFilter := fun s => (.ok (.reject { status := 401 }), s + 10) }
  phases := .request

theorem counting_honest : counting.Honest := ⟨fun h => absurd h (by decide), fun _ _ => rfl, fun _ _ => rfl⟩

theorem rejecting_honest : rejecting.Honest := ⟨fun h => absurd h (by decide), fun _ _ => rfl, fun _ _ => rfl⟩

theorem pipeline_runs_in_order_rejected : ∃ rejection u,
    StopsWith (pluginsOf ([counting] ++ [rejecting, counting])) 0 (.ok (.reject rejection)) u ∧
      (.ok (), u + 100) = ((.ok (), 111) : Except String Unit × Nat) := by
  have hg : ∀ entry ∈ [counting], entry.Honest := by
    intro entry h
    cases List.mem_singleton.mp h
    exact counting_honest
  have hr : ∀ entry ∈ [rejecting, counting], entry.Honest := by
    intro entry h
    cases List.mem_cons.mp h with
    | inl h => exact h ▸ rejecting_honest
    | inr h => exact List.mem_singleton.mp h ▸ counting_honest
  exact (pipeline_runs_in_order hg hr (fun _ s => (.ok (), s + 100)) 0 111).2.1.mp rfl

end Phases

end Pingsix
