import Mathlib.Tactic.Abel
import Pingsix.Logging

/-!
# Log lines are kept

Every line that is received is kept by every step but those that drop a buffered
writer whose flush has failed: what had not reached the file by then is gone.
-/

namespace Pingsix.Logging

/-- The lines that were out when a flush of the event failed, its own or that of a write that needs room. -/
def Event.flushed : Event → Option Nat
  | .tick failure | .rotateFlush failure | .finish failure => failure
  | .recv outcome | .take outcome | .drain outcome => outcome.flushed
  | _ => none

/-- A flush that fails has brought every buffered line out. -/
def FlushSpares (_ : List Event) (s : Logger) (e : Event) : Prop :=
  ∀ flushed buffer, e.flushed = some flushed → s.writer = some buffer → buffer.length ≤ flushed

section
variable {past : List Event} {s : Logger} {e : Event}

theorem flushSpares_iff {buffer : WriteBuffer LogLine} (hw : s.writer = some buffer) :
    FlushSpares past s e ↔ ∀ flushed, e.flushed = some flushed → buffer.length ≤ flushed := by
  constructor
  · intro h flushed he
    exact h flushed buffer he hw
  · intro h flushed buffer' he hw'
    cases hw.symm.trans hw'
    exact h flushed he

theorem flushSpares_of_no_flush (he : e.flushed = none) : FlushSpares past s e := by
  intro flushed buffer h
  rw [he] at h
  cases h

theorem flushSpares_of_no_writer (hw : s.writer = none) : FlushSpares past s e := by
  intro flushed buffer _ h
  rw [hw] at h
  cases h

end

/-- The stages at which no file is open. -/
def Stage.fileless : Stage → Bool
  | .renaming | .reopening | .done => true
  | _ => false

namespace Logger

def Fileless (s : Logger) : Prop := s.stage.fileless = true → s.writer = none

/-- Where a received line may be: in a file, on stderr, counted as dropped, or on its way in the buffer. -/
def kept (s : Logger) : Multiset LogLine := s.files + s.stderr + s.dropped + s.pending

/-- Every received line is kept, and when the service has ended none is on its way. -/
def LinesKept (s : Logger) : Prop :=
  (s.received : Multiset LogLine) ≤ s.kept ∧ s.dropped.length = s.logDropped ∧ (s.stage = .done → s.pending = [])

/-! ## Operations -/

/-- Between two states lines are taken from the channel, handed over to be kept, and lost. -/
structure Balance (s s' : Logger) (taken given lost : List LogLine) : Prop where
  received : s'.received = s.received ++ taken
  discarded : s'.discarded = s.discarded ++ lost
  kept : s'.kept + lost = s.kept + given
  counted : s'.dropped.length + s.logDropped = s.dropped.length + s'.logDropped

theorem Balance.same (s : Logger) : Balance s s [] [] [] where
  received := (List.append_nil _).symm
  discarded := (List.append_nil _).symm
  kept := rfl
  counted := rfl

/-- The balance reads the lists of the later state alone. -/
theorem Balance.congr {s t s' : Logger} {taken given lost : List LogLine} (h : Balance s t taken given lost)
    (hr : s'.received = t.received) (hd : s'.discarded = t.discarded) (hk : s'.kept = t.kept)
    (hc : (s'.dropped, s'.logDropped) = (t.dropped, t.logDropped)) : Balance s s' taken given lost where
  received := hr.trans h.received
  discarded := hd.trans h.discarded
  kept := by rw [hk, h.kept]
  counted := by
    obtain ⟨hdropped, hlog⟩ := Prod.mk.inj hc
    rw [hdropped, hlog, h.counted]

theorem Balance.trans {s t u : Logger} {taken given lost taken' given' lost' : List LogLine}
    (h : Balance s t taken given lost) (h' : Balance t u taken' given' lost') :
    Balance s u (taken ++ taken') (given ++ given') (lost ++ lost') where
  received := by rw [h'.received, h.received, List.append_assoc]
  discarded := by rw [h'.discarded, h.discarded, List.append_assoc]
  kept := by
    simp only [← Multiset.coe_add]
    calc u.kept + (↑lost + ↑lost') = u.kept + ↑lost' + ↑lost := by rw [add_comm (lost : Multiset LogLine), add_assoc]
      _ = t.kept + ↑lost + ↑given' := by rw [h'.kept, add_right_comm]
      _ = s.kept + (↑given + ↑given') := by rw [h.kept, add_assoc]
  counted := by
    have hst := h.counted
    have htu := h'.counted
    omega

variable {s : Logger}

theorem Balance.pop (data : LogLine) (queue : List LogLine) :
    Balance s (s.pop data queue) [data] [] [] where
  received := rfl
  discarded := (List.append_nil _).symm
  kept := rfl
  counted := rfl

theorem Balance.eprint (line : LogLine) : Balance s (s.eprint line) [] [line] [] where
  received := (List.append_nil _).symm
  discarded := (List.append_nil _).symm
  kept := by
    simp only [Logger.kept, Logger.eprint, ← Multiset.coe_add, Multiset.coe_nil]
    abel
  counted := rfl

theorem Balance.put {buffer : WriteBuffer LogLine} (hw : s.writer = some buffer) {w : Written LogLine}
    {given : List LogLine} (h : w.items = buffer.items + given) : Balance s (s.put w) [] given [] where
  received := (List.append_nil _).symm
  discarded := (List.append_nil _).symm
  kept := by
    have hpending : s.pending = buffer.items := by rw [Logger.pending, hw]; rfl
    have hput : (s.put w).pending = w.buffer.items := rfl
    unfold Written.items at h
    simp only [Logger.kept, hpending, hput]
    calc (↑(s.files ++ w.out) + ↑s.stderr + ↑s.dropped + ↑w.buffer.items + 0 : Multiset LogLine)
        = ↑s.files + ↑s.stderr + ↑s.dropped + (↑w.out + ↑w.buffer.items) := by
          rw [← Multiset.coe_add]
          abel
      _ = ↑s.files + ↑s.stderr + ↑s.dropped + ↑buffer.items + ↑given := by
          rw [h]
          abel
  counted := rfl

theorem Balance.dropWriter (s : Logger) : Balance s s.dropWriter [] [] s.pending where
  received := (List.append_nil _).symm
  discarded := rfl
  kept := by
    show ((s.files : Multiset LogLine) + s.stderr + s.dropped + (0 : Multiset LogLine)) + s.pending = s.kept + (0 : Multiset LogLine)
    rw [add_zero, add_zero]
    rfl
  counted := rfl

/-! ## One step -/

/-- A step keeps what it takes but for what it loses, and what it loses tells whether a flush has spared the buffer. -/
structure StepKeeps (past : List Event) (s : Logger) (e : Event) (s' : Logger) (lost : List LogLine) : Prop where
  balance : ∃ taken, Balance s s' taken taken lost
  spares : lost = [] ↔ FlushSpares past s e
  last : s'.Fileless

/-- A line is written, or it goes to stderr and the buffer is lost. -/
theorem balance_writeLine {buffer : WriteBuffer LogLine} (hw : s.writer = some buffer) {data : LogLine}
    {outcome : WriteOutcome} {w : Written LogLine} (h : buffer.writeAll bufferCapacity data.piece outcome = some w) :
    (w.failed = false → Balance s (s.put w) [] [data] []) ∧
      (w.failed = true → Balance s ((s.put w).eprint data).dropWriter [] [data] w.buffer.items) := by
  have hitems := WriteBuffer.writeAll_items h
  constructor
  · intro hok
    rw [hok] at hitems
    exact Balance.put hw hitems
  · intro hfailed
    rw [hfailed] at hitems
    have hput : Balance s (s.put w) [] [] [] := Balance.put hw hitems
    exact (hput.trans (Balance.eprint data)).trans (Balance.dropWriter _)

section
variable {past : List Event} {e : Event} {s' : Logger}

/-- A step without a flush, or without a writer to flush, loses nothing. -/
theorem StepKeeps.unflushed {taken : List LogLine} (h : Balance s s' taken taken [])
    (hno : e.flushed = none ∨ s.writer = none)
    (hlast : s'.Fileless) :
    StepKeeps past s e s' [] where
  balance := ⟨taken, h⟩
  spares := iff_of_true rfl (hno.elim flushSpares_of_no_flush flushSpares_of_no_writer)
  last := hlast

/-- A step that drops the writer after a flush loses what the flush left. -/
theorem StepKeeps.flushed {taken : List LogLine} {buffer rest : WriteBuffer LogLine} (hw : s.writer = some buffer)
    (h : Balance s s' taken taken rest.items)
    (hrest : rest = [] ↔ ∀ flushed, e.flushed = some flushed → buffer.length ≤ flushed)
    (hlast : s'.Fileless) :
    StepKeeps past s e s' rest.items where
  balance := ⟨taken, h⟩
  spares := (WriteBuffer.items_eq_nil.trans hrest).trans (flushSpares_iff hw).symm
  last := hlast

end

/-- A step that changes no list loses nothing. -/
theorem StepKeeps.still {past : List Event} {e : Event} {s' : Logger} (hr : s'.received = s.received)
    (hd : s'.discarded = s.discarded) (hk : s'.kept = s.kept)
    (hc : (s'.dropped, s'.logDropped) = (s.dropped, s.logDropped)) (hno : e.flushed = none ∨ s.writer = none)
    (hlast : s'.Fileless) : StepKeeps past s e s' [] :=
  .unflushed ((Balance.same s).congr hr hd hk hc) hno hlast

theorem asyncWrite_keeps (config : Log) (past : List Event) (line : LogLine) (hs : s.Fileless) :
    StepKeeps past s (.write line) (s.asyncWrite config line) [] := by
  unfold asyncWrite
  split
  · exact .still rfl rfl rfl rfl (.inl rfl) hs
  · split
    · exact .still rfl rfl rfl rfl (.inl rfl) hs
    · exact .still rfl rfl rfl rfl (.inl rfl) hs

/-- A flush that the writer outlives, or not. -/
theorem balance_flush {buffer : WriteBuffer LogLine} (hw : s.writer = some buffer) (failure : Option Nat) :
    Balance s (s.put (buffer.flush failure)) [] [] [] ∧
      Balance s (s.put (buffer.flush failure)).dropWriter [] [] (buffer.flush failure).buffer.items := by
  have hput : Balance s (s.put (buffer.flush failure)) [] [] [] :=
    Balance.put hw ((WriteBuffer.flush_items buffer failure).trans (add_zero _).symm)
  exact ⟨hput, hput.trans (Balance.dropWriter _)⟩

/-- A line goes to stderr. -/
theorem balance_eprint (data : LogLine) (queue : List LogLine) :
    Balance s ((s.pop data queue).eprint data) [data] [data] [] :=
  (Balance.pop data queue).trans (Balance.eprint data)

/-- The lines that are late are counted. -/
theorem balance_drop (lines : List LogLine) :
    Balance s { s with queue := [], received := s.received ++ lines, dropped := s.dropped ++ lines,
                       logDropped := s.logDropped + lines.length, stage := .finishing } lines lines [] where
  received := rfl
  discarded := (List.append_nil _).symm
  kept := by
    simp only [Logger.kept, ← Multiset.coe_add, Multiset.coe_nil]
    abel
  counted := by
    show (s.dropped ++ lines).length + s.logDropped = s.dropped.length + (s.logDropped + lines.length)
    rw [List.length_append]
    omega

/-- A line is written and kept, or the write fails and loses what it left in the buffer. -/
theorem write_keeps {past : List Event} {e : Event} {outcome : WriteOutcome} (he : e.flushed = outcome.flushed)
    {buffer : WriteBuffer LogLine} (hw : s.writer = some buffer) (data : LogLine) (queue : List LogLine)
    {w : Written LogLine} (h : buffer.writeAll bufferCapacity data.piece outcome = some w) {s' : Logger}
    (hok : w.failed = false → Balance (s.pop data queue) s' [] [data] [])
    (hfailed : w.failed = true → Balance (s.pop data queue) s' [] [data] w.buffer.items) (hlast : s'.Fileless) :
    ∃ lost, StepKeeps past s e s' lost := by
  by_cases hf : w.failed = true
  · refine ⟨w.buffer.items, .flushed hw ((Balance.pop data queue).trans (hfailed hf)) ?_ hlast⟩
    rw [he]
    exact WriteBuffer.writeAll_buffer_eq_nil h hf
  · have hf := Bool.eq_false_iff.mpr hf
    refine ⟨[], .unflushed ((Balance.pop data queue).trans (hok hf)) (.inl ?_) hlast⟩
    rw [he]
    exact WriteBuffer.writeAll_flushed h hf

theorem writeLine_keeps {past : List Event} {e : Event} {outcome : WriteOutcome} (he : e.flushed = outcome.flushed)
    {buffer : WriteBuffer LogLine} (hw : s.writer = some buffer) (data : LogLine) (queue : List LogLine)
    {next : Logger → Stage} (hnext : ∀ s, (next s).fileless = false) {s' : Logger}
    (h : (s.pop data queue).writeLine buffer data outcome next = some s') :
    ∃ lost, StepKeeps past s e s' lost := by
  obtain ⟨w, hwrite, rfl⟩ := Option.map_eq_some_iff.mp h
  obtain ⟨hok, hfailed⟩ := balance_writeLine (s := s.pop data queue) hw hwrite
  refine write_keeps he hw data queue hwrite (fun hf => ?_) (fun hf => ?_) ?_
  · simp only [hf, Bool.false_eq_true, if_false]
    exact (hok hf).congr rfl rfl rfl rfl
  · simp only [hf, if_true]
    exact (hfailed hf).congr rfl rfl rfl rfl
  · by_cases hf : w.failed = true
    · rw [if_pos hf]
      nofun
    · rw [if_neg hf]
      exact fun hfileless => absurd hfileless (Bool.eq_false_iff.mp (hnext _))

theorem step_keeps {config : Log} {e : Event} {s' : Logger} (past : List Event) (hs : s.Fileless)
    (h : Step config s e s') : ∃ lost, StepKeeps past s e s' lost := by
  unfold Step step at h
  cases e with
  | write line =>
    cases h
    exact ⟨[], asyncWrite_keeps config past line hs⟩
  | shutdown =>
    obtain ⟨-, h⟩ := Option.ite_none_right_eq_some.mp h
    cases h
    exact ⟨[], .still rfl rfl rfl rfl (.inl rfl) nofun⟩
  | tick failure =>
    dsimp only at h
    split at h
    case h_1 buffer hstage hw =>
      obtain ⟨hput, hdrop⟩ := balance_flush hw failure
      have hopen : s.stage.fileless = false := by rw [hstage]; rfl
      cases failure with
      | none =>
        cases h
        exact ⟨[], .unflushed hput (.inl rfl) fun hf => absurd hf (Bool.eq_false_iff.mp hopen)⟩
      | some flushed =>
        cases h
        exact ⟨_, .flushed hw (hdrop.congr rfl rfl rfl rfl) WriteBuffer.flush_buffer_eq_nil fun _ => rfl⟩
    case h_2 hstage hw =>
      cases h
      exact ⟨[], .still rfl rfl rfl rfl (.inr hw) hs⟩
    case h_3 => cases h
  | recv outcome =>
    dsimp only at h
    split at h
    case h_1 data queue hstage hqueue =>
      split at h
      case h_1 buffer hw =>
        have hw : s.writer = some buffer := hw
        refine writeLine_keeps rfl hw data queue (fun t => ?_) h
        by_cases hrotate : config.shouldRotate t.writtenBytes
        · rw [if_pos hrotate]
          rfl
        · rw [if_neg hrotate]
          rfl
      case h_2 hw =>
        cases h
        exact ⟨[], .unflushed ((balance_eprint data queue).congr rfl rfl rfl rfl) (.inr hw) nofun⟩
    case h_2 => cases h
  | rotateFlush failure =>
    dsimp only at h
    split at h
    case h_1 buffer hstage hw =>
      obtain ⟨-, hdrop⟩ := balance_flush hw failure
      cases failure with
      | none =>
        cases h
        exact ⟨_, .flushed hw (hdrop.congr rfl rfl rfl rfl) WriteBuffer.flush_buffer_eq_nil fun _ => rfl⟩
      | some flushed =>
        cases h
        exact ⟨_, .flushed hw (hdrop.congr rfl rfl rfl rfl) WriteBuffer.flush_buffer_eq_nil fun _ => rfl⟩
    case h_2 => cases h
  | rename ok =>
    obtain ⟨hstage, h⟩ := Option.ite_none_right_eq_some.mp h
    have hw : s.writer = none := hs (by rw [hstage]; rfl)
    cases ok with
    | true =>
      cases h
      exact ⟨[], .still rfl rfl rfl rfl (.inl rfl) fun _ => hw⟩
    | false =>
      cases h
      exact ⟨[], .still rfl rfl rfl rfl (.inl rfl) nofun⟩
  | reopen ok =>
    obtain ⟨hstage, h⟩ := Option.ite_none_right_eq_some.mp h
    have hw : s.writer = none := hs (by rw [hstage]; rfl)
    have hpending : s.pending = [] := by rw [Logger.pending, hw]; rfl
    cases ok with
    | true =>
      cases h
      have hdrop := Balance.dropWriter s
      rw [hpending] at hdrop
      exact ⟨[], .unflushed (hdrop.congr rfl rfl rfl rfl) (.inl rfl) nofun⟩
    | false =>
      cases h
      exact ⟨[], .still rfl rfl rfl rfl (.inl rfl) nofun⟩
  | take outcome =>
    dsimp only at h
    split at h
    case h_1 left data queue buffer hstage hqueue hw => exact writeLine_keeps rfl hw data queue (fun _ => rfl) h
    case h_2 => cases h
  | spill =>
    dsimp only at h
    split at h
    case h_1 left data queue hstage hqueue =>
      cases h
      exact ⟨[], .unflushed ((balance_eprint data queue).congr rfl rfl rfl rfl) (.inl rfl) nofun⟩
    case h_2 => cases h
  | leave =>
    dsimp only at h
    split at h
    case h_4 => cases h
    all_goals
      obtain ⟨-, h⟩ := Option.ite_none_right_eq_some.mp h
      cases h
      exact ⟨[], .still rfl rfl rfl rfl (.inl rfl) nofun⟩
  | drain outcome =>
    dsimp only at h
    split at h
    case h_1 data queue hstage hqueue =>
      have hopen : s.stage.fileless = false := by rw [hstage]; rfl
      split at h
      case h_1 buffer hw =>
        have hw : s.writer = some buffer := hw
        obtain ⟨w, hwrite, rfl⟩ := Option.map_eq_some_iff.mp h
        obtain ⟨hok, hfailed⟩ := balance_writeLine (s := s.pop data queue) hw hwrite
        refine write_keeps rfl hw data queue hwrite (fun hf => ?_) (fun hf => ?_) fun hf => ?_
        · simp only [hf, Bool.false_eq_true, if_false]
          exact hok hf
        · simp only [hf, if_true]
          exact hfailed hf
        · have hdraining : (if w.failed = true then (((s.pop data queue).put w).eprint data).dropWriter
              else (s.pop data queue).put w).stage = s.stage := by split <;> rfl
          rw [hdraining, hopen] at hf
          cases hf
      case h_2 hw =>
        cases h
        exact ⟨[], .unflushed (balance_eprint data queue) (.inr hw) fun hf => absurd hf (Bool.eq_false_iff.mp hopen)⟩
    case h_2 => cases h
  | drainLate =>
    dsimp only at h
    split at h
    case h_1 data queue hstage hqueue =>
      cases h
      exact ⟨[], .unflushed (balance_drop (data :: queue)) (.inl rfl) nofun⟩
    case h_2 => cases h
  | finish failure =>
    obtain ⟨hstage, h⟩ := Option.ite_none_right_eq_some.mp h
    cases hw : s.writer with
    | none =>
      rw [hw] at h
      cases h
      have hpending : s.pending = [] := by rw [Logger.pending, hw]; rfl
      have hdrop := Balance.dropWriter s
      rw [hpending] at hdrop
      exact ⟨[], .unflushed (hdrop.congr rfl rfl rfl rfl) (.inr hw) fun _ => rfl⟩
    | some buffer =>
      rw [hw] at h
      cases h
      obtain ⟨-, hdrop⟩ := balance_flush hw failure
      exact ⟨_, .flushed hw (hdrop.congr rfl rfl rfl rfl) WriteBuffer.flush_buffer_eq_nil fun _ => rfl⟩

/-! ## Runs -/

/-- What every run keeps. -/
structure Accounted (s : Logger) : Prop where
  fileless : s.Fileless
  balance : s.kept + s.discarded = s.received
  counted : s.dropped.length = s.logDropped

theorem Accounted.init (h : Init s) : Accounted s := by
  obtain ⟨opened, rfl⟩ := h
  cases opened with
  | none => exact ⟨fun _ => rfl, rfl, rfl⟩
  | some length => exact ⟨nofun, rfl, rfl⟩

theorem Accounted.step {past : List Event} {e : Event} {s' : Logger} {lost : List LogLine} (hs : Accounted s)
    (h : StepKeeps past s e s' lost) : Accounted s' := by
  obtain ⟨taken, hb⟩ := h.balance
  refine ⟨h.last, ?_, ?_⟩
  · rw [hb.received, hb.discarded, ← Multiset.coe_add, ← Multiset.coe_add, ← hs.balance, add_left_comm, hb.kept]
    abel
  · have hcounted := hb.counted
    rw [hs.counted] at hcounted
    omega

theorem accounted {config : Log} {es : List Event} (r : Run (Step config) Init es s) : Accounted s := by
  induction r with
  | start h => exact .init h
  | snoc _ h ih =>
    obtain ⟨lost, hkeeps⟩ := step_keeps [] ih.fileless h
    exact ih.step hkeeps

/-- The lines are kept when no buffered one was discarded. -/
theorem Accounted.linesKept_iff (hs : Accounted s) : s.LinesKept ↔ s.discarded = [] := by
  have hlast : s.stage = .done → s.pending = [] := by
    intro h
    rw [pending, hs.fileless (by rw [h]; rfl)]
    rfl
  have hle : (s.received : Multiset LogLine) ≤ s.kept ↔ s.discarded = [] := by
    rw [← hs.balance, add_le_iff_nonpos_right, Multiset.le_zero, Multiset.coe_eq_zero]
  exact ⟨fun h => hle.mp h.1, fun h => ⟨hle.mpr h, hs.counted, hlast⟩⟩

/-- The lines received in a run are kept exactly when every flush that failed had brought all of the buffer out. -/
theorem lines_kept_iff {config : Log} {es : List Event} (r : Run (Step config) Init es s) :
    s.LinesKept ↔ RunMeeting (Step config) Init FlushSpares es s := by
  rw [(accounted r).linesKept_iff]
  constructor
  · intro hdiscarded
    induction r with
    | start h => exact .start h
    | @snoc past s s' e r h ih =>
      obtain ⟨lost, hkeeps⟩ := step_keeps past (accounted r).fileless h
      obtain ⟨taken, hb⟩ := hkeeps.balance
      rw [hb.discarded, List.append_eq_nil_iff] at hdiscarded
      exact .snoc (ih hdiscarded.1) h (hkeeps.spares.mp hdiscarded.2)
  · intro hmeeting
    induction hmeeting with
    | start h =>
      obtain ⟨opened, rfl⟩ := h
      cases opened <;> rfl
    | @snoc past s s' e m h hok ih =>
      obtain ⟨lost, hkeeps⟩ := step_keeps past (accounted m.run).fileless h
      obtain ⟨taken, hb⟩ := hkeeps.balance
      rw [hb.discarded, ih m.run, hkeeps.spares.mpr hok]
      rfl

end Logger

def startLine : LogLine := ⟨[0x6f, 0x6b, 0x0a], by decide⟩

/-- A line that reaches the file with the flush after it, and one with the last flush. -/
def flushedRun : List Event :=
  [.write startLine, .recv .buffered, .leave, .tick none, .write startLine, .recv .buffered, .leave, .shutdown, .leave,
    .finish none]

theorem lines_kept_flushed :
    ∃ s, Run (Logger.Step {}) Logger.Init flushedRun s ∧ s.files = [startLine, startLine] ∧ s.LinesKept := by
  let s : Logger :=
    { stage := .done, writer := none, writtenBytes := 6, stopped := true, files := [startLine, startLine]
      received := [startLine, startLine] }
  have hinit : Run (Logger.Step {}) Logger.Init [] (Logger.start (some 0)) := .start ⟨some 0, rfl⟩
  have hrun : Run (Logger.Step {}) Logger.Init ([] ++ flushedRun) s := hinit.stepAll rfl
  have hmeeting : RunMeeting (Logger.Step {}) Logger.Init FlushSpares flushedRun s := by
    refine hrun.meeting fun e he past t => flushSpares_of_no_flush ?_
    revert e
    simp [flushedRun, Event.flushed, WriteOutcome.flushed]
  exact ⟨s, hrun, rfl, (Logger.lines_kept_iff hrun).mpr hmeeting⟩

/-- A line is in the buffer when the flush of the interval fails. -/
theorem lines_not_kept :
    ¬∀ (config : Log) (es : List Event) (s : Logger), Run (Logger.Step config) Logger.Init es s → s.LinesKept := by
  intro h
  have hinit : Run (Logger.Step {}) Logger.Init [] (Logger.start (some 0)) := .start ⟨some 0, rfl⟩
  let s : Logger :=
    { writer := none, writtenBytes := 3, stopped := true, received := [startLine], discarded := [startLine] }
  have hrun : Run (Logger.Step {}) Logger.Init
      ([] ++ [.write startLine, .recv .buffered, .leave, .tick (some 0)]) s := hinit.stepAll rfl
  have hle := (h {} _ s hrun).1
  have hcard := Multiset.card_le_card hle
  exact absurd hcard (by decide)

end Pingsix.Logging
