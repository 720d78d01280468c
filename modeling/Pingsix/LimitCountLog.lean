import Pingsix.LimitCount

/-!
# A bounded history and an unbounded log

The history of one key keeps at most a bounded number of request times. For a
limit below the bound it decides like a log that keeps every request it is
asked about, the rejected ones too, and it reports the same.
-/

namespace Pingsix

namespace LimitCount

/-! ## Reports -/

/-- What a request is told: whether it is over its limit, how many more are left, and when to come back. -/
structure Report where
  limited : Bool
  remaining : Nat
  reset : Nat
  deriving DecidableEq, Repr

def LimitSelection.report (selection : LimitSelection) (currentCount : Nat) : Report where
  limited := decide (selection.count < currentCount)
  remaining := selection.count - currentCount
  reset := selection.timeWindow

/-- The reports to requests that come one after the other. -/
def SlidingWindow.serve (selection : LimitSelection) : SlidingWindow → List Nat → List Report
  | _, [] => []
  | w, now :: times =>
    let w := w.observe now selection.timeWindow
    selection.report w.events.length :: serve selection w times

/-! ## The log -/

/-- The requests of a log inside the window at `now`. -/
def logCount (selection : LimitSelection) (log : List Nat) (now : Nat) : Nat :=
  log.countP fun time => decide (now - time < selection.timeWindow * nanos)

/-- The reports of a log that never forgets and keeps the requests with the reports it is told to keep. -/
def logServe (keeps : Report → Bool) (selection : LimitSelection) : List Nat → List Nat → List Report
  | _, [] => []
  | log, now :: times =>
    let report := selection.report (logCount selection log now + 1)
    report :: logServe keeps selection (if keeps report then log ++ [now] else log) times

/-! ## One request -/

/-- The history is what is left of the log; what it dropped has left the window, or the history is full. -/
def Left (selection : LimitSelection) (now : Nat) (log : List Nat) (w : SlidingWindow) : Prop :=
  ∃ dropped, log = dropped ++ w.events ∧
    ((∀ time ∈ dropped, selection.timeWindow * nanos ≤ now - time) ∨ maxSlidingEntriesPerKey ≤ w.events.length)

section

variable {selection : LimitSelection} {now : Nat} {log : List Nat} {w : SlidingWindow}

theorem logCount_append (a b : List Nat) :
    logCount selection (a ++ b) now = logCount selection a now + logCount selection b now := List.countP_append

theorem logCount_old {times : List Nat} (h : ∀ time ∈ times, selection.timeWindow * nanos ≤ now - time) :
    logCount selection times now = 0 := by
  refine List.countP_eq_zero.mpr fun time ht => ?_
  have := h time ht
  simp only [decide_eq_true_eq]
  omega

theorem logCount_young {times : List Nat} (h : ∀ time ∈ times, now - time < selection.timeWindow * nanos) :
    logCount selection times now = times.length :=
  List.countP_eq_length.mpr fun time ht => decide_eq_true (h time ht)

/-- Sorted times are those that have left the window and then those inside it. -/
theorem prune_split (hordered : w.events.Pairwise (· ≤ ·)) (now : Nat) :
    ∃ aged, w.events = aged ++ (w.prune now selection.timeWindow).events ∧
      (∀ time ∈ aged, selection.timeWindow * nanos ≤ now - time) ∧
      ∀ time ∈ (w.prune now selection.timeWindow).events, now - time < selection.timeWindow * nanos := by
  let old : Nat → Bool := fun event => decide (selection.timeWindow * nanos ≤ now - event)
  have hsplit : w.events = w.events.takeWhile old ++ w.events.dropWhile old := List.takeWhile_append_dropWhile.symm
  refine ⟨w.events.takeWhile old, hsplit, fun time ht => ?_, ?_⟩
  · simpa [old] using List.mem_takeWhile_imp ht
  · show ∀ time ∈ w.events.dropWhile old, now - time < selection.timeWindow * nanos
    cases hd : w.events.dropWhile old with
    | nil => exact fun time ht => nomatch ht
    | cons first rest =>
      have hfirst : old first = false := by
        have hne : w.events.dropWhile old ≠ [] := by rw [hd]; exact List.cons_ne_nil _ _
        have hhead := List.head_dropWhile_not old hne
        simpa [hd] using hhead
      have hsorted : (first :: rest).Pairwise (· ≤ ·) := hd ▸ hordered.sublist (List.dropWhile_sublist old)
      intro time ht
      have hle : first ≤ time := by
        cases List.mem_cons.mp ht with
        | inl he => exact le_of_eq he.symm
        | inr hr => exact (List.pairwise_cons.mp hsorted).1 time hr
      have hyoung : now - first < selection.timeWindow * nanos := by simpa [old] using hfirst
      omega

/-- A request finds as many in the history as in the log, or the bound in both; what it leaves is left of both. -/
theorem observe_left {before : Nat} (hordered : log.Pairwise (· ≤ ·)) (hbefore : before ≤ now)
    (h : Left selection before log w) :
    Left selection now (log ++ [now]) (w.observe now selection.timeWindow) ∧
      ((w.observe now selection.timeWindow).events.length = logCount selection log now + 1 ∨
        maxSlidingEntriesPerKey ≤ (w.observe now selection.timeWindow).events.length ∧
          maxSlidingEntriesPerKey ≤ logCount selection log now) := by
  obtain ⟨dropped, hlog, hdropped⟩ := h
  have hevents : w.events.Pairwise (· ≤ ·) := by
    rw [hlog, List.pairwise_append] at hordered
    exact hordered.2.1
  obtain ⟨aged, hsplit, haged, hyoung⟩ := @prune_split selection w hevents now
  unfold SlidingWindow.observe
  generalize (w.prune now selection.timeWindow).events = young at hsplit hyoung
  simp only
  have hwindow : logCount selection log now = logCount selection dropped now + young.length := by
    rw [hlog, hsplit, logCount_append, logCount_append, logCount_old haged, logCount_young hyoung, Nat.zero_add]
  by_cases hfull : maxSlidingEntriesPerKey ≤ young.length
  · rw [if_pos hfull]
    have hlength : (young.tail ++ [now]).length = young.length := by
      rw [List.length_append, List.length_tail, List.length_singleton]
      have : 0 < maxSlidingEntriesPerKey := by decide
      omega
    refine ⟨⟨dropped ++ aged ++ young.take 1, ?_, .inr ?_⟩, .inr ⟨?_, ?_⟩⟩
    · rw [hlog, hsplit]
      cases young with
      | nil => exact absurd hfull (by decide)
      | cons first rest => simp
    · show maxSlidingEntriesPerKey ≤ (young.tail ++ [now]).length
      rwa [hlength]
    · rwa [hlength]
    · rw [hwindow]
      omega
  · rw [if_neg hfull]
    -- a history that was full has dropped by age what it kept last, so all before it is as old
    have hold : ∀ time ∈ dropped, selection.timeWindow * nanos ≤ now - time := by
      intro time ht
      cases hdropped with
      | inl hdropped =>
        have := hdropped time ht
        omega
      | inr hbound =>
        cases aged with
        | nil =>
          rw [hsplit, List.nil_append] at hbound
          exact absurd hbound hfull
        | cons first rest =>
          rw [hlog, List.pairwise_append] at hordered
          have hle := hordered.2.2 time ht first (by rw [hsplit]; exact List.mem_cons_self)
          have := haged first List.mem_cons_self
          omega
    refine ⟨⟨dropped ++ aged, ?_, .inl ?_⟩, .inl ?_⟩
    · rw [hlog, hsplit]
      simp
    · intro time ht
      cases List.mem_append.mp ht with
      | inl ht => exact hold time ht
      | inr ht => exact haged time ht
    · rw [hwindow, logCount_old hold, List.length_append, List.length_singleton, Nat.zero_add]

/-- What a sweep evicts answers like an empty history, as no window is longer than it is old. -/
theorem observe_of_stale (hordered : w.events.Pairwise (· ≤ ·)) (hwindow : selection.timeWindow ≤ maxWindowSecs)
    (hstale : slidingStale now w = true) :
    w.observe now selection.timeWindow = ({} : SlidingWindow).observe now selection.timeWindow := by
  have hprune : (w.prune now selection.timeWindow).events = [] := by
    refine List.dropWhile_eq_nil_iff.mpr fun time ht => decide_eq_true ?_
    unfold slidingStale at hstale
    cases hlast : w.events.getLast? with
    | none =>
      rw [List.getLast?_eq_none_iff] at hlast
      rw [hlast] at ht
      cases ht
    | some last =>
      simp only [hlast, decide_eq_true_eq] at hstale
      obtain ⟨front, hfront⟩ := List.getLast?_eq_some_iff.mp hlast
      have hle : time ≤ last := by
        rw [hfront] at ht hordered
        cases List.mem_append.mp ht with
        | inl hf => exact (List.pairwise_append.mp hordered).2.2 time hf last List.mem_cons_self
        | inr hl => exact le_of_eq (List.mem_singleton.mp hl)
      have := Nat.mul_le_mul_right nanos hwindow
      omega
  unfold SlidingWindow.observe
  rw [hprune]
  rfl

end

/-! ## All requests -/

/-- Below the bound a limit tells the two counts apart by nothing it reports. -/
theorem report_eq {selection : LimitSelection} (hcount : selection.count < maxSlidingEntriesPerKey) {m n : Nat}
    (h : m = n ∨ maxSlidingEntriesPerKey ≤ m ∧ maxSlidingEntriesPerKey ≤ n) :
    selection.report m = selection.report n := by
  cases h with
  | inl he => rw [he]
  | inr h =>
    have hm : selection.count < m := by omega
    have hn : selection.count < n := by omega
    unfold LimitSelection.report
    rw [decide_eq_true hm, decide_eq_true hn, Nat.sub_eq_zero_of_le hm.le, Nat.sub_eq_zero_of_le hn.le]

theorem serve_eq_of_left {selection : LimitSelection} (hcount : selection.count < maxSlidingEntriesPerKey)
    {times : List Nat} {log : List Nat} {w : SlidingWindow} {before : Nat}
    (hordered : (log ++ times).Pairwise (· ≤ ·)) (hbefore : ∀ time ∈ times, before ≤ time)
    (h : Left selection before log w) : w.serve selection times = logServe (fun _ => true) selection log times := by
  induction times generalizing log w before with
  | nil => rfl
  | cons now times ih =>
    obtain ⟨hlog, htimes, -⟩ := List.pairwise_append.mp hordered
    obtain ⟨hleft, hcounts⟩ := observe_left hlog (hbefore now List.mem_cons_self) h
    have hreport : selection.report (w.observe now selection.timeWindow).events.length =
        selection.report (logCount selection log now + 1) :=
      report_eq hcount (hcounts.imp_right fun h => ⟨h.1, h.2.trans (Nat.le_succ _)⟩)
    have hrest : (log ++ [now] ++ times).Pairwise (· ≤ ·) := by rwa [List.append_assoc, List.singleton_append]
    simp only [SlidingWindow.serve, logServe, hreport, if_true]
    rw [ih hrest (List.pairwise_cons.mp htimes).1 hleft]

/-- For every count below the bound, every window and all requests in order: the history decides and reports like an
unbounded log of the times of all requests, whether they were rejected or not. -/
theorem serve_eq_logServe (selection : LimitSelection) (hcount : selection.count < maxSlidingEntriesPerKey)
    (times : List Nat) (hordered : times.Pairwise (· ≤ ·)) :
    ({} : SlidingWindow).serve selection times = logServe (fun _ => true) selection [] times :=
  @serve_eq_of_left selection hcount times [] {} 0 hordered (fun _ _ => Nat.zero_le _)
    ⟨[], rfl, .inl fun _ h => nomatch h⟩

def oneASecond : LimitSelection := { count := 1, timeWindow := 1, fromRule := false, rule := 0 }

theorem serve_eq_logServe_second : oneASecond.count < maxSlidingEntriesPerKey ∧
    [0, 500000000, 1200000000].Pairwise (fun s t : Nat => s ≤ t) ∧
    ({} : SlidingWindow).serve oneASecond [0, 500000000, 1200000000] =
      logServe (fun _ => true) oneASecond [] [0, 500000000, 1200000000] := by
  have hcount : oneASecond.count < maxSlidingEntriesPerKey := by decide
  have hordered : [0, 500000000, 1200000000].Pairwise (fun s t : Nat => s ≤ t) := by decide
  exact ⟨hcount, hordered, serve_eq_logServe oneASecond hcount [0, 500000000, 1200000000] hordered⟩

/-- A log of the admitted requests lets the third request pass, which a rejected one before it keeps out. -/
theorem rejected_requests_count : ({} : SlidingWindow).serve oneASecond [0, 500000000, 1200000000] =
      [⟨false, 0, 1⟩, ⟨true, 0, 1⟩, ⟨true, 0, 1⟩] ∧
    logServe (fun report => !report.limited) oneASecond [] [0, 500000000, 1200000000] =
      [⟨false, 0, 1⟩, ⟨true, 0, 1⟩, ⟨false, 0, 1⟩] := by decide

end LimitCount

end Pingsix
