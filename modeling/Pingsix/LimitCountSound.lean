import Mathlib.Data.List.Pairwise
import Pingsix.Lib.Sums
import Pingsix.LimitCount
import Pingsix.LimitingSound

/-!
# The sliding window of limit-count

Each history is what is left of the checks recorded in its slot. Where no
check drops another one that is still inside its own window, and no key
changes its slot inside the window of one of its checks, a limit admits at
most its count in any interval of its window.
-/

namespace Pingsix

namespace LimitCount

def Record.window (r : Record) : Nat := r.selection.timeWindow * nanos

/-- The later check drops the earlier one only when it has left its window, and a limit finds the earlier checks of a
key that are inside its window in the same history. -/
structure Undisturbed (p r : Record) : Prop where
  prunes : p.place = r.place → r.window ≤ r.now - p.now → p.window ≤ r.now - p.now
  stays : p.plugin = r.plugin → p.selection = r.selection → p.key = r.key → r.now - p.now < p.window →
    p.place = r.place

structure Follows (p r : Record) : Prop extends Undisturbed p r where
  ordered : p.now ≤ r.now

/-- Some check came when `d` had left its window. -/
def Gone (log : List Record) (d : Record) : Prop := ∃ q ∈ log, d.window ≤ q.now - d.now

theorem Gone.mono {log : List Record} {d : Record} (h : Gone log d) (r : Record) : Gone (log ++ [r]) d := by
  obtain ⟨q, hq, hd⟩ := h
  exact ⟨q, List.mem_append_left _ hq, hd⟩

/-- The checks recorded at a place. -/
def recordedAt (log : List Record) (place : Nat × String) : List Record := log.filter fun p => p.place = place

/-- The history at a place is what is left of its checks. What was dropped has left its window, or the history is at
its bound. -/
structure Kept (log : List Record) (place : Nat × String) (events : List Nat) : Prop where
  left : ∃ dropped kept, recordedAt log place = dropped ++ kept ∧ kept.map (·.now) = events ∧
    ∀ d ∈ dropped, Gone log d ∨ maxSlidingEntriesPerKey ≤ events.length

/-- The checks of `pre` at the place of `r` that are inside their window at `r`. -/
def inWindow (pre : List Record) (r : Record) : Nat :=
  pre.countP fun p => decide (p.place = r.place ∧ r.now - p.now < p.window)

/-- What the store says about its log. -/
structure History (st : Store) : Prop where
  kept : ∀ i slot window, (st.sliding i).entries.lookup slot = some window → Kept st.log (i, slot) window.events
  gone : ∀ i slot, (st.sliding i).entries.lookup slot = none → ∀ d ∈ recordedAt st.log (i, slot), Gone st.log d
  counted : ∀ pre r post, st.log = pre ++ r :: post →
    inWindow pre r + 1 ≤ r.currentCount ∨ maxSlidingEntriesPerKey ≤ r.currentCount

theorem recordedAt_append (log : List Record) (r : Record) (place : Nat × String) :
    recordedAt (log ++ [r]) place = recordedAt log place ++ if r.place = place then [r] else [] := by
  unfold recordedAt
  rw [List.filter_append]
  by_cases h : r.place = place
  · simp [h]
  · simp [h]

theorem mem_recordedAt {log : List Record} {place : Nat × String} {d : Record} :
    d ∈ recordedAt log place ↔ d ∈ log ∧ d.place = place := by
  simp [recordedAt]

/-! ## One history -/

section

variable {log : List Record} {r : Record}

theorem sorted_recordedAt (hp : log.Pairwise Follows) {place : Nat × String} {dropped kept : List Record}
    (h : recordedAt log place = dropped ++ kept) : ∀ d ∈ dropped, ∀ k ∈ kept, d.now ≤ k.now := by
  have hsub : (recordedAt log place).Pairwise Follows := hp.sublist List.filter_sublist
  rw [h, List.pairwise_append] at hsub
  exact fun d hd k hk => (hsub.2.2 d hd k hk).ordered

/-- A check of the same place whose age is the window of `r` has left its own window. -/
theorem gone_of_age (hr : ∀ p ∈ log, Follows p r) {d : Record} (hd : d ∈ recordedAt log r.place)
    (ha : r.window ≤ r.now - d.now) : Gone (log ++ [r]) d := by
  obtain ⟨hm, hplace⟩ := mem_recordedAt.mp hd
  exact ⟨r, List.mem_append_right _ List.mem_cons_self, (hr d hm).prunes hplace ha⟩

/-- What a check leaves of the history at its place. -/
theorem observe_split (hp : log.Pairwise Follows) (hr : ∀ p ∈ log, Follows p r)
    {dropped kept : List Record} {events : List Nat} (hsplit : recordedAt log r.place = dropped ++ kept)
    (hevents : kept.map (·.now) = events)
    (hdropped : ∀ d ∈ dropped, Gone (log ++ [r]) d ∨ maxSlidingEntriesPerKey ≤ events.length) :
    ∃ dropped' kept', recordedAt log r.place = dropped' ++ kept' ∧
      kept'.map (·.now) ++ [r.now] = ((SlidingWindow.mk events).observe r.now r.selection.timeWindow).events ∧
      ∀ d ∈ dropped', Gone (log ++ [r]) d ∨ maxSlidingEntriesPerKey ≤
        ((SlidingWindow.mk events).observe r.now r.selection.timeWindow).events.length := by
  subst hevents
  let old : Record → Bool := fun d => decide (r.window ≤ r.now - d.now)
  have hprune : ((SlidingWindow.mk (kept.map (·.now))).prune r.now r.selection.timeWindow).events =
      (kept.dropWhile old).map (·.now) := by
    unfold SlidingWindow.prune
    rw [List.dropWhile_map]
    rfl
  have hkept : kept = kept.takeWhile old ++ kept.dropWhile old := List.takeWhile_append_dropWhile.symm
  have hold : ∀ d ∈ kept.takeWhile old, r.window ≤ r.now - d.now := fun d hd => by
    simpa [old] using List.mem_takeWhile_imp hd
  generalize hnew : kept.dropWhile old = young at *
  generalize kept.takeWhile old = aged at *
  unfold SlidingWindow.observe
  simp only [hprune]
  by_cases hfull : maxSlidingEntriesPerKey ≤ (young.map (·.now)).length
  · -- the history is at its bound: its oldest check makes room
    simp only [hfull, if_true]
    cases young with
    | nil => exact absurd hfull (by decide)
    | cons x young =>
      refine ⟨dropped ++ aged ++ [x], young, ?_, rfl, fun d _ => .inr ?_⟩
      · rw [hsplit, hkept]
        simp
      · simpa using hfull
  · simp only [hfull, if_false]
    refine ⟨dropped ++ aged, young, by rw [hsplit, hkept, List.append_assoc], rfl, fun d hd => .inl ?_⟩
    rcases List.mem_append.mp hd with hd | hd
    · rcases hdropped d hd with h | h
      · exact h
      · -- the bound was reached before, so this check dropped a later one by its age
        have haged : aged ≠ [] := by
          rintro rfl
          rw [hkept, List.nil_append] at h
          exact hfull h
        obtain ⟨k, hk⟩ := List.exists_mem_of_ne_nil aged haged
        have hle : d.now ≤ k.now :=
          sorted_recordedAt hp hsplit d hd k (by rw [hkept]; exact List.mem_append_left _ hk)
        have hage := hold k hk
        exact gone_of_age hr (by rw [hsplit]; exact List.mem_append_left _ hd) (by omega)
    · refine gone_of_age hr ?_ (hold d hd)
      rw [hsplit, hkept]
      exact List.mem_append_right _ (List.mem_append_left _ hd)

/-- The checks that are inside their window at `r` are still in the history. -/
theorem inWindow_le (hr : ∀ p ∈ log, Follows p r) {dropped kept : List Record} {n : Nat}
    (hsplit : recordedAt log r.place = dropped ++ kept) (hn : kept.length + 1 = n)
    (hdropped : ∀ d ∈ dropped, Gone (log ++ [r]) d ∨ maxSlidingEntriesPerKey ≤ n) :
    inWindow log r + 1 ≤ n ∨ maxSlidingEntriesPerKey ≤ n := by
  by_cases hfull : maxSlidingEntriesPerKey ≤ n
  · exact .inr hfull
  left
  have hcount : inWindow log r = (recordedAt log r.place).countP fun p => decide (r.now - p.now < p.window) := by
    unfold inWindow recordedAt
    rw [List.countP_filter]
    refine List.countP_congr fun p _ => ?_
    simp [and_comm]
  have hzero : (dropped.countP fun p => decide (r.now - p.now < p.window)) = 0 := by
    refine List.countP_eq_zero.mpr fun d hd => ?_
    rcases hdropped d hd with ⟨q, hq, hw⟩ | h
    · have hle : q.now ≤ r.now := by
        rcases List.mem_append.mp hq with hq | hq
        · exact (hr q hq).ordered
        · rw [List.mem_singleton.mp hq]
      simp only [decide_eq_true_eq]
      omega
    · exact absurd h hfull
  rw [hcount, hsplit, List.countP_append, hzero]
  have := List.countP_le_length (p := fun p : Record => decide (r.now - p.now < p.window)) (l := kept)
  omega

/-- A stale history holds only checks that have left every window. -/
theorem gone_of_stale (hp : log.Pairwise Follows)
    (hw : ∀ p ∈ log, p.window ≤ maxWindowSecs * nanos) {place : Nat × String} {window : SlidingWindow}
    (h : Kept log place window.events) (hs : slidingStale r.now window = true) :
    ∀ d ∈ recordedAt log place, Gone (log ++ [r]) d := by
  obtain ⟨dropped, kept, hsplit, hevents, hdropped⟩ := h.left
  unfold slidingStale at hs
  rcases List.eq_nil_or_concat kept with rfl | ⟨front, last, rfl⟩
  · intro d hd
    rw [hsplit, List.append_nil] at hd
    rcases hdropped d hd with h | h
    · exact h.mono r
    · rw [← hevents] at h
      exact absurd h (by decide)
  · rw [← hevents] at hs
    simp only [List.concat_eq_append, List.map_append, List.map_cons, List.map_nil, List.getLast?_append,
      List.getLast?_singleton, Option.some_or, decide_eq_true_eq] at hs
    intro d hd
    have hle : d.now ≤ last.now := by
      have hd' := hd
      rw [hsplit, List.concat_eq_append, ← List.append_assoc] at hd'
      rcases List.mem_append.mp hd' with hd' | hd'
      · have hlast : recordedAt log place = (dropped ++ front) ++ [last] := by
          rw [hsplit, List.concat_eq_append, List.append_assoc]
        exact sorted_recordedAt hp hlast d hd' last List.mem_cons_self
      · rw [List.mem_singleton.mp hd']
    have hwd := hw d (mem_recordedAt.mp hd).1
    exact ⟨r, List.mem_append_right _ List.mem_cons_self, by omega⟩

end

/-! ## One check -/

theorem Kept.mono {log : List Record} {place : Nat × String} {events : List Nat} (h : Kept log place events)
    {r : Record} (hr : r.place ≠ place) : Kept (log ++ [r]) place events := by
  obtain ⟨dropped, kept, hsplit, hevents, hdropped⟩ := h.left
  refine ⟨dropped, kept, ?_, hevents, fun d hd => ?_⟩
  · rw [recordedAt_append, if_neg hr, List.append_nil, hsplit]
  · rcases hdropped d hd with h | h
    · exact .inl (h.mono r)
    · exact .inr h

theorem History.check {hash : String → Nat} {st : Store} (h : History st)
    (hw : ∀ p ∈ st.log, p.window ≤ maxWindowSecs * nanos) (plugin : Nat) (selection : LimitSelection) (key : String)
    (now : Nat)
    (hlog : (st.checkRateLimit hash plugin selection key now).2.log.Pairwise Follows) :
    History (st.checkRateLimit hash plugin selection key now).2 := by
  unfold Store.checkRateLimit at hlog ⊢
  simp only at hlog ⊢
  generalize hi : shardIdx hash key = i at *
  have hswept : ∀ k, Shard.Swept (slidingStale now) (st.sliding i) (slidingWindowFor (st.sliding i) key now).2 k :=
    fun k => Shard.swept_admit _ _ _ _ _ _
  generalize slidingWindowFor (st.sliding i) key now = found at *
  obtain ⟨slot, shard⟩ := found
  simp only at hlog hswept ⊢
  generalize hwin : (shard.entries.lookup slot).getD {} = window at *
  generalize hrec : ({ plugin, selection, key, now, place := (i, slot)
                       currentCount := (window.observe now selection.timeWindow).events.length } : Record) = r at *
  have hplace : r.place = (i, slot) := by rw [← hrec]
  have hnow : r.now = now := by rw [← hrec]
  rw [List.pairwise_append] at hlog
  have hp := hlog.1
  have hr : ∀ p ∈ st.log, Follows p r := fun p hp => hlog.2.2 p hp r List.mem_cons_self
  -- an entry that is not there after the sweep holds nothing that counts
  have hgone : ∀ k, shard.entries.lookup k = none → ∀ d ∈ recordedAt st.log (i, k), Gone (st.log ++ [r]) d := by
    intro k hk d hd
    cases hold : (st.sliding i).entries.lookup k with
    | none => exact (h.gone i k hold d hd).mono r
    | some old =>
      rcases hswept k with hs | ⟨-, w, hw', hstale⟩
      · rw [hk, hold] at hs
        cases hs
      · rw [hold, Option.some.injEq] at hw'
        subst hw'
        exact gone_of_stale hp hw (h.kept i k old hold) (by rw [hnow]; exact hstale) d hd
  have hsplit : ∃ dropped kept, recordedAt st.log r.place = dropped ++ kept ∧ kept.map (·.now) = window.events ∧
      ∀ d ∈ dropped, Gone (st.log ++ [r]) d ∨ maxSlidingEntriesPerKey ≤ window.events.length := by
    rw [hplace]
    cases hl : shard.entries.lookup slot with
    | none =>
      rw [hl] at hwin
      exact ⟨recordedAt st.log (i, slot), [], (List.append_nil _).symm, by rw [← hwin]; rfl,
        fun d hd => .inl (hgone slot hl d hd)⟩
    | some w =>
      rw [hl, Option.getD_some] at hwin
      subst hwin
      obtain ⟨dropped, kept, hs, he, hd⟩ := (h.kept i slot w ((hswept slot).present hl)).left
      refine ⟨dropped, kept, hs, he, fun d hdm => ?_⟩
      rcases hd d hdm with hg | hg
      · exact .inl (hg.mono r)
      · exact .inr hg
  obtain ⟨dropped, kept, hs, he, hd⟩ := hsplit
  obtain ⟨dropped', kept', hs', he', hd'⟩ := observe_split hp hr hs he hd
  have hobs : (SlidingWindow.mk window.events).observe r.now r.selection.timeWindow =
      window.observe now selection.timeWindow := by rw [← hrec]
  rw [hobs] at he' hd'
  have hcount : r.currentCount = (window.observe now selection.timeWindow).events.length := by rw [← hrec]
  constructor
  · intro j k w hl
    by_cases hj : j = i
    · subst hj
      simp only [Function.update_self, Shard.lookup_insert] at hl
      by_cases hk : k = slot
      · subst hk
        rw [if_pos rfl, Option.some.injEq] at hl
        subst hl
        refine ⟨dropped', kept' ++ [r], ?_, ?_, hd'⟩
        · rw [recordedAt_append, if_pos hplace, ← hplace, hs', List.append_assoc]
        · rw [List.map_append, ← he']
          rfl
      · rw [if_neg hk] at hl
        refine (h.kept j k w ((hswept k).present hl)).mono ?_
        rw [hplace]
        simp [Ne.symm hk]
    · simp only [Function.update_of_ne hj] at hl
      refine (h.kept j k w hl).mono ?_
      rw [hplace]
      simp [Ne.symm hj]
  · intro j k hl d hdm
    by_cases hj : j = i
    · subst hj
      simp only [Function.update_self, Shard.lookup_insert] at hl
      by_cases hk : k = slot
      · rw [if_pos hk] at hl
        cases hl
      · rw [if_neg hk] at hl
        rw [recordedAt_append, if_neg (by rw [hplace]; simp [Ne.symm hk]), List.append_nil] at hdm
        exact hgone k hl d hdm
    · simp only [Function.update_of_ne hj] at hl
      rw [recordedAt_append, if_neg (by rw [hplace]; simp [Ne.symm hj]), List.append_nil] at hdm
      exact (h.gone j k hl d hdm).mono r
  · intro pre r0 post hlog
    rcases List.eq_nil_or_concat post with rfl | ⟨front, last, rfl⟩
    · obtain ⟨rfl, hr0⟩ := List.append_inj' hlog rfl
      simp only [List.cons.injEq, and_true] at hr0
      subst hr0
      rw [hcount]
      refine inWindow_le hr hs' ?_ hd'
      rw [← he', List.length_append, List.length_map]
      rfl
    · rw [List.concat_eq_append, ← List.cons_append, ← List.append_assoc] at hlog
      exact h.counted pre r0 front (List.append_inj' hlog rfl).1

/-! ## Runs of checks -/

/-- The limits of an accepted configuration are below the bound of a history, their windows below the longest one. -/
theorem checks_bounded {config : PluginConfig} (ha : config.accepted = true) (hs : config.windowType = .sliding)
    {session : Session} {key : String} {selection : LimitSelection}
    (h : (key, selection) ∈ config.checks session) :
    selection.count < maxSlidingEntriesPerKey ∧ selection.timeWindow ≤ maxWindowSecs := by
  unfold PluginConfig.accepted at ha
  simp only [Bool.and_eq_true] at ha
  obtain ⟨⟨⟨⟨⟨-, hwindow⟩, -⟩, hrules⟩, -⟩, hsliding⟩ := ha
  unfold validateSliding at hsliding
  simp only [hs, ne_eq, not_true_eq_false, decide_false, Bool.false_or, Bool.and_eq_true, List.all_eq_true,
    decide_eq_true_eq, List.mem_append] at hsliding
  have hcounts := hsliding.1.1
  -- the check is for one of the selected limits
  obtain ⟨key', hsel⟩ : ∃ key', (key', selection) ∈ (config.selectLimits session).getD [] := by
    unfold PluginConfig.checks at h
    obtain ⟨⟨key', sel⟩, hm, he⟩ := List.mem_filterMap.mp h
    have hse : sel = selection := by
      by_cases hc : key' = "" ∧ sel.fromRule = false
      · rw [if_pos hc] at he
        by_cases hd : config.keyMissingPolicy = .default
        · rw [if_pos hd, Option.some.injEq] at he
          exact (Prod.mk.inj he).2
        · rw [if_neg hd] at he
          cases he
      · rw [if_neg hc, Option.some.injEq] at he
        exact (Prod.mk.inj he).2
    exact ⟨key', hse ▸ hm⟩
  unfold PluginConfig.selectLimits selectRules at hsel
  by_cases hr : config.rules ≠ []
  · simp only [if_pos hr] at hsel
    split at hsel
    · cases hsel
    · obtain ⟨⟨rule, n⟩, hm, he⟩ := List.mem_filterMap.mp hsel
      have hrule : rule ∈ config.rules := (List.mem_zipIdx hm).2.2 ▸ List.getElem_mem _
      obtain ⟨k, -, hk⟩ := Option.map_eq_some_iff.mp he
      have hse := (Prod.mk.inj hk).2
      have hv := List.all_eq_true.mp hrules rule hrule
      unfold CountRule.validate validateOptionalTimeWindow at hv
      simp only [Bool.and_eq_true, decide_eq_true_eq] at hv
      rw [← hse]
      exact ⟨hcounts rule.count (.inr (List.mem_map_of_mem hrule)), hv.1.2.2⟩
  · rw [if_neg hr] at hsel
    unfold PluginConfig.mainSelection at hsel
    split at hsel
    · rename_i count timeWindow hc ht
      have hse := (Prod.mk.inj (List.mem_singleton.mp hsel)).2
      rw [ht] at hwindow
      unfold validateOptionalTimeWindow at hwindow
      simp only [Option.all_some, Bool.and_eq_true, decide_eq_true_eq] at hwindow
      rw [hse]
      exact ⟨hcounts count (.inl (by rw [hc]; exact List.mem_singleton_self _)), hwindow.2⟩
    · cases hsel

structure Inv (st : Store) : Prop where
  bounded : ∀ p ∈ st.log, p.selection.count < maxSlidingEntriesPerKey ∧ p.selection.timeWindow ≤ maxWindowSecs
  history : st.log.Pairwise Follows → History st

theorem inv_run {hash : String → Nat} {instances : List PluginConfig}
    (ha : ∀ config ∈ instances, config.accepted = true ∧ config.windowType = .sliding) {cs : List Check} {st : Store}
    (run : Run (Step hash instances) Initial cs st) : Inv st := by
  refine run.invariant (I := fun _ t => Inv t) ?_ ?_
  · intro t ht
    rw [ht]
    refine ⟨fun p hp => ?_, fun _ => ⟨fun i slot w h => ?_, fun i slot _ d hd => ?_, fun pre r post h => ?_⟩⟩
    · cases hp
    · cases h
    · cases hd
    · exact absurd h.symm (by simp)
  · intro _ s c s' _ hinv hstep
    cases hstep with
    | @check config hi hc =>
      have hacc := ha _ (List.mem_of_getElem? hi)
      have hlog : (s.checkRateLimit hash c.plugin c.selection c.key c.now).2.log =
          s.log ++ [(s.checkRateLimit hash c.plugin c.selection c.key c.now).1] := rfl
      refine ⟨?_, fun hp => ?_⟩
      · intro p hp
        rw [hlog] at hp
        rcases List.mem_append.mp hp with hp | hp
        · exact hinv.bounded p hp
        · rw [List.mem_singleton.mp hp]
          exact checks_bounded hacc.1 hacc.2 hc
      · have hold := hp
        rw [hlog, List.pairwise_append] at hold
        refine (hinv.history hold.1).check (fun p hp => ?_) _ _ _ _ hp
        exact Nat.mul_le_mul_right nanos (hinv.bounded p hp).2

/-! ## Whole requests -/

section

variable {hash : String → Nat} {instances : List PluginConfig}

theorem enforce_run {config : PluginConfig} {plugin : Nat} (hi : instances[plugin]? = some config) {session : Session}
    (clock : Nat → Nat) (limits : List (String × LimitSelection))
    (hl : ∀ p ∈ limits, if p.1 = "" ∧ p.2.fromRule = false then
      config.keyMissingPolicy = .default → (PluginConfig.defaultKey, p.2) ∈ config.checks session
      else p ∈ config.checks session) (n : Nat) (st : Store) :
    ∃ cs, Run (Step hash instances) (fun t => t = st) cs (config.enforce hash plugin clock n st limits).2 := by
  have hone : ∀ key selection, (key, selection) ∈ config.checks session → ∀ (st : Store) now,
      Run (Step hash instances) (fun t => t = st) ([] ++ [(⟨plugin, session, key, selection, now⟩ : Check)])
        (st.checkRateLimit hash plugin selection key now).2 := by
    intro key selection hc st now
    have hstep : Step hash instances st ⟨plugin, session, key, selection, now⟩
        (st.checkRateLimit hash plugin selection key now).2 := .check ⟨plugin, session, key, selection, now⟩ hi hc
    exact .snoc (.start rfl) hstep
  induction limits generalizing n st with
  | nil => exact ⟨[], .start rfl⟩
  | cons p limits ih =>
    obtain ⟨key, selection⟩ := p
    have hhead := hl (key, selection) List.mem_cons_self
    unfold PluginConfig.enforce
    by_cases hk : key = "" ∧ selection.fromRule = false
    · rw [if_pos hk] at hhead ⊢
      cases hm : config.keyMissingPolicy with
      | allow => exact ⟨[], .start rfl⟩
      | deny => exact ⟨[], .start rfl⟩
      | default => exact ⟨_, hone _ _ (hhead hm) st (clock n)⟩
    · rw [if_neg hk] at hhead ⊢
      have hfirst := hone key selection hhead st (clock n)
      by_cases hlim : (st.checkRateLimit hash plugin selection key (clock n)).1.limited = true
      · simp only [hlim, if_true]
        exact ⟨_, hfirst⟩
      · simp only [hlim]
        obtain ⟨cs, hrest⟩ := ih (fun p hp => hl p (List.mem_cons_of_mem _ hp)) (n + 1)
          (st.checkRateLimit hash plugin selection key (clock n)).2
        exact ⟨_, hfirst.trans hrest⟩

/-- What a request does to the store is a run of its checks. -/
theorem requestFilter_run {config : PluginConfig} {plugin : Nat} (hi : instances[plugin]? = some config) (st : Store)
    (session : Session) (clock : Nat → Nat) :
    ∃ cs, Run (Step hash instances) (fun t => t = st) cs (config.requestFilter hash plugin st session clock).2 := by
  unfold PluginConfig.requestFilter
  cases hs : config.selectLimits session with
  | none => exact ⟨[], .start rfl⟩
  | some limits =>
    refine @enforce_run hash instances config plugin hi session clock limits (fun p hp => ?_) 0 st
    have hm : ∀ q, (if p.1 = "" ∧ p.2.fromRule = false then
        if config.keyMissingPolicy = .default then some (PluginConfig.defaultKey, p.2) else none
        else some p) = some q → q ∈ config.checks session := by
      intro q hq
      unfold PluginConfig.checks
      rw [hs]
      exact List.mem_filterMap.mpr ⟨p, hp, hq⟩
    by_cases hk : p.1 = "" ∧ p.2.fromRule = false
    · rw [if_pos hk]
      exact fun hd => hm _ (by rw [if_pos hk, if_pos hd])
    · rw [if_neg hk]
      exact hm _ (if_neg hk)

/-- Two limits on the client address, with windows of a second and of a minute. -/
def twoWindows : PluginConfig where
  windowType := .sliding
  rules := [{ count := 10, timeWindow := 1, key := "$remote_addr" },
    { count := 2, timeWindow := 60, key := "$\x7bremote_addr\x7d" }]

def clientSession : Session where
  resolve _ := "10.0.0.1"
  header _ := ""
  cookie _ := ""

/-- One request of the client at each instant. -/
def requestsAt (config : PluginConfig) (instants : List Nat) : Store :=
  instants.foldl (fun st now => (config.requestFilter (fun _ => 0) 0 st clientSession fun _ => now).2) {}

theorem requestsAt_run (config : PluginConfig) (instants : List Nat) :
    ∃ cs, Run (Step (fun _ => 0) [config]) Initial cs (requestsAt config instants) := by
  unfold requestsAt
  suffices h : ∀ st : Store, ∃ cs, Run (Step (fun _ => 0) [config]) (fun t => t = st) cs (instants.foldl (fun st now =>
      (config.requestFilter (fun _ => 0) 0 st clientSession fun _ => now).2) st) from h {}
  induction instants with
  | nil => exact fun st => ⟨[], .start rfl⟩
  | cons now instants ih =>
    intro st
    obtain ⟨cs, hfirst⟩ := @requestFilter_run (fun _ => 0) [config] config 0 rfl st clientSession
      fun _ => now
    obtain ⟨cs', hrest⟩ := ih (config.requestFilter (fun _ => 0) 0 st clientSession fun _ => now).2
    exact ⟨cs ++ cs', hfirst.trans hrest⟩

end

/-! ## The bound -/

/-- The checks a limit admitted for a key in an interval of its window. -/
def admittedIn (log : List Record) (plugin : Nat) (selection : LimitSelection) (key : String) (start : Nat) : Nat :=
  log.countP fun r => decide (r.plugin = plugin ∧ r.selection = selection ∧ r.key = key ∧ r.limited = false ∧
    start ≤ r.now ∧ r.now < start + selection.timeWindow * nanos)

/-- In every run whose checks come in order and disturb none of each other's windows, a limit admits at most its count
of requests with one key in any interval of its window. -/
theorem admitted_le_count {hash : String → Nat} {instances : List PluginConfig}
    (ha : ∀ config ∈ instances, config.accepted = true ∧ config.windowType = .sliding) {cs : List Check} {st : Store}
    (run : Run (Step hash instances) Initial cs st) (ht : st.log.Pairwise fun p r => p.now ≤ r.now)
    (hu : st.log.Pairwise Undisturbed) (plugin : Nat) (selection : LimitSelection) (key : String) (start : Nat) :
    admittedIn st.log plugin selection key start ≤ selection.count := by
  have hinv := inv_run ha run
  have hp : st.log.Pairwise Follows := (ht.and hu).imp fun h => ⟨h.2, h.1⟩
  unfold admittedIn
  by_cases hpos : 0 < st.log.countP fun r => decide (r.plugin = plugin ∧ r.selection = selection ∧ r.key = key ∧
      r.limited = false ∧ start ≤ r.now ∧ r.now < start + selection.timeWindow * nanos)
  · obtain ⟨pre, r, post, hlog, hr, hcount⟩ := Sums.exists_last hpos
    simp only [decide_eq_true_eq] at hr
    obtain ⟨hplugin, hsel, hkey, hlim, hge, hlt⟩ := hr
    rw [hcount]
    -- the checks counted before `r` are inside their window there
    have hle : (pre.countP fun r => decide (r.plugin = plugin ∧ r.selection = selection ∧ r.key = key ∧
        r.limited = false ∧ start ≤ r.now ∧ r.now < start + selection.timeWindow * nanos)) ≤ inWindow pre r := by
      refine List.countP_mono_left fun p hpm hpp => ?_
      simp only [decide_eq_true_eq] at hpp ⊢
      obtain ⟨hp1, hp2, hp3, -, hp5, -⟩ := hpp
      have hwin : p.window = selection.timeWindow * nanos := by rw [Record.window, hp2]
      rw [← hwin] at hlt
      have hage : r.now - p.now < p.window := by omega
      rw [hlog] at hu
      have hpr := (List.pairwise_append.mp hu).2.2 p hpm r List.mem_cons_self
      exact ⟨hpr.stays (hp1.trans hplugin.symm) (hp2.trans hsel.symm) (hp3.trans hkey.symm) hage, hage⟩
    have hbound := (hinv.bounded r (by rw [hlog]; simp)).1
    have hadmitted : r.currentCount ≤ r.selection.count := by
      unfold Record.limited at hlim
      simpa using hlim
    rw [hsel] at hbound hadmitted
    rcases (hinv.history hp).counted pre r post hlog with h | h
    · omega
    · omega
  · omega

/-- A request a second after another one of the same client, under a limit of one a minute. -/
theorem admitted_le_count_client :
    admittedIn (requestsAt { windowType := .sliding, count := some 1, timeWindow := some 60 } [0, nanos]).log 0
      { count := 1, timeWindow := 60, fromRule := false, rule := 0 } "10.0.0.1" 0 ≤ 1 := by
  obtain ⟨cs, run⟩ := requestsAt_run { windowType := .sliding, count := some 1, timeWindow := some 60 } [0, nanos]
  have hlog : (requestsAt { windowType := .sliding, count := some 1, timeWindow := some 60 } [0, nanos]).log =
      [⟨0, ⟨1, 60, false, 0⟩, "10.0.0.1", 0, (0, "10.0.0.1"), 1⟩,
        ⟨0, ⟨1, 60, false, 0⟩, "10.0.0.1", nanos, (0, "10.0.0.1"), 2⟩] := rfl
  refine admitted_le_count ?_ run ?_ ?_ 0 { count := 1, timeWindow := 60, fromRule := false, rule := 0 } "10.0.0.1" 0
  · intro config hc
    rw [List.mem_singleton.mp hc]
    exact ⟨rfl, rfl⟩
  · rw [hlog]
    exact List.pairwise_pair.mpr (Nat.zero_le _)
  · rw [hlog]
    exact List.pairwise_pair.mpr ⟨fun _ h => absurd h (by decide), fun _ _ _ _ => rfl⟩

/-- Where two limits share a history, the short window makes the long one admit three requests instead of two. -/
theorem shared_history_forgets : ¬ ∀ (hash : String → Nat) (instances : List PluginConfig) (cs : List Check)
    (st : Store), (∀ config ∈ instances, config.accepted = true ∧ config.windowType = .sliding) →
    Run (Step hash instances) Initial cs st → (st.log.Pairwise fun p r => p.now ≤ r.now) →
    ∀ plugin selection key start, admittedIn st.log plugin selection key start ≤ selection.count := by
  intro hall
  obtain ⟨cs, run⟩ := requestsAt_run twoWindows [0, 2 * nanos, 4 * nanos]
  have haccepted : ∀ config ∈ [twoWindows], config.accepted = true ∧ config.windowType = .sliding := by
    intro config hc
    rw [List.mem_singleton.mp hc]
    exact ⟨rfl, rfl⟩
  have hnow : (requestsAt twoWindows [0, 2 * nanos, 4 * nanos]).log.map (·.now) =
      [0, 0, 2 * nanos, 2 * nanos, 4 * nanos, 4 * nanos] := rfl
  have hordered : (requestsAt twoWindows [0, 2 * nanos, 4 * nanos]).log.Pairwise fun p r => p.now ≤ r.now := by
    have hsorted : ((requestsAt twoWindows [0, 2 * nanos, 4 * nanos]).log.map (·.now)).Pairwise (· ≤ ·) := by
      rw [hnow]
      decide
    exact List.pairwise_map.mp hsorted
  have hbound := hall _ _ cs _ haccepted run hordered 0 { count := 2, timeWindow := 60, fromRule := true, rule := 1 }
    "10.0.0.1" 0
  have hthree : admittedIn (requestsAt twoWindows [0, 2 * nanos, 4 * nanos]).log 0
      { count := 2, timeWindow := 60, fromRule := true, rule := 1 } "10.0.0.1" 0 = 3 := rfl
  rw [hthree] at hbound
  exact absurd hbound (by decide)

end LimitCount

end Pingsix
