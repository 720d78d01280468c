import Mathlib.Data.List.Perm.Basic
import Pingsix.Selection

/-!
# Soundness of the grouped cursor

What the cursor still has to yield is one list, which every round keeps and every
yield shortens. At the start it is the groups' orders one after the other: what a
group's iterator offers first, then the members it did not offer.
-/

namespace Pingsix

variable {BS : BackendSelection}

/-! ## The order of a group -/

/-- What the first draws from an iterator offer, until one offers nothing. -/
def BackendSelection.offers (BS : BackendSelection) : Nat → BS.Iter → List Backend
  | 0, _ => []
  | n + 1, inner =>
    match BS.next inner with
    | (none, _) => []
    | (some backend, inner) => backend :: offers BS n inner

/-- The members offered, each where it was offered first. -/
def BackendSet.firstOffers (set : BackendSet) (offered : List Backend) : List Nat :=
  (offered.filterMap set.binarySearch).eraseDups

/-- The members offered within the draw budget, then the others in the order of the set. -/
def groupIndices (BS : BackendSelection) (set : BackendSet) (inner : BS.Iter) : List Nat :=
  let first := set.firstOffers (BS.offers (groupDrawBudget set.backends.length) inner)
  first ++ (List.range set.backends.length).filter (· ∉ first)

def groupOrder (BS : BackendSelection) (key : List UInt8) (selector : BS.Selector) (set : BackendSet) : List Backend :=
  (groupIndices BS set (BS.iter selector key)).filterMap (set.backends[·]?)

theorem binarySearch_lt {set : BackendSet} {backend : Backend} {i : Nat} (h : set.binarySearch backend = some i) :
    i < set.backends.length := (List.findIdx?_eq_some_iff_getElem.mp h).1

theorem mem_firstOffers {set : BackendSet} {offered : List Backend} {i : Nat} (h : i ∈ set.firstOffers offered) :
    i < set.backends.length := by
  unfold BackendSet.firstOffers at h
  rw [List.mem_eraseDups, List.mem_filterMap] at h
  obtain ⟨backend, -, hb⟩ := h
  exact binarySearch_lt hb

theorem filterMap_getElem?_range {α : Type} : ∀ l : List α, (List.range l.length).filterMap (l[·]?) = l
  | [] => rfl
  | a :: l => by
    rw [List.length_cons, List.range_succ_eq_map]
    simp only [List.filterMap_cons, List.getElem?_cons_zero, List.filterMap_map]
    exact congrArg (a :: ·) (filterMap_getElem?_range l)

theorem nodup_eraseDups {α : Type} [BEq α] [LawfulBEq α] (l : List α) : l.eraseDups.Nodup := by
  induction hn : l.length using Nat.strong_induction_on generalizing l with
  | _ n ih =>
    cases l with
    | nil => simp
    | cons a l =>
      rw [List.eraseDups_cons, List.nodup_cons, List.mem_eraseDups]
      refine ⟨by simp, ih _ ?_ _ rfl⟩
      rw [← hn]
      exact Nat.lt_succ_of_le (List.length_filter_le _ _)

/-- Every member stands in the order of its group exactly once. -/
theorem perm_groupOrder (key : List UInt8) (selector : BS.Selector) (set : BackendSet) :
    (groupOrder BS key selector set).Perm set.backends := by
  have hindices : (groupIndices BS set (BS.iter selector key)).Perm (List.range set.backends.length) := by
    unfold groupIndices
    set first := set.firstOffers (BS.offers (groupDrawBudget set.backends.length) (BS.iter selector key)) with hfirst
    refine (List.perm_ext_iff_of_nodup ?_ List.nodup_range).mpr fun i => ?_
    · refine List.Nodup.append (nodup_eraseDups _) (List.nodup_range.filter _) ?_
      intro i hi hi'
      have := (List.mem_filter.mp hi').2
      simp [hi] at this
    · rw [List.mem_append, List.mem_filter, List.mem_range]
      constructor
      · rintro (hi | hi)
        · exact mem_firstOffers hi
        · exact hi.1
      · intro hi
        by_cases hf : i ∈ first
        · exact .inl hf
        · exact .inr ⟨hi, by simpa using hf⟩
  unfold groupOrder
  refine (hindices.filterMap _).trans (List.Perm.of_eq ?_)
  exact filterMap_getElem?_range set.backends

/-! ## What a cursor still has to yield -/

namespace GroupedCursor

/-- The members among those offered that were not yielded yet. -/
def fresh (set : BackendSet) (yielded : List Nat) (offered : List Backend) : List Nat :=
  ((offered.filterMap set.binarySearch).filter (· ∉ yielded)).eraseDups

/-- The indices to come first, then those from `next` on that are not among them. -/
def followed (len next : Nat) (yielded first : List Nat) : List Nat :=
  first ++ (List.range' next (len - next)).filter fun i => i ∉ yielded ∧ i ∉ first

/-- The backends the iterator of the group will offer within the budget. -/
def upcoming (group : PriorityGroup BS) (c : GroupedCursor BS) : List Backend :=
  c.inner.elim [] (BS.offers (groupDrawBudget group.backends.backends.length - c.drawn))

/-- The indices of an entered group still to be yielded, when those of the list were. -/
def pending (group : PriorityGroup BS) (c : GroupedCursor BS) (yielded : List Nat) : List Nat :=
  followed group.backends.backends.length c.next yielded (fresh group.backends yielded (c.upcoming group))

/-- The indices of the current group still to be yielded. -/
def Current (group : PriorityGroup BS) (c : GroupedCursor BS) (indices : List Nat) : Prop :=
  if c.seen.isEmpty then indices = groupIndices BS group.backends (BS.iter group.selector c.key)
  else ∃ yielded, Bitset.Holds group.backends.backends.length c.seen yielded ∧
    c.next ≤ group.backends.backends.length ∧ indices = c.pending group yielded

/-- The orders of the groups one after the other. -/
def orderOf (key : List UInt8) (groups : List (PriorityGroup BS)) : List Backend :=
  groups.flatMap fun group => groupOrder BS key group.selector group.backends

/-- The backends still to be yielded. -/
def Remaining (c : GroupedCursor BS) (rest : List Backend) : Prop :=
  match c.grouped.groups[c.group]? with
  | none => rest = []
  | some group =>
    ∃ indices, c.Current group indices ∧
      rest = indices.filterMap (group.backends.backends[·]?) ++ orderOf c.key (c.grouped.groups.drop (c.group + 1))

theorem current_enter {group : PriorityGroup BS} {c : GroupedCursor BS} {indices : List Nat}
    (h : c.Current group indices) : ∃ yielded,
      Bitset.Holds group.backends.backends.length (c.enter group).seen yielded ∧
        (c.enter group).next ≤ group.backends.backends.length ∧ indices = (c.enter group).pending group yielded := by
  unfold Current at h
  unfold enter
  split at h
  · rename_i hs
    rw [if_pos hs]
    refine ⟨[], Bitset.holds_zeros _, Nat.zero_le _, h.trans ?_⟩
    simp [groupIndices, pending, followed, upcoming, fresh, BackendSet.firstOffers, List.range_eq_range']
  · rename_i hs
    rw [if_neg hs]
    exact h

theorem fresh_nil (set : BackendSet) (yielded : List Nat) : fresh set yielded [] = [] := by simp [fresh]

theorem fresh_cons_none {set : BackendSet} {yielded : List Nat} {backend : Backend} {offered : List Backend}
    (h : set.binarySearch backend = none) : fresh set yielded (backend :: offered) = fresh set yielded offered := by
  simp [fresh, h]

theorem fresh_cons_yielded {set : BackendSet} {yielded : List Nat} {backend : Backend} {offered : List Backend} {i : Nat}
    (h : set.binarySearch backend = some i) (hy : i ∈ yielded) :
    fresh set yielded (backend :: offered) = fresh set yielded offered := by
  simp [fresh, h, hy]

theorem fresh_cons {set : BackendSet} {yielded : List Nat} {backend : Backend} {offered : List Backend} {i : Nat}
    (h : set.binarySearch backend = some i) (hy : i ∉ yielded) :
    fresh set yielded (backend :: offered) = i :: fresh set (i :: yielded) offered := by
  unfold fresh
  rw [List.filterMap_cons_some h, List.filter_cons_of_pos (by simpa using hy), List.eraseDups_cons, List.filter_filter]
  congr 3
  funext j
  by_cases hj : j = i
  · simp [hj]
  · simp [hj]

theorem followed_cons {len next i : Nat} {yielded first : List Nat} :
    followed len next yielded (i :: first) = i :: followed len next (i :: yielded) first := by
  unfold followed
  rw [List.cons_append]
  congr 2
  refine List.filter_congr fun j _ => ?_
  simp only [List.mem_cons, not_or, decide_eq_decide]
  tauto

/-! ## Rounds -/

/-- What a round does to what is still to be yielded. -/
def RoundSpec (rest : List Backend) : Round BS → Prop
  | .yield backend c => backend = rest.head? ∧ c.Remaining rest.tail
  | .again c => c.Remaining rest

/-- A cursor about to enter the next group has the orders of the groups from there on to yield. -/
theorem remaining_of_left {c : GroupedCursor BS} (hs : c.seen = []) :
    c.Remaining (orderOf c.key (c.grouped.groups.drop c.group)) := by
  unfold Remaining
  cases hg : c.grouped.groups[c.group]? with
  | none =>
    dsimp only
    rw [List.drop_of_length_le (List.getElem?_eq_none_iff.mp hg)]
    rfl
  | some group =>
    obtain ⟨hlt, hget⟩ := List.getElem?_eq_some_iff.mp hg
    refine ⟨groupIndices BS group.backends (BS.iter group.selector c.key), ?_, ?_⟩
    · unfold Current
      rw [if_pos (by simp [hs])]
    · rw [List.drop_eq_getElem_cons hlt, hget]
      rfl

theorem pending_drawn {group : PriorityGroup BS} {c : GroupedCursor BS} {yielded : List Nat}
    (h : groupDrawBudget group.backends.backends.length ≤ c.drawn) : c.pending group yielded =
      (List.range' c.next (group.backends.backends.length - c.next)).filter fun i => i ∉ yielded := by
  have hnil : c.upcoming group = [] := by
    unfold upcoming
    rw [Nat.sub_eq_zero_of_le h]
    cases c.inner <;> rfl
  unfold pending followed
  rw [hnil, fresh_nil]
  simp

/-- A cursor inside a group, with the indices it still has to yield there. -/
structure Inside (group : PriorityGroup BS) (c : GroupedCursor BS) (yielded : List Nat) : Prop where
  current : c.grouped.groups[c.group]? = some group
  holds : Bitset.Holds group.backends.backends.length c.seen yielded
  next_le : c.next ≤ group.backends.backends.length

theorem Inside.remaining {group : PriorityGroup BS} {c : GroupedCursor BS} {yielded : List Nat}
    (h : c.Inside group yielded) {rest : List Backend} (hr : rest =
      (c.pending group yielded).filterMap (group.backends.backends[·]?) ++
        orderOf c.key (c.grouped.groups.drop (c.group + 1))) : c.Remaining rest := by
  have hs : c.seen.isEmpty = false := by
    simpa using h.holds.ne_nil (List.length_pos_iff.mpr group.nonempty)
  unfold Remaining
  rw [h.current]
  refine ⟨c.pending group yielded, ?_, hr⟩
  unfold Current
  rw [if_neg (by simp [hs])]
  exact ⟨yielded, h.holds, h.next_le, rfl⟩

/-- Yielding a pending index leaves the others. -/
theorem yield_spec {group : PriorityGroup BS} {c c' : GroupedCursor BS} {yielded : List Nat} {i : Nat}
    (h' : c'.Inside group (i :: yielded)) (hi : i < group.backends.backends.length)
    (hp : c.pending group yielded = i :: c'.pending group (i :: yielded)) (hk : c'.key = c.key)
    (hg : c'.grouped = c.grouped) (hgr : c'.group = c.group) :
    RoundSpec ((c.pending group yielded).filterMap (group.backends.backends[·]?) ++
      orderOf c.key (c.grouped.groups.drop (c.group + 1))) (.yield group.backends.backends[i]? c') := by
  have he : group.backends.backends[i]? = some group.backends.backends[i] := List.getElem?_eq_getElem hi
  rw [hp]
  simp only [List.filterMap_cons, he, List.cons_append]
  exact ⟨rfl, h'.remaining (by rw [hk, hg, hgr]; rfl)⟩

/-- Going on inside the group with the same pending indices. -/
theorem again_spec {group : PriorityGroup BS} {c c' : GroupedCursor BS} {yielded : List Nat}
    (h' : c'.Inside group yielded) (hp : c'.pending group yielded = c.pending group yielded) (hk : c'.key = c.key)
    (hg : c'.grouped = c.grouped) (hgr : c'.group = c.group) :
    RoundSpec ((c.pending group yielded).filterMap (group.backends.backends[·]?) ++
      orderOf c.key (c.grouped.groups.drop (c.group + 1))) (.again c') :=
  h'.remaining (by rw [hp, hk, hg, hgr])

theorem draw_spec {group : PriorityGroup BS} {c : GroupedCursor BS} {yielded : List Nat} (h : c.Inside group yielded)
    (hd : c.drawn < groupDrawBudget group.backends.backends.length) :
    RoundSpec ((c.pending group yielded).filterMap (group.backends.backends[·]?) ++
      orderOf c.key (c.grouped.groups.drop (c.group + 1))) (c.draw group) := by
  have hbudget : groupDrawBudget group.backends.backends.length - c.drawn =
      (groupDrawBudget group.backends.backends.length - (c.drawn + 1)) + 1 := by omega
  -- The indices to come depend on the iterator through what it will offer only.
  have hpending : ∀ {c' : GroupedCursor BS}, c'.next = c.next →
      fresh group.backends yielded (c'.upcoming group) = fresh group.backends yielded (c.upcoming group) →
        c'.pending group yielded = c.pending group yielded := by
    intro c' hn hf
    unfold pending
    rw [hn, hf]
  unfold draw
  cases hi : c.inner with
  | none =>
    refine again_spec ⟨h.current, h.holds, h.next_le⟩ (hpending rfl ?_) rfl rfl rfl
    simp [upcoming, hi]
  | some inner =>
    simp only [Option.map_some]
    cases hn : BS.next inner with
    | mk offered inner' =>
      cases offered with
      | none =>
        have hupcoming : c.upcoming group = [] := by
          simp [upcoming, hi, hbudget, BackendSelection.offers, hn]
        refine again_spec ⟨h.current, h.holds, h.next_le⟩ (hpending rfl ?_) rfl rfl rfl
        rw [hupcoming]
        simp [upcoming, BackendSelection.offers]
      | some backend =>
        have hupcoming : c.upcoming group =
            backend :: ({ c with inner := some inner', drawn := c.drawn + 1 } : GroupedCursor BS).upcoming group := by
          simp [upcoming, hi, hbudget, BackendSelection.offers, hn]
        dsimp only
        cases hb : group.backends.binarySearch backend with
        | none =>
          refine again_spec ⟨h.current, h.holds, h.next_le⟩ (hpending rfl ?_) rfl rfl rfl
          rw [hupcoming, fresh_cons_none hb]
        | some i =>
          have hlt := binarySearch_lt hb
          dsimp only
          by_cases hm : Bitset.marked c.seen i = true
          · rw [if_pos hm]
            have hy := (h.holds.marked i hlt).mp hm
            refine again_spec ⟨h.current, h.holds, h.next_le⟩ (hpending rfl ?_) rfl rfl rfl
            rw [hupcoming, fresh_cons_yielded hb hy]
          · rw [if_neg hm]
            have hy : i ∉ yielded := fun hy => hm ((h.holds.marked i hlt).mpr hy)
            refine yield_spec ⟨h.current, h.holds.mark hlt, h.next_le⟩ hlt ?_ rfl rfl rfl
            unfold pending
            rw [hupcoming, fresh_cons hb hy]
            exact followed_cons

/-- What the enumeration finds splits the indices not yielded. -/
theorem uncovered_spec {len : Nat} {seen : List (BitVec 64)} {yielded : List Nat} (h : Bitset.Holds len seen yielded) :
    ∀ {n next : Nat}, next + n = len →
      match uncovered seen next n with
      | none => ((List.range' next n).filter fun i => i ∉ yielded) = []
      | some i => i < len ∧ ((List.range' next n).filter fun i => i ∉ yielded) =
          i :: (List.range' (i + 1) (len - (i + 1))).filter fun j => j ∉ i :: yielded
  | 0, _, _ => by simp [uncovered]
  | n + 1, next, hle => by
    rw [uncovered, List.range'_succ]
    have hm := h.marked next (by omega)
    by_cases hy : next ∈ yielded
    · rw [if_pos (hm.mpr hy), List.filter_cons_of_neg (by simpa using hy)]
      exact uncovered_spec h (by omega)
    · rw [if_neg (fun hm' => hy (hm.mp hm')), List.filter_cons_of_pos (by simpa using hy)]
      refine ⟨by omega, ?_⟩
      rw [show len - (next + 1) = n by omega]
      congr 1
      refine List.filter_congr fun j hj => ?_
      have hne : j ≠ next := by
        have := (List.mem_range'_1.mp hj).1
        omega
      simp [hne]

theorem cover_spec {group : PriorityGroup BS} {c : GroupedCursor BS} {yielded : List Nat} (h : c.Inside group yielded)
    (hd : groupDrawBudget group.backends.backends.length ≤ c.drawn) :
    RoundSpec ((c.pending group yielded).filterMap (group.backends.backends[·]?) ++
      orderOf c.key (c.grouped.groups.drop (c.group + 1))) (c.cover group) := by
  have hspec := uncovered_spec h.holds
    (show c.next + (group.backends.backends.length - c.next) = group.backends.backends.length by have := h.next_le; omega)
  unfold cover
  split at hspec
  · rename_i hu
    rw [hu, pending_drawn hd, hspec]
    exact remaining_of_left rfl
  · rename_i i hu
    rw [hu]
    refine yield_spec ⟨h.current, h.holds.mark hspec.1, hspec.1⟩ hspec.1 ?_ rfl rfl rfl
    rw [pending_drawn hd, hspec.2]
    let c' : GroupedCursor BS := { c with next := i + 1, seen := Bitset.mark c.seen i }
    exact congrArg (i :: ·) (@pending_drawn _ group c' (i :: yielded) hd).symm

theorem round_spec {c : GroupedCursor BS} {rest : List Backend} (h : c.Remaining rest) : RoundSpec rest c.round := by
  unfold round
  cases hg : c.grouped.groups[c.group]? with
  | none =>
    have hrest : rest = [] := by
      unfold Remaining at h
      rwa [hg] at h
    rw [hrest] at h ⊢
    exact ⟨rfl, h⟩
  | some group =>
    unfold Remaining at h
    rw [hg] at h
    obtain ⟨indices, hc, rfl⟩ := h
    obtain ⟨yielded, hholds, hnext, rfl⟩ := current_enter hc
    have hsame : (c.enter group).grouped = c.grouped ∧ (c.enter group).group = c.group ∧ (c.enter group).key = c.key := by
      unfold enter
      split <;> exact ⟨rfl, rfl, rfl⟩
    have hinside : (c.enter group).Inside group yielded := ⟨by rw [hsame.1, hsame.2.1, hg], hholds, hnext⟩
    rw [← hsame.1, ← hsame.2.1, ← hsame.2.2]
    dsimp only
    split
    · rename_i hd
      exact draw_spec hinside hd
    · rename_i hd
      exact cover_spec hinside (Nat.le_of_not_lt hd)

theorem advance_yield {c c' : GroupedCursor BS} {backend : Option Backend} (h : c.round = .yield backend c') :
    c.advance = (backend, c') := by
  rw [advance]
  split
  · rename_i heq
    rw [heq] at h
    cases h
    rfl
  · rename_i heq
    rw [heq] at h
    cases h

theorem advance_again {c c' : GroupedCursor BS} (h : c.round = .again c') : c.advance = c'.advance := by
  rw [advance]
  split
  · rename_i heq
    rw [heq] at h
    cases h
  · rename_i heq
    rw [heq] at h
    cases h
    rfl

theorem advance_spec {c : GroupedCursor BS} {rest : List Backend} (h : c.Remaining rest) :
    c.advance.1 = rest.head? ∧ c.advance.2.Remaining rest.tail := by
  induction c using advance.induct with
  | case1 c backend c' hr =>
    have hspec := round_spec h
    rw [hr] at hspec
    rw [advance_yield hr]
    exact hspec
  | case2 c c' hr ih =>
    have hspec := round_spec h
    rw [hr] at hspec
    rw [advance_again hr]
    exact ih hspec

end GroupedCursor

/-! ## Main result -/

/-- What the `n`th of the calls after each other returns. -/
def PriorityGroupedIter.nth : Nat → PriorityGroupedIter BS → Option Backend
  | 0, it => it.next.1
  | n + 1, it => nth n it.next.2

theorem nth_grouped {rest : List Backend} : ∀ {n : Nat} {c : GroupedCursor BS}, c.Remaining rest →
    (PriorityGroupedIter.grouped c).nth n = rest[n]?
  | 0, c, h => by
    rw [← List.head?_eq_getElem?]
    exact (GroupedCursor.advance_spec h).1
  | n + 1, c, h => by
    rw [← List.getElem?_tail]
    exact nth_grouped (GroupedCursor.advance_spec h).2

/-- The orders of the priorities of a set, the highest first; each is a function of the members of that priority. -/
def priorityOrder (BS : BackendSelection) (key : List UInt8) (set : BackendSet) : List Backend :=
  set.priorities.flatMap fun priority =>
    groupOrder BS key (BS.build (set.atPriority priority)) (set.atPriority priority)

theorem orderOf_groupByPriority (key : List UInt8) (set : BackendSet) :
    GroupedCursor.orderOf key (PriorityGrouped.groupByPriority set : PriorityGrouped BS).groups = priorityOrder BS key set := by
  unfold GroupedCursor.orderOf PriorityGrouped.groupByPriority priorityOrder
  rw [List.flatMap_def, List.map_pmap, List.flatMap_def]
  dsimp only
  rw [List.pmap_eq_map]

theorem mem_groupOrder {key : List UInt8} {set : BackendSet} {priority : Int} {backend : Backend} :
    backend ∈ groupOrder BS key (BS.build (set.atPriority priority)) (set.atPriority priority) ↔
      backend ∈ set.backends ∧ backend.priority = priority := by
  rw [(perm_groupOrder _ _ _).mem_iff]
  unfold BackendSet.atPriority
  simp

theorem nodup_backends (set : BackendSet) : set.backends.Nodup := List.Nodup.of_map _ set.nodup

theorem perm_priorityOrder (key : List UInt8) (set : BackendSet) : (priorityOrder BS key set).Perm set.backends := by
  refine (List.perm_ext_iff_of_nodup ?_ (nodup_backends set)).mpr fun backend => ?_
  · unfold priorityOrder
    refine List.nodup_flatMap.mpr ⟨fun priority _ => ?_, ?_⟩
    · exact (perm_groupOrder _ _ _).nodup_iff.mpr (nodup_backends _)
    · have hnodup : set.priorities.Nodup := (List.perm_insertionSort _ _).nodup_iff.mpr (List.nodup_dedup _)
      refine hnodup.imp fun hne => ?_
      intro backend hb hb'
      exact hne ((mem_groupOrder.mp hb).2.symm.trans (mem_groupOrder.mp hb').2)
  · unfold priorityOrder
    rw [List.mem_flatMap]
    constructor
    · rintro ⟨priority, -, hb⟩
      exact (mem_groupOrder.mp hb).1
    · intro hb
      exact ⟨backend.priority, BackendSet.mem_priorities.mpr ⟨backend, hb, rfl⟩, mem_groupOrder.mpr ⟨hb, rfl⟩⟩

theorem priorityOrder_pairwise (key : List UInt8) (set : BackendSet) :
    (priorityOrder BS key set).Pairwise fun a b => b.priority ≤ a.priority := by
  unfold priorityOrder
  refine List.pairwise_flatMap.mpr ⟨fun priority _ => ?_, ?_⟩
  · refine List.pairwise_of_forall_mem_list fun a ha b hb => ?_
    rw [(mem_groupOrder.mp ha).2, (mem_groupOrder.mp hb).2]
  · refine (List.pairwise_insertionSort _ _).imp fun hle a ha b hb => ?_
    rw [(mem_groupOrder.mp ha).2, (mem_groupOrder.mp hb).2]
    exact hle

theorem filter_priorityOrder (key : List UInt8) (set : BackendSet) (priority : Int) :
    (priorityOrder BS key set).filter (·.priority = priority) =
      groupOrder BS key (BS.build (set.atPriority priority)) (set.atPriority priority) := by
  have own : ∀ q, (groupOrder BS key (BS.build (set.atPriority q)) (set.atPriority q)).filter (·.priority = priority) =
      if q = priority then groupOrder BS key (BS.build (set.atPriority q)) (set.atPriority q) else [] := by
    intro q
    split
    · rename_i hq
      exact List.filter_eq_self.mpr fun backend hb => by simpa using (mem_groupOrder.mp hb).2.trans hq
    · rename_i hq
      exact List.filter_eq_nil_iff.mpr fun backend hb => by simpa using fun hp => hq ((mem_groupOrder.mp hb).2.symm.trans hp)
  have hnodup : set.priorities.Nodup := (List.perm_insertionSort _ _).nodup_iff.mpr (List.nodup_dedup _)
  unfold priorityOrder
  rw [List.filter_flatMap]
  simp only [own]
  by_cases hm : priority ∈ set.priorities
  · obtain ⟨before, after, hsplit⟩ := List.append_of_mem hm
    rw [hsplit] at hnodup ⊢
    have hnil : ∀ qs : List Int, priority ∉ qs → (qs.flatMap fun q =>
        if q = priority then groupOrder BS key (BS.build (set.atPriority q)) (set.atPriority q) else []) = [] := by
      intro qs hqs
      refine List.flatMap_eq_nil_iff.mpr fun q hq => ?_
      have hne : q ≠ priority := fun he => hqs (he ▸ hq)
      exact if_neg hne
    obtain ⟨-, hafter, hdisjoint⟩ := List.nodup_append.mp hnodup
    rw [List.flatMap_append, List.flatMap_cons, if_pos rfl,
      hnil before fun hb => hdisjoint _ hb _ List.mem_cons_self rfl, hnil after (List.nodup_cons.mp hafter).1]
    simp
  · have hempty : (set.atPriority priority).backends = [] := by
      refine List.filter_eq_nil_iff.mpr fun backend hb hp => hm (BackendSet.mem_priorities.mpr ⟨backend, hb, ?_⟩)
      simpa using hp
    have hnil : groupOrder BS key (BS.build (set.atPriority priority)) (set.atPriority priority) = [] := by
      have := perm_groupOrder key (BS.build (set.atPriority priority)) (set.atPriority priority)
      rw [hempty] at this
      exact this.eq_nil
    rw [hnil]
    refine List.flatMap_eq_nil_iff.mpr fun q hq => ?_
    have hne : q ≠ priority := fun he => hm (he ▸ hq)
    exact if_neg hne

theorem iter_eq_grouped {set : BackendSet} (key : List UInt8)
    (h : ∃ a ∈ set.backends, ∃ b ∈ set.backends, a.priority ≠ b.priority) :
    (PriorityGrouped.groupByPriority set : PriorityGrouped BS).iter key =
      .grouped { grouped := PriorityGrouped.groupByPriority set, key } := by
  obtain ⟨a, ha, b, hb, hne⟩ := h
  have ha' := BackendSet.mem_priorities.mpr ⟨a, ha, rfl⟩
  have hb' := BackendSet.mem_priorities.mpr ⟨b, hb, rfl⟩
  have hlen : (PriorityGrouped.groupByPriority set : PriorityGrouped BS).groups.length = set.priorities.length := by
    unfold PriorityGrouped.groupByPriority
    exact List.length_pmap
  unfold PriorityGrouped.iter
  split
  · rename_i hg
    rw [hg] at hlen
    rw [List.eq_nil_of_length_eq_zero hlen.symm] at ha'
    cases ha'
  · rename_i hg
    rw [hg] at hlen
    obtain ⟨only, honly⟩ := List.length_eq_one_iff.mp hlen.symm
    rw [honly] at ha' hb'
    exact absurd ((List.mem_singleton.mp ha').trans (List.mem_singleton.mp hb').symm) hne
  · rfl

/-- The cursor yields the groups' orders one after the other and then nothing: every backend once, higher priorities
first, and in each group what its own iterator offers first and then the other members. -/
theorem grouped_cursor_yields (BS : BackendSelection) (set : BackendSet) (key : List UInt8)
    (h : ∃ a ∈ set.backends, ∃ b ∈ set.backends, a.priority ≠ b.priority) :
    ∃ order : List Backend,
      (∀ n, ((PriorityGrouped.groupByPriority set : PriorityGrouped BS).iter key).nth n = order[n]?) ∧
        order.Perm set.backends ∧ (order.Pairwise fun a b => b.priority ≤ a.priority) ∧
        ∀ priority, order.filter (·.priority = priority) =
          groupOrder BS key (BS.build (set.atPriority priority)) (set.atPriority priority) := by
  refine ⟨priorityOrder BS key set, fun n => ?_, perm_priorityOrder key set, priorityOrder_pairwise key set,
    filter_priorityOrder key set⟩
  rw [iter_eq_grouped key h, nth_grouped]
  rw [← orderOf_groupByPriority]
  exact GroupedCursor.remaining_of_left rfl

/-! ## A primary and its backups -/

/-- Offers the members in turn, without end. -/
def cycling : BackendSelection where
  Selector := List Backend
  Iter := List Backend
  build := BackendSet.backends
  iter := fun members _ => members
  next
    | [] => (none, [])
    | backend :: rest => (some backend, rest ++ [backend])

def backupSet : BackendSet where
  backends := [⟨⟨.v4 [10, 0, 0, 1], 80⟩, 1, 0⟩, ⟨⟨.v4 [10, 0, 0, 2], 80⟩, 1, 10⟩, ⟨⟨.v4 [10, 0, 0, 3], 80⟩, 1, 0⟩]
  nodup := by decide

theorem grouped_cursor_yields_backupSet : ∃ order : List Backend,
    (∀ n, ((PriorityGrouped.groupByPriority backupSet : PriorityGrouped cycling).iter []).nth n = order[n]?) ∧
      order.Perm backupSet.backends ∧ (order.Pairwise fun a b => b.priority ≤ a.priority) ∧
      ∀ priority, order.filter (·.priority = priority) =
        groupOrder cycling [] (cycling.build (backupSet.atPriority priority)) (backupSet.atPriority priority) :=
  grouped_cursor_yields cycling backupSet [] (by decide)

end Pingsix
