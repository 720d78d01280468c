import Mathlib.Data.List.Dedup
import Mathlib.Data.List.Sort
import Pingsix.Lib.Bitset

/-!
# Priority-grouped selection

Backends in groups of one priority, each with a selector of its own, and the
cursor over them: a bounded number of draws from the group's iterator, then the
members it did not offer, then the next lower priority.
-/

namespace Pingsix

/-! ## Backends -/

inductive IpAddr where
  | v4 (octets : List Nat)
  | v6 (groups : List Nat)
  deriving DecidableEq, Repr

structure SocketAddr where
  ip : IpAddr
  port : Nat
  deriving DecidableEq, Repr

/-- What tells two backends apart. -/
structure BackendId where
  addr : SocketAddr
  weight : Nat
  deriving DecidableEq, Repr

structure Backend where
  addr : SocketAddr
  weight : Nat
  /-- Without a node priority it is zero. -/
  priority : Int := 0
  deriving DecidableEq, Repr

def Backend.id (backend : Backend) : BackendId := ⟨backend.addr, backend.weight⟩

/-- The backends of a set in its order. -/
structure BackendSet where
  backends : List Backend
  nodup : (backends.map Backend.id).Nodup

namespace BackendSet

/-- The members of one priority. -/
def atPriority (set : BackendSet) (priority : Int) : BackendSet where
  backends := set.backends.filter (·.priority = priority)
  nodup := List.Nodup.sublist (List.filter_sublist.map _) set.nodup

/-- The priorities that occur, the highest first. -/
def priorities (set : BackendSet) : List Int := (set.backends.map Backend.priority).dedup.insertionSort (· ≥ ·)

theorem mem_priorities {set : BackendSet} {priority : Int} :
    priority ∈ set.priorities ↔ ∃ backend ∈ set.backends, backend.priority = priority := by
  unfold priorities
  rw [List.mem_insertionSort, List.mem_dedup, List.mem_map]

theorem atPriority_ne_nil {set : BackendSet} {priority : Int} (h : priority ∈ set.priorities) :
    (set.atPriority priority).backends ≠ [] := by
  obtain ⟨backend, hm, hp⟩ := mem_priorities.mp h
  exact List.ne_nil_of_mem (List.mem_filter.mpr ⟨hm, by simpa using hp⟩)

/-- Where the set has a backend with the same identity. -/
def binarySearch (set : BackendSet) (backend : Backend) : Option Nat :=
  set.backends.findIdx? (·.id = backend.id)

end BackendSet

/-! ## Selectors -/

/-- A selection algorithm: the selector of a backend set, its iterators, and what one draw from an iterator gives. -/
structure BackendSelection where
  Selector : Type
  Iter : Type
  build : BackendSet → Selector
  iter : Selector → List UInt8 → Iter
  next : Iter → Option Backend × Iter

variable (BS : BackendSelection)

structure PriorityGroup where
  priority : Int
  selector : BS.Selector
  backends : BackendSet
  nonempty : backends.backends ≠ []

structure PriorityGrouped where
  groups : List (PriorityGroup BS)

variable {BS}

def PriorityGrouped.groupByPriority (set : BackendSet) : PriorityGrouped BS :=
  ⟨set.priorities.pmap
    (fun priority h =>
      { priority, selector := BS.build (set.atPriority priority), backends := set.atPriority priority,
        nonempty := BackendSet.atPriority_ne_nil h })
    fun _ h => h⟩

def groupDrawBudget (groupLen : Nat) : Nat := max (groupLen * 8) 64

/-! ## The cursor -/

variable (BS)

structure GroupedCursor where
  grouped : PriorityGrouped BS
  key : List UInt8
  group : Nat := 0
  inner : Option BS.Iter := none
  /-- The members of the group already yielded. -/
  seen : List (BitVec 64) := []
  drawn : Nat := 0
  next : Nat := 0

inductive PriorityGroupedIter where
  | empty
  | flat (inner : BS.Iter)
  | grouped (cursor : GroupedCursor BS)

variable {BS}

def PriorityGrouped.iter (grouped : PriorityGrouped BS) (key : List UInt8) : PriorityGroupedIter BS :=
  match grouped.groups with
  | [] => .empty
  | [only] => .flat (BS.iter only.selector key)
  | _ => .grouped { grouped, key }

namespace GroupedCursor

/-- The state of the group, set up when it is entered. -/
def enter (group : PriorityGroup BS) (c : GroupedCursor BS) : GroupedCursor BS :=
  if c.seen.isEmpty then
    { c with
      seen := Bitset.zeros group.backends.backends.length
      drawn := 0
      next := 0
      inner := some (BS.iter group.selector c.key) }
  else c

/-- One round of the loop returns a backend or goes on. -/
inductive Round (BS : BackendSelection) where
  | yield (backend : Option Backend) (c : GroupedCursor BS)
  | again (c : GroupedCursor BS)

/-- One draw from the group's iterator; a backend that is no member or was yielded before is passed over. -/
def draw (group : PriorityGroup BS) (c : GroupedCursor BS) : Round BS :=
  match c.inner.map BS.next with
  | none => .again { c with drawn := groupDrawBudget group.backends.backends.length }
  | some (none, inner) =>
    .again { c with inner := some inner, drawn := groupDrawBudget group.backends.backends.length }
  | some (some backend, inner) =>
    let c := { c with inner := some inner, drawn := c.drawn + 1 }
    match group.backends.binarySearch backend with
    | some index =>
      if Bitset.marked c.seen index then .again c
      else .yield group.backends.backends[index]? { c with seen := Bitset.mark c.seen index }
    | none => .again c

/-- The first index from `next` on, among the next `n`, that is not marked. -/
def uncovered (seen : List (BitVec 64)) : (next n : Nat) → Option Nat
  | _, 0 => none
  | next, n + 1 => if Bitset.marked seen next then uncovered seen (next + 1) n else some next

/-- The members the iterator missed, in order; after the last one the group is left. -/
def cover (group : PriorityGroup BS) (c : GroupedCursor BS) : Round BS :=
  match uncovered c.seen c.next (group.backends.backends.length - c.next) with
  | some index => .yield group.backends.backends[index]? { c with next := index + 1, seen := Bitset.mark c.seen index }
  | none => .again { c with group := c.group + 1, inner := none, seen := [], next := group.backends.backends.length }

def round (c : GroupedCursor BS) : Round BS :=
  match c.grouped.groups[c.group]? with
  | none => .yield none c
  | some group =>
    let c := c.enter group
    if c.drawn < groupDrawBudget group.backends.backends.length then c.draw group else c.cover group

/-- The groups left, and the draws left in the current one. -/
def left (c : GroupedCursor BS) : Nat × Nat :=
  (c.grouped.groups.length - c.group,
    match c.grouped.groups[c.group]? with
    | none => 0
    | some group =>
      let budget := groupDrawBudget group.backends.backends.length
      if c.seen.isEmpty then budget + 1 else budget - c.drawn)

theorem enter_seen {group : PriorityGroup BS} {c : GroupedCursor BS} : (c.enter group).seen.isEmpty = false := by
  unfold enter
  split
  · have hlen : 0 < group.backends.backends.length := List.length_pos_iff.mpr group.nonempty
    simpa using (Bitset.holds_zeros _).ne_nil hlen
  · rename_i hn
    exact Bool.eq_false_iff.mpr hn

theorem draw_again {group : PriorityGroup BS} {c c' : GroupedCursor BS}
    (hd : c.drawn < groupDrawBudget group.backends.backends.length) (h : c.draw group = .again c') :
    c'.grouped = c.grouped ∧ c'.group = c.group ∧ c'.seen = c.seen ∧ c.drawn < c'.drawn := by
  unfold draw at h
  split at h
  · cases h
    exact ⟨rfl, rfl, rfl, hd⟩
  · cases h
    exact ⟨rfl, rfl, rfl, hd⟩
  · dsimp only at h
    split at h
    · split at h
      · cases h
        exact ⟨rfl, rfl, rfl, Nat.lt_succ_self _⟩
      · cases h
    · cases h
      exact ⟨rfl, rfl, rfl, Nat.lt_succ_self _⟩

theorem cover_again {group : PriorityGroup BS} {c c' : GroupedCursor BS} (h : c.cover group = .again c') :
    c'.grouped = c.grouped ∧ c'.group = c.group + 1 := by
  unfold cover at h
  split at h
  · cases h
  · cases h
    exact ⟨rfl, rfl⟩

/-- A round that goes on leaves less to do. -/
theorem round_again {c c' : GroupedCursor BS} (h : c.round = .again c') :
    Prod.Lex (· < ·) (· < ·) c'.left c.left := by
  unfold round at h
  split at h
  · cases h
  · rename_i group hg
    have hlt : c.group < c.grouped.groups.length := (List.getElem?_eq_some_iff.mp hg).1
    have hgrouped : (c.enter group).grouped = c.grouped ∧ (c.enter group).group = c.group := by
      unfold enter
      split <;> exact ⟨rfl, rfl⟩
    dsimp only at h
    split at h
    · rename_i hd
      obtain ⟨h1, h2, h3, h4⟩ := draw_again hd h
      have hs := @enter_seen _ group c
      unfold left
      rw [h1, h2, h3, hgrouped.1, hgrouped.2, hg]
      refine Prod.Lex.right _ ?_
      simp only [hs, Bool.false_eq_true, if_false]
      split
      · omega
      · rename_i hn
        have hc : c.enter group = c := by
          unfold enter
          rw [if_neg hn]
        rw [hc] at h4 hd
        omega
    · obtain ⟨h1, h2⟩ := cover_again h
      unfold left
      rw [h1, h2, hgrouped.1, hgrouped.2]
      exact Prod.Lex.left _ _ (by omega)

/-- The loop ends: every round that goes on leaves less to do. -/
def advance (c : GroupedCursor BS) : Option Backend × GroupedCursor BS :=
  match h : c.round with
  | .yield backend c' => (backend, c')
  | .again c' => advance c'
termination_by c.left
decreasing_by exact round_again h

end GroupedCursor

def PriorityGroupedIter.next : PriorityGroupedIter BS → Option Backend × PriorityGroupedIter BS
  | .empty => (none, .empty)
  | .flat inner => ((BS.next inner).1, .flat (BS.next inner).2)
  | .grouped cursor => (cursor.advance.1, .grouped cursor.advance.2)

end Pingsix
