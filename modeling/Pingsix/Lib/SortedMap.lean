import Mathlib.Data.List.Nodup
import Mathlib.Order.Lattice

/-!
# Sorted maps

A map as the list of its entries in the order of their keys, as a tree map is
iterated: insertion at the place of the key, removal, and the first entry.
-/

universe u v

structure SortedMap (κ : Type u) (ν : Type v) [LinearOrder κ] where
  entries : List (κ × ν)
  sorted : entries.Pairwise fun a b => a.1 < b.1

namespace SortedMap

variable {κ : Type u} {ν : Type v} [LinearOrder κ]

def empty : SortedMap κ ν := ⟨[], .nil⟩

instance emptyCollection : EmptyCollection (SortedMap κ ν) := ⟨empty⟩

def insertEntry (k : κ) (v : ν) : List (κ × ν) → List (κ × ν)
  | [] => [(k, v)]
  | (a, w) :: l => if k < a then (k, v) :: (a, w) :: l else if k = a then (k, v) :: l else (a, w) :: insertEntry k v l

theorem mem_insertEntry {k : κ} {v : ν} {l : List (κ × ν)} (h : l.Pairwise fun a b => a.1 < b.1) {e : κ × ν} :
    e ∈ insertEntry k v l ↔ e = (k, v) ∨ (e ∈ l ∧ e.1 ≠ k) := by
  induction l with
  | nil => simp [insertEntry]
  | cons entry l ih =>
    obtain ⟨a, w⟩ := entry
    obtain ⟨hhead, hrest⟩ := List.pairwise_cons.mp h
    unfold insertEntry
    by_cases hlt : k < a
    · rw [if_pos hlt, List.mem_cons]
      refine or_congr_right ⟨fun hm => ⟨hm, ?_⟩, fun hm => hm.1⟩
      obtain rfl | hm := List.mem_cons.mp hm
      · exact ne_of_gt hlt
      · exact ne_of_gt (hlt.trans (hhead e hm))
    · by_cases heq : k = a
      · rw [if_neg hlt, if_pos heq, List.mem_cons, List.mem_cons]
        refine or_congr_right ⟨fun hm => ⟨.inr hm, heq ▸ ne_of_gt (hhead e hm)⟩, ?_⟩
        rintro ⟨rfl | hm, hne⟩
        · exact absurd heq.symm hne
        · exact hm
      · rw [if_neg hlt, if_neg heq, List.mem_cons, ih hrest, List.mem_cons]
        constructor
        · rintro (rfl | rfl | ⟨hm, hne⟩)
          · exact .inr ⟨.inl rfl, Ne.symm heq⟩
          · exact .inl rfl
          · exact .inr ⟨.inr hm, hne⟩
        · rintro (rfl | ⟨rfl | hm, hne⟩)
          · exact .inr (.inl rfl)
          · exact .inl rfl
          · exact .inr (.inr ⟨hm, hne⟩)

theorem sorted_insertEntry {k : κ} {v : ν} {l : List (κ × ν)} (h : l.Pairwise fun a b => a.1 < b.1) :
    (insertEntry k v l).Pairwise fun a b => a.1 < b.1 := by
  induction l with
  | nil => exact List.pairwise_singleton _ _
  | cons entry l ih =>
    obtain ⟨a, w⟩ := entry
    obtain ⟨hhead, hrest⟩ := List.pairwise_cons.mp h
    unfold insertEntry
    by_cases hlt : k < a
    · rw [if_pos hlt]
      refine .cons (fun e hm => ?_) h
      obtain rfl | hm := List.mem_cons.mp hm
      · exact hlt
      · exact hlt.trans (hhead e hm)
    · by_cases heq : k = a
      · rw [if_neg hlt, if_pos heq]
        exact .cons (fun e hm => heq ▸ hhead e hm) hrest
      · rw [if_neg hlt, if_neg heq]
        refine .cons (fun e hm => ?_) (ih hrest)
        obtain rfl | ⟨hm, -⟩ := (mem_insertEntry hrest).mp hm
        · exact lt_of_le_of_ne (not_lt.mp hlt) (Ne.symm heq)
        · exact hhead e hm

def insert (m : SortedMap κ ν) (k : κ) (v : ν) : SortedMap κ ν := ⟨insertEntry k v m.entries, sorted_insertEntry m.sorted⟩

def erase (m : SortedMap κ ν) (k : κ) : SortedMap κ ν := ⟨m.entries.filter (·.1 ≠ k), m.sorted.filter _⟩

/-- The entry with the least key, and the map without it. -/
def popFirst (m : SortedMap κ ν) : Option ((κ × ν) × SortedMap κ ν) :=
  match m with
  | ⟨[], _⟩ => none
  | ⟨e :: l, h⟩ => some (e, ⟨l, h.tail⟩)

section
variable {m : SortedMap κ ν} {k : κ} {v : ν} {e : κ × ν}

theorem mem_insert : e ∈ (m.insert k v).entries ↔ e = (k, v) ∨ (e ∈ m.entries ∧ e.1 ≠ k) := mem_insertEntry m.sorted

theorem mem_erase : e ∈ (m.erase k).entries ↔ e ∈ m.entries ∧ e.1 ≠ k := by
  unfold erase
  rw [List.mem_filter, decide_eq_true_eq]

theorem keys_nodup (m : SortedMap κ ν) : (m.entries.map Prod.fst).Nodup :=
  List.pairwise_map.mpr (m.sorted.imp ne_of_lt)

/-- One value for each key. -/
theorem eq_of_mem {w : ν} (h : (k, v) ∈ m.entries) (h' : (k, w) ∈ m.entries) : v = w :=
  congrArg Prod.snd (List.inj_on_of_nodup_map m.keys_nodup h h' rfl)

theorem popFirst_eq_none : m.popFirst = none ↔ m.entries = [] := by
  obtain ⟨_ | _, h⟩ := m
  · exact iff_of_true rfl rfl
  · exact iff_of_false nofun nofun

theorem popFirst_eq_some {rest : SortedMap κ ν} : m.popFirst = some (e, rest) ↔ m.entries = e :: rest.entries := by
  obtain ⟨_ | ⟨first, l⟩, h⟩ := m
  · exact iff_of_false nofun nofun
  · obtain ⟨entries, h'⟩ := rest
    simp only [popFirst, Option.some.injEq, Prod.mk.injEq, List.cons.injEq]
    constructor
    · rintro ⟨rfl, hl⟩
      exact ⟨rfl, congrArg SortedMap.entries hl⟩
    · rintro ⟨rfl, rfl⟩
      exact ⟨rfl, rfl⟩

/-- A key behind all others goes to the end. -/
theorem entries_insert_last (h : ∀ e ∈ m.entries, e.1 < k) : (m.insert k v).entries = m.entries ++ [(k, v)] := by
  obtain ⟨l, hl⟩ := m
  show insertEntry k v l = l ++ [(k, v)]
  induction l with
  | nil => rfl
  | cons entry l ih =>
    have hlt : entry.1 < k := h entry List.mem_cons_self
    rw [insertEntry, if_neg (not_lt.mpr hlt.le), if_neg (ne_of_gt hlt), ih hl.tail fun e hm => h e (List.mem_cons_of_mem _ hm)]
    rfl

/-- A key before all others goes to the front. -/
theorem entries_insert_first (h : ∀ e ∈ m.entries, k < e.1) : (m.insert k v).entries = (k, v) :: m.entries := by
  obtain ⟨_ | ⟨first, l⟩, hl⟩ := m
  · rfl
  · exact if_pos (h first List.mem_cons_self)

end

end SortedMap
