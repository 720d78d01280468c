import Mathlib.Data.List.Nodup
import Mathlib.Tactic.TypeStar

/-!
# Maps in order of insertion

A map that keeps its entries in the order in which their keys first came. A
second value for a key takes the place of the first.
-/

structure IndexMap (κ : Type) (ν : Type) where
  entries : List (κ × ν)
  nodup : (entries.map Prod.fst).Nodup

namespace IndexMap

variable {κ ν : Type} [DecidableEq κ]

def empty : IndexMap κ ν := ⟨[], List.nodup_nil⟩

def lookup (m : IndexMap κ ν) (k : κ) : Option ν := (m.entries.find? fun e => e.1 = k).map (·.2)

def containsKey (m : IndexMap κ ν) (k : κ) : Bool := (m.lookup k).isSome

/-- Put the value in the place of the key's first one, or at the end. -/
def insertEntry (k : κ) (v : ν) : List (κ × ν) → List (κ × ν)
  | [] => [(k, v)]
  | e :: es => if e.1 = k then (k, v) :: es else e :: insertEntry k v es

theorem keys_insertEntry (k : κ) (v : ν) : ∀ es : List (κ × ν),
    (insertEntry k v es).map Prod.fst = if k ∈ es.map Prod.fst then es.map Prod.fst else es.map Prod.fst ++ [k]
  | [] => rfl
  | e :: es => by
    unfold insertEntry
    by_cases h : e.1 = k
    · simp [h]
    · rw [if_neg h, List.map_cons, keys_insertEntry k v es]
      by_cases hk : k ∈ es.map Prod.fst
      · have hk' : k ∈ (e :: es).map Prod.fst := List.mem_cons_of_mem _ hk
        rw [if_pos hk, if_pos hk', List.map_cons]
      · have hk' : k ∉ (e :: es).map Prod.fst := by
          rw [List.map_cons, List.mem_cons, not_or]
          exact ⟨fun he => h he.symm, hk⟩
        rw [if_neg hk, if_neg hk', List.map_cons, List.cons_append]

def insert (m : IndexMap κ ν) (k : κ) (v : ν) : IndexMap κ ν where
  entries := insertEntry k v m.entries
  nodup := by
    rw [keys_insertEntry]
    by_cases hk : k ∈ m.entries.map Prod.fst
    · rw [if_pos hk]
      exact m.nodup
    · rw [if_neg hk]
      exact m.nodup.append (List.nodup_singleton k) (by simpa using hk)

/-- Remove the key; the others keep their order. -/
def shiftRemove (m : IndexMap κ ν) (k : κ) : IndexMap κ ν where
  entries := m.entries.filter fun e => e.1 ≠ k
  nodup := m.nodup.sublist (List.filter_sublist.map Prod.fst)

/-! ## Lookups -/

theorem lookup_empty (k : κ) : (empty : IndexMap κ ν).lookup k = none := rfl

theorem lookup_insert (m : IndexMap κ ν) (k a : κ) (v : ν) :
    (m.insert k v).lookup a = if a = k then some v else m.lookup a := by
  show ((insertEntry k v m.entries).find? fun e => e.1 = a).map (·.2) = _
  unfold lookup
  generalize m.entries = es
  induction es with
  | nil =>
    by_cases h : a = k
    · simp [insertEntry, h]
    · simp [insertEntry, h, Ne.symm h]
  | cons e es ih =>
    unfold insertEntry
    by_cases he : e.1 = k
    · rw [if_pos he]
      by_cases h : a = k
      · simp [h]
      · have hne : ¬e.1 = a := fun h' => h (h'.symm.trans he)
        simp [h, Ne.symm h, hne]
    · rw [if_neg he, List.find?_cons, List.find?_cons]
      by_cases hea : e.1 = a
      · have hne : ¬a = k := fun h => he (hea.trans h)
        simp [hea, hne]
      · simpa [hea] using ih

theorem lookup_shiftRemove (m : IndexMap κ ν) (k a : κ) :
    (m.shiftRemove k).lookup a = if a = k then none else m.lookup a := by
  unfold shiftRemove lookup
  rw [List.find?_filter]
  by_cases h : a = k
  · rw [if_pos h, Option.map_eq_none_iff, List.find?_eq_none]
    intro e _
    simp [h]
  · rw [if_neg h]
    congr 2
    funext e
    by_cases he : e.1 = a
    · simp [he, h]
    · simp [he]

theorem mem_entries_iff (m : IndexMap κ ν) (k : κ) (v : ν) : (k, v) ∈ m.entries ↔ m.lookup k = some v := by
  obtain ⟨es, hn⟩ := m
  show (k, v) ∈ es ↔ (es.find? fun e => e.1 = k).map (·.2) = some v
  induction es with
  | nil => simp
  | cons e es ih =>
    obtain ⟨hnot, hrest⟩ := List.nodup_cons.mp hn
    rw [List.mem_cons, List.find?_cons, ih hrest]
    by_cases he : e.1 = k
    · have hnone : (es.find? fun e => e.1 = k).map (·.2) ≠ some v := fun h => by
        have hmem := (ih hrest).mpr h
        exact hnot (he ▸ List.mem_map_of_mem (f := Prod.fst) hmem)
      simp only [he, hnone, or_false, decide_true, Option.map_some, Option.some.injEq]
      exact ⟨fun h => by rw [← h], fun h => by rw [← h, ← he]⟩
    · have hne : (k, v) ≠ e := fun h => he (by rw [← h])
      simp [he, hne]

/-! ## The last values -/

/-- The value of the last entry with the key. -/
def lastValue : List (κ × ν) → κ → Option ν
  | [], _ => none
  | e :: es, k => (lastValue es k).or (if e.1 = k then some e.2 else none)

@[simp] theorem lastValue_cons (e : κ × ν) (es : List (κ × ν)) (k : κ) :
    lastValue (e :: es) k = (lastValue es k).or (if e.1 = k then some e.2 else none) := rfl

theorem lastValue_append (es es' : List (κ × ν)) (k : κ) :
    lastValue (es ++ es') k = (lastValue es' k).or (lastValue es k) := by
  induction es with
  | nil => rw [List.nil_append, lastValue, Option.or_none]
  | cons e es ih => rw [List.cons_append, lastValue_cons, lastValue_cons, ih, Option.or_assoc]

theorem lastValue_eq_none {es : List (κ × ν)} {k : κ} : lastValue es k = none ↔ k ∉ es.map Prod.fst := by
  induction es with
  | nil => exact iff_of_true rfl List.not_mem_nil
  | cons e es ih =>
    rw [lastValue_cons, Option.or_eq_none_iff, ih, List.map_cons, List.mem_cons, not_or, and_comm]
    refine and_congr_left fun _ => ?_
    by_cases h : e.1 = k
    · rw [if_pos h]
      exact iff_of_false nofun fun hne => hne h.symm
    · rw [if_neg h]
      exact iff_of_true rfl fun he => h he.symm

theorem lastValue_of_mem {es : List (κ × ν)} {e : κ × ν} (hn : (es.map Prod.fst).Nodup) (he : e ∈ es) :
    lastValue es e.1 = some e.2 := by
  induction es with
  | nil => cases he
  | cons head es ih =>
    obtain ⟨hnot, hrest⟩ := List.nodup_cons.mp hn
    rw [lastValue_cons]
    cases he with
    | head => rw [lastValue_eq_none.mpr hnot, if_pos rfl, Option.none_or]
    | tail _ he => rw [ih hrest he, Option.some_or]

/-- The last value of each key, in the order in which the keys first came. -/
def ofEntries (es : List (κ × ν)) : IndexMap κ ν := es.foldl (fun m e => m.insert e.1 e.2) empty

theorem lookup_foldl_insert (es : List (κ × ν)) (m : IndexMap κ ν) (k : κ) :
    (es.foldl (fun m e => m.insert e.1 e.2) m).lookup k = (lastValue es k).or (m.lookup k) := by
  induction es generalizing m with
  | nil => rfl
  | cons e es ih =>
    rw [List.foldl_cons, ih, lastValue_cons, Option.or_assoc, lookup_insert]
    by_cases h : e.1 = k
    · rw [if_pos h, if_pos h.symm, Option.some_or]
    · rw [if_neg h, if_neg fun he => h he.symm, Option.none_or]

theorem lookup_ofEntries (es : List (κ × ν)) (k : κ) : (ofEntries es).lookup k = lastValue es k := by
  unfold ofEntries
  rw [lookup_foldl_insert, lookup_empty, Option.or_none]

/-- A key that has a value stands once. -/
theorem filter_entries {m : IndexMap κ ν} {k : κ} {v : ν} (h : m.lookup k = some v) :
    m.entries.filter (fun e => e.1 = k) = [(k, v)] := by
  have hmem := (mem_entries_iff m k v).mpr h
  obtain ⟨es, hn⟩ := m
  change (k, v) ∈ es at hmem
  show es.filter (fun e => e.1 = k) = [(k, v)]
  clear h
  induction es with
  | nil => cases hmem
  | cons e es ih =>
    obtain ⟨hnot, hrest⟩ := List.nodup_cons.mp hn
    cases hmem with
    | head =>
      have hnil : es.filter (fun e => e.1 = k) = [] :=
        List.filter_eq_nil_iff.mpr fun e he h => hnot (List.mem_map.mpr ⟨e, he, of_decide_eq_true h⟩)
      rw [List.filter_cons_of_pos (by simp), hnil]
    | tail _ hmem =>
      have hne : e.1 ≠ k := fun h => hnot (h ▸ List.mem_map_of_mem (f := Prod.fst) hmem)
      rw [List.filter_cons_of_neg (by simpa using hne), ih hrest hmem]

end IndexMap
