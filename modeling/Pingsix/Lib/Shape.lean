import Pingsix.Lib.Except
import Pingsix.Lib.Json
import Mathlib.Data.String.Basic

/-!
# Marked strings of a document

A shape says which strings of a document are marked, by where they stand. A walk
rewrites the marked strings and nothing else, so two documents that agree but
for them are compared mark by mark.
-/

namespace Json

/-- Where a value stands in a document. -/
abbrev Path := List (String ⊕ Nat)

variable {ε : Type}

/-! ## Members -/

theorem lookup_cons (m : String × Json) (members : List (String × Json)) (name : String) :
    lookup (m :: members) name = if m.1 = name then some m.2 else lookup members name := by
  unfold lookup
  by_cases h : m.1 = name
  · simp [h]
  · simp [h]

theorem mem_of_lookup {members : List (String × Json)} {name : String} {v : Json}
    (h : lookup members name = some v) : (name, v) ∈ members := by
  unfold lookup at h
  rw [Option.map_eq_some_iff] at h
  obtain ⟨m, hm, rfl⟩ := h
  have hname := List.find?_some hm
  rw [decide_eq_true_iff] at hname
  subst hname
  exact List.mem_of_find?_eq_some hm

theorem lookup_of_mem {members : List (String × Json)} {name : String} {v : Json}
    (hn : (members.map (·.1)).Nodup) (h : (name, v) ∈ members) : lookup members name = some v := by
  induction members with
  | nil => simp at h
  | cons m members ih =>
    rw [List.map_cons, List.nodup_cons] at hn
    rw [lookup_cons]
    cases List.mem_cons.mp h with
    | inl he => rw [← he, if_pos rfl]
    | inr hm =>
      have hne : m.1 ≠ name := fun he => hn.1 (he ▸ List.mem_map_of_mem hm)
      rw [if_neg hne]
      exact ih hn.2 hm

theorem lookup_eq_none {members : List (String × Json)} {name : String} :
    lookup members name = none ↔ name ∉ members.map (·.1) := by
  induction members with
  | nil => simp [lookup]
  | cons m members ih =>
    rw [lookup_cons, List.map_cons, List.mem_cons, not_or]
    by_cases h : m.1 = name
    · simp [h]
    · rw [if_neg h, ih]
      exact ⟨fun hn => ⟨fun he => h he.symm, hn⟩, fun hn => hn.2⟩

/-- Members under the same distinct names are the same when they are the same by name. -/
theorem members_ext : ∀ {a b : List (String × Json)}, a.map (·.1) = b.map (·.1) → (a.map (·.1)).Nodup →
    (∀ name, lookup a name = lookup b name) → a = b
  | [], [], _, _, _ => rfl
  | [], _ :: _, hk, _, _ => by simp at hk
  | _ :: _, [], hk, _, _ => by simp at hk
  | (k, v) :: a, (l, w) :: b, hk, hn, h => by
    simp only [List.map_cons, List.cons.injEq] at hk
    obtain ⟨rfl, hk⟩ := hk
    rw [List.map_cons, List.nodup_cons] at hn
    have hv : v = w := by simpa [lookup_cons] using h k
    have hrest : a = b := members_ext hk hn.2 fun name => by
      by_cases he : k = name
      · subst he
        rw [lookup_eq_none.mpr hn.1, lookup_eq_none.mpr (hk ▸ hn.1)]
      · simpa [lookup_cons, he] using h name
    rw [hv, hrest]

/-! ## Key order -/

mutual
/-- The members of every object of the document stand in key order. -/
def Ordered : Json → Prop
  | .arr items => ItemsOrdered items
  | .obj members => (members.map (·.1)).Pairwise (· < ·) ∧ MembersOrdered members
  | _ => True

def ItemsOrdered : List Json → Prop
  | [] => True
  | v :: items => v.Ordered ∧ ItemsOrdered items

def MembersOrdered : List (String × Json) → Prop
  | [] => True
  | (_, v) :: members => v.Ordered ∧ MembersOrdered members
end

theorem itemsOrdered_iff {items : List Json} : ItemsOrdered items ↔ ∀ v ∈ items, v.Ordered := by
  induction items with
  | nil => simp [ItemsOrdered]
  | cons v items ih => simp [ItemsOrdered, ih]

theorem membersOrdered_iff {members : List (String × Json)} :
    MembersOrdered members ↔ ∀ m ∈ members, m.2.Ordered := by
  induction members with
  | nil => simp [MembersOrdered]
  | cons m members ih => simp [MembersOrdered, ih]

theorem ordered_arr {items : List Json} : (arr items).Ordered ↔ ∀ v ∈ items, v.Ordered := by
  rw [Ordered, itemsOrdered_iff]

theorem ordered_obj {members : List (String × Json)} :
    (obj members).Ordered ↔ (members.map (·.1)).Pairwise (· < ·) ∧ ∀ m ∈ members, m.2.Ordered := by
  rw [Ordered, membersOrdered_iff]

theorem nodup_of_pairwise {names : List String} (h : names.Pairwise (· < ·)) : names.Nodup := h.imp ne_of_lt

/-! ## Inserting a member -/

theorem lookup_insertMember (name : String) (v : Json) : ∀ (members : List (String × Json)) (k : String),
    lookup (insertMember name v members) k = if k = name then some v else lookup members k
  | [], k => by simp [insertMember, lookup_cons, eq_comm]
  | m :: members, k => by
    unfold insertMember
    by_cases h : m.1 = name
    · rw [if_pos h, lookup_cons, lookup_cons]
      by_cases hk : m.1 = k
      · simp [hk, ← h]
      · simp [hk, Ne.symm hk, ← h]
    · rw [if_neg h]
      split
      · rw [lookup_cons]
        simp only [eq_comm]
      · rw [lookup_cons, lookup_cons, lookup_insertMember]
        by_cases hk : m.1 = k
        · have hkn : k ≠ name := fun he => h (hk.trans he)
          simp [hk, hkn]
        · simp [hk]

theorem mem_insertMember {name : String} {v : Json} : ∀ {members : List (String × Json)} {m : String × Json},
    m ∈ insertMember name v members → m = (name, v) ∨ m ∈ members
  | [], m, h => by simpa [insertMember] using h
  | n :: members, m, h => by
    unfold insertMember at h
    split at h
    · next he =>
      cases List.mem_cons.mp h with
      | inl hm => exact .inl (by rw [hm, he])
      | inr hm => exact .inr (List.mem_cons_of_mem _ hm)
    · split at h
      · cases List.mem_cons.mp h with
        | inl hm => exact .inl hm
        | inr hm => exact .inr hm
      · cases List.mem_cons.mp h with
        | inl hm => exact .inr (hm ▸ List.mem_cons_self)
        | inr hm => exact (mem_insertMember hm).imp_right (List.mem_cons_of_mem _)

theorem insertMember_keys_congr (name : String) (v w : Json) : ∀ {a b : List (String × Json)},
    a.map (·.1) = b.map (·.1) → (insertMember name v a).map (·.1) = (insertMember name w b).map (·.1)
  | [], [], _ => rfl
  | [], _ :: _, h => by simp at h
  | _ :: _, [], h => by simp at h
  | m :: a, n :: b, h => by
    simp only [List.map_cons, List.cons.injEq] at h
    unfold insertMember
    rw [h.1]
    split
    · simp [h.2]
    · split
      · simp [h]
      · simp [insertMember_keys_congr name v w h.2]

theorem insertMember_keys_pairwise {name : String} {v : Json} : ∀ {members : List (String × Json)},
    (members.map (·.1)).Pairwise (· < ·) → ((insertMember name v members).map (·.1)).Pairwise (· < ·)
  | [], _ => by simp [insertMember]
  | m :: members, h => by
    rw [List.map_cons, List.pairwise_cons] at h
    unfold insertMember
    split
    · next he => simpa [he] using h
    · next hne =>
      split
      · next hlt =>
        rw [List.map_cons, List.pairwise_cons]
        refine ⟨?_, by simpa using h⟩
        intro k hk
        cases List.mem_cons.mp hk with
        | inl he => rw [he]; exact hlt
        | inr hk => exact hlt.trans (h.1 k hk)
      · next hge =>
        rw [List.map_cons, List.pairwise_cons]
        refine ⟨?_, insertMember_keys_pairwise h.2⟩
        intro k hk
        obtain ⟨p, hp, rfl⟩ := List.mem_map.mp hk
        cases mem_insertMember hp with
        | inl he =>
          rw [he]
          exact lt_of_le_of_ne (not_lt.mp hge) hne
        | inr hp => exact h.1 p.1 (List.mem_map_of_mem hp)

theorem ordered_insertMember {name : String} {v : Json} {members : List (String × Json)} (hv : v.Ordered)
    (h : (obj members).Ordered) : (obj (insertMember name v members)).Ordered := by
  rw [ordered_obj] at h ⊢
  refine ⟨insertMember_keys_pairwise h.1, fun m hm => ?_⟩
  cases mem_insertMember hm with
  | inl he => rw [he]; exact hv
  | inr hm => exact h.2 m hm

/-- Inserting what is there changes nothing. -/
theorem insertMember_self {name : String} {v : Json} : ∀ {members : List (String × Json)},
    (members.map (·.1)).Pairwise (· < ·) → lookup members name = some v → insertMember name v members = members
  | [], _, hl => by simp [lookup] at hl
  | m :: members, h, hl => by
    rw [List.map_cons, List.pairwise_cons] at h
    rw [lookup_cons] at hl
    unfold insertMember
    by_cases hm : m.1 = name
    · rw [if_pos hm, Option.some.injEq] at hl
      rw [if_pos hm, ← hl]
    · rw [if_neg hm] at hl
      have hlt : m.1 < name := h.1 name (List.mem_map_of_mem (mem_of_lookup hl))
      rw [if_neg hm, if_neg (not_lt.mpr hlt.le), insertMember_self h.2 hl]

/-! ## Walking members and items -/

/-- Change every item. -/
def mapItems (f : Nat → Json → Except ε Json) : Nat → List Json → Except ε (List Json)
  | _, [] => .ok []
  | i, v :: items => do return (← f i v) :: (← mapItems f (i + 1) items)

theorem mapMembers_cons {f : String → Json → Except ε Json} {m : String × Json} {ms rs : List (String × Json)} :
    mapMembers f (m :: ms) = .ok rs ↔
      ∃ v rs', f m.1 m.2 = .ok v ∧ mapMembers f ms = .ok rs' ∧ rs = (m.1, v) :: rs' := by
  rw [mapMembers]
  simp only [Except.bind_eq_ok, Except.pure_eq_ok]
  constructor
  · intro h
    obtain ⟨v, hv, rs', hr, h⟩ := h
    exact ⟨v, rs', hv, hr, h.symm⟩
  · intro h
    obtain ⟨v, rs', hv, hr, h⟩ := h
    exact ⟨v, hv, rs', hr, h.symm⟩

theorem mapItems_cons {f : Nat → Json → Except ε Json} {i : Nat} {v : Json} {vs rs : List Json} :
    mapItems f i (v :: vs) = .ok rs ↔
      ∃ w rs', f i v = .ok w ∧ mapItems f (i + 1) vs = .ok rs' ∧ rs = w :: rs' := by
  rw [mapItems]
  simp only [Except.bind_eq_ok, Except.pure_eq_ok]
  constructor
  · intro h
    obtain ⟨w, hw, rs', hr, h⟩ := h
    exact ⟨w, rs', hw, hr, h.symm⟩
  · intro h
    obtain ⟨w, rs', hw, hr, h⟩ := h
    exact ⟨w, hw, rs', hr, h.symm⟩

theorem mapMembers_keys {f : String → Json → Except ε Json} : ∀ {ms rs : List (String × Json)},
    mapMembers f ms = .ok rs → rs.map (·.1) = ms.map (·.1)
  | [], rs, h => by cases h; rfl
  | m :: ms, rs, h => by
    obtain ⟨v, rs', -, hr, rfl⟩ := mapMembers_cons.mp h
    rw [List.map_cons, List.map_cons, mapMembers_keys hr]

/-- A walk that may fail differently on the same members gives the same results. -/
theorem mapMembers_congr {f g : String → Json → Except ε Json} : ∀ {ms : List (String × Json)},
    (∀ m ∈ ms, ∀ v, f m.1 m.2 = .ok v ↔ g m.1 m.2 = .ok v) → ∀ rs, mapMembers f ms = .ok rs ↔ mapMembers g ms = .ok rs
  | [], _, rs => Iff.rfl
  | m :: ms, h, rs => by
    have hm := h m (by simp)
    have hms := mapMembers_congr fun m' hm' => h m' (List.mem_cons_of_mem m hm')
    simp only [mapMembers_cons, hm, hms]

theorem mapItems_congr {f g : Nat → Json → Except ε Json} : ∀ {vs : List Json} {i : Nat},
    (∀ v ∈ vs, ∀ i w, f i v = .ok w ↔ g i v = .ok w) → ∀ rs, mapItems f i vs = .ok rs ↔ mapItems g i vs = .ok rs
  | [], _, _, rs => Iff.rfl
  | v :: vs, i, h, rs => by
    have hv := h v (by simp) i
    have hvs := fun rs => mapItems_congr (i := i + 1) (fun v' hv' => h v' (List.mem_cons_of_mem v hv')) rs
    simp only [mapItems_cons, hv, hvs]

theorem mapMembers_lookup {f : String → Json → Except ε Json} : ∀ {ms rs : List (String × Json)},
    mapMembers f ms = .ok rs → ∀ name, (lookup ms name = none → lookup rs name = none) ∧
      ∀ v, lookup ms name = some v → ∃ w, f name v = .ok w ∧ lookup rs name = some w
  | [], rs, h, name => by cases h; simp [lookup]
  | m :: ms, rs, h, name => by
    obtain ⟨w, rs', hw, hr, rfl⟩ := mapMembers_cons.mp h
    have ih := mapMembers_lookup hr name
    by_cases he : m.1 = name
    · subst he
      simp [lookup_cons, hw]
    · simpa [lookup_cons, he] using ih

theorem mapItems_getElem? {f : Nat → Json → Except ε Json} : ∀ {vs rs : List Json} {n : Nat},
    mapItems f n vs = .ok rs → rs.length = vs.length ∧
      ∀ i v, vs[i]? = some v → ∃ w, f (n + i) v = .ok w ∧ rs[i]? = some w
  | [], rs, n, h => by cases h; simp
  | v :: vs, rs, n, h => by
    obtain ⟨w, rs', hw, hr, rfl⟩ := mapItems_cons.mp h
    obtain ⟨hlen, hget⟩ := mapItems_getElem? hr
    refine ⟨by simp [hlen], ?_⟩
    intro i v' hv'
    cases i with
    | zero =>
      rw [List.getElem?_cons_zero, Option.some.injEq] at hv'
      subst hv'
      exact ⟨w, hw, rfl⟩
    | succ i =>
      rw [List.getElem?_cons_succ] at hv'
      obtain ⟨w', hw', hget'⟩ := hget i v' hv'
      exact ⟨w', by rw [← hw']; congr 1; omega, hget'⟩

theorem mapMembers_total {f : String → Json → Except ε Json} : ∀ {ms : List (String × Json)},
    (∀ m ∈ ms, ∃ v, f m.1 m.2 = .ok v) → ∃ rs, mapMembers f ms = .ok rs
  | [], _ => ⟨[], rfl⟩
  | m :: ms, h => by
    obtain ⟨v, hv⟩ := h m (by simp)
    obtain ⟨rs, hr⟩ := mapMembers_total fun m' hm' => h m' (List.mem_cons_of_mem m hm')
    exact ⟨_, mapMembers_cons.mpr ⟨v, rs, hv, hr, rfl⟩⟩

theorem mapItems_total {f : Nat → Json → Except ε Json} : ∀ {vs : List Json} {n : Nat},
    (∀ i v, vs[i]? = some v → ∃ w, f (n + i) v = .ok w) → ∃ rs, mapItems f n vs = .ok rs
  | [], _, _ => ⟨[], rfl⟩
  | v :: vs, n, h => by
    obtain ⟨w, hw⟩ := h 0 v rfl
    have hrest : ∀ i v, vs[i]? = some v → ∃ w, f (n + 1 + i) v = .ok w := by
      intro i v' hv'
      have := h (i + 1) v' hv'
      rwa [show n + (i + 1) = n + 1 + i by omega] at this
    obtain ⟨rs, hr⟩ := mapItems_total hrest
    exact ⟨_, mapItems_cons.mpr ⟨w, rs, hw, hr, rfl⟩⟩

/-- Changing one member and then the others is changing all of them. -/
theorem mapMembers_modify {f : Json → Except ε Json} {g : String → Json → Except ε Json} {name : String}
    (hg : ∀ v, g name v = .ok v) : ∀ {ms rs : List (String × Json)}, (ms.map (·.1)).Nodup →
    ((∃ ms', modifyMember name f ms = .ok ms' ∧ mapMembers g ms' = .ok rs) ↔
      mapMembers (fun k v => if k = name then f v else g k v) ms = .ok rs)
  | [], rs, _ => by simp [modifyMember, mapMembers]
  | (k, v) :: ms, rs, hn => by
    rw [List.map_cons, List.nodup_cons] at hn
    rw [mapMembers_cons]
    by_cases h : k = name
    · subst h
      have hrest : ∀ rs, mapMembers g ms = .ok rs ↔
          mapMembers (fun l v => if l = k then f v else g l v) ms = .ok rs := by
        refine mapMembers_congr fun m hm w => ?_
        have hmem : m.1 ∈ ms.map (·.1) := List.mem_map_of_mem hm
        have hne : m.1 ≠ k := fun he => hn.1 (he ▸ hmem)
        rw [if_neg hne]
      simp only [modifyMember, if_true, Except.bind_eq_ok, Except.pure_eq_ok, ← hrest]
      constructor
      · intro h
        obtain ⟨ms', ⟨w, hw, rfl⟩, hm⟩ := h
        obtain ⟨w', rs', hw', hr, rfl⟩ := mapMembers_cons.mp hm
        rw [hg] at hw'
        cases hw'
        exact ⟨w, rs', hw, hr, rfl⟩
      · intro h
        obtain ⟨w, rs', hw, hr, rfl⟩ := h
        exact ⟨_, ⟨w, hw, rfl⟩, mapMembers_cons.mpr ⟨w, rs', hg w, hr, rfl⟩⟩
    · simp only [modifyMember, if_neg h, Except.bind_eq_ok, Except.pure_eq_ok]
      have ih : ∀ rs, (∃ ms', modifyMember name f ms = .ok ms' ∧ mapMembers g ms' = .ok rs) ↔
          mapMembers (fun k v => if k = name then f v else g k v) ms = .ok rs :=
        fun rs => mapMembers_modify hg hn.2
      constructor
      · intro hm
        obtain ⟨ms', ⟨ms'', hs, rfl⟩, hm⟩ := hm
        obtain ⟨w, rs', hw, hr, rfl⟩ := mapMembers_cons.mp hm
        exact ⟨w, rs', hw, (ih rs').mp ⟨ms'', hs, hr⟩, rfl⟩
      · intro hm
        obtain ⟨w, rs', hw, hr, rfl⟩ := hm
        obtain ⟨ms'', hs, hr'⟩ := (ih rs').mpr hr
        exact ⟨_, ⟨ms'', hs, rfl⟩, mapMembers_cons.mpr ⟨w, rs', hw, hr', rfl⟩⟩

end Json

/-! ## Shapes -/

/-- Which strings of a document are marked, by the members and items that lead to them. -/
inductive Shape where
  | none
  | node (marked : Bool) (members : String → Shape) (items : Nat → Shape)

namespace Shape

open Json (Path mapMembers mapItems lookup)

variable {ε : Type}

/-- Rewrite the marked strings. -/
def walk (leaf : Path → String → Except ε String) : Shape → Path → Json → Except ε Json
  | none, _, v => .ok v
  | node marked members items, path, v =>
    match v with
    | .str s => if marked then (leaf path s).map .str else .ok (.str s)
    | .arr vs => (mapItems (fun i v => walk leaf (items i) (path ++ [.inr i]) v) 0 vs).map .arr
    | .obj ms => (mapMembers (fun k v => walk leaf (members k) (path ++ [.inl k]) v) ms).map .obj
    | v => .ok v

/-- The marked string at a place of a document. -/
def find : Shape → Json → Path → Option String
  | node true _ _, .str s, [] => some s
  | node _ members _, .obj ms, .inl k :: path => (lookup ms k).bind fun v => find (members k) v path
  | node _ _ items, .arr vs, .inr i :: path => vs[i]?.bind fun v => find (items i) v path
  | _, _, _ => Option.none

/-- All marked strings of a document with their places. -/
def marks : Shape → Path → Json → List (Path × String)
  | none, _, _ => []
  | node marked members items, path, v =>
    match v with
    | .str s => if marked then [(path, s)] else []
    | .arr vs => vs.zipIdx.flatMap fun v => marks (items v.2) (path ++ [.inr v.2]) v.1
    | .obj ms => ms.flatMap fun m => marks (members m.1) (path ++ [.inl m.1]) m.2
    | _ => []

/-- Every mark of the first shape is a mark of the second. -/
def Within : Shape → Shape → Prop
  | none, _ => True
  | node _ _ _, none => False
  | node marked members items, node marked' members' items' =>
    (marked = true → marked' = true) ∧ (∀ k, Within (members k) (members' k)) ∧ ∀ i, Within (items i) (items' i)

/-- Two documents that differ at most in marked strings. -/
def SameBut : Shape → Json → Json → Prop
  | none, x, y => x = y
  | node marked members items, x, y =>
    match x, y with
    | .str s, .str t => marked = true ∨ s = t
    | .arr vs, .arr ws =>
      vs.length = ws.length ∧ ∀ i v w, vs[i]? = some v → ws[i]? = some w → SameBut (items i) v w
    | .obj ms, .obj ns =>
      ms.map (·.1) = ns.map (·.1) ∧
        ∀ k v w, lookup ms k = some v → lookup ns k = some w → SameBut (members k) v w
    | x, y => x = y

/-! ## What a walk leaves -/

theorem walk_str {leaf : Path → String → Except ε String} {m : Bool} {ms : String → Shape} {is : Nat → Shape}
    {path : Path} {s : String} {r : Json} :
    walk leaf (node m ms is) path (.str s) = .ok r ↔
      ∃ t, (if m then leaf path s else .ok s) = .ok t ∧ r = .str t := by
  cases m with
  | true => simp [walk, Except.map_eq_ok, eq_comm]
  | false => simp [walk, eq_comm]

theorem walk_arr {leaf : Path → String → Except ε String} {m : Bool} {ms : String → Shape} {is : Nat → Shape}
    {path : Path} {vs : List Json} {r : Json} :
    walk leaf (node m ms is) path (.arr vs) = .ok r ↔
      ∃ ws, mapItems (fun i v => walk leaf (is i) (path ++ [.inr i]) v) 0 vs = .ok ws ∧ r = .arr ws := by
  simp only [walk, Except.map_eq_ok]
  exact exists_congr fun ws => and_congr_right fun _ => eq_comm

theorem walk_obj {leaf : Path → String → Except ε String} {m : Bool} {ms : String → Shape} {is : Nat → Shape}
    {path : Path} {ns : List (String × Json)} {r : Json} :
    walk leaf (node m ms is) path (.obj ns) = .ok r ↔
      ∃ rs, mapMembers (fun k v => walk leaf (ms k) (path ++ [.inl k]) v) ns = .ok rs ∧ r = .obj rs := by
  simp only [walk, Except.map_eq_ok]
  exact exists_congr fun rs => and_congr_right fun _ => eq_comm

/-- A walk that succeeds on every mark succeeds. -/
theorem walk_total {leaf : Path → String → Except ε String} : ∀ {sh : Shape} {path : Path} {v : Json}, v.Ordered →
    (∀ q s, find sh v q = some s → ∃ t, leaf (path ++ q) s = .ok t) → ∃ r, walk leaf sh path v = .ok r
  | none, path, v, _, _ => ⟨v, rfl⟩
  | node m ms is, path, v, hd, h => by
    cases v with
    | str s =>
      cases m with
      | true =>
        obtain ⟨t, ht⟩ := h [] s (by simp [find])
        rw [List.append_nil] at ht
        exact ⟨.str t, walk_str.mpr ⟨t, ht, rfl⟩⟩
      | false => exact ⟨.str s, walk_str.mpr ⟨s, rfl, rfl⟩⟩
    | arr vs =>
      rw [Json.ordered_arr] at hd
      have hitems : ∃ ws, mapItems (fun i v => walk leaf (is i) (path ++ [.inr i]) v) 0 vs = .ok ws := by
        refine Json.mapItems_total fun i v hv => ?_
        rw [Nat.zero_add]
        refine walk_total (hd v (List.mem_of_getElem? hv)) fun q s hs => ?_
        have := h (.inr i :: q) s (by simpa [find, hv] using hs)
        rwa [List.append_cons] at this
      obtain ⟨ws, hw⟩ := hitems
      exact ⟨.arr ws, walk_arr.mpr ⟨ws, hw, rfl⟩⟩
    | obj ns =>
      rw [Json.ordered_obj] at hd
      have hmembers : ∃ rs, mapMembers (fun k v => walk leaf (ms k) (path ++ [.inl k]) v) ns = .ok rs := by
        refine Json.mapMembers_total fun n hn => ?_
        have hl : lookup ns n.1 = some n.2 := Json.lookup_of_mem (Json.nodup_of_pairwise hd.1) hn
        refine walk_total (hd.2 n hn) fun q s hs => ?_
        have := h (.inl n.1 :: q) s (by simpa [find, hl] using hs)
        rwa [List.append_cons] at this
      obtain ⟨rs, hr⟩ := hmembers
      exact ⟨.obj rs, walk_obj.mpr ⟨rs, hr, rfl⟩⟩
    | null => exact ⟨.null, rfl⟩
    | bool b => exact ⟨.bool b, rfl⟩
    | num n => exact ⟨.num n, rfl⟩

theorem walk_ordered {leaf : Path → String → Except ε String} : ∀ {sh : Shape} {path : Path} {v r : Json},
    v.Ordered → walk leaf sh path v = .ok r → r.Ordered
  | none, _, v, r, hd, h => by cases h; exact hd
  | node m ms is, path, v, r, hd, h => by
    cases v with
    | str s =>
      obtain ⟨t, -, rfl⟩ := walk_str.mp h
      trivial
    | arr vs =>
      obtain ⟨ws, hw, rfl⟩ := walk_arr.mp h
      obtain ⟨hlen, hget⟩ := Json.mapItems_getElem? hw
      rw [Json.ordered_arr] at hd ⊢
      intro w hmem
      obtain ⟨i, hi⟩ := List.mem_iff_getElem?.mp hmem
      have hlt : i < vs.length := by rw [← hlen]; exact (List.getElem?_eq_some_iff.mp hi).1
      obtain ⟨w', hw', hi'⟩ := hget i vs[i] (List.getElem?_eq_getElem hlt)
      rw [hi] at hi'
      cases hi'
      exact walk_ordered (hd _ (List.getElem_mem hlt)) hw'
    | obj ns =>
      obtain ⟨rs, hr, rfl⟩ := walk_obj.mp h
      rw [Json.ordered_obj] at hd ⊢
      have hkeys := Json.mapMembers_keys hr
      refine ⟨by rw [hkeys]; exact hd.1, ?_⟩
      intro p hp
      have hl : lookup rs p.1 = some p.2 := Json.lookup_of_mem (by rw [hkeys]; exact Json.nodup_of_pairwise hd.1) hp
      obtain ⟨hnone, hsome⟩ := Json.mapMembers_lookup hr p.1
      cases hn : lookup ns p.1 with
      | none => rw [hnone hn] at hl; cases hl
      | some v =>
        obtain ⟨w, hw, hl'⟩ := hsome v hn
        rw [hl] at hl'
        cases hl'
        exact walk_ordered (hd.2 _ (Json.mem_of_lookup hn)) hw
    | null => cases h; trivial
    | bool b => cases h; trivial
    | num n => cases h; trivial

/-! ## Marks before and after a walk -/

@[simp] theorem find_none (v : Json) (path : Path) : find none v path = Option.none := by
  cases path with
  | nil => simp [find]
  | cons a path => cases a <;> simp [find]

/-- Marks of the walked shape are rewritten, the other marks stay. -/
theorem find_walk {leaf : Path → String → Except ε String} : ∀ {cov full : Shape}, Within cov full →
    ∀ {path : Path} {v r : Json}, walk leaf cov path v = .ok r → ∀ q : Path,
      (find cov v q = Option.none → find full r q = find full v q) ∧
      ∀ s, find cov v q = some s → ∃ t, leaf (path ++ q) s = .ok t ∧ find full r q = some t
  | none, full, _, path, v, r, h, q => by
    cases h
    simp
  | node m ms is, none, hw, path, v, r, h, q => by cases hw
  | node m ms is, node m' ms' is', hw, path, v, r, h, q => by
    obtain ⟨hm, hms, his⟩ := hw
    cases v with
    | str s =>
      obtain ⟨t, ht, rfl⟩ := walk_str.mp h
      cases q with
      | nil =>
        cases m with
        | true =>
          rw [if_pos rfl] at ht
          rw [hm rfl]
          simpa [find] using ht
        | false =>
          rw [if_neg Bool.false_ne_true] at ht
          cases ht
          simp [find]
      | cons a q => cases a <;> simp [find]
    | arr vs =>
      obtain ⟨ws, hws, rfl⟩ := walk_arr.mp h
      obtain ⟨hlen, hget⟩ := Json.mapItems_getElem? hws
      cases q with
      | nil => simp [find]
      | cons a q =>
        cases a with
        | inl k => simp [find]
        | inr i =>
          cases hv : vs[i]? with
          | none =>
            have hws' : ws[i]? = Option.none := by
              rw [List.getElem?_eq_none_iff] at hv ⊢
              omega
            simp [find, hv, hws']
          | some v =>
            obtain ⟨w, hww, hwi⟩ := hget i v hv
            rw [Nat.zero_add] at hww
            have ih := find_walk (his i) hww q
            simpa [find, hv, hwi] using ih
    | obj ns =>
      obtain ⟨rs, hrs, rfl⟩ := walk_obj.mp h
      cases q with
      | nil => simp [find]
      | cons a q =>
        cases a with
        | inr i => simp [find]
        | inl k =>
          obtain ⟨hnone, hsome⟩ := Json.mapMembers_lookup hrs k
          cases hv : lookup ns k with
          | none => simp [find, hv, hnone hv]
          | some v =>
            obtain ⟨w, hww, hwk⟩ := hsome v hv
            have ih := find_walk (hms k) hww q
            simpa [find, hv, hwk] using ih
    | null => cases h; cases q with
      | nil => simp [find]
      | cons a q => cases a <;> simp [find]
    | bool b => cases h; cases q with
      | nil => simp [find]
      | cons a q => cases a <;> simp [find]
    | num n => cases h; cases q with
      | nil => simp [find]
      | cons a q => cases a <;> simp [find]

theorem Within.refl : ∀ sh : Shape, Within sh sh
  | none => trivial
  | node _ ms is => ⟨id, fun k => Within.refl (ms k), fun i => Within.refl (is i)⟩

/-- A mark of a shape is a mark of a shape around it. -/
theorem find_within : ∀ {cov full : Shape}, Within cov full → ∀ {v : Json} {q : Path} {s : String},
    find cov v q = some s → find full v q = some s
  | none, _, _, v, q, s, h => by simp at h
  | node _ _ _, none, hw, _, _, _, _ => by cases hw
  | node m ms is, node m' ms' is', hw, v, q, s, h => by
    cases q with
    | nil =>
      cases v with
      | str t =>
        cases m with
        | true =>
          rw [hw.1 rfl]
          exact h
        | false => simp [find] at h
      | _ => simp [find] at h
    | cons a q =>
      cases a with
      | inl k =>
        cases v with
        | obj ns =>
          simp only [find, Option.bind_eq_some_iff] at h ⊢
          obtain ⟨v, hv, h⟩ := h
          exact ⟨v, hv, find_within (hw.2.1 k) h⟩
        | _ => simp [find] at h
      | inr i =>
        cases v with
        | arr vs =>
          simp only [find, Option.bind_eq_some_iff] at h ⊢
          obtain ⟨v, hv, h⟩ := h
          exact ⟨v, hv, find_within (hw.2.2 i) h⟩
        | _ => simp [find] at h

theorem mem_marks_of_find : ∀ {sh : Shape} {path q : Path} {v : Json} {s : String}, find sh v q = some s →
    (path ++ q, s) ∈ marks sh path v
  | none, _, q, v, s, h => by simp at h
  | node m ms is, path, q, v, s, h => by
    cases q with
    | nil =>
      cases v with
      | str t =>
        cases m with
        | true => simpa [find, marks, eq_comm] using h
        | false => simp [find] at h
      | _ => simp [find] at h
    | cons a q =>
      cases a with
      | inl k =>
        cases v with
        | obj ns =>
          simp only [find, Option.bind_eq_some_iff] at h
          obtain ⟨v, hv, h⟩ := h
          rw [marks, List.mem_flatMap]
          have hm : ((path ++ [.inl k]) ++ q, s) ∈ marks (ms k) (path ++ [.inl k]) v := mem_marks_of_find h
          exact ⟨(k, v), Json.mem_of_lookup hv, by simpa using hm⟩
        | _ => simp [find] at h
      | inr i =>
        cases v with
        | arr vs =>
          simp only [find, Option.bind_eq_some_iff] at h
          obtain ⟨v, hv, h⟩ := h
          rw [marks, List.mem_flatMap]
          have hm : ((path ++ [.inr i]) ++ q, s) ∈ marks (is i) (path ++ [.inr i]) v := mem_marks_of_find h
          exact ⟨(v, i), List.mem_zipIdx_iff_getElem?.mpr hv, by simpa using hm⟩
        | _ => simp [find] at h

/-! ## Documents that differ in marked strings -/

theorem SameBut.refl : ∀ (sh : Shape) (v : Json), SameBut sh v v
  | none, v => rfl
  | node m ms is, v => by
    cases v with
    | str s => exact .inr rfl
    | arr vs =>
      refine ⟨rfl, fun i v w hv hw => ?_⟩
      rw [hv] at hw
      cases hw
      exact SameBut.refl (is i) v
    | obj ns =>
      refine ⟨rfl, fun k v w hv hw => ?_⟩
      rw [hv] at hw
      cases hw
      exact SameBut.refl (ms k) v
    | _ => rfl

theorem SameBut.symm : ∀ {sh : Shape} {x y : Json}, SameBut sh x y → SameBut sh y x
  | none, x, y, h => Eq.symm h
  | node m ms is, x, y, h => by
    cases x with
    | str s =>
      cases y with
      | str t => exact h.imp_right Eq.symm
      | _ => cases h
    | arr vs =>
      cases y with
      | arr ws => exact ⟨h.1.symm, fun i v w hv hw => (h.2 i w v hw hv).symm⟩
      | _ => cases h
    | obj ns =>
      cases y with
      | obj os => exact ⟨h.1.symm, fun k v w hv hw => (h.2 k w v hw hv).symm⟩
      | _ => cases h
    | null => cases y <;> first | rfl | cases h
    | bool b =>
      cases y with
      | bool c => exact Eq.symm h
      | _ => cases h
    | num n =>
      cases y with
      | num k => exact Eq.symm h
      | _ => cases h

theorem lookup_eq_none_congr {a b : List (String × Json)} (h : a.map (·.1) = b.map (·.1)) (k : String) :
    lookup a k = Option.none ↔ lookup b k = Option.none := by
  rw [Json.lookup_eq_none, Json.lookup_eq_none, h]

theorem SameBut.trans : ∀ {sh : Shape} {x y z : Json}, SameBut sh x y → SameBut sh y z → SameBut sh x z
  | none, x, y, z, h, h' => Eq.trans h h'
  | node m ms is, x, y, z, h, h' => by
    cases x with
    | str s =>
      cases y with
      | str t =>
        cases z with
        | str u =>
          cases h with
          | inl hm => exact .inl hm
          | inr he => rw [he]; exact h'
        | _ => cases h'
      | _ => cases h
    | arr vs =>
      cases y with
      | arr ws =>
        cases z with
        | arr us =>
          refine ⟨h.1.trans h'.1, fun i v u hv hu => ?_⟩
          have hlt : i < ws.length := by rw [← h.1]; exact (List.getElem?_eq_some_iff.mp hv).1
          have hw := List.getElem?_eq_getElem hlt
          exact (h.2 i v _ hv hw).trans (h'.2 i _ u hw hu)
        | _ => cases h'
      | _ => cases h
    | obj ns =>
      cases y with
      | obj os =>
        cases z with
        | obj ps =>
          refine ⟨h.1.trans h'.1, fun k v u hv hu => ?_⟩
          cases hw : lookup os k with
          | none =>
            rw [(lookup_eq_none_congr h.1 k).mpr hw] at hv
            cases hv
          | some w => exact (h.2 k v w hv hw).trans (h'.2 k w u hw hu)
        | _ => cases h'
      | _ => cases h
    | null =>
      cases y with
      | null => exact h'
      | _ => cases h
    | bool b =>
      cases y with
      | bool c => cases h; exact h'
      | _ => cases h
    | num n =>
      cases y with
      | num k => cases h; exact h'
      | _ => cases h

/-- A walk changes marked strings only. -/
theorem sameBut_walk {leaf : Path → String → Except ε String} : ∀ {cov full : Shape}, Within cov full →
    ∀ {path : Path} {v r : Json}, walk leaf cov path v = .ok r → SameBut full v r
  | none, full, _, path, v, r, h => by cases h; exact SameBut.refl full v
  | node _ _ _, none, hw, _, _, _, _ => by cases hw
  | node m ms is, node m' ms' is', hw, path, v, r, h => by
    obtain ⟨hm, hms, his⟩ := hw
    cases v with
    | str s =>
      obtain ⟨t, ht, rfl⟩ := walk_str.mp h
      cases m with
      | true => exact .inl (hm rfl)
      | false => cases ht; exact .inr rfl
    | arr vs =>
      obtain ⟨ws, hws, rfl⟩ := walk_arr.mp h
      obtain ⟨hlen, hget⟩ := Json.mapItems_getElem? hws
      refine ⟨hlen.symm, fun i v w hv hw => ?_⟩
      obtain ⟨w', hw', hi⟩ := hget i v hv
      rw [hw] at hi
      cases hi
      rw [Nat.zero_add] at hw'
      exact sameBut_walk (his i) hw'
    | obj ns =>
      obtain ⟨rs, hrs, rfl⟩ := walk_obj.mp h
      refine ⟨(Json.mapMembers_keys hrs).symm, fun k v w hv hw => ?_⟩
      obtain ⟨w', hw', hk⟩ := (Json.mapMembers_lookup hrs k).2 v hv
      rw [hw] at hk
      cases hk
      exact sameBut_walk (hms k) hw'
    | _ => cases h; rfl

/-- Documents that differ only in marked strings are equal when their marked strings are. -/
theorem SameBut.eq : ∀ {sh : Shape} {x y : Json}, x.Ordered → SameBut sh x y → (∀ q, find sh x q = find sh y q) → x = y
  | none, x, y, _, h, _ => h
  | node m ms is, x, y, hd, h, hf => by
    cases x with
    | str s =>
      cases y with
      | str t =>
        cases h with
        | inl hm =>
          have := hf []
          rw [hm] at this
          simpa [find] using this
        | inr he => rw [he]
      | _ => cases h
    | arr vs =>
      cases y with
      | arr ws =>
        rw [Json.ordered_arr] at hd
        have hvs : vs = ws := by
          refine List.ext_getElem h.1 fun i hv hw => ?_
          have hvi := List.getElem?_eq_getElem hv
          have hwi := List.getElem?_eq_getElem hw
          refine SameBut.eq (hd _ (List.getElem_mem hv)) (h.2 i _ _ hvi hwi) fun q => ?_
          simpa [find, hvi, hwi] using hf (.inr i :: q)
        rw [hvs]
      | _ => cases h
    | obj ns =>
      cases y with
      | obj os =>
        rw [Json.ordered_obj] at hd
        have hns : ns = os := by
          refine Json.members_ext h.1 (Json.nodup_of_pairwise hd.1) fun k => ?_
          cases hv : lookup ns k with
          | none => exact ((lookup_eq_none_congr h.1 k).mp hv).symm
          | some v =>
            cases hw : lookup os k with
            | none =>
              rw [(lookup_eq_none_congr h.1 k).mpr hw] at hv
              cases hv
            | some w =>
              have hvw : v = w := SameBut.eq (hd.2 _ (Json.mem_of_lookup hv)) (h.2 k v w hv hw) fun q => by
                simpa [find, hv, hw] using hf (.inl k :: q)
              rw [hvw]
        rw [hns]
      | _ => cases h
    | null =>
      cases y with
      | null => rfl
      | _ => cases h
    | bool b =>
      cases y with
      | bool c => exact h
      | _ => cases h
    | num n =>
      cases y with
      | num k => exact h
      | _ => cases h

/-- Documents that differ in marked strings have strings at the same marks. -/
theorem SameBut.find_eq_none : ∀ {cov full : Shape}, Within cov full → ∀ {x y : Json}, SameBut full x y → ∀ q : Path,
    find cov x q = Option.none ↔ find cov y q = Option.none
  | none, _, _, x, y, _, q => by simp
  | node _ _ _, none, hw, _, _, _, _ => by cases hw
  | node m ms is, node m' ms' is', hw, x, y, h, q => by
    obtain ⟨-, hms, his⟩ := hw
    cases x with
    | str s =>
      cases y with
      | str t => cases q with
        | nil => cases m <;> simp [find]
        | cons a q => cases a <;> simp [find]
      | _ => cases h
    | arr vs =>
      cases y with
      | arr ws => cases q with
        | nil => simp [find]
        | cons a q => cases a with
          | inl k => simp [find]
          | inr i =>
            cases hv : vs[i]? with
            | none =>
              have hw : ws[i]? = Option.none := by
                rw [List.getElem?_eq_none_iff] at hv ⊢
                rw [← h.1]
                exact hv
              simp [find, hv, hw]
            | some v =>
              have hlt : i < ws.length := by rw [← h.1]; exact (List.getElem?_eq_some_iff.mp hv).1
              have hw := List.getElem?_eq_getElem hlt
              simpa [find, hv, hw] using SameBut.find_eq_none (his i) (h.2 i v _ hv hw) q
      | _ => cases h
    | obj ns =>
      cases y with
      | obj os => cases q with
        | nil => simp [find]
        | cons a q => cases a with
          | inr i => simp [find]
          | inl k =>
            cases hv : lookup ns k with
            | none => simp [find, hv, (lookup_eq_none_congr h.1 k).mp hv]
            | some v =>
              cases hw : lookup os k with
              | none =>
                rw [(lookup_eq_none_congr h.1 k).mpr hw] at hv
                cases hv
              | some w => simpa [find, hv, hw] using SameBut.find_eq_none (hms k) (h.2 k v w hv hw) q
      | _ => cases h
    | null => cases y <;> first | exact Iff.rfl | cases h
    | bool b =>
      cases y with
      | bool c => cases h; exact Iff.rfl
      | _ => cases h
    | num n =>
      cases y with
      | num k => cases h; exact Iff.rfl
      | _ => cases h

/-! ## Hiding and undoing -/

/-- Write the mask over every mark. -/
def hide (mask : String) : Path → String → Except ε String := fun _ _ => .ok mask

/-- Two documents that differ in marked strings look the same under a constant
walk exactly when they agree on the marks it does not reach. -/
theorem hide_eq_iff {cov full : Shape} (hw : Within cov full) {mask : String} {path : Path} {x y x' y' : Json}
    (hd : x.Ordered) (h : SameBut full x y) (hx : walk (hide mask) cov path x = (.ok x' : Except ε Json))
    (hy : walk (hide mask) cov path y = (.ok y' : Except ε Json)) :
    x' = y' ↔ ∀ q, find cov x q = Option.none → find full x q = find full y q := by
  have hmask : ∀ {v v' : Json} {q : Path} {s : String},
      walk (hide mask) cov path v = (.ok v' : Except ε Json) → find cov v q = some s →
        find full v' q = some mask := by
    intro v v' q s hv hs
    obtain ⟨t, ht, hf⟩ := (find_walk hw hv q).2 s hs
    cases ht
    exact hf
  constructor
  · intro he q hq
    have hq' := (h.find_eq_none hw q).mp hq
    rw [← (find_walk hw hx q).1 hq, ← (find_walk hw hy q).1 hq', he]
  · intro hu
    have hsame : SameBut full x' y' := ((sameBut_walk hw hx).symm.trans h).trans (sameBut_walk hw hy)
    refine hsame.eq (walk_ordered hd hx) fun q => ?_
    cases hq : find cov x q with
    | none =>
      have hq' := (h.find_eq_none hw q).mp hq
      rw [(find_walk hw hx q).1 hq, (find_walk hw hy q).1 hq', hu q hq]
    | some s =>
      cases hq' : find cov y q with
      | none => rw [(h.find_eq_none hw q).mpr hq'] at hq; cases hq
      | some t => rw [hmask hx hq, hmask hy hq']

/-- A walk that undoes another on every mark undoes it on the document. -/
theorem walk_undo {leaf back : Path → String → Except ε String} {sh : Shape} {path : Path} {v r : Json}
    (hd : v.Ordered) (hr : walk leaf sh path v = .ok r)
    (h : ∀ q s t, find sh v q = some s → leaf (path ++ q) s = .ok t → back (path ++ q) t = .ok s) :
    walk back sh path r = .ok v := by
  have hback : ∀ q t, find sh r q = some t → ∃ s, find sh v q = some s ∧ back (path ++ q) t = .ok s := by
    intro q t ht
    cases hs : find sh v q with
    | none =>
      rw [(find_walk (Within.refl sh) hr q).1 hs, hs] at ht
      cases ht
    | some s =>
      obtain ⟨t', ht', hf⟩ := (find_walk (Within.refl sh) hr q).2 s hs
      rw [ht] at hf
      cases hf
      exact ⟨s, rfl, h q s t hs ht'⟩
  obtain ⟨v', hv'⟩ := walk_total (walk_ordered hd hr) fun q t ht => by
    obtain ⟨s, -, hb⟩ := hback q t ht
    exact ⟨s, hb⟩
  have hsame : SameBut sh v v' :=
    (sameBut_walk (Within.refl sh) hr).trans (sameBut_walk (Within.refl sh) hv')
  have heq : v = v' := by
    refine hsame.eq hd fun q => ?_
    cases ht : find sh r q with
    | none =>
      have hs : find sh v q = Option.none :=
        ((sameBut_walk (Within.refl sh) hr).find_eq_none (Within.refl sh) q).mpr ht
      rw [(find_walk (Within.refl sh) hv' q).1 ht, ht, hs]
    | some t =>
      obtain ⟨s, hs, hb⟩ := hback q t ht
      obtain ⟨s', hs', hf⟩ := (find_walk (Within.refl sh) hv' q).2 t ht
      rw [hb] at hs'
      cases hs'
      rw [hs, hf]
  rw [heq]
  exact hv'

end Shape
