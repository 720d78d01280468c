import Pingsix.Lib.EditDistance
import Pingsix.Lib.Json

/-!
# Hints about unrecognized fields

The fields a resource may have, by schema, and the warnings about all others:
the path of each, and the known field it may be a typo of. Nothing is refused.
The table of distances is the edit distance, a suggestion is the closest known
field, and the warnings are about exactly the fields that no schema has.
-/

namespace Pingsix

/-- The fields of an object, and the schemas of those that are typed objects themselves. -/
structure ResourceSchema where
  fields : List String
  nested : List (String × String) := []
  deriving DecidableEq, Repr

def schemaFor : String → Option ResourceSchema
  | "route" => some {
      fields := ["id", "name", "uri", "uris", "methods", "host", "hosts", "priority", "plugins", "upstream", "upstream_id",
        "service_id", "timeout", "enable_websocket", "metadata"]
      nested := [("upstream", "upstream"), ("timeout", "timeout")] }
  | "upstream" => some {
      fields := ["id", "retries", "retry_timeout", "timeout", "nodes", "plugins", "type", "checks", "hash_on", "key",
        "scheme", "pass_host", "upstream_host", "tls", "keepalive_pool", "metadata"]
      nested := [("timeout", "timeout"), ("checks", "health_check"), ("tls", "upstream_tls"),
        ("keepalive_pool", "keepalive_pool")] }
  | "service" => some {
      fields := ["id", "name", "plugins", "upstream", "upstream_id", "hosts", "metadata"]
      nested := [("upstream", "upstream")] }
  | "global_rule" => some { fields := ["id", "plugins", "metadata"] }
  | "ssl" => some { fields := ["id", "cert", "key", "snis", "metadata"] }
  | "timeout" => some { fields := ["connect", "send", "read"] }
  | "upstream_tls" => some { fields := ["client_cert", "client_key"] }
  | "keepalive_pool" => some { fields := ["idle_timeout"] }
  | "health_check" => some {
      fields := ["active", "passive"]
      nested := [("active", "active_check"), ("passive", "passive_check")] }
  | "active_check" => some {
      fields := ["type", "timeout", "http_path", "host", "port", "https_verify_certificate", "req_headers", "healthy",
        "unhealthy"]
      nested := [("healthy", "health"), ("unhealthy", "unhealthy")] }
  | "health" => some { fields := ["interval", "http_statuses", "successes"] }
  | "unhealthy" => some { fields := ["http_failures", "tcp_failures"] }
  | "passive_check" => some {
      fields := ["healthy", "unhealthy"]
      nested := [("healthy", "passive_healthy"), ("unhealthy", "passive_unhealthy")] }
  | "passive_healthy" => some { fields := ["http_statuses", "successes"] }
  | "passive_unhealthy" => some { fields := ["http_statuses", "tcp_failures", "timeouts", "http_failures"] }
  | _ => none

/-! ## Suggestions -/

/-- `curr[1..]`, from `prev` and the cell of `curr` before it. -/
def editCells (ac : Char) : List Char → List Nat → Nat → List Nat
  | bc :: b, diagonal :: above :: prev, left =>
    let cost := if ac = bc then 0 else 1
    let cell := min (min (above + 1) (left + 1)) (diagonal + cost)
    cell :: editCells ac b (above :: prev) cell
  | _, _, _ => []

/-- `prev` after the rows of all characters, the first of them the row `i`. -/
def editRows (b : List Char) : List Char → Nat → List Nat → List Nat
  | [], _, prev => prev
  | ac :: a, i, prev => editRows b a (i + 1) ((i + 1) :: editCells ac b prev (i + 1))

def editDistance (a b : String) : Nat :=
  let a := a.toList
  let b := b.toList
  if a = [] then b.length
  else if b = [] then a.length
  else (editRows b a 0 (List.range (b.length + 1))).getD b.length 0

/-- The closest known field, the first of several, when it is one or two edits away. -/
def suggestField (schema : ResourceSchema) (key : String) (keyLen : Nat) : Option String :=
  let near := schema.fields.filter fun known => known.length - keyLen + (keyLen - known.length) ≤ 2
  let distances := near.map fun known => (known, editDistance key known)
  ((distances.filter fun d => 0 < d.2 ∧ d.2 ≤ 2).minOn? Prod.snd).map Prod.fst

/-! ## Warnings -/

structure FieldWarning where
  path : String
  suggestion : Option String
  deriving DecidableEq, Repr

mutual
def collectSchemaWarnings (schemaId path : String) : Json → List FieldWarning
  | .obj members =>
    match schemaFor schemaId with
    | some schema => collectMemberWarnings schema path members
    | none => []
  | _ => []

def collectMemberWarnings (schema : ResourceSchema) (path : String) : List (String × Json) → List FieldWarning
  | [] => []
  | (key, val) :: members =>
    let fieldPath := s!"{path}.{key}"
    let warnings :=
      if key ∈ schema.fields then
        match schema.nested.lookup key with
        | some nestedId => collectSchemaWarnings nestedId fieldPath val
        | none => []
      else [{ path := fieldPath, suggestion := suggestField schema key key.length }]
    warnings ++ collectMemberWarnings schema path members
end

def schemaIdOf : String → Option String
  | "routes" => some "route"
  | "upstreams" => some "upstream"
  | "services" => some "service"
  | "global_rules" => some "global_rule"
  | "ssls" => some "ssl"
  | _ => none

def unrecognizedFields (resourceType : String) (value : Json) : List FieldWarning :=
  match schemaIdOf resourceType with
  | some schemaId => collectSchemaWarnings schemaId resourceType value
  | none => []

open EditDistance

/-! ## The table of distances -/

theorem editCells_row (ac : Char) (a : List Char) : ∀ before b : List Char,
    editCells ac b (row a before b) (dist (ac :: a) before) = (row (ac :: a) before b).tail
  | before, [] => rfl
  | before, bc :: b => by
    have h := editCells_row ac a (bc :: before) b
    rw [row, row_eq_cons a (bc :: before) b, editCells, ← row_eq_cons a (bc :: before) b, ← dist_cons_cons, h, row,
      List.tail_cons, ← row_eq_cons]

/-- Each row of the loop is that of the characters read so far. -/
theorem editRows_row (b : List Char) : ∀ a read : List Char,
    editRows b a read.length (row read [] b) = row (a.reverse ++ read) [] b
  | [], read => rfl
  | ac :: a, read => by
    have hcells : editCells ac b (row read [] b) (read.length + 1) = (row (ac :: read) [] b).tail := by
      have h := editCells_row ac read [] b
      rwa [dist_nil_right] at h
    have hrow : (read.length + 1) :: (row (ac :: read) [] b).tail = row (ac :: read) [] b := by
      rw [row_eq_cons (ac :: read) [] b, dist_nil_right]
      rfl
    have h := editRows_row b a (ac :: read)
    rw [editRows, hcells, hrow, List.reverse_cons, List.append_assoc, List.singleton_append]
    exact h

theorem editDistance_eq (a b : String) : editDistance a b = dist a.toList.reverse b.toList.reverse := by
  unfold editDistance
  by_cases ha : a.toList = []
  · simp [ha]
  · by_cases hb : b.toList = []
    · simp [ha, hb]
    · have hrow : List.range (b.toList.length + 1) = row [] [] b.toList := by
        rw [row_nil, List.range_eq_range']
        rfl
      have h := editRows_row b.toList a.toList []
      simp only [ha, hb, if_false]
      rw [hrow, show 0 = ([] : List Char).length from rfl, h, List.getD_eq_getElem?_getD, getElem?_row, List.append_nil,
        List.append_nil]
      rfl

/-- The least number of characters removed, added and replaced. -/
theorem isDistance_editDistance (a b : String) : IsDistance a.toList b.toList (editDistance a b) := by
  rw [editDistance_eq]
  simpa using (isDistance_dist a.toList.reverse b.toList.reverse).reverse

/-! ## The first minimum -/

theorem minOn?_eq_some_iff {α : Type} {f : α → Nat} {m : α} : ∀ {l : List α}, l.minOn? f = some m ↔
    ∃ before after, l = before ++ m :: after ∧ (∀ x ∈ before, f m < f x) ∧ ∀ x ∈ after, f m ≤ f x := by
  intro l
  induction l generalizing m with
  | nil => simp
  | cons x l ih =>
    rw [List.minOn?_cons, Option.some.injEq]
    constructor
    · intro h
      cases hl : l.minOn? f with
      | none =>
        have hnil : l = [] := by
          cases l with
          | nil => rfl
          | cons y l =>
            rw [List.minOn?_cons] at hl
            cases hl
        rw [hl, Option.elim_none] at h
        exact ⟨[], [], by rw [hnil, h]; rfl, by simp, by simp⟩
      | some y =>
        obtain ⟨before, after, heq, hbefore, hafter⟩ := ih.mp hl
        rw [hl, Option.elim_some, minOn] at h
        by_cases hxy : f x ≤ f y
        · rw [if_pos hxy] at h
          subst h
          refine ⟨[], l, rfl, by simp, fun g hg => ?_⟩
          rw [heq, List.mem_append, List.mem_cons] at hg
          obtain hg | hg | hg := hg
          · exact hxy.trans (Nat.le_of_lt (hbefore g hg))
          · rwa [hg]
          · exact hxy.trans (hafter g hg)
        · rw [if_neg hxy] at h
          subst h
          refine ⟨x :: before, after, by rw [heq]; rfl, fun g hg => ?_, hafter⟩
          cases List.mem_cons.mp hg with
          | inl hg => rw [hg]; exact Nat.lt_of_not_le hxy
          | inr hg => exact hbefore g hg
    · intro h
      obtain ⟨before, after, heq, hbefore, hafter⟩ := h
      cases before with
      | nil =>
        obtain ⟨rfl, rfl⟩ := List.cons.inj heq
        cases hl : l.minOn? f with
        | none => rfl
        | some y =>
          obtain ⟨before', after', heq', -, -⟩ := ih.mp hl
          rw [Option.elim_some, minOn, if_pos (hafter y (by rw [heq']; simp))]
      | cons b before =>
        obtain ⟨rfl, rfl⟩ := List.cons.inj heq
        rw [ih.mpr ⟨before, after, rfl, fun g hg => hbefore g (List.mem_cons_of_mem _ hg), hafter⟩, Option.elim_some,
          minOn, if_neg (Nat.not_le_of_lt (hbefore x List.mem_cons_self))]

theorem minOn?_eq_none_iff {α : Type} {f : α → Nat} {l : List α} : l.minOn? f = none ↔ l = [] := by
  cases l with
  | nil => simp
  | cons x l =>
    rw [List.minOn?_cons]
    simp

/-- The first minimum of a function among the elements of a kind. -/
theorem firstMin_eq_some_iff {α : Type} {p : α → Prop} [DecidablePred p] {d : α → Nat} {l : List α} {m : α} :
    (((l.filter p).map fun x => (x, d x)).minOn? Prod.snd).map Prod.fst = some m ↔ ∃ before after,
      l = before ++ m :: after ∧ p m ∧ (∀ x ∈ before, p x → d m < d x) ∧ ∀ x ∈ after, p x → d m ≤ d x := by
  rw [Option.map_eq_some_iff]
  constructor
  · intro h
    obtain ⟨e, hmin, rfl⟩ := h
    obtain ⟨before, after, heq, hbefore, hafter⟩ := minOn?_eq_some_iff.mp hmin
    obtain ⟨l1, l2, hfilter, rfl, h2⟩ := List.map_eq_append_iff.mp heq
    obtain ⟨x, l3, rfl, rfl, rfl⟩ := List.map_eq_cons_iff.mp h2
    obtain ⟨a, b, rfl, rfl, hb⟩ := List.filter_eq_append_iff.mp hfilter
    obtain ⟨c, after, rfl, hc, hx, rfl⟩ := List.filter_eq_cons_iff.mp hb
    refine ⟨a ++ c, after, by rw [List.append_assoc], by simpa using hx, fun y hy hp => ?_, fun y hy hp => ?_⟩
    · cases List.mem_append.mp hy with
      | inl hy => exact hbefore _ (List.mem_map_of_mem (List.mem_filter.mpr ⟨hy, decide_eq_true hp⟩))
      | inr hy => exact absurd (decide_eq_true hp) (hc y hy)
    · exact hafter _ (List.mem_map_of_mem (List.mem_filter.mpr ⟨hy, decide_eq_true hp⟩))
  · intro h
    obtain ⟨before, after, rfl, hm, hbefore, hafter⟩ := h
    refine ⟨(m, d m), minOn?_eq_some_iff.mpr ⟨(before.filter p).map fun x => (x, d x),
      (after.filter p).map fun x => (x, d x), ?_, fun e he => ?_, fun e he => ?_⟩, rfl⟩
    · rw [List.filter_append, List.filter_cons, if_pos (decide_eq_true hm), List.map_append, List.map_cons]
    · obtain ⟨x, hx, rfl⟩ := List.mem_map.mp he
      obtain ⟨hx, hp⟩ := List.mem_filter.mp hx
      exact hbefore x hx (of_decide_eq_true hp)
    · obtain ⟨x, hx, rfl⟩ := List.mem_map.mp he
      obtain ⟨hx, hp⟩ := List.mem_filter.mp hx
      exact hafter x hx (of_decide_eq_true hp)

/-! ## Suggestions -/

/-- A field may be meant when one or two edits turn the key into it. -/
def MayMean (key known : String) (n : Nat) : Prop := (n = 1 ∨ n = 2) ∧ IsDistance key.toList known.toList n

theorem mayMean_iff {key known : String} {n : Nat} :
    MayMean key known n ↔ n = editDistance key known ∧ 0 < editDistance key known ∧ editDistance key known ≤ 2 := by
  constructor
  · intro h
    have hn := h.2.unique (isDistance_editDistance key known)
    subst hn
    obtain ⟨h, -⟩ := h
    omega
  · intro h
    obtain ⟨rfl, h1, h2⟩ := h
    exact ⟨by omega, isDistance_editDistance key known⟩

/-- Whom the lengths rule out is too far away. -/
theorem near_of_mayMean {key known : String} {n : Nat} (h : MayMean key known n) :
    known.length - key.length + (key.length - known.length) ≤ 2 := by
  have hlength := h.2.1.length_le
  rw [String.length_toList, String.length_toList] at hlength
  obtain ⟨h, -⟩ := h
  omega

/-- The fields that are compared in the end, with their distances. -/
theorem candidates_eq (schema : ResourceSchema) (key : String) :
    (((schema.fields.filter fun known => known.length - key.length + (key.length - known.length) ≤ 2).map
      fun known => (known, editDistance key known)).filter fun d => 0 < d.2 ∧ d.2 ≤ 2) =
    (schema.fields.filter fun known => 0 < editDistance key known ∧ editDistance key known ≤ 2).map
      fun known => (known, editDistance key known) := by
  rw [List.filter_map, List.filter_filter]
  congr 1
  refine List.filter_congr fun known _ => ?_
  simp only [Function.comp_apply]
  by_cases h : 0 < editDistance key known ∧ editDistance key known ≤ 2
  · have hnear := near_of_mayMean (mayMean_iff.mpr ⟨rfl, h⟩)
    simp [h, hnear]
  · simp [h]

/-- Exactly the first of the closest fields is suggested, and none only when no field is near. -/
theorem suggestField_closest (schema : ResourceSchema) (key : String) :
    (∀ known, suggestField schema key key.length = some known ↔ ∃ before after n,
      schema.fields = before ++ known :: after ∧ MayMean key known n ∧
        (∀ other ∈ before, ∀ m, MayMean key other m → n < m) ∧ ∀ other ∈ after, ∀ m, MayMean key other m → n ≤ m) ∧
    (suggestField schema key key.length = none ↔ ∀ known ∈ schema.fields, ∀ n, ¬MayMean key known n) := by
  have hdef : suggestField schema key key.length =
      (((schema.fields.filter fun known => 0 < editDistance key known ∧ editDistance key known ≤ 2).map
        fun known => (known, editDistance key known)).minOn? Prod.snd).map Prod.fst := by
    unfold suggestField
    rw [← candidates_eq]
  rw [hdef]
  constructor
  · intro known
    rw [firstMin_eq_some_iff]
    constructor
    · intro h
      obtain ⟨before, after, heq, hm, hbefore, hafter⟩ := h
      refine ⟨before, after, editDistance key known, heq, mayMean_iff.mpr ⟨rfl, hm⟩, fun other ho m hmean => ?_,
        fun other ho m hmean => ?_⟩
      · obtain ⟨rfl, hp⟩ := mayMean_iff.mp hmean
        exact hbefore other ho hp
      · obtain ⟨rfl, hp⟩ := mayMean_iff.mp hmean
        exact hafter other ho hp
    · intro h
      obtain ⟨before, after, n, heq, hmean, hbefore, hafter⟩ := h
      obtain ⟨rfl, hm⟩ := mayMean_iff.mp hmean
      exact ⟨before, after, heq, hm, fun other ho hp => hbefore other ho _ (mayMean_iff.mpr ⟨rfl, hp⟩),
        fun other ho hp => hafter other ho _ (mayMean_iff.mpr ⟨rfl, hp⟩)⟩
  · rw [Option.map_eq_none_iff, minOn?_eq_none_iff, List.map_eq_nil_iff, List.filter_eq_nil_iff]
    constructor
    · intro h known hk n hmean
      exact h known hk (decide_eq_true (mayMean_iff.mp hmean).2)
    · intro h known hk hp
      exact h known hk _ (mayMean_iff.mpr ⟨rfl, of_decide_eq_true hp⟩)

/-! ## Warnings -/

/-- An object of a document of the schema, below fields that are typed objects all the way. -/
inductive ReachesObject : String → Json → List String → ResourceSchema → List (String × Json) → Prop
  | here {schemaId : String} {schema : ResourceSchema} {members : List (String × Json)}
      (h : schemaFor schemaId = some schema) : ReachesObject schemaId (.obj members) [] schema members
  | field {schemaId nestedId key : String} {schema inner : ResourceSchema} {members found : List (String × Json)}
      {val : Json} {keys : List String} (h : schemaFor schemaId = some schema) (hm : (key, val) ∈ members)
      (hf : key ∈ schema.fields) (hn : schema.nested.lookup key = some nestedId)
      (r : ReachesObject nestedId val keys inner found) : ReachesObject schemaId (.obj members) (key :: keys) inner found

def dotted (path : String) (keys : List String) : String := keys.foldl (fun path key => s!"{path}.{key}") path

/-- What is warned about below the document: the fields of reached objects that their schema does not have. -/
def Unrecognized (schemaId path : String) (value : Json) (w : FieldWarning) : Prop :=
  ∃ keys schema members key val, ReachesObject schemaId value keys schema members ∧ (key, val) ∈ members ∧
    key ∉ schema.fields ∧
    w = { path := dotted path (keys ++ [key]), suggestion := suggestField schema key key.length }

variable {schemaId path : String} {schema : ResourceSchema} {w : FieldWarning}

theorem collectMemberWarnings_cons (m : String × Json) (members : List (String × Json)) :
    collectMemberWarnings schema path (m :: members) =
      collectMemberWarnings schema path [m] ++ collectMemberWarnings schema path members := by
  simp [collectMemberWarnings]

theorem mem_collectMemberWarnings_singleton {key : String} {val : Json} :
    w ∈ collectMemberWarnings schema path [(key, val)] ↔
      (key ∈ schema.fields ∧ ∃ nestedId, schema.nested.lookup key = some nestedId ∧
          w ∈ collectSchemaWarnings nestedId s!"{path}.{key}" val) ∨
        (key ∉ schema.fields ∧ w = { path := s!"{path}.{key}", suggestion := suggestField schema key key.length }) := by
  by_cases hf : key ∈ schema.fields
  · cases hn : schema.nested.lookup key with
    | none => simp [collectMemberWarnings, hf, hn]
    | some nestedId => simp [collectMemberWarnings, hf, hn]
  · simp [collectMemberWarnings, hf]

theorem mem_collectMemberWarnings {members : List (String × Json)} :
    w ∈ collectMemberWarnings schema path members ↔
      ∃ key val, (key, val) ∈ members ∧ w ∈ collectMemberWarnings schema path [(key, val)] := by
  induction members with
  | nil => simp [collectMemberWarnings]
  | cons m members ih =>
    rw [collectMemberWarnings_cons, List.mem_append, ih]
    constructor
    · intro h
      cases h with
      | inl h => exact ⟨m.1, m.2, List.mem_cons_self, h⟩
      | inr h =>
        obtain ⟨key, val, hm, h⟩ := h
        exact ⟨key, val, List.mem_cons_of_mem _ hm, h⟩
    · intro h
      obtain ⟨key, val, hm, h⟩ := h
      cases List.mem_cons.mp hm with
      | inl he =>
        cases he
        exact .inl h
      | inr hm => exact .inr ⟨key, val, hm, h⟩

theorem unrecognized_of_mem : ∀ {value : Json} {schemaId path : String},
    w ∈ collectSchemaWarnings schemaId path value → Unrecognized schemaId path value w
  | .obj members, schemaId, path, h => by
    rw [collectSchemaWarnings] at h
    cases hs : schemaFor schemaId with
    | none =>
      rw [hs] at h
      cases h
    | some schema =>
      rw [hs] at h
      obtain ⟨key, val, hm, h⟩ := mem_collectMemberWarnings.mp h
      cases mem_collectMemberWarnings_singleton.mp h with
      | inl h =>
        obtain ⟨hf, nestedId, hn, h⟩ := h
        have hsize := List.sizeOf_lt_of_mem hm
        obtain ⟨keys, inner, found, key', val', r, hm', hf', rfl⟩ := unrecognized_of_mem h
        exact ⟨key :: keys, inner, found, key', val', .field hs hm hf hn r, hm', hf', rfl⟩
      | inr h => exact ⟨[], schema, members, key, val, .here hs, hm, h.1, h.2⟩
  | .null, _, _, h | .bool _, _, _, h | .num _, _, _, h | .str _, _, _, h | .arr _, _, _, h => by
    simp [collectSchemaWarnings] at h
termination_by value => sizeOf value
decreasing_by
  simp only [Prod.mk.sizeOf_spec, Json.obj.sizeOf_spec] at hsize ⊢
  omega

theorem mem_of_reaches {value : Json} {keys : List String} {members : List (String × Json)} {key : String} {val : Json}
    (r : ReachesObject schemaId value keys schema members) (hm : (key, val) ∈ members) (hf : key ∉ schema.fields) (path : String) :
    { path := dotted path (keys ++ [key]), suggestion := suggestField schema key key.length } ∈
      collectSchemaWarnings schemaId path value := by
  induction r generalizing path with
  | here hs =>
    rw [collectSchemaWarnings, hs]
    exact mem_collectMemberWarnings.mpr ⟨key, val, hm, mem_collectMemberWarnings_singleton.mpr (.inr ⟨hf, rfl⟩)⟩
  | @field _ nestedId step _ _ _ _ inner _ hs hstep hfield hn r ih =>
    rw [collectSchemaWarnings, hs]
    have h := ih hm hf s!"{path}.{step}"
    exact mem_collectMemberWarnings.mpr ⟨step, inner, hstep,
      mem_collectMemberWarnings_singleton.mpr (.inl ⟨hfield, nestedId, hn, h⟩)⟩

/-- The warnings are about exactly the unrecognized fields, each with its path and the field it may be a typo of. -/
theorem mem_unrecognizedFields (resourceType : String) (value : Json) :
    w ∈ unrecognizedFields resourceType value ↔
      ∃ schemaId, schemaIdOf resourceType = some schemaId ∧ Unrecognized schemaId resourceType value w := by
  unfold unrecognizedFields
  cases hid : schemaIdOf resourceType with
  | none => simp
  | some schemaId =>
    constructor
    · intro h
      exact ⟨schemaId, rfl, unrecognized_of_mem h⟩
    · intro h
      obtain ⟨_, he, keys, schema, members, key, val, r, hm, hf, rfl⟩ := h
      cases he
      exact mem_of_reaches r hm hf resourceType

end Pingsix
