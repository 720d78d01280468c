import Pingsix.SecretSchema

/-!
# Secrets of documents

The walks over documents rewrite exactly the strings their shapes mark, and a
restored document carries the stored secret wherever the client left the mask
over one.
-/

namespace Pingsix

open Json (mapMembers mapItems modifyMember lookup)
open Shape (find walk Within SameBut)

/-! ## Walks and shapes -/

/-- The walk rewrites exactly the strings the shape marks. -/
def Reaches (w : SecretWalk) (sh : Shape) : Prop :=
  ∀ leaf path v r, v.Ordered → (w leaf path v = .ok r ↔ sh.walk leaf path v = .ok r)

theorem mapItems_ok {ε : Type} : ∀ (vs : List Json) (i : Nat), mapItems (fun _ v => .ok v) i vs = (.ok vs : Except ε (List Json))
  | [], _ => rfl
  | v :: vs, i => Json.mapItems_cons.mpr ⟨v, vs, rfl, mapItems_ok vs (i + 1), rfl⟩

theorem mapMembers_ok {ε : Type} : ∀ ms : List (String × Json),
    mapMembers (fun _ v => .ok v) ms = (.ok ms : Except ε (List (String × Json)))
  | [] => rfl
  | m :: ms => Json.mapMembers_cons.mpr ⟨m.2, ms, rfl, mapMembers_ok ms, rfl⟩

/-- Below a shape without marks nothing changes. -/
theorem walk_inner {leaf : SecretLeaf} {m : Bool} {path : SecretPath} {v : Json} :
    walk leaf (.node m (fun _ => .none) fun _ => .none) path v =
      match v with
      | .str s => if m then (leaf path s).map .str else .ok (.str s)
      | v => .ok v := by
  cases v with
  | arr vs => simp only [walk, mapItems_ok]; rfl
  | obj ms => simp only [walk, mapMembers_ok]; rfl
  | _ => rfl

theorem reaches_none : Reaches (fun _ _ v => .ok v) .none := fun _ _ _ _ _ => Iff.rfl

theorem transformItems_eq (leaf : SecretLeaf) (path : SecretPath) : ∀ (i : Nat) (items : List Json),
    transformItems leaf path i items =
      mapItems (fun i v => walk leaf (.node true (fun _ => .none) fun _ => .none) (path ++ [.inr i]) v) i items
  | _, [] => rfl
  | i, v :: items => by
    have ih := transformItems_eq leaf path (i + 1) items
    rw [mapItems, walk_inner]
    cases v with
    | str s =>
      rw [transformItems, ih]
      cases h : leaf (path ++ [.inr i]) s with
      | error e => simp [h, bind, Except.bind, Except.map]
      | ok t => simp [h, bind, Except.bind, Except.map]
    | _ =>
      rw [transformItems, ih]
      · rfl
      · intro s h
        cases h

theorem reaches_leaf : Reaches transformLeaf secretField := by
  intro leaf path v r _
  cases v with
  | str s => exact Iff.rfl
  | arr items =>
    show (transformItems leaf path 0 items).map Json.arr = .ok r ↔ _
    rw [transformItems_eq]
    exact Iff.rfl
  | obj ms =>
    show Except.ok (Json.obj ms) = .ok r ↔ _
    rw [secretField]
    simp only [walk, mapMembers_ok]
    exact Iff.rfl
  | _ => exact Iff.rfl

theorem walk_null {leaf : SecretLeaf} {path : SecretPath} (sh : Shape) : walk leaf sh path .null = .ok .null := by
  cases sh <;> rfl

theorem reaches_nested {name : String} {w : SecretWalk} {sh : Shape} (h : Reaches w sh) :
    Reaches (SecretField.nested name w).walk sh := by
  intro leaf path v r hv
  unfold SecretField.nested
  by_cases hn : v = .null
  · simp [hn, walk_null]
  · simpa only [if_neg hn] using h leaf path v r hv

theorem modifyMember_ordered {f : Json → ProxyResult Json} {name : String}
    (hf : ∀ {v w}, v.Ordered → f v = .ok w → w.Ordered) : ∀ {ms rs : List (String × Json)},
    (∀ m ∈ ms, m.2.Ordered) → modifyMember name f ms = .ok rs → rs.map (·.1) = ms.map (·.1) ∧ ∀ m ∈ rs, m.2.Ordered
  | [], rs, _, h => by cases h; simp
  | (k, v) :: ms, rs, hms, h => by
    have hv := hms (k, v) (by simp)
    have hrest : ∀ m ∈ ms, m.2.Ordered := fun m hm => hms m (List.mem_cons_of_mem _ hm)
    unfold modifyMember at h
    split at h
    · obtain ⟨w, hw, h⟩ := Except.bind_eq_ok.mp h
      rw [Except.pure_eq_ok] at h
      subst h
      simpa using ⟨hf hv hw, fun a b hm => hrest (a, b) hm⟩
    · obtain ⟨rs', hr, h⟩ := Except.bind_eq_ok.mp h
      rw [Except.pure_eq_ok] at h
      subst h
      obtain ⟨hk, ho⟩ := modifyMember_ordered hf hrest hr
      simpa [hk] using ⟨hv, fun a b hm => ho (a, b) hm⟩

theorem modifyMember_congr {f g : Json → ProxyResult Json} {name : String} : ∀ {ms : List (String × Json)},
    (∀ m ∈ ms, ∀ w, f m.2 = .ok w ↔ g m.2 = .ok w) → ∀ rs, modifyMember name f ms = .ok rs ↔ modifyMember name g ms = .ok rs
  | [], _, rs => Iff.rfl
  | (k, v) :: ms, h, rs => by
    have hv := h (k, v) (by simp)
    have hms : ∀ rs, modifyMember name f ms = .ok rs ↔ modifyMember name g ms = .ok rs :=
      modifyMember_congr fun m hm => h m (List.mem_cons_of_mem _ hm)
    unfold modifyMember
    split
    · simp only [Except.bind_eq_ok, hv]
    · simp only [Except.bind_eq_ok, hms]

/-- The shape a list of fields gives to a member. -/
def fieldShape (fields : List (String × Nat × Shape)) (name : String) : Shape :=
  (fields.find? fun f => f.1 = name).elim .none (·.2.2)

theorem fieldShape_cons (f : String × Nat × Shape) (fields : List (String × Nat × Shape)) (name : String) :
    fieldShape (f :: fields) name = if name = f.1 then f.2.2 else fieldShape fields name := by
  unfold fieldShape
  by_cases h : name = f.1
  · simp [h]
  · simp [h, Ne.symm h]

theorem foldlM_fields {leaf : SecretLeaf} {path : SecretPath} : ∀ {fields : List SecretField}
    {shapes : List (String × Nat × Shape)}, List.Forall₂ (fun f s => f.name = s.1 ∧ Reaches f.walk s.2.2) fields shapes →
    (shapes.map (·.1)).Nodup → ∀ {ms rs : List (String × Json)}, (ms.map (·.1)).Nodup → (∀ m ∈ ms, m.2.Ordered) →
    (fields.foldlM (fun ms (f : SecretField) => f.apply leaf path ms) ms = .ok rs ↔
      mapMembers (fun k v => walk leaf (fieldShape shapes k) (path ++ [.inl k]) v) ms = .ok rs)
  | [], [], _, _, ms, rs, _, _ => by
    simp [fieldShape, walk, mapMembers_ok]
  | f :: fields, s :: shapes, hf, hs, ms, rs, hn, ho => by
    cases hf with
    | cons hhead htail =>
      obtain ⟨hname, hreach⟩ := hhead
      rw [List.map_cons, List.nodup_cons] at hs
      have hother : ∀ v, walk leaf (fieldShape shapes s.1) (path ++ [.inl s.1]) v = .ok v := by
        intro v
        have : fieldShape shapes s.1 = .none := by
          unfold fieldShape
          rw [List.find?_eq_none.mpr]
          · rfl
          · intro p hp he
            rw [decide_eq_true_iff] at he
            exact hs.1 (he ▸ List.mem_map_of_mem hp)
        rw [this]
        rfl
      have happly : ∀ ms', f.apply leaf path ms = .ok ms' ↔
          modifyMember s.1 (walk leaf s.2.2 (path ++ [.inl s.1])) ms = .ok ms' := by
        intro ms'
        unfold SecretField.apply
        rw [hname]
        exact modifyMember_congr (fun m hm w => hreach leaf _ m.2 w (ho m hm)) ms'
      have hcons : ∀ k v, walk leaf (fieldShape (s :: shapes) k) (path ++ [.inl k]) v =
          if k = s.1 then walk leaf s.2.2 (path ++ [.inl s.1]) v
          else walk leaf (fieldShape shapes k) (path ++ [.inl k]) v := by
        intro k v
        rw [fieldShape_cons]
        by_cases hk : k = s.1
        · rw [if_pos hk, if_pos hk, hk]
        · rw [if_neg hk, if_neg hk]
      rw [List.foldlM_cons, Except.bind_eq_ok]
      simp only [hcons]
      rw [← Json.mapMembers_modify hother hn]
      refine exists_congr fun ms' => ?_
      rw [happly]
      refine and_congr_right fun hm => ?_
      obtain ⟨hk, ho'⟩ := modifyMember_ordered (fun hv hw => Shape.walk_ordered hv hw) ho hm
      exact foldlM_fields htail hs.2 (by rw [hk]; exact hn) ho'

theorem reaches_fields {fields : List SecretField} {shapes : List (String × Nat × Shape)}
    (h : List.Forall₂ (fun f s => f.name = s.1 ∧ Reaches f.walk s.2.2) fields shapes) (hn : (shapes.map (·.1)).Nodup) :
    Reaches (transformSecrets fields) (structSecrets false shapes) := by
  intro leaf path v r hv
  cases v with
  | obj ms =>
    rw [Json.ordered_obj] at hv
    show ((fields.foldlM (fun ms (f : SecretField) => f.apply leaf path ms) ms).map Json.obj) = .ok r ↔ _
    rw [structSecrets, Shape.walk_obj, Except.map_eq_ok]
    refine exists_congr fun rs => ?_
    rw [foldlM_fields h hn (Json.nodup_of_pairwise hv.1) hv.2]
    exact and_congr_right fun _ => eq_comm
  | arr vs =>
    show Except.ok (Json.arr vs) = .ok r ↔ _
    simp only [structSecrets, Bool.false_eq_true, if_false, walk, mapItems_ok]
    exact Iff.rfl
  | _ => exact Iff.rfl

theorem reaches_members {w : String → SecretWalk} {sh : String → Shape} (h : ∀ k, Reaches (w k) (sh k)) :
    Reaches (transformMembers w) (.node false sh fun _ => .none) := by
  intro leaf path v r hv
  cases v with
  | obj ms =>
    rw [Json.ordered_obj] at hv
    show ((mapMembers (fun k v => w k leaf (path ++ [.inl k]) v) ms).map Json.obj) = .ok r ↔ _
    rw [Shape.walk_obj, Except.map_eq_ok]
    refine exists_congr fun rs => ?_
    rw [Json.mapMembers_congr (g := fun k v => walk leaf (sh k) (path ++ [.inl k]) v) fun m hm u =>
      h m.1 leaf (path ++ [.inl m.1]) m.2 u (hv.2 m hm)]
    exact and_congr_right fun _ => eq_comm
  | arr vs =>
    show Except.ok (Json.arr vs) = .ok r ↔ _
    simp only [walk, mapItems_ok]
    exact Iff.rfl
  | _ => exact Iff.rfl

/-! ## The secrets of plugins and resources -/

theorem reaches_tls : Reaches UpstreamTls.transformSecrets (UpstreamTls.secrets false) :=
  reaches_fields (.cons ⟨rfl, reaches_leaf⟩ .nil) (by simp)

theorem reaches_upstream : Reaches Upstream.transformSecrets (Upstream.secrets false) :=
  reaches_fields (.cons ⟨rfl, reaches_nested reaches_tls⟩ .nil) (by simp)

theorem reaches_entries : Reaches (transformMembers fun _ leaf path v =>
    match v with
    | .str s => (leaf path s).map .str
    | v => .ok v) secretEntries := by
  refine reaches_members fun _ leaf path v r _ => ?_
  rw [walk_inner]
  exact Iff.rfl

theorem reaches_aiProxy : Reaches AiProxy.secretsTransform (AiProxy.secrets false) := by
  refine reaches_fields (.cons ⟨rfl, ?_⟩ .nil) (by simp)
  exact reaches_fields (.cons ⟨rfl, reaches_entries⟩ (.cons ⟨rfl, reaches_entries⟩ .nil)) (by simp)

/-- What an entry of the inventory does to the secrets of a configuration. -/
def PluginMeta.transform (entry : PluginMeta) : SecretWalk :=
  match entry.secretsTransform with
  | some transform => transform
  | none => fun _ _ cfg => .ok cfg

theorem reaches_pluginMeta (ext : Externals) :
    ∀ entry ∈ pluginMetas ext, Reaches entry.transform (pluginSecrets false entry.name) := by
  unfold pluginMetas
  simp only [List.forall_mem_cons, List.not_mem_nil, false_imp_iff, implies_true, and_true]
  have hone : ∀ (field : String) (i : Nat),
      Reaches (transformSecrets [.leaf field]) (structSecrets false [(field, i, secretField)]) :=
    fun field i => reaches_fields (.cons ⟨rfl, reaches_leaf⟩ .nil) (by simp)
  have hkeys : Reaches (transformSecrets [.leaf "key", .leaf "keys"])
      (structSecrets false [("key", 2, secretField), ("keys", 3, secretField)]) :=
    reaches_fields (.cons ⟨rfl, reaches_leaf⟩ (.cons ⟨rfl, reaches_leaf⟩ .nil)) (by simp)
  and_intros
  all_goals first | exact reaches_none | exact hone _ _ | exact hkeys | exact reaches_aiProxy

theorem reaches_plugin (ext : Externals) (name : String) :
    Reaches (transformPluginSecrets ext name) (pluginSecrets false name) := by
  unfold transformPluginSecrets
  cases h : pluginMeta ext name with
  | some entry =>
    have hname : entry.name = name := by simpa using List.find?_some h
    have hr := reaches_pluginMeta ext entry (List.mem_of_find?_eq_some h)
    rw [hname] at hr
    unfold PluginMeta.transform at hr
    cases ht : entry.secretsTransform with
    | some t => simpa [ht] using hr
    | none => simpa [ht] using hr
  | none =>
    have hnone : pluginSecrets false name = .none := by
      unfold pluginSecrets
      split <;> simp [pluginMeta, pluginMetas, PluginMeta.ofPlain] at h ⊢
    rw [hnone]
    exact reaches_none

theorem reaches_plugins (ext : Externals) :
    Reaches (SecretField.plugins ext).walk (pluginsSecrets false) :=
  reaches_members (reaches_plugin ext)

/-- The transform of a resource rewrites the strings its shape marks. -/
theorem transformResourceSecrets_eq_ok {ext : Externals} {kind : ResourceKind} {leaf : SecretLeaf} {v r : Json}
    (hv : v.Ordered) :
    transformResourceSecrets ext kind.asStr leaf v = .ok r ↔ walk leaf (reached kind) [] v = .ok r := by
  cases kind with
  | upstream => exact reaches_upstream leaf [] v r hv
  | service =>
    exact reaches_fields (.cons ⟨rfl, reaches_plugins ext⟩ (.cons ⟨rfl, reaches_nested reaches_upstream⟩ .nil))
      (by simp) leaf [] v r hv
  | globalRule => exact reaches_fields (.cons ⟨rfl, reaches_plugins ext⟩ .nil) (by simp) leaf [] v r hv
  | route =>
    exact reaches_fields (.cons ⟨rfl, reaches_plugins ext⟩ (.cons ⟨rfl, reaches_nested reaches_upstream⟩ .nil))
      (by simp) leaf [] v r hv
  | ssl => exact reaches_fields (.cons ⟨rfl, reaches_leaf⟩ .nil) (by simp) leaf [] v r hv

/-! ## What the walks reach is declared -/

theorem within_struct {fs gs : List (String × Nat × Shape)}
    (h : List.Forall₂ (fun f g => f.1 = g.1 ∧ Within f.2.2 g.2.2) fs gs) :
    Within (structSecrets false fs) (structSecrets true gs) := by
  refine ⟨id, fun k => ?_, fun i => trivial⟩
  show Within (fieldShape fs k) (fieldShape gs k)
  induction h with
  | nil => trivial
  | cons hfg _ ih =>
    rw [fieldShape_cons, fieldShape_cons, hfg.1]
    split
    · exact hfg.2
    · exact ih

theorem within_tls : Within (UpstreamTls.secrets false) (UpstreamTls.secrets true) :=
  within_struct (.cons ⟨rfl, .refl _⟩ .nil)

theorem within_upstream : Within (Upstream.secrets false) (Upstream.secrets true) :=
  within_struct (.cons ⟨rfl, within_tls⟩ .nil)

theorem within_plugin (name : String) : Within (pluginSecrets false name) (pluginSecrets true name) := by
  unfold pluginSecrets
  split
  · exact within_struct (.cons ⟨rfl, .refl _⟩ .nil)
  · exact within_struct (.cons ⟨rfl, .refl _⟩ .nil)
  · exact within_struct (.cons ⟨rfl, .refl _⟩ .nil)
  · exact within_struct (.cons ⟨rfl, .refl _⟩ (.cons ⟨rfl, .refl _⟩ .nil))
  · exact within_struct (.cons ⟨rfl, within_struct (.cons ⟨rfl, .refl _⟩ (.cons ⟨rfl, .refl _⟩ .nil))⟩ .nil)
  · exact trivial
  · exact trivial

theorem within_plugins : Within (pluginsSecrets false) (pluginsSecrets true) :=
  ⟨id, within_plugin, fun _ => trivial⟩

theorem reached_declared (kind : ResourceKind) : Within (reached kind) (declared kind) := by
  cases kind with
  | upstream => exact within_upstream
  | service => exact within_struct (.cons ⟨rfl, within_plugins⟩ (.cons ⟨rfl, within_upstream⟩ .nil))
  | globalRule => exact within_struct (.cons ⟨rfl, within_plugins⟩ .nil)
  | route => exact within_struct (.cons ⟨rfl, within_plugins⟩ (.cons ⟨rfl, within_upstream⟩ .nil))
  | ssl => exact within_struct (.cons ⟨rfl, .refl _⟩ .nil)

/-! ## Redaction -/

/-- The walk of redaction. -/
abbrev mask : SecretLeaf := Shape.hide redacted

/-- Redaction masks the reached secrets; it never falls back. -/
theorem redact_eq (ext : Externals) (kind : ResourceKind) {v : Json} (hv : v.Ordered) :
    walk mask (reached kind) [] v = .ok (redact ext kind v) := by
  have htotal : ∃ r, walk mask (reached kind) [] v = .ok r := Shape.walk_total hv fun _ _ _ => ⟨redacted, rfl⟩
  obtain ⟨r, hr⟩ := htotal
  have hcode : transformResourceSecrets ext kind.asStr (fun _ _ => .ok redacted) v = .ok r :=
    (transformResourceSecrets_eq_ok hv).mpr hr
  unfold redact
  rw [hcode]
  exact hr

theorem find_redact {ext : Externals} {kind : ResourceKind} {v : Json} {q : SecretPath} {s : String} (hv : v.Ordered)
    (h : find (reached kind) v q = some s) : find (declared kind) (redact ext kind v) q = some redacted := by
  obtain ⟨t, ht, hf⟩ := (Shape.find_walk (reached_declared kind) (redact_eq ext kind hv) q).2 s h
  cases ht
  exact hf

/-! ## Restoring -/

mutual
/-- A document is no mask over itself. -/
theorem restoreWalk_self : ∀ {x : Json} (v : Json), x.Ordered → restoreWalk x x v = v
  | .str s, v, _ => by
    unfold restoreWalk
    split
    · next h => rw [h.2, h.1]
    · rfl
  | .obj ms, v, hx => by
    rw [Json.ordered_obj] at hx
    cases v with
    | obj ns =>
      have hl : ∀ m ∈ ms, lookup ms m.1 = some m.2 := fun m hm => Json.lookup_of_mem (Json.nodup_of_pairwise hx.1) hm
      rw [restoreWalk, restoreMembers_self ns (Json.membersOrdered_iff.mpr hx.2) hl]
    | _ => simp [restoreWalk]
  | .arr vs, v, hx => by
    rw [Json.ordered_arr] at hx
    cases v with
    | arr ws => rw [restoreWalk, restoreItems_self ws (Json.itemsOrdered_iff.mpr hx)]
    | _ => simp [restoreWalk]
  | .null, v, _ => by simp [restoreWalk]
  | .bool _, v, _ => by simp [restoreWalk]
  | .num _, v, _ => by simp [restoreWalk]

theorem restoreMembers_self : ∀ {ms all : List (String × Json)} (ns : List (String × Json)), Json.MembersOrdered ms →
    (∀ m ∈ ms, lookup all m.1 = some m.2) → restoreMembers ms all ns = ns
  | [], _, ns, _, _ => by rw [restoreMembers]
  | (k, x) :: ms, all, ns, ho, hl => by
    have hx : ∀ v, restoreWalk x x v = v := fun v => restoreWalk_self v ho.1
    have hk := hl (k, x) (by simp)
    have hid : ∀ ns : List (String × Json), updateMember k (fun v => v) ns = ns := by
      intro ns
      induction ns with
      | nil => rfl
      | cons n ns ih =>
        unfold updateMember
        rw [ih, ite_self]
    rw [restoreMembers]
    simp only [hk, hx, hid]
    exact restoreMembers_self ns ho.2 fun m hm => hl m (List.mem_cons_of_mem _ hm)

theorem restoreItems_self : ∀ {vs : List Json} (ws : List Json), Json.ItemsOrdered vs → restoreItems vs vs ws = ws
  | [], ws, _ => by simp [restoreItems]
  | v :: vs, [], _ => by simp [restoreItems]
  | v :: vs, w :: ws, ho => by rw [restoreItems, restoreWalk_self w ho.1, restoreItems_self ws ho.2]
end

theorem updateMember_keys (name : String) (f : Json → Json) (ns : List (String × Json)) :
    (updateMember name f ns).map (·.1) = ns.map (·.1) := by
  induction ns with
  | nil => rfl
  | cons n ns ih =>
    unfold updateMember
    split
    · rfl
    · simp [ih]

theorem lookup_updateMember (name : String) (f : Json → Json) (ns : List (String × Json)) (k : String) :
    lookup (updateMember name f ns) k = if k = name then (lookup ns k).map f else lookup ns k := by
  induction ns with
  | nil => simp [updateMember, lookup]
  | cons n ns ih =>
    unfold updateMember
    by_cases h : n.1 = name
    · rw [if_pos h, Json.lookup_cons, Json.lookup_cons]
      by_cases hk : n.1 = k
      · simp [hk, ← h]
      · simp [hk, Ne.symm hk, ← h]
    · rw [if_neg h, Json.lookup_cons, Json.lookup_cons, ih]
      by_cases hk : n.1 = k
      · have hkn : k ≠ name := fun he => h (hk.trans he)
        simp [hk, hkn]
      · simp [hk]

theorem restoreMembers_keys : ∀ (ms all ns : List (String × Json)),
    (restoreMembers ms all ns).map (·.1) = ns.map (·.1)
  | [], _, _ => by rw [restoreMembers]
  | (k, sub) :: ms, all, ns => by rw [restoreMembers, restoreMembers_keys ms, updateMember_keys]

theorem lookup_restoreMembers {all : List (String × Json)} {k : String} : ∀ {ms : List (String × Json)},
    (ms.map (·.1)).Nodup → ∀ ns, lookup (restoreMembers ms all ns) k =
      (lookup ns k).map fun v =>
        match lookup ms k, lookup all k with
        | some sub, some pv => restoreWalk sub pv v
        | _, _ => v
  | [], _, ns => by
    rw [restoreMembers]
    cases lookup ns k <;> rfl
  | (l, sub) :: ms, hn, ns => by
    rw [List.map_cons, List.nodup_cons] at hn
    rw [restoreMembers, lookup_restoreMembers hn.2, lookup_updateMember, Json.lookup_cons]
    by_cases hk : k = l
    · subst hk
      rw [if_pos rfl, if_pos rfl, Json.lookup_eq_none.mpr hn.1]
      cases lookup ns k with
      | none => rfl
      | some v => cases lookup all k <;> rfl
    · rw [if_neg hk, if_neg (Ne.symm hk)]

theorem restoreItems_length : ∀ vs pts ws : List Json, (restoreItems vs pts ws).length = ws.length
  | sub :: vs, pv :: pts, w :: ws => by simp [restoreItems, restoreItems_length vs pts ws]
  | [], _, _ => by simp [restoreItems]
  | _ :: _, [], _ => by simp [restoreItems]
  | _ :: _, _ :: _, [] => by simp [restoreItems]

theorem restoreItems_getElem? : ∀ {vs pts : List Json} (ws : List Json) (i : Nat),
    (restoreItems vs pts ws)[i]? =
      (ws[i]?).map fun w =>
        match vs[i]?, pts[i]? with
        | some sub, some pv => restoreWalk sub pv w
        | _, _ => w
  | [], pts, ws, i => by simp [restoreItems]
  | sub :: vs, [], ws, i => by simp [restoreItems]
  | sub :: vs, pv :: pts, [], i => by simp [restoreItems]
  | sub :: vs, pv :: pts, w :: ws, i => by
    rw [restoreItems]
    cases i with
    | zero => rfl
    | succ i => simpa using restoreItems_getElem? ws i

/-- The client's string, or the stored secret where the client left the mask over one. -/
def restored (stored : Option String) (t : String) : String := if t = redacted then stored.getD redacted else t

theorem map_restored_none (o : Option String) : o.map (restored none) = o := by
  have h : restored none = id := by
    funext t
    unfold restored
    by_cases ht : t = redacted
    · simp [ht]
    · simp [ht]
  rw [h, Option.map_id]
  rfl

/-- What stands at every mark of a restored document. -/
theorem find_restoreWalk : ∀ {cov full : Shape}, Within cov full → ∀ {path : SecretPath} {x m : Json}, x.Ordered →
    walk mask cov path x = .ok m → ∀ (v : Json) (q : SecretPath),
      find full (restoreWalk m x v) q = (find full v q).map (restored (find cov x q))
  | .none, full, _, path, x, m, hx, h, v, q => by
    cases h
    rw [restoreWalk_self v hx, Shape.find_none, map_restored_none]
  | .node _ _ _, .none, hw, _, _, _, _, _, _, _ => by cases hw
  | .node marked ms is, .node marked' ms' is', hw, path, x, m, hx, h, v, q => by
    obtain ⟨hm, hms, his⟩ := hw
    cases x with
    | str s =>
      obtain ⟨t, ht, rfl⟩ := Shape.walk_str.mp h
      cases marked with
      | false =>
        cases ht
        rw [restoreWalk_self v hx, show find (.node false ms is) (.str s) q = none by cases q <;> simp [find],
          map_restored_none]
      | true =>
        cases ht
        rw [hm rfl, restoreWalk]
        by_cases hv : v = .str redacted
        · subst hv
          cases q with
          | nil => simp [find, restored]
          | cons a q => cases a <;> simp [find]
        · rw [if_neg fun h => hv h.2]
          cases q with
          | nil =>
            cases v with
            | str u =>
              have hu : u ≠ redacted := fun he => hv (he ▸ rfl)
              simp [find, restored, hu]
            | _ => simp [find]
          | cons a q =>
            rw [show find (.node true ms is) (.str s) (a :: q) = none by cases a <;> simp [find], map_restored_none]
    | arr vs =>
      obtain ⟨ws, hws, rfl⟩ := Shape.walk_arr.mp h
      obtain ⟨hlen, hget⟩ := Json.mapItems_getElem? hws
      rw [Json.ordered_arr] at hx
      cases v with
      | arr us =>
        rw [restoreWalk]
        cases q with
        | nil => simp [find]
        | cons a q =>
          cases a with
          | inl k => simp [find]
          | inr i =>
            simp only [find, restoreItems_getElem?]
            cases hu : us[i]? with
            | none => rfl
            | some u =>
              cases hv : vs[i]? with
              | none =>
                have hw : ws[i]? = none := by
                  rw [List.getElem?_eq_none_iff] at hv ⊢
                  omega
                simp [hw, map_restored_none]
              | some x =>
                obtain ⟨w, hw, hwi⟩ := hget i x hv
                rw [Nat.zero_add] at hw
                simpa [hwi] using find_restoreWalk (his i) (hx x (List.mem_of_getElem? hv)) hw u q
      | str u =>
        rw [show restoreWalk (.arr ws) (.arr vs) (.str u) = .str u by simp [restoreWalk]]
        cases q with
        | nil => rw [show find (.node marked ms is) (.arr vs) [] = none by simp [find], map_restored_none]
        | cons a q => cases a <;> simp [find]
      | obj us =>
        rw [show restoreWalk (.arr ws) (.arr vs) (.obj us) = .obj us by simp [restoreWalk]]
        cases q with
        | nil => simp [find]
        | cons a q =>
          cases a with
          | inl k => rw [show find (.node marked ms is) (.arr vs) (.inl k :: q) = none by simp [find], map_restored_none]
          | inr i => simp [find]
      | _ => cases q with
        | nil => simp [restoreWalk, find]
        | cons a q => cases a <;> simp [restoreWalk, find]
    | obj ns =>
      obtain ⟨rs, hrs, rfl⟩ := Shape.walk_obj.mp h
      rw [Json.ordered_obj] at hx
      have hn : (rs.map (·.1)).Nodup := by
        rw [Json.mapMembers_keys hrs]
        exact Json.nodup_of_pairwise hx.1
      cases v with
      | obj us =>
        rw [restoreWalk]
        cases q with
        | nil => simp [find]
        | cons a q =>
          cases a with
          | inr i => simp [find]
          | inl k =>
            obtain ⟨hnone, hsome⟩ := Json.mapMembers_lookup hrs k
            simp only [find, lookup_restoreMembers hn]
            cases hu : lookup us k with
            | none => rfl
            | some u =>
              cases hv : lookup ns k with
              | none => simp [hnone hv, map_restored_none]
              | some x =>
                obtain ⟨w, hw, hwk⟩ := hsome x hv
                simpa [hwk] using find_restoreWalk (hms k) (hx.2 _ (Json.mem_of_lookup hv)) hw u q
      | str u =>
        rw [show restoreWalk (.obj rs) (.obj ns) (.str u) = .str u by simp [restoreWalk]]
        cases q with
        | nil => rw [show find (.node marked ms is) (.obj ns) [] = none by simp [find], map_restored_none]
        | cons a q => cases a <;> simp [find]
      | arr us =>
        rw [show restoreWalk (.obj rs) (.obj ns) (.arr us) = .arr us by simp [restoreWalk]]
        cases q with
        | nil => simp [find]
        | cons a q =>
          cases a with
          | inr i => rw [show find (.node marked ms is) (.obj ns) (.inr i :: q) = none by simp [find], map_restored_none]
          | inl k => simp [find]
      | _ => cases q with
        | nil => simp [restoreWalk, find]
        | cons a q => cases a <;> simp [restoreWalk, find]
    | null | bool b | num n =>
      cases h
      rw [restoreWalk_self v hx, show find (.node marked ms is) _ q = none by
        cases q with
        | nil => simp [find]
        | cons a q => cases a <;> simp [find], map_restored_none]

/-- Restoring changes strings at marks only. -/
theorem sameBut_restoreWalk : ∀ {cov full : Shape}, Within cov full → ∀ {path : SecretPath} {x m : Json}, x.Ordered →
    walk mask cov path x = .ok m → ∀ v : Json, SameBut full v (restoreWalk m x v)
  | .none, full, _, path, x, m, hx, h, v => by
    cases h
    rw [restoreWalk_self v hx]
    exact SameBut.refl full v
  | .node _ _ _, .none, hw, _, _, _, _, _, _ => by cases hw
  | .node marked ms is, .node marked' ms' is', hw, path, x, m, hx, h, v => by
    obtain ⟨hm, hms, his⟩ := hw
    cases x with
    | str s =>
      obtain ⟨t, ht, rfl⟩ := Shape.walk_str.mp h
      cases marked with
      | false =>
        cases ht
        rw [restoreWalk_self v hx]
        exact SameBut.refl _ v
      | true =>
        cases ht
        rw [restoreWalk]
        by_cases hv : v = .str redacted
        · subst hv
          rw [if_pos ⟨rfl, rfl⟩]
          exact .inl (hm rfl)
        · rw [if_neg fun h => hv h.2]
          exact SameBut.refl _ v
    | arr vs =>
      obtain ⟨ws, hws, rfl⟩ := Shape.walk_arr.mp h
      obtain ⟨hlen, hget⟩ := Json.mapItems_getElem? hws
      rw [Json.ordered_arr] at hx
      cases v with
      | arr us =>
        rw [restoreWalk]
        refine ⟨(restoreItems_length ws vs us).symm, fun i u w hu hw => ?_⟩
        rw [restoreItems_getElem?, hu] at hw
        cases hv : vs[i]? with
        | none =>
          have hnone : ws[i]? = none := by
            rw [List.getElem?_eq_none_iff] at hv ⊢
            omega
          simp only [hnone, Option.map_some, Option.some.injEq] at hw
          rw [hw]
          exact SameBut.refl _ w
        | some x =>
          obtain ⟨r, hr, hri⟩ := hget i x hv
          rw [Nat.zero_add] at hr
          simp only [hri, hv, Option.map_some, Option.some.injEq] at hw
          subst hw
          exact sameBut_restoreWalk (his i) (hx x (List.mem_of_getElem? hv)) hr u
      | _ => simpa [restoreWalk] using SameBut.refl _ _
    | obj ns =>
      obtain ⟨rs, hrs, rfl⟩ := Shape.walk_obj.mp h
      rw [Json.ordered_obj] at hx
      have hn : (rs.map (·.1)).Nodup := by
        rw [Json.mapMembers_keys hrs]
        exact Json.nodup_of_pairwise hx.1
      cases v with
      | obj us =>
        rw [restoreWalk]
        refine ⟨(restoreMembers_keys rs ns us).symm, fun k u w hu hw => ?_⟩
        rw [lookup_restoreMembers hn, hu] at hw
        obtain ⟨hnone, hsome⟩ := Json.mapMembers_lookup hrs k
        cases hv : lookup ns k with
        | none =>
          simp only [hnone hv, Option.map_some, Option.some.injEq] at hw
          rw [hw]
          exact SameBut.refl _ w
        | some x =>
          obtain ⟨r, hr, hrk⟩ := hsome x hv
          simp only [hrk, hv, Option.map_some, Option.some.injEq] at hw
          subst hw
          exact sameBut_restoreWalk (hms k) (hx.2 _ (Json.mem_of_lookup hv)) hr u
      | _ => simpa [restoreWalk] using SameBut.refl _ _
    | null | bool b | num n =>
      cases h
      rw [restoreWalk_self v hx]
      exact SameBut.refl _ v

theorem updateMember_ordered {name : String} {f : Json → Json} (hf : ∀ {v : Json}, v.Ordered → (f v).Ordered) :
    ∀ {ns : List (String × Json)}, (∀ n ∈ ns, n.2.Ordered) → ∀ n ∈ updateMember name f ns, n.2.Ordered
  | [], _, n, hn => by simp [updateMember] at hn
  | m :: ns, h, n, hn => by
    have hm := h m (by simp)
    have hns : ∀ n ∈ ns, n.2.Ordered := fun n hn => h n (List.mem_cons_of_mem m hn)
    unfold updateMember at hn
    split at hn
    · cases List.mem_cons.mp hn with
      | inl he => rw [he]; exact hf hm
      | inr hn => exact hns n hn
    · cases List.mem_cons.mp hn with
      | inl he => rw [he]; exact hm
      | inr hn => exact updateMember_ordered hf hns n hn

mutual
theorem restoreWalk_ordered : ∀ {m x v : Json}, x.Ordered → v.Ordered → (restoreWalk m x v).Ordered
  | .str s, x, v, hx, hv => by
    rw [restoreWalk]
    split
    · exact hx
    · exact hv
  | .obj ms, x, v, hx, hv => by
    cases x with
    | obj ns =>
      cases v with
      | obj us =>
        rw [Json.ordered_obj] at hx hv
        rw [restoreWalk, Json.ordered_obj, restoreMembers_keys]
        exact ⟨hv.1, restoreMembers_ordered ms hx.2 hv.2⟩
      | _ => simpa [restoreWalk] using hv
    | _ => simpa [restoreWalk] using hv
  | .arr ms, x, v, hx, hv => by
    cases x with
    | arr ns =>
      cases v with
      | arr us =>
        rw [Json.ordered_arr] at hx hv
        rw [restoreWalk, Json.ordered_arr]
        exact restoreItems_ordered ms hx hv
      | _ => simpa [restoreWalk] using hv
    | _ => simpa [restoreWalk] using hv
  | .null, x, v, _, hv => by simpa [restoreWalk] using hv
  | .bool _, x, v, _, hv => by simpa [restoreWalk] using hv
  | .num _, x, v, _, hv => by simpa [restoreWalk] using hv

theorem restoreMembers_ordered : ∀ (ms : List (String × Json)) {ns us : List (String × Json)},
    (∀ n ∈ ns, n.2.Ordered) → (∀ u ∈ us, u.2.Ordered) → ∀ u ∈ restoreMembers ms ns us, u.2.Ordered
  | [], ns, us, _, hu => by rw [restoreMembers]; exact hu
  | (k, sub) :: ms, ns, us, hn, hu => by
    rw [restoreMembers]
    refine restoreMembers_ordered ms hn (updateMember_ordered ?_ hu)
    intro v hv
    cases hl : lookup ns k with
    | none => exact hv
    | some x => exact restoreWalk_ordered (m := sub) (hn _ (Json.mem_of_lookup hl)) hv

theorem restoreItems_ordered : ∀ (ms : List Json) {ns us : List Json}, (∀ n ∈ ns, n.Ordered) → (∀ u ∈ us, u.Ordered) →
    ∀ u ∈ restoreItems ms ns us, u.Ordered
  | [], ns, us, _, hu => by simpa [restoreItems] using hu
  | m :: ms, [], us, _, hu => by simpa [restoreItems] using hu
  | m :: ms, n :: ns, [], _, _ => by simp [restoreItems]
  | m :: ms, n :: ns, u :: us, hn, hu => by
    rw [restoreItems, List.forall_mem_cons]
    rw [List.forall_mem_cons] at hn hu
    exact ⟨restoreWalk_ordered hn.1 hu.1, restoreItems_ordered ms hn.2 hu.2⟩
end

end Pingsix
