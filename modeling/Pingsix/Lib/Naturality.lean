import Mathlib.Data.List.Forall2
import Pingsix.Lib.Pattern

/-!
# Results seen through a map

Two fallible computations whose results look alike under a map, step by step and
over lists, and the operations of finite maps and routers under a change of
values.
-/

/-! ## Fallible computations -/

namespace Except

variable {ε α β γ δ ζ : Type}

/-- Whenever the first succeeds so does the second, with a result that looks the same. -/
def Simulated (look : β → γ) (x x' : Except ε β) : Prop := ∀ b, x = .ok b → ∃ b', x' = .ok b' ∧ look b' = look b

namespace Simulated

theorem refl (look : β → γ) (x : Except ε β) : Simulated look x x := fun b h => ⟨b, h, rfl⟩

theorem ok {look : β → γ} {b b' : β} (h : look b' = look b) : Simulated look (.ok b : Except ε β) (.ok b') := by
  intro c hc
  cases hc
  exact ⟨b', rfl, h⟩

theorem error {look : β → γ} {e : ε} {x' : Except ε β} : Simulated look (.error e) x' := fun b h => by cases h

theorem bind {look : β → γ} {look' : δ → ζ} {x x' : Except ε β} {f f' : β → Except ε δ} (h : Simulated look x x')
    (hf : ∀ b b', look b' = look b → Simulated look' (f b) (f' b')) : Simulated look' (x >>= f) (x' >>= f') := by
  intro d hd
  obtain ⟨b, hb, hd⟩ := bind_eq_ok.mp hd
  obtain ⟨b', hb', hlook⟩ := h b hb
  obtain ⟨d', hd', hlook'⟩ := hf b b' hlook d hd
  exact ⟨d', bind_eq_ok.mpr ⟨b', hb', hd'⟩, hlook'⟩

/-- The same first computation in both. -/
theorem bind_same {look' : δ → ζ} {x : Except ε β} {f f' : β → Except ε δ}
    (hf : ∀ b, x = .ok b → Simulated look' (f b) (f' b)) : Simulated look' (x >>= f) (x >>= f') := by
  intro d hd
  obtain ⟨b, hb, hd⟩ := bind_eq_ok.mp hd
  obtain ⟨d', hd', hlook'⟩ := hf b hb d hd
  exact ⟨d', bind_eq_ok.mpr ⟨b, hb, hd'⟩, hlook'⟩

theorem map {look : β → γ} {look' : δ → ζ} {x x' : Except ε β} (h : Simulated look x x') {f f' : β → δ}
    (hf : ∀ b b', look b' = look b → look' (f' b') = look' (f b)) : Simulated look' (x.map f) (x'.map f') := by
  intro d hd
  obtain ⟨b, hb, rfl⟩ := map_eq_ok.mp hd
  obtain ⟨b', hb', hlook⟩ := h b hb
  exact ⟨f' b', map_eq_ok.mpr ⟨b', hb', rfl⟩, hf b b' hlook⟩

theorem mapError {ε' : Type} {look : β → γ} {x x' : Except ε β} (h : Simulated look x x') {f f' : ε → ε'} :
    Simulated look (x.mapError f) (x'.mapError f') := by
  intro b hb
  obtain ⟨b', hb', hlook⟩ := h b (mapError_eq_ok.mp hb)
  exact ⟨b', mapError_eq_ok.mpr hb', hlook⟩

theorem mapM {look : β → γ} {f f' : α → Except ε β} : ∀ {l : List α}, (∀ a ∈ l, Simulated look (f a) (f' a)) →
    Simulated (List.map look) (l.mapM f) (l.mapM f')
  | [], _ => by
    rw [List.mapM_nil, List.mapM_nil]
    exact ok rfl
  | a :: l, h => by
    intro bs hbs
    cases mapM_eq_ok.mp hbs with
    | cons hb hrest =>
      obtain ⟨b', hb', hlook⟩ := h a List.mem_cons_self _ hb
      obtain ⟨bs', hbs', hlooks⟩ := mapM (fun a ha => h a (List.mem_cons_of_mem _ ha)) _ (mapM_eq_ok.mpr hrest)
      refine ⟨b' :: bs', mapM_eq_ok.mpr (.cons hb' (mapM_eq_ok.mp hbs')), ?_⟩
      rw [List.map_cons, List.map_cons, hlook, hlooks]

end Simulated

/-- A fold whose steps commute with a map commutes with it. -/
theorem foldlM_map {f : γ → α → Except ε γ} {f' : δ → α → Except ε δ} {h : γ → δ} (hf : ∀ c a, f' (h c) a = (f c a).map h) :
    ∀ (l : List α) (c : γ), l.foldlM f' (h c) = (l.foldlM f c).map h
  | [], c => rfl
  | a :: l, c => by
    rw [List.foldlM_cons, List.foldlM_cons, hf]
    cases f c a with
    | error e => rfl
    | ok c' => exact foldlM_map hf l c'

end Except

/-! ## Finite maps -/

namespace HashMap

variable {κ ν μ : Type} [DecidableEq κ]

theorem sameEntries_iff [DecidableEq ν] {m m' : HashMap κ ν} :
    m.sameEntries m' = true ↔ m.SameEntries m' := by
  unfold sameEntries SameEntries
  rw [List.all_eq_true]
  constructor
  · intro h k
    by_cases hk : k ∈ m.keys ++ m'.keys
    · simpa using h k hk
    · rw [List.mem_append, not_or] at hk
      rw [AList.lookup_eq_none.mpr hk.1, AList.lookup_eq_none.mpr hk.2]
  · intro h k _
    simpa using h k

omit [DecidableEq κ] in
theorem entries_mapValues (f : κ → ν → μ) (m : HashMap κ ν) :
    (m.mapValues f).entries = m.entries.map fun e => ⟨e.1, f e.1 e.2⟩ := rfl

theorem mapValues_insert (f : κ → ν → μ) (m : HashMap κ ν) (k : κ) (v : ν) :
    HashMap.mapValues f (m.insert k v) = (m.mapValues f).insert k (f k v) := by
  apply AList.ext
  rw [entries_mapValues, AList.entries_insert, AList.entries_insert, entries_mapValues]
  unfold List.kerase
  rw [List.map_cons, List.eraseP_map]
  rfl

theorem mapValues_set (f : ν → μ) (m : HashMap κ ν) (k : κ) (v : ν) :
    (m.set k v).mapValues (fun _ => f) = (m.mapValues fun _ => f).set k (f v) := by
  apply AList.ext
  unfold set mapValues
  simp only [List.map_map]
  refine List.map_congr_left fun e _ => ?_
  by_cases h : e.1 = k
  · simp [h]
  · simp [h]

end HashMap

/-! ## Routers -/

namespace Match

variable {α β : Type}

def map (f : α → β) (found : Match α) : Match β := { found with value := f found.value }

end Match

namespace Router

variable {α β : Type} (f : α → β)

def map (r : Router α) : Router β := ⟨r.slots.mapValues fun _ => f⟩

@[simp] theorem patterns_map (r : Router α) : (r.map f).patterns = r.patterns := HashMap.keys_mapValues _ r.slots

@[simp] theorem map_empty : Router.map f ({} : Router α) = {} := rfl

theorem atPath_map (M : Matchit) (r : Router α) (path : String) :
    (r.map f).atPath M path = (r.atPath M path).map (Match.map f) := by
  unfold atPath
  rw [patterns_map]
  cases M.choose r.patterns path with
  | none => rfl
  | some c =>
    unfold map
    simp only [HashMap.lookup_mapValues, Option.map_map]
    rfl

theorem map_set (r : Router α) (p : String) (v : α) : (r.set p v).map f = (r.map f).set p (f v) :=
  congrArg Router.mk (HashMap.mapValues_set f r.slots p v)

theorem insert_map (M : Matchit) (r : Router α) (p : String) (v : α) :
    (r.map f).insert M p (f v) = (r.insert M p v).map (Router.map f) := by
  unfold insert
  rw [patterns_map]
  cases M.insertError r.patterns p with
  | some display => rfl
  | none => exact congrArg (fun m => Except.ok (Router.mk m)) (HashMap.mapValues_insert (fun _ => f) r.slots p v).symm

end Router
