import Mathlib.Data.List.Forall2

/-!
# Computations that may fail

When a sequence of fallible steps succeeds, and what it then returns.
-/

namespace Except

variable {ε α β : Type}

theorem bind_eq_ok {x : Except ε α} {f : α → Except ε β} {b : β} :
    (x >>= f) = .ok b ↔ ∃ a, x = .ok a ∧ f a = .ok b := by
  cases x with
  | error e => simp [bind, Except.bind]
  | ok a => simp [bind, Except.bind]

theorem bind_unit_eq_ok {x : Except ε Unit} {f : Unit → Except ε β} {b : β} :
    (x >>= f) = .ok b ↔ x = .ok () ∧ f () = .ok b := by
  cases x with
  | error e => simp [bind, Except.bind]
  | ok a => simp [bind, Except.bind]

@[simp] theorem pure_eq_ok {a b : α} : (pure a : Except ε α) = .ok b ↔ a = b := by
  simp [pure, Except.pure]

@[simp] theorem throw_ne_ok {e : ε} {a : α} : (throw e : Except ε α) = .ok a ↔ False := by
  simp [throw, throwThe, MonadExceptOf.throw]

@[simp] theorem throw_bind_ne_ok {e : ε} {f : α → Except ε β} {b : β} :
    ((throw e : Except ε α) >>= f) = .ok b ↔ False := by
  simp [bind_eq_ok]

theorem map_eq_ok {x : Except ε α} {f : α → β} {b : β} : x.map f = .ok b ↔ ∃ a, x = .ok a ∧ f a = b := by
  cases x with
  | error e => simp [Except.map]
  | ok a => simp [Except.map]

theorem mapError_eq_ok {ε' : Type} {x : Except ε α} {f : ε → ε'} {a : α} : x.mapError f = .ok a ↔ x = .ok a := by
  cases x with
  | error e => simp [Except.mapError]
  | ok a => simp [Except.mapError]

theorem ite_throw_eq_ok {c : Prop} [Decidable c] {e : ε} {x : Except ε α} {a : α} :
    (if c then .error e else x) = .ok a ↔ ¬c ∧ x = .ok a := by
  by_cases h : c
  · simp [h]
  · simp [h]

theorem forM_eq_ok {check : α → Except ε Unit} : ∀ l : List α, l.forM check = .ok () ↔ ∀ a ∈ l, check a = .ok ()
  | [] => by simp [List.forM]
  | a :: l => by
    show (check a >>= fun _ => l.forM check) = .ok () ↔ _
    rw [bind_unit_eq_ok, forM_eq_ok l]
    simp

theorem mem_mapM {f : α → Except ε β} {b : β} : ∀ {l : List α} {bs : List β}, l.mapM f = .ok bs →
    (b ∈ bs ↔ ∃ a ∈ l, f a = .ok b)
  | [], bs, h => by
    cases h
    simp
  | a :: l, bs, h => by
    rw [List.mapM_cons] at h
    obtain ⟨b', hb, h⟩ := bind_eq_ok.mp h
    obtain ⟨bs', hbs, h⟩ := bind_eq_ok.mp h
    cases h
    rw [List.mem_cons, mem_mapM hbs]
    simp [hb, eq_comm]

theorem mapM_eq_ok {f : α → Except ε β} : ∀ {l : List α} {bs : List β},
    l.mapM f = .ok bs ↔ List.Forall₂ (fun a b => f a = .ok b) l bs
  | [], bs => by
    rw [List.mapM_nil, pure_eq_ok, List.forall₂_nil_left_iff]
    exact eq_comm
  | a :: l, bs => by
    rw [List.mapM_cons, bind_eq_ok]
    constructor
    · rintro ⟨b, hb, h⟩
      obtain ⟨bs', hbs', h⟩ := bind_eq_ok.mp h
      cases pure_eq_ok.mp h
      exact .cons hb (mapM_eq_ok.mp hbs')
    · intro h
      cases h with
      | cons hb hbs => exact ⟨_, hb, bind_eq_ok.mpr ⟨_, mapM_eq_ok.mpr hbs, rfl⟩⟩

theorem mapM_isOk {f : α → Except ε β} : ∀ {l : List α}, (∃ bs, l.mapM f = .ok bs) ↔ ∀ a ∈ l, ∃ b, f a = .ok b
  | [] => by simp [pure, Except.pure]
  | a :: l => by
    rw [List.forall_mem_cons, ← mapM_isOk, List.mapM_cons]
    simp only [bind_eq_ok]
    constructor
    · rintro ⟨_, b, hb, bs, hbs, -⟩
      exact ⟨⟨b, hb⟩, bs, hbs⟩
    · rintro ⟨⟨b, hb⟩, bs, hbs⟩
      exact ⟨b :: bs, b, hb, bs, hbs, rfl⟩

theorem mapM_perm {f : α → Except ε β} {l l' : List α} {bs : List β} (hl : l.Perm l') (h : l.mapM f = .ok bs) :
    ∃ bs', l'.mapM f = .ok bs' ∧ bs.Perm bs' := by
  induction hl generalizing bs with
  | nil => exact ⟨bs, h, .refl bs⟩
  | cons a _ ih =>
    rw [mapM_eq_ok] at h
    cases h with
    | cons hb hbs =>
      obtain ⟨bs', hbs', hperm⟩ := ih (mapM_eq_ok.mpr hbs)
      exact ⟨_, mapM_eq_ok.mpr (.cons hb (mapM_eq_ok.mp hbs')), hperm.cons _⟩
  | swap a b l =>
    rw [mapM_eq_ok] at h
    cases h with
    | cons h1 h =>
      cases h with
      | cons h2 h => exact ⟨_, mapM_eq_ok.mpr (.cons h2 (.cons h1 h)), .swap _ _ _⟩
  | trans _ _ ih ih' =>
    obtain ⟨cs, hcs, hperm⟩ := ih h
    obtain ⟨bs', hbs', hperm'⟩ := ih' hcs
    exact ⟨bs', hbs', hperm.trans hperm'⟩

theorem foldlM_cons_eq_ok {f : β → α → Except ε β} {a : α} {l : List α} {b b' : β} :
    (a :: l).foldlM f b = .ok b' ↔ ∃ c, f b a = .ok c ∧ l.foldlM f c = .ok b' := by
  rw [List.foldlM_cons, bind_eq_ok]

end Except
