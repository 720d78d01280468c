import Mathlib.Data.List.Infix
import Mathlib.Logic.Function.Basic

/-!
# Placeholders in texts

A text is read once from left to right into its characters and the placeholders
that stand in it, and written with a text for each placeholder. Replacing the
occurrences of one placeholder after another writes the same text when no
replacement puts together a placeholder that is replaced later.
-/

namespace Placeholders

variable {α κ : Type}

inductive Item (α κ : Type) where
  | lit (a : α)
  | var (k : κ)

namespace Item

def isVar : Item α κ → Bool
  | lit _ => false
  | var _ => true

/-- The text of an item. -/
def text (σ : κ → List α) : Item α κ → List α
  | lit a => [a]
  | var k => σ k

end Item

/-- The items of a text, read after `skip` characters of the last placeholder. -/
def scanFrom [DecidableEq α] (pat : κ → List α) (keys : List κ) : (skip : Nat) → List α → List (Item α κ)
  | _, [] => []
  | skip + 1, _ :: xs => scanFrom pat keys skip xs
  | 0, x :: xs =>
    match keys.find? fun k => (pat k).isPrefixOf (x :: xs) with
    | some k => .var k :: scanFrom pat keys ((pat k).length - 1) xs
    | none => .lit x :: scanFrom pat keys 0 xs

def scan [DecidableEq α] (pat : κ → List α) (keys : List κ) (s : List α) : List (Item α κ) := scanFrom pat keys 0 s

def render (σ : κ → List α) (items : List (Item α κ)) : List α := items.flatMap (Item.text σ)

/-- Every placeholder has its text at once. -/
def substitute [DecidableEq α] (pat σ : κ → List α) (keys : List κ) (s : List α) : List α := render σ (scan pat keys s)

/-- The items of a text with one placeholder. -/
def scanOne [DecidableEq α] (pat s : List α) : List (Item α Unit) := scan (fun _ => pat) [()] s

def renderOne (value : List α) (items : List (Item α Unit)) : List α := render (fun _ => value) items

/-- The occurrences of a text replaced, from left to right. -/
def replaceAll [DecidableEq α] (pat value s : List α) : List α := renderOne value (scanOne pat s)

def countVars (items : List (Item α κ)) : Nat := items.countP Item.isVar

def occurrences [DecidableEq α] (pat s : List α) : Nat := countVars (scanOne pat s)

/-! ## Writing -/

section
variable (σ : κ → List α) (items items' : List (Item α κ)) (a : α) (k : κ)

@[simp] theorem render_nil : render σ ([] : List (Item α κ)) = [] := rfl

@[simp] theorem render_lit : render σ (.lit a :: items) = a :: render σ items := rfl

@[simp] theorem render_var : render σ (.var k :: items) = σ k ++ render σ items := rfl

@[simp] theorem render_append : render σ (items ++ items') = render σ items ++ render σ items' := List.flatMap_append

@[simp] theorem countVars_nil : countVars ([] : List (Item α κ)) = 0 := rfl

@[simp] theorem countVars_lit : countVars (.lit a :: items) = countVars items := by
  unfold countVars
  rw [List.countP_cons_of_neg (by simp [Item.isVar])]

@[simp] theorem countVars_var : countVars (.var k :: items) = countVars items + 1 := by
  unfold countVars
  rw [List.countP_cons_of_pos rfl]

@[simp] theorem countVars_append : countVars (items ++ items') = countVars items + countVars items' := List.countP_append

end

@[simp] theorem render_map_lit (σ : κ → List α) (u : List α) : render σ (u.map .lit) = u := by
  induction u with
  | nil => rfl
  | cons a u ih => rw [List.map_cons, render_lit, ih]

@[simp] theorem countVars_map_lit (u : List α) : countVars (u.map Item.lit : List (Item α κ)) = 0 := by
  induction u with
  | nil => rfl
  | cons a u ih => rw [List.map_cons, countVars_lit, ih]

/-! ## Reading -/

/-- Placeholders start with the mark and have it nowhere else. -/
def Marked (mark : α) (pat : List α) : Prop := ∃ tail, pat = mark :: tail ∧ mark ∉ tail

theorem Marked.length_pos {mark : α} {pat : List α} (h : Marked mark pat) : 0 < pat.length := by
  obtain ⟨tail, rfl, -⟩ := h
  exact Nat.succ_pos _

section
variable [DecidableEq α] {mark : α} {pat : κ → List α} {keys : List κ} (hpat : ∀ k, Marked mark (pat k))

theorem scanFrom_append (u rest : List α) : scanFrom pat keys u.length (u ++ rest) = scan pat keys rest := by
  induction u with
  | nil => rfl
  | cons x u ih => exact ih

include hpat

theorem scan_var {k : κ} {rest : List α} (hk : keys.find? (fun j => (pat j).isPrefixOf (pat k ++ rest)) = some k) :
    scan pat keys (pat k ++ rest) = .var k :: scan pat keys rest := by
  obtain ⟨tail, htail, -⟩ := hpat k
  have hlen : (pat k).length - 1 = tail.length := by rw [htail, List.length_cons, Nat.add_sub_cancel]
  have hrest : scanFrom pat keys ((pat k).length - 1) (tail ++ rest) = scan pat keys rest := by
    rw [hlen, scanFrom_append]
  have hs : pat k ++ rest = mark :: (tail ++ rest) := by rw [htail, List.cons_append]
  rw [hs] at hk ⊢
  rw [← hrest]
  show scanFrom pat keys 0 (mark :: (tail ++ rest)) = _
  rw [scanFrom, hk]

omit hpat in
theorem scan_lit {x : α} {xs : List α} (h : ∀ k ∈ keys, ¬pat k <+: x :: xs) :
    scan pat keys (x :: xs) = .lit x :: scan pat keys xs := by
  have hnone : keys.find? (fun k => (pat k).isPrefixOf (x :: xs)) = none :=
    List.find?_eq_none.mpr fun k hk hp => h k hk (List.isPrefixOf_iff_prefix.mp hp)
  unfold scan
  rw [scanFrom, hnone]

/-- A text starts with a placeholder, or with a character at which none stands. -/
theorem scan_cases (s : List α) : s = [] ∨
    (∃ k ∈ keys, ∃ rest, s = pat k ++ rest ∧ scan pat keys s = .var k :: scan pat keys rest) ∨
    ∃ x xs, s = x :: xs ∧ (∀ k ∈ keys, ¬pat k <+: s) ∧ scan pat keys s = .lit x :: scan pat keys xs := by
  cases s with
  | nil => exact .inl rfl
  | cons x xs =>
    cases hk : keys.find? fun k => (pat k).isPrefixOf (x :: xs) with
    | some k =>
      have hprefix : (pat k).isPrefixOf (x :: xs) = true := by simpa using List.find?_some hk
      obtain ⟨rest, hrest⟩ := List.isPrefixOf_iff_prefix.mp hprefix
      refine .inr (.inl ⟨k, List.mem_of_find?_eq_some hk, rest, hrest.symm, ?_⟩)
      rw [← hrest] at hk ⊢
      exact scan_var hpat hk
    | none =>
      have hnot : ∀ k ∈ keys, ¬pat k <+: x :: xs := fun k hm hp =>
        List.find?_eq_none.mp hk k hm (List.isPrefixOf_iff_prefix.mpr hp)
      exact .inr (.inr ⟨x, xs, rfl, hnot, scan_lit hnot⟩)

/-- Writing the items of a text with the placeholders themselves gives the text. -/
theorem render_scan (s : List α) : render pat (scan pat keys s) = s := by
  induction hn : s.length using Nat.strongRecOn generalizing s with
  | ind n ih =>
    obtain rfl | ⟨k, -, rest, rfl, hscan⟩ | ⟨x, xs, rfl, -, hscan⟩ := @scan_cases _ _ _ _ _ keys hpat s
    · rfl
    · obtain ⟨tail, htail, -⟩ := hpat k
      have hlt : rest.length < n := by
        rw [← hn, htail, List.length_append, List.length_cons]
        omega
      rw [hscan, render_var, ih rest.length hlt rest rfl]
    · have hlt : xs.length < n := by
        rw [← hn, List.length_cons]
        omega
      rw [hscan, render_lit, ih xs.length hlt xs rfl]

/-- No placeholder starts in a text without the mark. -/
theorem scan_append_of_unmarked {u : List α} (hu : mark ∉ u) (rest : List α) :
    scan pat keys (u ++ rest) = u.map .lit ++ scan pat keys rest := by
  induction u with
  | nil => rfl
  | cons x u ih =>
    obtain ⟨hx, hu⟩ := not_or.mp (mt List.mem_cons.mpr hu)
    rw [List.cons_append, scan_lit, ih hu, List.map_cons, List.cons_append]
    rintro k - hp
    obtain ⟨tail, htail, -⟩ := hpat k
    rw [htail, List.cons_prefix_cons] at hp
    exact hx hp.1

end

/-! ## One placeholder -/

section
variable [DecidableEq α] {mark : α} {pat : List α} (hpat : Marked mark pat)
include hpat

theorem scanOne_append (rest : List α) : scanOne pat (pat ++ rest) = .var () :: scanOne pat rest := by
  refine @scan_var _ Unit _ mark (fun _ => pat) [()] (fun _ => hpat) () rest ?_
  exact List.find?_cons_of_pos (List.isPrefixOf_iff_prefix.mpr (List.prefix_append pat rest))

omit hpat in
theorem scanOne_cons {x : α} {xs : List α} (h : ¬pat <+: x :: xs) : scanOne pat (x :: xs) = .lit x :: scanOne pat xs :=
  scan_lit fun _ _ => h

theorem renderOne_scanOne (s : List α) : renderOne pat (scanOne pat s) = s :=
  @render_scan _ _ _ _ (fun _ => pat) _ (fun _ => hpat) s

omit [DecidableEq α] in
/-- A text without the mark at the front of written items is at the front of the items. -/
theorem items_of_prefix {tail : List α} (ht : mark ∉ tail) : ∀ {items : List (Item α Unit)},
    tail <+: renderOne pat items → ∃ rest, items = tail.map .lit ++ rest := by
  induction tail with
  | nil => exact fun _ => ⟨_, rfl⟩
  | cons x tail ih =>
    obtain ⟨hx, ht⟩ := not_or.mp (mt List.mem_cons.mpr ht)
    intro items h
    cases items with
    | nil => simp [renderOne] at h
    | cons item items =>
      cases item with
      | lit a =>
        have hcons : x :: tail <+: a :: renderOne pat items := h
        obtain ⟨rfl, htail⟩ := List.cons_prefix_cons.mp hcons
        obtain ⟨rest, rfl⟩ := ih ht htail
        exact ⟨rest, rfl⟩
      | var u =>
        obtain ⟨t, rfl, -⟩ := hpat
        exact absurd (List.cons_prefix_cons.mp h).1.symm hx

/-- How the written items start: with the placeholder, with a character at which none stands, or with
characters that together are one. -/
theorem renderOne_cases (items : List (Item α Unit)) : items = [] ∨
    (∃ rest, items = .var () :: rest) ∨
    (∃ x rest, items = .lit x :: rest ∧ scanOne pat (renderOne pat items) = .lit x :: scanOne pat (renderOne pat rest)) ∨
    ∃ rest, items = pat.map .lit ++ rest := by
  cases items with
  | nil => exact .inl rfl
  | cons item items =>
    cases item with
    | var u => exact .inr (.inl ⟨items, rfl⟩)
    | lit x =>
      by_cases hp : pat <+: x :: renderOne pat items
      · obtain ⟨tail, htail, hmark⟩ := hpat
        have hp' := hp
        rw [htail] at hp'
        obtain ⟨rfl, htailp⟩ := List.cons_prefix_cons.mp hp'
        rw [← htail] at htailp
        obtain ⟨rest, rfl⟩ := items_of_prefix ⟨tail, htail, hmark⟩ hmark htailp
        exact .inr (.inr (.inr ⟨rest, by rw [htail]; rfl⟩))
      · exact .inr (.inr (.inl ⟨x, items, rfl, scanOne_cons hp⟩))

omit [DecidableEq α] hpat in
theorem renderOne_lits (value : List α) (u : List α) (rest : List (Item α Unit)) :
    renderOne value (u.map .lit ++ rest) = u ++ renderOne value rest := by
  unfold renderOne
  rw [render_append, render_map_lit]

/-- Written items have their placeholders, and those that their characters make up. -/
theorem countVars_le_occurrences (items : List (Item α Unit)) : countVars items ≤ occurrences pat (renderOne pat items) := by
  induction hn : items.length using Nat.strongRecOn generalizing items with
  | ind n ih =>
    unfold occurrences
    obtain rfl | ⟨rest, rfl⟩ | ⟨x, rest, rfl, hscan⟩ | ⟨rest, rfl⟩ := renderOne_cases hpat items
    · exact Nat.le_refl _
    · have hrest := ih rest.length (by simp [← hn]) rest rfl
      have hrender : renderOne pat (.var () :: rest) = pat ++ renderOne pat rest := rfl
      rw [hrender, scanOne_append hpat, countVars_var, countVars_var]
      exact Nat.succ_le_succ hrest
    · rw [hscan, countVars_lit, countVars_lit]
      exact ih rest.length (by simp [← hn]) rest rfl
    · have hlt : rest.length < n := by
        rw [← hn, List.length_append, List.length_map]
        exact Nat.lt_add_of_pos_left hpat.length_pos
      have hrest := ih rest.length hlt rest rfl
      rw [renderOne_lits, scanOne_append hpat, countVars_var, countVars_append, countVars_map_lit, Nat.zero_add]
      exact Nat.le_succ_of_le hrest

omit [DecidableEq α] hpat in
theorem length_renderOne (value : List α) (items : List (Item α Unit)) :
    (renderOne value items).length + countVars items * pat.length =
      (renderOne pat items).length + countVars items * value.length := by
  induction items with
  | nil => simp [renderOne]
  | cons item items ih =>
    cases item with
    | lit a =>
      show (renderOne value items).length + 1 + countVars (.lit a :: items) * _ =
        (renderOne pat items).length + 1 + countVars (.lit a :: items) * _
      rw [countVars_lit]
      omega
    | var u =>
      show (value ++ renderOne value items).length + countVars (.var u :: items) * _ =
        (pat ++ renderOne pat items).length + countVars (.var u :: items) * _
      rw [countVars_var, List.length_append, List.length_append, Nat.succ_mul, Nat.succ_mul]
      omega

/-- Replacing in written items writes the value for each placeholder when no others are made up. -/
theorem replaceAll_renderOne_iff (value : List α) (items : List (Item α Unit)) :
    replaceAll pat value (renderOne pat items) = renderOne value items ↔
      occurrences pat (renderOne pat items) = countVars items ∨ value = pat := by
  induction hn : items.length using Nat.strongRecOn generalizing items with
  | ind n ih =>
    unfold replaceAll occurrences
    obtain rfl | ⟨rest, rfl⟩ | ⟨x, rest, rfl, hscan⟩ | ⟨rest, rfl⟩ := renderOne_cases hpat items
    · exact iff_of_true rfl (.inl rfl)
    · have hrest := ih rest.length (by simp [← hn]) rest rfl
      have hrender : renderOne pat (.var () :: rest) = pat ++ renderOne pat rest := rfl
      rw [hrender, scanOne_append hpat, countVars_var, countVars_var, Nat.succ_inj]
      show value ++ replaceAll pat value (renderOne pat rest) = value ++ renderOne value rest ↔ _
      rw [List.append_cancel_left_eq]
      exact hrest
    · rw [hscan, countVars_lit, countVars_lit]
      show x :: replaceAll pat value (renderOne pat rest) = x :: renderOne value rest ↔ _
      rw [List.cons_eq_cons, and_iff_right rfl]
      exact ih rest.length (by simp [← hn]) rest rfl
    · have hle := countVars_le_occurrences hpat rest
      rw [renderOne_lits, renderOne_lits, scanOne_append hpat, countVars_var, countVars_append, countVars_map_lit,
        Nat.zero_add]
      show value ++ replaceAll pat value (renderOne pat rest) = pat ++ renderOne value rest ↔
        occurrences pat (renderOne pat rest) + 1 = countVars rest ∨ value = pat
      have hne : ¬occurrences pat (renderOne pat rest) + 1 = countVars rest := by omega
      rw [or_iff_right hne]
      constructor
      · intro h
        -- Every placeholder made up changes the length by the same amount.
        have hlength := congrArg List.length h
        have hread := @length_renderOne _ pat value (scanOne pat (renderOne pat rest))
        have hwritten := @length_renderOne _ pat value rest
        rw [renderOne_scanOne hpat] at hread
        rw [List.length_append, List.length_append] at hlength
        obtain ⟨extra, hextra⟩ := Nat.exists_eq_add_of_le hle
        unfold occurrences at hextra
        unfold replaceAll at hlength
        rw [hextra, Nat.add_mul, Nat.add_mul] at hread
        have hmul : (extra + 1) * value.length = (extra + 1) * pat.length := by
          rw [Nat.add_mul, Nat.add_mul, Nat.one_mul, Nat.one_mul]
          omega
        exact (List.append_inj h (Nat.eq_of_mul_eq_mul_left (Nat.succ_pos extra) hmul)).1
      · rintro rfl
        unfold replaceAll
        rw [renderOne_scanOne hpat]

end

/-! ## Several placeholders -/

section
variable [DecidableEq κ]

/-- The items with one placeholder left, the texts of the others as characters. -/
def single (k : κ) (σ : κ → List α) (items : List (Item α κ)) : List (Item α Unit) :=
  items.flatMap fun item =>
    match item with
    | .lit a => [.lit a]
    | .var j => if j = k then [.var ()] else (σ j).map .lit

variable (k : κ) (σ : κ → List α)

@[simp] theorem single_lit (a : α) (items : List (Item α κ)) : single k σ (.lit a :: items) = .lit a :: single k σ items := rfl

@[simp] theorem single_self (items : List (Item α κ)) : single k σ (.var k :: items) = .var () :: single k σ items := by
  simp [single]

theorem single_of_ne {j : κ} (h : j ≠ k) (items : List (Item α κ)) :
    single k σ (.var j :: items) = (σ j).map .lit ++ single k σ items := by
  simp [single, h]

theorem renderOne_single (value : List α) (items : List (Item α κ)) :
    renderOne value (single k σ items) = render (Function.update σ k value) items := by
  induction items with
  | nil => rfl
  | cons item items ih =>
    unfold renderOne at ih ⊢
    cases item with
    | lit a => rw [single_lit, render_lit, render_lit, ih]
    | var j =>
      by_cases h : j = k
      · rw [h, single_self, render_var, render_var, Function.update_self, ih]
      · rw [single_of_ne k σ h, render_append, render_map_lit, render_var, Function.update_of_ne h, ih]

theorem countVars_single (σ' : κ → List α) (items : List (Item α κ)) :
    countVars (single k σ items) = countVars (single k σ' items) := by
  induction items with
  | nil => rfl
  | cons item items ih =>
    cases item with
    | lit a => rw [single_lit, single_lit, countVars_lit, countVars_lit, ih]
    | var j =>
      by_cases h : j = k
      · rw [h, single_self, single_self, countVars_var, countVars_var, ih]
      · rw [single_of_ne k σ h, single_of_ne k σ' h, countVars_append, countVars_append, countVars_map_lit, countVars_map_lit, ih]

end

section
variable [DecidableEq α] [DecidableEq κ] {mark : α} {pat : κ → List α} {keys : List κ} (hpat : ∀ k, Marked mark (pat k))
  (hkeys : ∀ k, k ∈ keys) (hdistinct : ∀ j k, pat j <+: pat k → j = k) {k : κ} {σ : κ → List α}
include hpat

omit [DecidableEq κ] in
/-- A text that the written placeholders do not start inside stands in the text that was read. -/
theorem prefix_of_render : ∀ {p s : List α}, (∀ j, ∃ c rest, σ j = c :: rest ∧ c ∉ p) →
    p <+: render σ (scan pat keys s) → p <+: s
  | [], _, _, _ => List.nil_prefix
  | x :: p, s, hσ, h => by
    obtain rfl | ⟨j, -, rest, rfl, hscan⟩ | ⟨y, ys, rfl, -, hscan⟩ := @scan_cases _ _ _ _ _ keys hpat s
    · exact h
    · obtain ⟨c, text, htext, hc⟩ := hσ j
      rw [hscan, render_var, htext, List.cons_append] at h
      exact absurd (List.mem_cons.mpr (.inl (List.cons_prefix_cons.mp h).1.symm)) hc
    · rw [hscan, render_lit] at h
      obtain ⟨rfl, hrest⟩ := List.cons_prefix_cons.mp h
      have hσ' : ∀ j, ∃ c rest, σ j = c :: rest ∧ c ∉ p := fun j => by
        obtain ⟨c, rest, htext, hc⟩ := hσ j
        exact ⟨c, rest, htext, fun hm => hc (List.mem_cons_of_mem _ hm)⟩
      exact List.cons_prefix_cons.mpr ⟨rfl, prefix_of_render hσ' hrest⟩

include hkeys hdistinct

/-- Texts that hold no mark and start outside the placeholder make up none: written with them, a text
has the placeholder where it was read. -/
theorem scanOne_render (hk : σ k = pat k)
    (hothers : ∀ j, σ j = pat j ∨ mark ∉ σ j ∧ ∃ c rest, σ j = c :: rest ∧ c ∉ pat k) (s : List α) :
    scanOne (pat k) (render σ (scan pat keys s)) = single k σ (scan pat keys s) := by
  obtain ⟨tail, htail, hmark⟩ := hpat k
  have hstart : ∀ j, ∃ c rest, σ j = c :: rest ∧ c ∉ tail := by
    intro j
    cases hothers j with
    | inl hj =>
      obtain ⟨t, ht, -⟩ := hpat j
      exact ⟨mark, t, hj.trans ht, hmark⟩
    | inr hj =>
      obtain ⟨-, c, rest, htext, hc⟩ := hj
      exact ⟨c, rest, htext, fun hm => hc (htail ▸ List.mem_cons_of_mem _ hm)⟩
  induction hn : s.length using Nat.strongRecOn generalizing s with
  | ind n ih =>
    obtain rfl | ⟨j, -, rest, rfl, hscan⟩ | ⟨x, xs, rfl, hnot, hscan⟩ := @scan_cases _ _ _ _ _ keys hpat s
    · rfl
    · have hlt : rest.length < n := by
        rw [← hn, List.length_append]
        exact Nat.lt_add_of_pos_left (hpat j).length_pos
      have ih := ih rest.length hlt rest rfl
      rw [hscan, render_var]
      by_cases hj : j = k
      · rw [hj, single_self, hk, scanOne_append (hpat k), ih]
      · rw [single_of_ne k σ hj, ← ih]
        cases hothers j with
        | inr hother => exact @scan_append_of_unmarked _ _ _ _ (fun _ => pat k) _ (fun _ => hpat k) _ hother.1 _
        | inl hother =>
          obtain ⟨t, ht, hmt⟩ := hpat j
          have hnot : ¬pat k <+: pat j ++ render σ (scan pat keys rest) := fun hp =>
            (List.prefix_or_prefix_of_prefix hp (List.prefix_append _ _)).elim
              (fun h => hj (hdistinct k j h).symm) fun h => hj (hdistinct j k h)
          rw [hother]
          rw [ht, List.cons_append] at hnot ⊢
          rw [scanOne_cons hnot]
          exact congrArg _ (@scan_append_of_unmarked _ _ _ _ (fun _ => pat k) _ (fun _ => hpat k) _ hmt _)
    · have hlt : xs.length < n := by
        rw [← hn, List.length_cons]
        omega
      have hnot' : ¬pat k <+: x :: render σ (scan pat keys xs) := by
        intro hp
        rw [htail] at hp
        obtain ⟨rfl, hrest⟩ := List.cons_prefix_cons.mp hp
        refine hnot k (hkeys k) ?_
        rw [htail]
        exact List.cons_prefix_cons.mpr ⟨rfl, prefix_of_render hpat hstart hrest⟩
      rw [hscan, render_lit, scanOne_cons hnot', single_lit, ih xs.length hlt xs rfl]

/-- Replacing one placeholder writes its value and keeps the texts of the others. -/
theorem replaceAll_render (hk : σ k = pat k)
    (hothers : ∀ j, σ j = pat j ∨ mark ∉ σ j ∧ ∃ c rest, σ j = c :: rest ∧ c ∉ pat k) (value s : List α) :
    replaceAll (pat k) value (render σ (scan pat keys s)) = render (Function.update σ k value) (scan pat keys s) := by
  unfold replaceAll
  rw [scanOne_render hpat hkeys hdistinct hk hothers, renderOne_single]

/-- The placeholders of a text are those read in it. -/
theorem occurrences_eq (s : List α) : occurrences (pat k) s = countVars (single k σ (scan pat keys s)) := by
  have hscan : scanOne (pat k) (render pat (scan pat keys s)) = single k pat (scan pat keys s) :=
    scanOne_render hpat hkeys hdistinct rfl (fun _ => .inl rfl) s
  rw [render_scan hpat] at hscan
  unfold occurrences
  rw [hscan, countVars_single k pat σ]

/-- Whatever the texts of the others are, replacing the last placeholder writes its value in the places where it was
read when the written text has no more of it than the text that was read. -/
theorem replaceAll_render_iff (hk : σ k = pat k) (value s : List α) :
    replaceAll (pat k) value (render σ (scan pat keys s)) = render (Function.update σ k value) (scan pat keys s) ↔
      occurrences (pat k) (render σ (scan pat keys s)) = occurrences (pat k) s ∨ value = pat k := by
  have hrender : renderOne (pat k) (single k σ (scan pat keys s)) = render σ (scan pat keys s) := by
    rw [renderOne_single, ← hk, Function.update_eq_self]
  rw [occurrences_eq hpat hkeys hdistinct (σ := σ) s, ← renderOne_single, ← hrender]
  exact replaceAll_renderOne_iff (hpat k) value _

end

end Placeholders
