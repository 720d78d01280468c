import Mathlib.Algebra.Ring.Nat
import Mathlib.Data.List.Basic
import Mathlib.Data.List.Forall2
import Mathlib.Data.List.Nodup
import Mathlib.Data.Nat.Notation

/-!
# Delimited texts

When a text made of several pieces determines the pieces: the separator occurs
in none of them, or equally often in those that stand for the same piece, or
every piece ends in a mark it does not contain.
-/

namespace Delimited

variable {α : Type}

/-! ## Two pieces -/

theorem append_sep_inj {c : α} {a a' b b' : List α} (ha : c ∉ a) (ha' : c ∉ a')
    (h : a ++ c :: b = a' ++ c :: b') : a = a' ∧ b = b' := by
  rcases List.append_eq_append_iff.mp h with ⟨t, rfl, ht⟩ | ⟨t, rfl, ht⟩
  · cases t with
    | nil => simpa using ht
    | cons x t =>
      cases ht
      simp at ha'
  · cases t with
    | nil => simpa using ht.symm
    | cons x t =>
      cases ht
      simp at ha

theorem append_last_sep_inj {c : α} {a a' b b' : List α} (hb : c ∉ b) (hb' : c ∉ b')
    (h : a ++ c :: b = a' ++ c :: b') : a = a' ∧ b = b' := by
  rcases List.append_eq_append_iff.mp h with ⟨t, rfl, ht⟩ | ⟨t, rfl, ht⟩
  · cases t with
    | nil => simpa using ht
    | cons x t =>
      cases ht
      simp at hb
  · cases t with
    | nil => simpa using ht.symm
    | cons x t =>
      cases ht
      simp at hb'

/-- The separator may occur in the first piece, when it occurs equally often on both sides. -/
theorem append_count_inj [DecidableEq α] {c : α} {a a' b b' : List α} (hc : a.count c = a'.count c)
    (h : a ++ c :: b = a' ++ c :: b') : a = a' ∧ b = b' := by
  rcases List.append_eq_append_iff.mp h with ⟨t, rfl, ht⟩ | ⟨t, rfl, ht⟩
  · cases t with
    | nil => simpa using ht
    | cons x t =>
      cases ht
      simp at hc
  · cases t with
    | nil => simpa using ht.symm
    | cons x t =>
      cases ht
      simp at hc

/-! ## Lists of pieces -/

/-- The pieces with the separator between them. -/
def join (sep : α) : List (List α) → List α
  | [] => []
  | [piece] => piece
  | piece :: pieces => piece ++ sep :: join sep pieces

theorem join_cons_cons {sep : α} (p q : List α) (ps : List (List α)) :
    join sep (p :: q :: ps) = p ++ sep :: join sep (q :: ps) := rfl

theorem join_cons {sep : α} (head : List α) (segments : List (List α)) :
    join sep (head :: segments) = head ++ segments.flatMap (sep :: ·) := by
  induction segments generalizing head with
  | nil => simp [join]
  | cons segment segments ih =>
    rw [join_cons_cons, ih, List.flatMap_cons, List.cons_append]

/-- What stands before and after one piece. -/
theorem join_around (sep : α) (ps qs : List (List α)) :
    ∃ before after, ∀ p, join sep (ps ++ p :: qs) = before ++ p ++ after := by
  cases ps with
  | nil => exact ⟨[], qs.flatMap (sep :: ·), fun p => join_cons p qs⟩
  | cons q ps =>
    refine ⟨q ++ ps.flatMap (sep :: ·) ++ [sep], qs.flatMap (sep :: ·), fun p => ?_⟩
    rw [List.cons_append, join_cons, List.flatMap_append, List.flatMap_cons]
    simp

theorem length_join (sep : α) : ∀ ps : List (List α), (join sep ps).length = (ps.map List.length).sum + (ps.length - 1)
  | [] => rfl
  | [p] => by simp [join]
  | p :: q :: ps => by
    rw [join_cons_cons, List.length_append, List.length_cons, length_join sep (q :: ps)]
    simp only [List.map_cons, List.sum_cons, List.length_cons]
    omega

/-- Equally many pieces, with equally many separators in those at one place, are determined by their join. -/
theorem join_inj [DecidableEq α] {sep : α} : ∀ {ps qs : List (List α)},
    List.Forall₂ (fun p q => p.count sep = q.count sep) ps qs → join sep ps = join sep qs → ps = qs
  | [], [], _, _ => rfl
  | [p], [q], _, h => by
    have h : p = q := h
    rw [h]
  | p :: p' :: ps, q :: q' :: qs, hc, h => by
    cases hc with
    | cons hpq hrest =>
      rw [join_cons_cons, join_cons_cons] at h
      obtain ⟨rfl, ht⟩ := append_count_inj hpq h
      rw [join_inj hrest ht]
  | [_], _ :: _ :: _, hc, _ => by
    cases hc with
    | cons _ hrest => cases hrest
  | _ :: _ :: _, [_], hc, _ => by
    cases hc with
    | cons _ hrest => cases hrest

/-! ## Sections -/

section
variable {β : Type}

/-- Each section's name, marked when it has items, and then its items, unmarked. -/
def sectionTokens (sections : List (β × List β)) : List (β × Bool) :=
  sections.flatMap fun s => (s.1, decide (s.2 ≠ [])) :: s.2.map (·, false)

theorem sectionTokens_cons (s : β × List β) (sections : List (β × List β)) :
    sectionTokens (s :: sections) =
      (s.1, decide (s.2 ≠ [])) :: (s.2.map (·, false) ++ sectionTokens sections) := by
  simp [sectionTokens]

theorem marked_sectionTokens (sections : List (β × List β)) :
    (sectionTokens sections).filter (·.2) = (sections.filter fun s => s.2 ≠ []).map fun s => (s.1, true) := by
  induction sections with
  | nil => rfl
  | cons s sections ih =>
    rw [sectionTokens_cons, List.filter_cons, List.filter_append, ih, List.filter_cons]
    have hn : (s.2.map fun b => (b, false)).filter (·.2) = [] := by simp [List.filter_eq_nil_iff]
    rw [hn]
    by_cases h : s.2 = []
    · simp [h]
    · simp [h]

/-- Sections of the same names, with items in the same ones, cannot be shifted against each other. -/
theorem sectionTokens_shift : ∀ {ss ts : List (β × List β)} {shift : List (β × Bool)},
    List.Forall₂ (fun s t => s.1 = t.1 ∧ (s.2 = [] ↔ t.2 = [])) ss ts → (∀ token ∈ shift, token.2 = false) →
    sectionTokens ss = shift ++ sectionTokens ts → shift = []
  | [], [], shift, _, _, h => by
    simpa [sectionTokens] using h.symm
  | s :: ss, t :: ts, [], _, _, _ => rfl
  | s :: ss, t :: ts, token :: shift, hst, hs, h => by
    cases hst with
    | cons hhead hrest =>
      rw [sectionTokens_cons, sectionTokens_cons, List.cons_append, List.cons.injEq] at h
      obtain ⟨rfl, h⟩ := h
      have hitems : s.2 = [] := by simpa using hs _ List.mem_cons_self
      have hitems' : t.2 = [] := hhead.2.mp hitems
      simp only [hitems, hitems', List.map_nil, List.nil_append, ne_eq, not_true, decide_false] at h
      have hn := @sectionTokens_shift ss ts (shift ++ [(t.1, false)]) hrest (by
        intro token hm
        cases List.mem_append.mp hm with
        | inl hm => exact hs token (List.mem_cons_of_mem _ hm)
        | inr hm => rw [List.mem_singleton.mp hm]) (by rw [h, List.append_assoc]; rfl)
      simp at hn

theorem sectionTokens_inj_of_forall : ∀ {ss ts : List (β × List β)},
    List.Forall₂ (fun s t => s.1 = t.1 ∧ (s.2 = [] ↔ t.2 = [])) ss ts → sectionTokens ss = sectionTokens ts → ss = ts
  | [], [], _, _ => rfl
  | s :: ss, t :: ts, hst, h => by
    cases hst with
    | cons hhead hrest =>
      rw [sectionTokens_cons, sectionTokens_cons, List.cons.injEq] at h
      have hitems : s.2.map (·, false) = t.2.map (·, false) ∧ sectionTokens ss = sectionTokens ts := by
        rcases List.append_eq_append_iff.mp h.2 with ⟨shift, he, hs⟩ | ⟨shift, he, hs⟩
        · have hn : shift = [] := sectionTokens_shift hrest (fun token hm => by
            have hm : token ∈ t.2.map (·, false) := by rw [he]; exact List.mem_append_right _ hm
            obtain ⟨b, -, rfl⟩ := List.mem_map.mp hm
            rfl) hs
          rw [hn] at he hs
          exact ⟨by simpa using he.symm, hs⟩
        · have hrest' : List.Forall₂ (fun s t => s.1 = t.1 ∧ (s.2 = [] ↔ t.2 = [])) ts ss :=
            hrest.flip.imp fun _ _ h => ⟨h.1.symm, h.2.symm⟩
          have hn : shift = [] := sectionTokens_shift hrest' (fun token hm => by
            have hm : token ∈ s.2.map (·, false) := by rw [he]; exact List.mem_append_right _ hm
            obtain ⟨b, -, rfl⟩ := List.mem_map.mp hm
            rfl) hs
          rw [hn] at he hs
          exact ⟨by simpa using he, hs.symm⟩
      have hs : s.2 = t.2 := List.map_injective_iff.mpr (fun _ _ he => congrArg Prod.fst he) hitems.1
      rw [sectionTokens_inj_of_forall hrest hitems.2, show s = t from Prod.ext hhead.1 hs]

/-- Sections of the same distinct names are determined by their tokens. -/
theorem sectionTokens_inj {ss ts : List (β × List β)} (hn : ss.map Prod.fst = ts.map Prod.fst)
    (hd : (ss.map Prod.fst).Nodup) (h : sectionTokens ss = sectionTokens ts) : ss = ts := by
  have hm : ((ss.filter fun s => s.2 ≠ []).map fun s => (s.1, true)) =
      (ts.filter fun s => s.2 ≠ []).map fun s => (s.1, true) := by
    rw [← marked_sectionTokens, ← marked_sectionTokens, h]
  have hmem : ∀ name, (∃ s ∈ ss, s.2 ≠ [] ∧ s.1 = name) ↔ ∃ t ∈ ts, t.2 ≠ [] ∧ t.1 = name := by
    intro name
    have := congrArg (fun l => (name, true) ∈ l) hm
    simpa [and_assoc] using this
  have unique : ∀ {us : List (β × List β)}, (us.map Prod.fst).Nodup → ∀ s ∈ us, ∀ t ∈ us, s.1 = t.1 → s = t :=
    fun hu s hs t ht he => List.inj_on_of_nodup_map hu hs ht he
  refine sectionTokens_inj_of_forall ?_ h
  rw [List.forall₂_iff_get]
  refine ⟨by simpa using congrArg List.length hn, fun i hi hj => ?_⟩
  have hname : (ss.get ⟨i, hi⟩).1 = (ts.get ⟨i, hj⟩).1 := by
    have := congrArg (fun l => l[i]?) hn
    simpa [List.getElem?_eq_getElem, hi, hj] using this
  refine ⟨hname, not_iff_not.mp ⟨fun hs => ?_, fun ht => ?_⟩⟩
  · obtain ⟨t, ht, hne, he⟩ := (hmem _).mp ⟨_, List.get_mem ss ⟨i, hi⟩, hs, rfl⟩
    rw [unique (hn ▸ hd) _ (List.get_mem ts ⟨i, hj⟩) t ht (hname ▸ he.symm)]
    exact hne
  · obtain ⟨s, hs, hne, he⟩ := (hmem _).mpr ⟨_, List.get_mem ts ⟨i, hj⟩, ht, rfl⟩
    rw [unique hd _ (List.get_mem ss ⟨i, hi⟩) s hs (hname ▸ he.symm)]
    exact hne

end

/-- The texts of the tokens, each followed by the mark it carries. -/
def markedText (off on : α) (tokens : List (List α × Bool)) : List α :=
  tokens.flatMap fun token => token.1 ++ [if token.2 then on else off]

theorem markedText_flatMap {γ : Type} (off on : α) (f : γ → List (List α × Bool)) (l : List γ) :
    markedText off on (l.flatMap f) = l.flatMap fun c => markedText off on (f c) := by
  unfold markedText
  rw [List.flatMap_assoc]

theorem markedText_inj {off on : α} (hne : off ≠ on) : ∀ {ts us : List (List α × Bool)},
    (∀ t ∈ ts, off ∉ t.1 ∧ on ∉ t.1) → (∀ u ∈ us, off ∉ u.1 ∧ on ∉ u.1) →
    markedText off on ts = markedText off on us → ts = us
  | [], [], _, _, _ => rfl
  | [], u :: us, _, _, h => absurd h.symm (by simp [markedText])
  | t :: ts, [], _, _, h => absurd h (by simp [markedText])
  | (p, m) :: ts, (q, n) :: us, ht, hu, h => by
    have hp := ht (p, m) List.mem_cons_self
    have hq := hu (q, n) List.mem_cons_self
    have hc : ∀ k l : Bool, (if k then on else off) = (if l then on else off) → k = l := by
      intro k l
      cases k <;> cases l <;> simp [hne, hne.symm]
    have hmem : ∀ (k : Bool) {r : List α}, off ∉ r ∧ on ∉ r → (if k then on else off) ∉ r := by
      intro k r hr
      cases k
      · exact hr.1
      · exact hr.2
    simp only [markedText, List.flatMap_cons, List.append_assoc, List.singleton_append] at h
    have hpiece : p = q ∧ m = n ∧ markedText off on ts = markedText off on us := by
      rcases List.append_eq_append_iff.mp h with ⟨r, rfl, hr⟩ | ⟨r, rfl, hr⟩
      · cases r with
        | nil =>
          rw [List.nil_append, List.cons.injEq] at hr
          exact ⟨by simp, hc m n hr.1, hr.2⟩
        | cons x r =>
          rw [List.cons_append, List.cons.injEq] at hr
          exact absurd (by simp [hr.1]) (hmem m hq)
      · cases r with
        | nil =>
          rw [List.nil_append, List.cons.injEq] at hr
          exact ⟨by simp, (hc n m hr.1).symm, hr.2.symm⟩
        | cons x r =>
          rw [List.cons_append, List.cons.injEq] at hr
          exact absurd (by simp [hr.1]) (hmem n hp)
    obtain ⟨rfl, rfl, hrest⟩ := hpiece
    rw [markedText_inj hne (fun t hm => ht t (List.mem_cons_of_mem _ hm))
      (fun u hm => hu u (List.mem_cons_of_mem _ hm)) hrest]

/-! ## Hexadecimal numbers -/

/-- Lower-case hexadecimal, without leading zeros. -/
def lowerHex (n : ℕ) : List Char := Nat.toDigits 16 n

theorem digitChar_inj {m n : ℕ} (hm : m < 16) (hn : n < 16) (h : m.digitChar = n.digitChar) : m = n := by
  have all : ∀ i j : Fin 16, Nat.digitChar i = Nat.digitChar j → i = j := by decide
  exact congrArg Fin.val (all ⟨m, hm⟩ ⟨n, hn⟩ h)

theorem lowerHex_eq (n : ℕ) :
    lowerHex n = if n < 16 then [n.digitChar] else lowerHex (n / 16) ++ [(n % 16).digitChar] :=
  Nat.toDigits_eq_if (by decide)

theorem lowerHex_inj : ∀ {m n : ℕ}, lowerHex m = lowerHex n → m = n := by
  intro m
  induction m using Nat.strongRecOn with
  | ind m ih =>
    intro n h
    have hpos : ∀ k, lowerHex k ≠ [] := fun k => Nat.toDigits_ne_nil
    rw [lowerHex_eq m, lowerHex_eq n] at h
    by_cases hm : m < 16
    · by_cases hn : n < 16
      · rw [if_pos hm, if_pos hn] at h
        exact digitChar_inj hm hn (List.singleton_inj.mp h)
      · rw [if_pos hm, if_neg hn] at h
        exact absurd (List.append_eq_singleton_iff.mp h.symm) (by simp [hpos])
    · by_cases hn : n < 16
      · rw [if_neg hm, if_pos hn] at h
        exact absurd (List.append_eq_singleton_iff.mp h) (by simp [hpos])
      · rw [if_neg hm, if_neg hn] at h
        obtain ⟨hq, hr⟩ := List.append_inj' h rfl
        have hq' := ih (m / 16) (by omega) hq
        have hr' := digitChar_inj (by omega) (by omega) (List.singleton_inj.mp hr)
        omega

/-- The digits are letters and numbers. -/
theorem isAlphanum_of_mem_lowerHex : ∀ {n : ℕ} {c : Char}, c ∈ lowerHex n → c.isAlphanum = true := by
  have all : ∀ i : Fin 16, (Nat.digitChar i).isAlphanum = true := by decide
  intro n
  induction n using Nat.strongRecOn with
  | ind n ih =>
    intro c hc
    rw [lowerHex_eq] at hc
    by_cases hn : n < 16
    · rw [if_pos hn, List.mem_singleton] at hc
      rw [hc]
      exact all ⟨n, hn⟩
    · rw [if_neg hn, List.mem_append, List.mem_singleton] at hc
      cases hc with
      | inl hc => exact ih (n / 16) (by omega) hc
      | inr hc =>
        rw [hc]
        exact all ⟨n % 16, by omega⟩

end Delimited
