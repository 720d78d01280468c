import Pingsix.Lib.Delimited
import Pingsix.Lib.Text

/-!
# Separated texts

The trimmed, nonempty segments of a text between the occurrences of a separator,
and the text that has given segments.
-/

namespace Text

/-! ## Trimming -/

/-- No white space at either end. -/
def Trimmed (s : String) : Prop :=
  (∀ c ∈ s.toList.head?, isWhitespace c = false) ∧ ∀ c ∈ s.toList.getLast?, isWhitespace c = false

theorem dropWhile_eq_self {l : List Char} (h : ∀ c ∈ l.head?, isWhitespace c = false) :
    l.dropWhile isWhitespace = l := by
  cases l with
  | nil => rfl
  | cons c l => rw [List.dropWhile_cons, if_neg (by simp [h c rfl])]

theorem head?_dropWhile_isWhitespace (l : List Char) : ∀ c ∈ (l.dropWhile isWhitespace).head?, isWhitespace c = false := by
  induction l with
  | nil => simp
  | cons d l ih =>
    rw [List.dropWhile_cons]
    by_cases hd : isWhitespace d = true
    · rw [if_pos hd]
      exact ih
    · rw [if_neg hd]
      intro c hc
      rw [List.head?_cons, Option.mem_def, Option.some.injEq] at hc
      rw [← hc]
      exact Bool.not_eq_true _ ▸ hd

theorem trim_of_trimmed {s : String} (h : Trimmed s) : trim s = s := by
  unfold trim
  rw [dropWhile_eq_self h.1, dropWhile_eq_self (by rw [List.head?_reverse]; exact h.2), List.reverse_reverse,
    String.ofList_toList]

theorem trimmed_trim (s : String) : Trimmed (trim s) := by
  unfold trim Trimmed
  rw [String.toList_ofList, List.getLast?_reverse]
  refine ⟨fun c hc => ?_, head?_dropWhile_isWhitespace _⟩
  rw [List.head?_reverse] at hc
  have hsuffix := List.dropWhile_suffix isWhitespace (l := (s.toList.dropWhile isWhitespace).reverse)
  refine head?_dropWhile_isWhitespace s.toList c ?_
  rw [← List.getLast?_reverse]
  obtain ⟨front, hfront⟩ := hsuffix
  rw [← hfront, List.getLast?_append, Option.mem_def, Option.or_eq_some_iff]
  exact .inl hc

theorem trimmed_empty : Trimmed "" := ⟨by simp, by simp⟩

/-- White space before a text goes away. -/
theorem trim_append_blank {b s : String} (hb : ∀ c ∈ b.toList, isWhitespace c = true) : trim (b ++ s) = trim s := by
  unfold trim
  rw [String.toList_append, List.dropWhile_append_of_pos hb]

/-- A name without a separator, and a value when there is one, joined by it, are trimmed when they are. -/
theorem trimmed_append {n v : String} {c : Char} (hn : Trimmed n) (hv : Trimmed v) (hne : v ≠ "")
    (hc : isWhitespace c = false) : Trimmed (n ++ String.singleton c ++ v) := by
  have hv0 : v.toList ≠ [] := fun h => hne (String.toList_inj.mp (h.trans String.toList_empty.symm))
  unfold Trimmed
  rw [String.toList_append, String.toList_append, String.toList_singleton]
  refine ⟨fun d hd => ?_, fun d hd => ?_⟩
  · cases hl : n.toList with
    | nil =>
      rw [hl] at hd
      cases hd
      exact hc
    | cons x xs =>
      rw [hl] at hd
      cases hd
      exact hn.1 _ (by rw [hl]; rfl)
  · rw [List.getLast?_append, Option.or_of_isSome (by rw [List.getLast?_isSome]; exact hv0)] at hd
    exact hv.2 d hd

theorem dropWhile_append_cons {p : Char → Bool} {c : Char} (hc : p c = false) (a b : List Char) :
    (a ++ c :: b).dropWhile p = a.dropWhile p ++ c :: b := by
  induction a with
  | nil => simp [hc]
  | cons x a ih =>
    rw [List.cons_append, List.dropWhile_cons, List.dropWhile_cons]
    by_cases hx : p x = true
    · rw [if_pos hx, if_pos hx, ih]
    · rw [if_neg hx, if_neg hx, List.cons_append]

/-- Trimming reaches no further than what is not white space. -/
theorem trim_append_cons {c : Char} (hc : isWhitespace c = false) (a b : List Char) :
    (trim (String.ofList (a ++ c :: b))).toList =
      a.dropWhile isWhitespace ++ c :: (b.reverse.dropWhile isWhitespace).reverse := by
  unfold trim
  rw [String.toList_ofList, String.toList_ofList, dropWhile_append_cons hc, List.reverse_append, List.reverse_cons,
    List.append_assoc, List.singleton_append, dropWhile_append_cons hc]
  simp

theorem trim_dropWhile (a : List Char) : trim (String.ofList (a.dropWhile isWhitespace)) = trim (String.ofList a) := by
  unfold trim
  rw [String.toList_ofList, String.toList_ofList, dropWhile_eq_self (head?_dropWhile_isWhitespace a)]

/-! ## Segments -/

/-- The trimmed segments that are not empty. -/
def segments (sep : Char) (s : String) : List String :=
  ((splitChars sep s.toList).map fun cs => trim (String.ofList cs)).filter (· ≠ "")

theorem splitChars_ne_nil (c : Char) : ∀ l : List Char, splitChars c l ≠ []
  | [] => by simp [splitChars]
  | x :: xs => by
    rw [splitChars]
    split
    · simp
    · split <;> simp

theorem splitChars_of_not_mem {sep : Char} : ∀ {l : List Char}, sep ∉ l → splitChars sep l = [l]
  | [], _ => rfl
  | x :: xs, h => by
    obtain ⟨hx, hxs⟩ := not_or.mp (mt List.mem_cons.mpr h)
    unfold splitChars
    rw [if_neg (Ne.symm hx), splitChars_of_not_mem hxs]

theorem splitChars_append {sep : Char} : ∀ {a b : List Char}, sep ∉ a →
    splitChars sep (a ++ sep :: b) = a :: splitChars sep b
  | [], b, _ => by
    show splitChars sep (sep :: b) = _
    rw [splitChars, if_pos rfl]
  | x :: xs, b, h => by
    obtain ⟨hx, hxs⟩ := not_or.mp (mt List.mem_cons.mpr h)
    rw [List.cons_append, splitChars, if_neg (Ne.symm hx), splitChars_append hxs]

theorem splitChars_cons_of_ne {sep x : Char} (h : x ≠ sep) (l : List Char) :
    splitChars sep (x :: l) = ((splitChars sep l).headD []).cons x :: (splitChars sep l).tail := by
  rw [splitChars, if_neg h]
  cases hs : splitChars sep l with
  | nil => exact absurd hs (splitChars_ne_nil sep l)
  | cons piece pieces => rfl

/-- The pieces of two texts with a separator between them. -/
theorem splitChars_append_sep {sep : Char} (a b : List Char) :
    splitChars sep (a ++ sep :: b) = splitChars sep a ++ splitChars sep b := by
  induction a with
  | nil => exact splitChars_append List.not_mem_nil
  | cons x a ih =>
    by_cases hx : x = sep
    · rw [List.cons_append, splitChars, if_pos hx, splitChars, if_pos hx, ih, List.cons_append]
    · rw [List.cons_append, splitChars_cons_of_ne hx, splitChars_cons_of_ne hx, ih]
      cases hs : splitChars sep a with
      | nil => exact absurd hs (splitChars_ne_nil sep a)
      | cons piece pieces => rfl

theorem join_splitChars (c : Char) (l : List Char) : Delimited.join c (splitChars c l) = l := by
  induction l with
  | nil => rfl
  | cons x xs ih =>
    unfold splitChars
    cases hs : splitChars c xs with
    | nil => exact absurd hs (splitChars_ne_nil c xs)
    | cons piece pieces =>
      rw [hs, Delimited.join_cons] at ih
      by_cases hx : x = c
      · rw [if_pos hx, Delimited.join_cons_cons, Delimited.join_cons, ih, hx]
        rfl
      · rw [if_neg hx, Delimited.join_cons, List.cons_append, ih]

theorem splitChars_join {sep : Char} {pieces : List (List Char)} (hne : pieces ≠ []) (h : ∀ piece ∈ pieces, sep ∉ piece) :
    splitChars sep (Delimited.join sep pieces) = pieces := by
  induction pieces with
  | nil => exact absurd rfl hne
  | cons piece pieces ih =>
    obtain ⟨hpiece, hrest⟩ := List.forall_mem_cons.mp h
    cases pieces with
    | nil => exact splitChars_of_not_mem hpiece
    | cons next pieces =>
      rw [Delimited.join_cons_cons, splitChars_append hpiece, ih (List.cons_ne_nil _ _) hrest]

theorem not_mem_of_mem_splitChars {sep : Char} : ∀ {l piece : List Char}, piece ∈ splitChars sep l → sep ∉ piece
  | [], piece, h => by
    cases List.mem_singleton.mp h
    simp
  | x :: xs, piece, h => by
    unfold splitChars at h
    by_cases hx : x = sep
    · rw [if_pos hx] at h
      cases h with
      | head => simp
      | tail _ h => exact not_mem_of_mem_splitChars h
    · rw [if_neg hx] at h
      have ih := @not_mem_of_mem_splitChars sep xs
      cases hs : splitChars sep xs with
      | nil =>
        rw [hs] at h
        cases List.mem_singleton.mp h
        simpa using Ne.symm hx
      | cons p ps =>
        rw [hs] at h ih
        cases h with
        | head => exact mt List.mem_cons.mp (not_or.mpr ⟨Ne.symm hx, ih (by simp)⟩)
        | tail _ h => exact ih (List.mem_cons_of_mem _ h)

/-- Every other character is in a piece. -/
theorem exists_mem_splitChars {sep c : Char} (hc : c ≠ sep) : ∀ {l : List Char}, c ∈ l →
    ∃ piece ∈ splitChars sep l, c ∈ piece
  | x :: xs, h => by
    rw [splitChars]
    by_cases hx : x = sep
    · rw [if_pos hx]
      cases h with
      | head => exact absurd hx hc
      | tail _ h =>
        obtain ⟨piece, hp, hmem⟩ := exists_mem_splitChars hc h
        exact ⟨piece, List.mem_cons_of_mem _ hp, hmem⟩
    · rw [if_neg hx]
      cases hs : splitChars sep xs with
      | nil =>
        cases h with
        | head => exact ⟨[c], by simp, by simp⟩
        | tail _ h =>
          obtain ⟨piece, hp, -⟩ := exists_mem_splitChars hc h
          rw [hs] at hp
          cases hp
      | cons p ps =>
        cases h with
        | head => exact ⟨c :: p, by simp, by simp⟩
        | tail _ h =>
          obtain ⟨piece, hp, hmem⟩ := exists_mem_splitChars hc h
          rw [hs] at hp
          cases hp with
          | head => exact ⟨x :: p, by simp, by simp [hmem]⟩
          | tail _ hp => exact ⟨piece, List.mem_cons_of_mem _ hp, hmem⟩

theorem segments_of_not_mem {sep : Char} {s : String} (h : sep ∉ s.toList) :
    segments sep s = [trim s].filter (· ≠ "") := by
  unfold segments
  rw [splitChars_of_not_mem h]
  simp

theorem segments_append {sep : Char} {a b : String} (ha : sep ∉ a.toList) :
    segments sep (a ++ String.singleton sep ++ b) = [trim a].filter (· ≠ "") ++ segments sep b := by
  unfold segments
  rw [String.toList_append, String.toList_append, String.toList_singleton, List.append_assoc, List.singleton_append,
    splitChars_append ha, List.map_cons, String.ofList_toList, ← List.singleton_append, List.filter_append]

/-- The segments of trimmed texts joined by the separator and white space are the texts that are not empty. -/
theorem segments_intercalate {sep : Char} {blank : String} (hb : ∀ c ∈ blank.toList, isWhitespace c = true)
    (hsep : isWhitespace sep = false) : ∀ {ts : List String} {before : String},
      (∀ c ∈ before.toList, isWhitespace c = true) → (∀ t ∈ ts, Trimmed t ∧ sep ∉ t.toList) →
      segments sep (before ++ (String.singleton sep ++ blank).intercalate ts) = ts.filter (· ≠ "")
  | [], before, hbefore, _ => by
    have hnot : sep ∉ (before ++ "").toList := fun h => by
      rw [String.append_empty] at h
      rw [hbefore sep h] at hsep
      cases hsep
    rw [String.intercalate_nil, segments_of_not_mem hnot, trim_append_blank hbefore, trim_of_trimmed trimmed_empty]
    simp
  | t :: ts, before, hbefore, hts => by
    obtain ⟨htrim, hnot⟩ := hts t (by simp)
    have hnot' : sep ∉ (before ++ t).toList := fun h => by
      rw [String.toList_append, List.mem_append] at h
      refine h.elim (fun h => ?_) hnot
      rw [hbefore sep h] at hsep
      cases hsep
    have hfirst : trim (before ++ t) = t := by rw [trim_append_blank hbefore, trim_of_trimmed htrim]
    cases ts with
    | nil =>
      rw [String.intercalate_singleton, segments_of_not_mem hnot', hfirst]
    | cons u ts =>
      have ih := @segments_intercalate sep blank hb hsep (u :: ts) _ hb fun t ht => hts t (by simp [ht])
      have hsplit : before ++ (t ++ (String.singleton sep ++ blank) ++ (String.singleton sep ++ blank).intercalate (u :: ts)) =
          before ++ t ++ String.singleton sep ++
            (blank ++ (String.singleton sep ++ blank).intercalate (u :: ts)) := by
        simp only [String.append_assoc]
      rw [String.intercalate_cons_cons, hsplit, segments_append hnot', ih, hfirst, ← List.filter_append,
        List.singleton_append]

/-- What holds of every character of the texts and of the joiner holds of the joined text. -/
theorem forall_mem_intercalate {P : Char → Prop} {joiner : String} (hj : ∀ c ∈ joiner.toList, P c) :
    ∀ {ts : List String}, (∀ t ∈ ts, ∀ c ∈ t.toList, P c) → ∀ c ∈ (joiner.intercalate ts).toList, P c
  | [], _, c, hc => by simp at hc
  | [t], h, c, hc => h t (by simp) c (by simpa using hc)
  | t :: u :: ts, h, c, hc => by
    rw [String.intercalate_cons_cons, String.toList_append, String.toList_append, List.mem_append, List.mem_append] at hc
    refine hc.elim (fun hc => hc.elim (h t (by simp) c) (hj c)) ?_
    exact forall_mem_intercalate hj (fun t ht => h t (List.mem_cons_of_mem _ ht)) c

end Text
