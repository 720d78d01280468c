import Pingsix.Prometheus

/-!
# Canonical path labels

The substitutions replace the beginnings of segments, so a path comes out in its
canonical form exactly if the first pattern that matches at the beginning of a
segment matches all of it. Paths with the same canonical form have one label.
-/

namespace Pingsix.Prometheus

open AnchoredScan

/-! ## Canonical paths -/

/-- The placeholder of a segment that one of the patterns matches as a whole. -/
def kindOf (digits : DigitClass) (segment : List Char) : Option (List Char) :=
  if numericIdRegex digits segment = some segment.length then some idText
  else if uuidRegex segment = some segment.length then some uuidText
  else if hashRegex segment = some segment.length then some hashText
  else none

def canonicalSegment (digits : DigitClass) (segment : List Char) : List Char := (kindOf digits segment).getD segment

/-- What comes before the first slash, and the segments behind the slashes. -/
def canonicalPath (digits : DigitClass) (path : List Char) : List Char :=
  match Text.splitChars '/' path with
  | [] => []
  | head :: segments => Delimited.join '/' (head :: segments.map (canonicalSegment digits))

/-- The paths have the same segments except for the values of identifiers of one kind. -/
def SameButValues (digits : DigitClass) (p q : List Char) : Prop :=
  ∃ head segments segments', Text.splitChars '/' p = head :: segments ∧ Text.splitChars '/' q = head :: segments' ∧
    List.Forall₂ (fun a b => a = b ∨ ((kindOf digits a).isSome ∧ kindOf digits a = kindOf digits b)) segments segments'

structure CanonicalPaths (digits : DigitClass) (p q : List Char) : Prop where
  first : replaceIds digits p = canonicalPath digits p
  second : replaceIds digits q = canonicalPath digits q
  label : SameButValues digits p q → ∀ config seenPaths between,
    (normalizePath digits config (recordAll config (normalizePath digits config seenPaths p).2 between) q).1 =
      (normalizePath digits config seenPaths p).1

/-- The first pattern that matches at the beginning of the segment matches all of it. -/
def WholeMatch (digits : DigitClass) (segment : List Char) : Prop :=
  ∀ n, ((numericIdRegex digits segment).or ((uuidRegex segment).or (hashRegex segment))) = some n → n = segment.length

def WholeMatches (digits : DigitClass) (path : List Char) : Prop :=
  ∀ segment ∈ (Text.splitChars '/' path).tail, WholeMatch digits segment

/-! ## One segment -/

section
variable {digits : DigitClass}

theorem isDigit_slash (digits : DigitClass) : digits.isDigit '/' = false := digits.ascii '/' (by decide)

theorem isDigit_brace (digits : DigitClass) : digits.isDigit '\x7b' = false := digits.ascii '\x7b' (by decide)

theorem atLeast_head {n k : Nat} {cls : Char → Bool} {xs : List Char} (h : atLeast (n + 1) cls xs = some k) :
    ∃ x rest, xs = x :: rest ∧ cls x = true := by
  unfold atLeast at h
  rw [Option.ite_none_right_eq_some] at h
  cases xs with
  | nil => exact absurd h.1 (Nat.not_succ_le_zero n)
  | cons x rest =>
    refine ⟨x, rest, rfl, ?_⟩
    cases hx : cls x with
    | true => rfl
    | false =>
      rw [List.takeWhile_cons, hx] at h
      exact absurd h.1 (Nat.not_succ_le_zero n)

theorem uuidClasses_cons : ∃ classes, uuidClasses = isHexDigit :: classes := ⟨_, rfl⟩

theorem uuidRegex_head {n : Nat} {xs : List Char} (h : uuidRegex xs = some n) :
    ∃ x rest, xs = x :: rest ∧ isHexDigit x = true := by
  obtain ⟨classes, hclasses⟩ := uuidClasses_cons
  unfold uuidRegex inTurn at h
  rw [Option.ite_none_right_eq_some, hclasses] at h
  cases xs with
  | nil => exact absurd h.1.1 (Nat.not_succ_le_zero _)
  | cons x rest =>
    refine ⟨x, rest, rfl, ?_⟩
    have hall := h.1.2
    rw [List.zip_cons_cons, List.all_cons, Bool.and_eq_true] at hall
    exact hall.1

/-- Behind a brace nothing matches any more. -/
theorem uuidRegex_brace (xs : List Char) : uuidRegex ('\x7b' :: xs) = none := by
  cases h : uuidRegex ('\x7b' :: xs) with
  | none => rfl
  | some n =>
    obtain ⟨x, rest, he, hx⟩ := uuidRegex_head h
    cases he
    exact absurd hx (by decide)

theorem hashRegex_brace (xs : List Char) : hashRegex ('\x7b' :: xs) = none := by
  cases h : hashRegex ('\x7b' :: xs) with
  | none => rfl
  | some n =>
    obtain ⟨x, rest, he, hx⟩ := atLeast_head h
    cases he
    exact absurd hx (by decide)

/-- What the three substitutions make of a segment. -/
def replaceSegment (digits : DigitClass) (segment : List Char) : List Char :=
  pass hashRegex hashText (pass uuidRegex uuidText (pass (numericIdRegex digits) idText segment))

theorem replaceSegment_cases (digits : DigitClass) (segment : List Char) :
    replaceSegment digits segment =
      match numericIdRegex digits segment with
      | some n => idText ++ segment.drop n
      | none =>
        match uuidRegex segment with
        | some n => uuidText ++ segment.drop n
        | none =>
          match hashRegex segment with
          | some n => hashText ++ segment.drop n
          | none => segment := by
  unfold replaceSegment
  cases hn : numericIdRegex digits segment with
  | some n =>
    have hu : uuidRegex (idText ++ segment.drop n) = none := uuidRegex_brace _
    have hh : hashRegex (idText ++ segment.drop n) = none := hashRegex_brace _
    rw [pass_of_some hn, pass_of_none hu, pass_of_none hh]
  | none =>
    rw [pass_of_none hn]
    cases hu : uuidRegex segment with
    | some n =>
      have hh : hashRegex (uuidText ++ segment.drop n) = none := hashRegex_brace _
      rw [pass_of_some hu, pass_of_none hh]
    | none =>
      rw [pass_of_none hu]
      cases hh : hashRegex segment with
      | some n => rw [pass_of_some hh]
      | none => rw [pass_of_none hh]

/-- A replaced segment begins with a brace, and no identifier does. -/
theorem ne_of_head {value xs segment : List Char} (hv : value.head? = some '{') {cls : Char → Bool}
    (hc : cls '{' = false) (hs : ∃ x rest, segment = x :: rest ∧ cls x = true) : value ++ xs ≠ segment := by
  obtain ⟨x, rest, rfl, hx⟩ := hs
  cases value with
  | nil => cases hv
  | cons v value =>
    cases hv
    intro he
    cases he
    rw [hc] at hx
    cases hx

/-- The segment is replaced as it ought to be exactly if the first match is of all of it. -/
theorem replaceSegment_iff (digits : DigitClass) (segment : List Char) :
    replaceSegment digits segment = canonicalSegment digits segment ↔ WholeMatch digits segment := by
  rw [replaceSegment_cases]
  unfold WholeMatch canonicalSegment kindOf
  cases hn : numericIdRegex digits segment with
  | some n =>
    simp only [Option.some.injEq, Option.some_or, forall_eq']
    by_cases hlen : n = segment.length
    · simp [hlen]
    · have hdigit : ∀ xs, idText ++ xs ≠ segment := fun xs => ne_of_head rfl (isDigit_brace digits) (atLeast_head hn)
      have huuid : idText ++ segment.drop n ≠ uuidText := by simp [idText, uuidText]
      have hhash : idText ++ segment.drop n ≠ hashText := by simp [idText, hashText]
      simp only [hlen, if_false, iff_false]
      split
      · exact huuid
      · split
        · exact hhash
        · exact hdigit _
  | none =>
    cases hu : uuidRegex segment with
    | some n =>
      simp only [Option.some.injEq, Option.some_or, Option.none_or, forall_eq', reduceCtorEq, if_false]
      by_cases hlen : n = segment.length
      · simp [hlen]
      · have hhex : ∀ xs, uuidText ++ xs ≠ segment := fun xs => ne_of_head rfl (by decide) (uuidRegex_head hu)
        have hhash : uuidText ++ segment.drop n ≠ hashText := by simp [uuidText, hashText]
        simp only [hlen, if_false, iff_false]
        split
        · exact hhash
        · exact hhex _
    | none =>
      cases hh : hashRegex segment with
      | some n =>
        simp only [Option.some.injEq, Option.none_or, forall_eq', reduceCtorEq, if_false]
        by_cases hlen : n = segment.length
        · simp [hlen]
        · have hhex : ∀ xs, hashText ++ xs ≠ segment := fun xs => ne_of_head rfl (by decide) (atLeast_head hh)
          simpa [hlen] using hhex _
      | none => simp

/-! ## Whole paths -/

theorem isHexDigit_slash : isHexDigit '/' = false := by decide

theorem replaceIds_join (digits : DigitClass) {head : List Char} (hh : '/' ∉ head) {segments : List (List Char)}
    (hs : ∀ segment ∈ segments, '/' ∉ segment) :
    replaceIds digits (Delimited.join '/' (head :: segments)) =
      Delimited.join '/' (head :: segments.map (replaceSegment digits)) := by
  have hnumeric : Within '/' (numericIdRegex digits) := atLeast_within (isDigit_slash digits) 1
  have huuid : Within '/' uuidRegex := inTurn_within (by decide)
  have hhash : Within '/' hashRegex := atLeast_within isHexDigit_slash 32
  have hs₁ : ∀ segment ∈ segments.map (pass (numericIdRegex digits) idText), '/' ∉ segment := by
    intro segment hm
    obtain ⟨seg, hseg, rfl⟩ := List.mem_map.mp hm
    exact not_mem_pass (by decide) (hs seg hseg)
  have hs₂ : ∀ segment ∈ (segments.map (pass (numericIdRegex digits) idText)).map (pass uuidRegex uuidText), '/' ∉ segment := by
    intro segment hm
    obtain ⟨seg, hseg, rfl⟩ := List.mem_map.mp hm
    exact not_mem_pass (by decide) (hs₁ seg hseg)
  unfold replaceIds
  simp only
  rw [replaceAll_join hnumeric hh hs, replaceAll_join huuid hh hs₁, replaceAll_join hhash hh hs₂, List.map_map, List.map_map]
  rfl

theorem not_mem_canonicalSegment (digits : DigitClass) {segment : List Char} (h : '/' ∉ segment) :
    '/' ∉ canonicalSegment digits segment := by
  have hid : '/' ∉ idText := by decide
  have huuid : '/' ∉ uuidText := by decide
  have hhash : '/' ∉ hashText := by decide
  unfold canonicalSegment kindOf
  split
  · exact hid
  · split
    · exact huuid
    · split
      · exact hhash
      · exact h

theorem not_mem_replaceSegment (digits : DigitClass) {segment : List Char} (h : '/' ∉ segment) :
    '/' ∉ replaceSegment digits segment :=
  not_mem_pass (by decide) (not_mem_pass (by decide) (not_mem_pass (by decide) h))

theorem splitChars_segments (path : List Char) : ∃ head segments, Text.splitChars '/' path = head :: segments ∧
    path = Delimited.join '/' (head :: segments) ∧ '/' ∉ head ∧ ∀ segment ∈ segments, '/' ∉ segment := by
  have hjoin := Text.join_splitChars '/' path
  have hmem : ∀ segment ∈ Text.splitChars '/' path, '/' ∉ segment := fun _ h => Text.not_mem_of_mem_splitChars h
  cases hs : Text.splitChars '/' path with
  | nil => exact absurd hs (Text.splitChars_ne_nil '/' path)
  | cons head segments =>
    rw [hs] at hjoin hmem
    exact ⟨head, segments, rfl, hjoin.symm, hmem head (by simp), fun s h => hmem s (List.mem_cons_of_mem _ h)⟩

/-- The substitutions give the canonical path exactly if all first matches are of whole segments. -/
theorem replaceIds_iff (digits : DigitClass) (path : List Char) :
    replaceIds digits path = canonicalPath digits path ↔ WholeMatches digits path := by
  obtain ⟨head, segments, hsplit, hpath, hh, hs⟩ := splitChars_segments path
  have hreplaced : replaceIds digits path = Delimited.join '/' (head :: segments.map (replaceSegment digits)) := by
    rw [hpath]
    exact replaceIds_join digits hh hs
  unfold canonicalPath WholeMatches
  rw [hreplaced, hsplit, List.tail_cons]
  simp only
  constructor
  · intro he segment hm
    have hcount : List.Forall₂ (fun a b : List Char => a.count '/' = b.count '/')
        (head :: segments.map (replaceSegment digits)) (head :: segments.map (canonicalSegment digits)) := by
      refine .cons rfl (List.forall₂_map_left_iff.mpr (List.forall₂_map_right_iff.mpr (List.forall₂_same.mpr ?_)))
      intro s hsm
      rw [List.count_eq_zero.mpr (not_mem_replaceSegment digits (hs s hsm)),
        List.count_eq_zero.mpr (not_mem_canonicalSegment digits (hs s hsm))]
    have hmaps := (List.cons.inj (Delimited.join_inj hcount he)).2
    exact (replaceSegment_iff digits segment).mp (List.map_inj_left.mp hmaps segment hm)
  · intro hw
    rw [List.map_congr_left fun s hsm => (replaceSegment_iff digits s).mpr (hw s hsm)]

theorem canonicalSegment_congr {a b : List Char}
    (h : a = b ∨ ((kindOf digits a).isSome ∧ kindOf digits a = kindOf digits b)) :
    canonicalSegment digits a = canonicalSegment digits b := by
  rcases h with rfl | ⟨hsome, hkind⟩
  · rfl
  · obtain ⟨kind, hk⟩ := Option.isSome_iff_exists.mp hsome
    unfold canonicalSegment
    rw [← hkind, hk]
    rfl

/-- Paths that differ in the values of identifiers alone have one canonical form. -/
theorem canonicalPath_congr {p q : List Char} (h : SameButValues digits p q) :
    canonicalPath digits p = canonicalPath digits q := by
  obtain ⟨head, segments, segments', hp, hq, hsame⟩ := h
  have hmaps : segments.map (canonicalSegment digits) = segments'.map (canonicalSegment digits) := by
    have hforall : List.Forall₂ (· = ·) (segments.map (canonicalSegment digits)) (segments'.map (canonicalSegment digits)) :=
      List.forall₂_map_left_iff.mpr (List.forall₂_map_right_iff.mpr (hsame.imp fun _ _ => canonicalSegment_congr))
    rwa [List.forall₂_eq_eq_eq] at hforall
  unfold canonicalPath
  rw [hp, hq]
  simp only [hmaps]

end

/-! ## Labels -/

section
variable {config : PrometheusConfig} {seenPaths seenPaths' : SeenPaths}

/-- What was recorded stays, and nothing is added to as many paths as there may be. -/
structure Grown (config : PrometheusConfig) (seenPaths seenPaths' : SeenPaths) : Prop where
  kept : ∀ path, seenPaths.containsKey path = true → seenPaths'.containsKey path = true
  full : config.maxUniquePaths ≤ seenPaths.entries.length → seenPaths' = seenPaths

theorem Grown.refl (config : PrometheusConfig) (seenPaths : SeenPaths) : Grown config seenPaths seenPaths :=
  ⟨fun _ h => h, fun _ => rfl⟩

theorem limitPathLabel_seen {path : List Char} (h : seenPaths.containsKey (limitLength config path) = true) :
    limitPathLabel config seenPaths path = (limitLength config path, seenPaths) := by
  unfold limitPathLabel
  simp only [h, if_true]

theorem limitPathLabel_full {path : List Char} (h : seenPaths.containsKey (limitLength config path) = false)
    (hfull : config.maxUniquePaths ≤ seenPaths.entries.length) :
    limitPathLabel config seenPaths path = ("/...".toList, seenPaths) := by
  unfold limitPathLabel
  simp only [h, hfull, if_true, Bool.false_eq_true, if_false]

theorem limitPathLabel_new {path : List Char} (h : seenPaths.containsKey (limitLength config path) = false)
    (hroom : ¬config.maxUniquePaths ≤ seenPaths.entries.length) :
    limitPathLabel config seenPaths path =
      (limitLength config path, seenPaths.insert (limitLength config path) ()) := by
  unfold limitPathLabel
  simp only [h, hroom, Bool.false_eq_true, if_false]

theorem containsKey_insert (seenPaths : SeenPaths) (key path : List Char) :
    HashMap.containsKey (seenPaths.insert key ()) path = (decide (path = key) || HashMap.containsKey seenPaths path) := by
  unfold HashMap.containsKey
  rw [HashMap.lookup_insert]
  by_cases h : path = key
  · simp [h]
  · simp [h]

theorem limitPathLabel_grown (config : PrometheusConfig) (seenPaths : SeenPaths) (path : List Char) :
    Grown config seenPaths (limitPathLabel config seenPaths path).2 := by
  cases h : seenPaths.containsKey (limitLength config path) with
  | true =>
    rw [limitPathLabel_seen h]
    exact .refl config seenPaths
  | false =>
    by_cases hfull : config.maxUniquePaths ≤ seenPaths.entries.length
    · rw [limitPathLabel_full h hfull]
      exact .refl config seenPaths
    · rw [limitPathLabel_new h hfull]
      refine ⟨fun p hp => ?_, fun h => absurd h hfull⟩
      simp only [containsKey_insert, hp, Bool.or_true]

theorem recordAll_grown (config : PrometheusConfig) (paths : List (List Char)) :
    ∀ seenPaths, Grown config seenPaths (recordAll config seenPaths paths) := by
  induction paths with
  | nil => exact .refl config
  | cons path paths ih =>
    intro seenPaths
    have hstep := limitPathLabel_grown config seenPaths path
    have hrest := ih (limitPathLabel config seenPaths path).2
    refine ⟨fun p hp => hrest.kept p (hstep.kept p hp), fun hfull => ?_⟩
    have hsame := hstep.full hfull
    exact (hrest.full (by rwa [hsame])).trans hsame

/-- A path keeps its label, whatever labels are asked for in between. -/
theorem limitPathLabel_stable (config : PrometheusConfig) (seenPaths : SeenPaths) (path : List Char)
    (between : List (List Char)) :
    (limitPathLabel config (recordAll config (limitPathLabel config seenPaths path).2 between) path).1 =
      (limitPathLabel config seenPaths path).1 := by
  have hgrown := recordAll_grown config between (limitPathLabel config seenPaths path).2
  cases h : seenPaths.containsKey (limitLength config path) with
  | true =>
    rw [limitPathLabel_seen h] at hgrown ⊢
    rw [limitPathLabel_seen (hgrown.kept _ h)]
  | false =>
    by_cases hfull : config.maxUniquePaths ≤ seenPaths.entries.length
    · rw [limitPathLabel_full h hfull] at hgrown ⊢
      rw [hgrown.full hfull, limitPathLabel_full h hfull]
    · rw [limitPathLabel_new h hfull] at hgrown ⊢
      rw [limitPathLabel_seen (hgrown.kept _ (by simp only [containsKey_insert, decide_true, Bool.true_or]))]

end

/-- Two paths are labelled canonically exactly if in both all first matches are of whole segments. -/
theorem canonicalPaths_iff (digits : DigitClass) (p q : List Char) :
    CanonicalPaths digits p q ↔ WholeMatches digits p ∧ WholeMatches digits q := by
  constructor
  · intro h
    exact ⟨(replaceIds_iff digits p).mp h.first, (replaceIds_iff digits q).mp h.second⟩
  · rintro ⟨hp, hq⟩
    have hfirst := (replaceIds_iff digits p).mpr hp
    have hsecond := (replaceIds_iff digits q).mpr hq
    refine ⟨hfirst, hsecond, fun hsame config seenPaths between => ?_⟩
    unfold normalizePath
    rw [hsecond, ← canonicalPath_congr hsame, ← hfirst]
    exact limitPathLabel_stable config seenPaths _ between

/-- The ASCII digits alone. -/
def asciiDigits : DigitClass := ⟨Char.isDigit, fun _ _ => rfl⟩

/-- A UUID whose first digit is decimal keeps most of its text. -/
theorem canonicalPaths_uuid : ¬∀ (digits : DigitClass) (p q : List Char), CanonicalPaths digits p q := by
  intro h
  have hpath := (h asciiDigits "/550e8400-e29b-41d4-a716-446655440000".toList []).first
  exact absurd hpath (by decide +kernel)

end Pingsix.Prometheus
