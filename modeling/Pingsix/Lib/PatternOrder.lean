import Pingsix.Lib.Pattern

/-!
# Order of insertion

What a router finds for a path depends on the patterns it stores and not on
the order in which they were stored. The documented preference has this
property: of two patterns that do not conflict and match one path, one is before
the other.
-/

/-- The patterns can be stored one after another, the last one first. -/
def Matchit.Storable (M : Matchit) : List String → Prop
  | [] => True
  | p :: ps => M.insertError ps p = none ∧ M.Storable ps

/-- Neither what may be stored nor what is found depends on the order of insertion. -/
structure Matchit.OrderFree (M : Matchit) : Prop where
  storable {ps ps' : List String} (h : ps.Perm ps') (hs : M.Storable ps) : M.Storable ps'
  choose {ps ps' : List String} (h : ps.Perm ps') (hs : M.Storable ps) (path : String) :
    M.choose ps path = M.choose ps' path

namespace Pattern

/-! ## The preference -/

theorem conflicting_symm : ∀ ts us : List Token, conflicting ts us = conflicting us ts
  | [], [] => rfl
  | [], .lit _ :: _ => rfl
  | [], .param _ :: _ => rfl
  | [], .catchAll _ :: _ => rfl
  | .lit _ :: _, [] => rfl
  | .param _ :: _, [] => rfl
  | .catchAll _ :: _, [] => rfl
  | .lit c :: ts, .lit d :: us => by
    show (decide (c = d) && conflicting ts us) = (decide (d = c) && conflicting us ts)
    rw [conflicting_symm ts us, decide_eq_decide.mpr eq_comm]
  | .param _ :: ts, .param _ :: us => conflicting_symm ts us
  | .lit _ :: _, .param _ :: _ => rfl
  | .lit _ :: _, .catchAll _ :: _ => rfl
  | .param _ :: _, .lit _ :: _ => rfl
  | .catchAll _ :: _, .lit _ :: _ => rfl
  | .param _ :: _, .catchAll _ :: _ => rfl
  | .catchAll _ :: _, .param _ :: _ => rfl
  | .catchAll _ :: _, .catchAll _ :: _ => rfl

theorem before_asymm : ∀ {ts us : List Token}, before ts us = true → before us ts = false
  | .lit c :: ts, .lit d :: us, h => by
    simp only [before, Bool.and_eq_true, decide_eq_true_eq] at h ⊢
    simp [before_asymm h.2]
  | .lit _ :: _, [], _ => rfl
  | .lit _ :: _, .param _ :: _, _ => rfl
  | .lit _ :: _, .catchAll _ :: _, _ => rfl
  | .param _ :: ts, .param _ :: us, h => @before_asymm ts us h
  | .param _ :: _, .catchAll _ :: _, _ => rfl

theorem before_trans : ∀ {ts us vs : List Token}, before ts us = true → before us vs = true → before ts vs = true
  | .lit c :: ts, .lit d :: us, .lit e :: vs, h, h' => by
    simp only [before, Bool.and_eq_true, decide_eq_true_eq] at h h' ⊢
    exact ⟨h.1.trans h'.1, before_trans h.2 h'.2⟩
  | .lit _ :: _, .lit _ :: _, [], _, _ => rfl
  | .lit _ :: _, .lit _ :: _, .param _ :: _, _, _ => rfl
  | .lit _ :: _, .lit _ :: _, .catchAll _ :: _, _, _ => rfl
  | .lit _ :: _, .param _ :: _, .param _ :: _, _, _ => rfl
  | .lit _ :: _, .param _ :: _, .catchAll _ :: _, _, _ => rfl
  | .param _ :: ts, .param _ :: us, .param _ :: vs, h, h' => @before_trans ts us vs h h'
  | .param _ :: _, .param _ :: _, .catchAll _ :: _, _, _ => rfl

/-- Of two patterns that match one path and do not conflict one is before the other. -/
theorem before_total : ∀ {ts us : List Token} {path : List Char}, (captureTokens ts path).isSome = true →
    (captureTokens us path).isSome = true → conflicting ts us = false → before ts us = true ∨ before us ts = true
  | [], [], _, _, _, h => by cases h
  | [], .lit _ :: _, [], _, h, _ => by cases h
  | [], .lit _ :: _, _ :: _, h, _, _ => by cases h
  | [], .param _ :: _, [], _, h, _ => by cases h
  | [], .param _ :: _, _ :: _, h, _, _ => by cases h
  | [], .catchAll _ :: _, [], _, h, _ => by simp [captureTokens] at h
  | [], .catchAll _ :: _, _ :: _, h, _, _ => by cases h
  | .lit _ :: _, [], _, _, _, _ => .inl rfl
  | .lit _ :: _, .param _ :: _, _, _, _, _ => .inl rfl
  | .lit _ :: _, .catchAll _ :: _, _, _, _, _ => .inl rfl
  | .param _ :: _, .lit _ :: _, _, _, _, _ => .inr rfl
  | .catchAll _ :: _, .lit _ :: _, _, _, _, _ => .inr rfl
  | .param _ :: _, [], [], h, _, _ => by cases h
  | .param _ :: _, [], _ :: _, _, h, _ => by cases h
  | .catchAll _ :: _, [], [], h, _, _ => by simp [captureTokens] at h
  | .catchAll _ :: _, [], _ :: _, _, h, _ => by cases h
  | .param _ :: _, .catchAll _ :: _, _, _, _, h => by cases h
  | .catchAll _ :: _, .param _ :: _, _, _, _, h => by cases h
  | .catchAll _ :: _, .catchAll _ :: _, _, _, _, h => by cases h
  | .lit _ :: _, .lit _ :: _, [], h, _, _ => by cases h
  | .lit c :: ts, .lit d :: us, e :: path, h, h', hc => by
    rw [captureTokens] at h h'
    by_cases hce : c = e
    · by_cases hde : d = e
      · rw [if_pos hce] at h
        rw [if_pos hde] at h'
        have hcd : c = d := hce.trans hde.symm
        have hrest : conflicting ts us = false := by simpa [conflicting, hcd] using hc
        simpa [before, hcd] using before_total h h' hrest
      · rw [if_neg hde] at h'
        cases h'
    · rw [if_neg hce] at h
      cases h
  | .param m :: ts, .param n :: us, path, h, h', hc => by
    simp only [captureTokens] at h h'
    by_cases hseg : path.takeWhile (· ≠ '/') = []
    · rw [if_pos hseg] at h
      cases h
    · rw [if_neg hseg, Option.isSome_map] at h h'
      exact @before_total ts us _ h h' hc

/-! ## The documented preference -/

/-- The two patterns differ and do not conflict. -/
def Apart (p q : String) : Prop :=
  p ≠ q ∧ ∀ ts us, tokens none p.toList = some ts → tokens none q.toList = some us → conflicting ts us = false

theorem Apart.symm {p q : String} (h : Apart p q) : Apart q p :=
  ⟨h.1.symm, fun us ts hu ht => (conflicting_symm us ts).trans (h.2 ts us ht hu)⟩

def WellFormed (p : String) : Prop := ∃ ts, tokens none p.toList = some ts ∧ invalid ts = none

theorem insertError_eq_none {ps : List String} {p : String} :
    insertError ps p = none ↔ WellFormed p ∧ ∀ q ∈ ps, Apart p q := by
  unfold insertError WellFormed
  cases ht : tokens none p.toList with
  | none => simp
  | some ts =>
    simp only [Option.some.injEq, exists_eq_left']
    cases hi : invalid ts with
    | some e => simp
    | none =>
      simp only [Option.orElse, Option.map_eq_none_iff, List.find?_eq_none, true_and]
      refine forall₂_congr fun q _ => ?_
      rw [Bool.or_eq_true, not_or, decide_eq_true_eq]
      unfold Apart
      refine and_congr ne_comm ?_
      cases hu : tokens none q.toList with
      | none => simp
      | some us => simp [ht]

theorem storable_iff : ∀ {ps : List String},
    Matchit.staticFirst.Storable ps ↔ (∀ p ∈ ps, WellFormed p) ∧ ps.Pairwise Apart
  | [] => by simp [Matchit.Storable]
  | p :: ps => by
    show insertError ps p = none ∧ Matchit.staticFirst.Storable ps ↔ _
    rw [insertError_eq_none, storable_iff, List.forall_mem_cons, List.pairwise_cons]
    exact ⟨fun ⟨⟨h1, h2⟩, h3, h4⟩ => ⟨⟨h1, h3⟩, h2, h4⟩, fun ⟨⟨h1, h3⟩, h2, h4⟩ => ⟨⟨h1, h2⟩, h3, h4⟩⟩

/-- Whether the first of two texts is looked up before the second. -/
def Precedes (p q : String) : Prop :=
  before ((tokens none p.toList).getD []) ((tokens none q.toList).getD []) = true

theorem precedes_total {p q path : String} (hp : Matches p path) (hq : Matches q path) (h : Apart p q) :
    Precedes p q ∨ Precedes q p := by
  unfold Matches captures at hp hq
  unfold Precedes
  cases ht : tokens none p.toList with
  | none =>
    rw [ht] at hp
    cases hp
  | some ts =>
    cases hu : tokens none q.toList with
    | none =>
      rw [hu] at hq
      cases hq
    | some us =>
      rw [ht] at hp
      rw [hu] at hq
      exact before_total hp hq (h.2 ts us ht hu)

theorem not_before_literal : ∀ {us : List Token} {cs path : List Char}, (captureTokens us path).isSome = true →
    (captureTokens (cs.map Token.lit) path).isSome = true → before us (cs.map Token.lit) = false
  | [], [], _, _, _ => rfl
  | [], _ :: _, _, _, _ => rfl
  | .lit _ :: _, [], [], h, _ => by cases h
  | .lit _ :: _, [], _ :: _, _, h => by cases h
  | .lit _ :: _, _ :: _, [], h, _ => by cases h
  | .lit c :: us, d :: cs, e :: path, h, h' => by
    rw [List.map_cons] at h' ⊢
    rw [captureTokens] at h h'
    by_cases hce : c = e
    · by_cases hde : d = e
      · rw [if_pos hce] at h
        rw [if_pos hde] at h'
        simp only [before, not_before_literal h h', Bool.and_false]
      · rw [if_neg hde] at h'
        cases h'
    · rw [if_neg hce] at h
      cases h
  | .param _ :: _, [], _, _, _ => rfl
  | .param _ :: _, _ :: _, _, _, _ => rfl
  | .catchAll _ :: _, [], _, _, _ => rfl
  | .catchAll _ :: _, _ :: _, _, _, _ => rfl

/-- Nothing that matches the same path comes before a pattern without parameters. -/
theorem not_precedes_literal {p q path : String} (hl : Literal p.toList) (hp : Matches p path) (hq : Matches q path) :
    ¬Precedes q p := by
  have ht : tokens none p.toList = some (p.toList.map Token.lit) := by
    have h := tokens_literal hl []
    rw [List.append_nil] at h
    rw [h]
    simp [tokens]
  unfold Matches captures at hp hq
  unfold Precedes
  rw [ht] at hp ⊢
  cases hu : tokens none q.toList with
  | none =>
    rw [hu] at hq
    cases hq
  | some us =>
    rw [hu] at hq
    rw [Option.getD_some, Option.getD_some, not_before_literal hq hp]
    exact Bool.false_ne_true

instance (p q : String) : Decidable (Precedes p q) := inferInstanceAs (Decidable (_ = true))

section
variable {r path : String} {ps : List String}

theorem choose_cons_of_none (hc : captures r path = none) : choose (r :: ps) path = choose ps path := by
  unfold choose
  rw [List.foldr_cons, hc]

theorem choose_cons_alone {params : List (String × String)} (hc : captures r path = some params)
    (hb : choose ps path = none) : choose (r :: ps) path = some (r, params) := by
  unfold choose at hb ⊢
  rw [List.foldr_cons, hc, hb]

theorem choose_cons_both {params params' : List (String × String)} {s : String} (hc : captures r path = some params)
    (hb : choose ps path = some (s, params')) :
    choose (r :: ps) path = if Precedes r s then some (r, params) else some (s, params') := by
  unfold choose at hb ⊢
  rw [List.foldr_cons, hc, hb]
  rfl

end

/-- The pattern found comes before every other that matches. -/
theorem choose_first : ∀ {ps : List String} {path p : String} {params : List (String × String)}, ps.Pairwise Apart →
    choose ps path = some (p, params) → ∀ q ∈ ps, Matches q path → q = p ∨ Precedes p q
  | r :: ps, path, p, params, hpair, h, q, hq, hm => by
    obtain ⟨hr, hpair⟩ := List.pairwise_cons.mp hpair
    cases hc : captures r path with
    | none =>
      rw [choose_cons_of_none hc] at h
      have hqr : q ≠ r := by
        rintro rfl
        rw [Matches, hc] at hm
        cases hm
      exact choose_first hpair h q ((List.mem_cons.mp hq).resolve_left hqr) hm
    | some captured =>
      have hmr : Matches r path := by
        rw [Matches, hc]
        rfl
      cases hb : choose ps path with
      | none =>
        rw [choose_cons_alone hc hb] at h
        cases h
        refine .inl ((List.mem_cons.mp hq).resolve_right fun hq => ?_)
        exact choose_ne_none hq hm hb
      | some best =>
        obtain ⟨s, captured'⟩ := best
        rw [choose_cons_both hc hb] at h
        obtain ⟨hs, hcs⟩ := choose_eq_some hb
        have hms : Matches s path := by
          rw [Matches, hcs]
          rfl
        by_cases hprec : Precedes r s
        · rw [if_pos hprec] at h
          cases h
          cases List.mem_cons.mp hq with
          | inl hqr => exact .inl hqr
          | inr hq =>
            cases choose_first hpair hb q hq hm with
            | inl hqs => exact .inr (hqs ▸ hprec)
            | inr hsq => exact .inr (before_trans hprec hsq)
        · rw [if_neg hprec] at h
          cases h
          cases List.mem_cons.mp hq with
          | inl hqr => exact .inr (hqr ▸ (precedes_total hmr hms (hr _ hs)).resolve_left hprec)
          | inr hq => exact choose_first hpair hb q hq hm

end Pattern

theorem Pattern.Precedes.asymm {p q : String} (h : Pattern.Precedes p q) : ¬Pattern.Precedes q p := by
  unfold Pattern.Precedes at h ⊢
  rw [Pattern.before_asymm h]
  exact Bool.false_ne_true

theorem Pattern.Precedes.irrefl {p : String} : ¬Pattern.Precedes p p := fun h => h.asymm h

theorem Matchit.staticFirst_orderFree : Matchit.staticFirst.OrderFree where
  storable {ps ps'} h hs := by
    rw [Pattern.storable_iff] at hs ⊢
    exact ⟨fun p hp => hs.1 p (h.mem_iff.mpr hp), hs.2.perm h fun hpq => hpq.symm⟩
  choose {ps ps'} h hs path := by
    have hpair := (Pattern.storable_iff.mp hs).2
    have hpair' := hpair.perm h fun hpq => hpq.symm
    show Pattern.choose ps path = Pattern.choose ps' path
    cases hc : Pattern.choose ps path with
    | none =>
      cases hc' : Pattern.choose ps' path with
      | none => rfl
      | some found =>
        obtain ⟨hm, hcap⟩ := Pattern.choose_eq_some (show _ = some (found.1, found.2) from hc')
        refine absurd hc (Pattern.choose_ne_none (h.mem_iff.mpr hm) ?_)
        rw [Pattern.Matches, hcap]
        rfl
    | some found =>
      obtain ⟨p, params⟩ := found
      obtain ⟨hm, hcap⟩ := Pattern.choose_eq_some hc
      have hp : Pattern.Matches p path := by
        rw [Pattern.Matches, hcap]
        rfl
      cases hc' : Pattern.choose ps' path with
      | none => exact absurd hc' (Pattern.choose_ne_none (h.mem_iff.mp hm) hp)
      | some found =>
        obtain ⟨p', params'⟩ := found
        obtain ⟨hm', hcap'⟩ := Pattern.choose_eq_some hc'
        have hp' : Pattern.Matches p' path := by
          rw [Pattern.Matches, hcap']
          rfl
        have heq : p = p' := by
          cases Pattern.choose_first hpair hc p' (h.mem_iff.mpr hm') hp' with
          | inl he => exact he.symm
          | inr hlt =>
            cases Pattern.choose_first hpair' hc' p (h.mem_iff.mp hm) hp with
            | inl he => exact he
            | inr hgt => exact absurd hgt (by rw [Pattern.Precedes, Pattern.before_asymm hlt]; exact Bool.false_ne_true)
        subst heq
        rw [hcap] at hcap'
        rw [Option.some.inj hcap']
