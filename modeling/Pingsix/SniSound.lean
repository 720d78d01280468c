import Pingsix.Slicing

/-!
# Soundness of the server name matcher

The rule that picks the entry for a server name, the entries a compiled matcher
holds, and where matching a name cuts it inside a character.
-/

namespace Pingsix

open SslMatcher (toAsciiLowercase)

/-! ## Letters -/

theorem eq_of_toLower_eq {c d : Char} (hd : d.toNat < 97 ∨ 122 < d.toNat) (h : c.toLower = d) : c = d := by
  unfold Char.toLower at h
  split at h
  · rename_i hu
    have h1 : (c.val + ('a'.val - 'A'.val)).toNat = d.toNat := congrArg Char.toNat h
    have h2 : c.val.toNat ≤ 90 := UInt32.le_iff_toNat_le.mp hu.2
    have h3 : 65 ≤ c.val.toNat := UInt32.le_iff_toNat_le.mp hu.1
    have h4 : ('a'.val - 'A'.val).toNat = 32 := rfl
    rw [UInt32.toNat_add, h4] at h1
    omega
  · exact h

theorem toLower_toLower (c : Char) : c.toLower.toLower = c.toLower := by
  by_cases hu : 97 ≤ c.toLower.toNat
  · generalize c.toLower = d at hu
    unfold Char.toLower
    rw [dif_neg]
    rintro ⟨-, hz⟩
    have hle : d.val.toNat ≤ 90 := UInt32.le_iff_toNat_le.mp hz
    have hge : 97 ≤ d.val.toNat := hu
    omega
  · have h := eq_of_toLower_eq (d := c.toLower) (.inl (Nat.lt_of_not_le hu)) rfl
    rw [← h, ← h]

theorem toAsciiLowercase_self {s : String} (h : ∀ c ∈ s.toList, c.toLower = c) : toAsciiLowercase s = s := by
  unfold toAsciiLowercase
  rw [List.map_congr_left h, List.map_id', String.ofList_toList]

theorem mem_of_mem_toAsciiLowercase {s : String} {d : Char} (hd : d.toNat < 97 ∨ 122 < d.toNat)
    (h : d ∈ (toAsciiLowercase s).toList) : d ∈ s.toList := by
  rw [toAsciiLowercase, String.toList_ofList] at h
  obtain ⟨c, hc, he⟩ := List.mem_map.mp h
  rwa [← eq_of_toLower_eq hd he]

/-! ## The rule -/

inductive SniPattern where
  | exact (host : String)
  | wildcard (suffix : String)
  | catchAll
  deriving DecidableEq, Repr

def SniPattern.of (sni : String) : SniPattern :=
  let normalized := toAsciiLowercase sni
  if normalized = "*" then .catchAll
  else
    match Text.stripPrefix normalized "*." with
    | some suffix => .wildcard suffix
    | none => .exact normalized

/-- The name is one label in front of the suffix. -/
def CoversName (suffix name : String) : Prop :=
  ∃ label : List Char, label ≠ [] ∧ '.' ∉ label ∧ name.toList = label ++ '.' :: suffix.toList

/-- The server names with their entries, in the order they are inserted in. -/
def insertions (ssls : HashMap String ProxySSL) : List (String × ProxySSL) :=
  ssls.values.flatMap fun p => p.inner.snis.map fun sni => (sni, p)

/-- The entry has a server name of the pattern. -/
def Serves (entries : List (String × ProxySSL)) (pattern : SniPattern) (p : ProxySSL) : Prop :=
  ∃ sni, (sni, p) ∈ entries ∧ SniPattern.of sni = pattern

/-- The exact name comes first, then the most specific wildcard, then the catch-all. -/
inductive SniAnswer (entries : List (String × ProxySSL)) (name : String) : Option ProxySSL → Prop
  | exact {p : ProxySSL} (h : Serves entries (.exact name) p) : SniAnswer entries name (some p)
  | wildcard {suffix : String} {p : ProxySSL} (hn : ∀ q, ¬Serves entries (.exact name) q)
      (h : Serves entries (.wildcard suffix) p) (hc : CoversName suffix name)
      (hl : ∀ other q, Serves entries (.wildcard other) q → CoversName other name → other.length ≤ suffix.length) :
      SniAnswer entries name (some p)
  | catchAll {p : ProxySSL} (hn : ∀ q, ¬Serves entries (.exact name) q)
      (hw : ∀ suffix q, Serves entries (.wildcard suffix) q → ¬CoversName suffix name)
      (h : Serves entries .catchAll p) : SniAnswer entries name (some p)
  | none (hn : ∀ q, ¬Serves entries (.exact name) q)
      (hw : ∀ suffix q, Serves entries (.wildcard suffix) q → ¬CoversName suffix name)
      (hc : ∀ q, ¬Serves entries .catchAll q) : SniAnswer entries name none

/-- A name has one first label, so at most one suffix covers it. -/
theorem CoversName.unique {suffix other name : String} (h : CoversName suffix name) (h' : CoversName other name) :
    suffix = other := by
  obtain ⟨label, -, hd, hn⟩ := h
  obtain ⟨label', -, hd', hn'⟩ := h'
  have h1 := Text.splitOnceChars_eq_some.mpr ⟨hn, hd⟩
  have h2 := Text.splitOnceChars_eq_some.mpr ⟨hn', hd'⟩
  rw [h1] at h2
  simp only [Option.some.injEq, Prod.mk.injEq] at h2
  exact String.toList_inj.mp h2.2

/-! ## Wildcards -/

namespace SslMatcher

theorem hostMatchesWildcard_iff {host suffix : String} (hs : suffix ≠ "") :
    hostMatchesWildcard host suffix = true ↔ CoversName suffix host := by
  unfold hostMatchesWildcard
  rw [if_neg hs]
  simp only [Bool.and_eq_true, decide_eq_true_eq]
  constructor
  · rintro ⟨hne, he⟩
    exact ⟨_, hne, fun hm => by simpa using List.mem_takeWhile_imp hm, he⟩
  · rintro ⟨label, hne, hd, he⟩
    have htake : host.toList.takeWhile (· ≠ '.') = label := by
      have hlabel : ∀ c ∈ label, decide (c ≠ '.') = true := fun c hc => decide_eq_true fun e : c = '.' => hd (e ▸ hc)
      rw [he, List.takeWhile_append_of_pos hlabel]
      simp
    rw [htake]
    exact ⟨hne, he⟩

/-- A name that a wildcard covers is cut between the two. -/
theorem cut_of_coversName {suffix host : String} {a b : List Char} (h : CoversName suffix host)
    (hc : host.toList = a ++ b) (ha : Text.byteLength a = host.utf8ByteSize - suffix.utf8ByteSize) :
    ∃ label, label ≠ [] ∧ '.' ∉ label ∧ a = label ++ ['.'] ∧ b = suffix.toList := by
  obtain ⟨label, hne, hd, hn⟩ := h
  have hcut : host.toList = (label ++ ['.']) ++ suffix.toList := by rw [hn, List.append_assoc, List.singleton_append]
  have hlen : Text.byteLength (label ++ ['.']) = Text.byteLength a := by
    rw [ha, Text.utf8ByteSize_eq, Text.utf8ByteSize_eq, hcut, Text.byteLength_append _ suffix.toList,
      Nat.add_sub_cancel]
  have hsame := Text.cutChars_append (label ++ ['.']) suffix.toList
  rw [← hcut, hlen, hc, Text.cutChars_append] at hsame
  cases hsame
  exact ⟨label, hne, hd, rfl, rfl⟩

theorem size_of_coversName {suffix host : String} (h : CoversName suffix host) :
    suffix.utf8ByteSize + 1 < host.utf8ByteSize := by
  obtain ⟨label, hne, -, hn⟩ := h
  rw [Text.utf8ByteSize_eq host, hn, Text.byteLength_append, Text.byteLength_cons, ← Text.utf8ByteSize_eq suffix]
  have hdot : '.'.utf8Size = 1 := rfl
  have hpos : Text.byteLength label ≠ 0 := fun h0 => hne (Text.byteLength_eq_zero h0)
  omega

/-- Where the suffix starts inside a character, the slice panics. -/
def CutsCharacter (suffix host : String) : Prop :=
  suffix ≠ "" ∧ suffix.utf8ByteSize + 1 < host.utf8ByteSize ∧
    ¬Text.IsCharBoundary host (host.utf8ByteSize - suffix.utf8ByteSize)

theorem slicing_of_cuts {suffix host : String} (h : CutsCharacter suffix host) :
    hostMatchesWildcardSlicing host suffix = none := by
  obtain ⟨hs, hsize, hb⟩ := h
  unfold hostMatchesWildcardSlicing
  simp only [if_neg hs, if_neg (Nat.not_le.mpr hsize), Text.sliceFrom_eq_none.mpr hb]
  rfl

theorem slicing_of_not_cuts {suffix host : String} (h : ¬CutsCharacter suffix host) :
    hostMatchesWildcardSlicing host suffix = some (hostMatchesWildcard host suffix) := by
  unfold hostMatchesWildcardSlicing
  by_cases hs : suffix = ""
  · rw [if_pos hs, hostMatchesWildcard, if_pos hs]
    rfl
  rw [if_neg hs]
  by_cases hsize : host.utf8ByteSize ≤ suffix.utf8ByteSize + 1
  · have hno : hostMatchesWildcard host suffix = false := by
      by_contra hm
      have := size_of_coversName ((hostMatchesWildcard_iff hs).mp (Bool.eq_true_of_not_eq_false hm))
      omega
    simp only [if_pos hsize, hno]
  simp only [if_neg hsize]
  have hb : Text.IsCharBoundary host (host.utf8ByteSize - suffix.utf8ByteSize) := by
    by_contra hb
    exact h ⟨hs, Nat.lt_of_not_le hsize, hb⟩
  obtain ⟨a, b, hc, ha⟩ := Text.isCharBoundary_iff.mp hb
  -- the slices have results: what is left is the comparison of the two texts
  rw [← ha, Text.sliceFrom_append hc]
  by_cases hb : b = suffix.toList
  · subst hb
    have hne : a ≠ [] := by
      rintro rfl
      rw [Text.byteLength_nil] at ha
      omega
    obtain ⟨label, c, rfl⟩ : ∃ label c, a = label ++ [c] :=
      ⟨a.dropLast, a.getLast hne, (List.dropLast_append_getLast hne).symm⟩
    have hbyte := Text.byteAt_last (d := '.') hc (by decide)
    have hin : Text.byteLength (label ++ [c]) - 1 < host.utf8ByteSize := by omega
    have hlabel : c = '.' → Text.byteLength (label ++ [c]) - 1 = Text.byteLength label := by
      rintro rfl
      rw [Text.byteLength_append]
      rfl
    generalize Text.byteLength (label ++ [c]) - 1 = i at hbyte hin hlabel
    by_cases hdot : c = '.'
    · subst hdot
      have hslice : Text.sliceTo host (Text.byteLength label) = some (String.ofList label) :=
        Text.sliceTo_append (by rw [hc, List.append_assoc])
      have hcover : hostMatchesWildcard host suffix = true ↔ label ≠ [] ∧ '.' ∉ label := by
        rw [hostMatchesWildcard_iff hs]
        constructor
        · intro h
          obtain ⟨other, hne, hd, he, -⟩ := cut_of_coversName h hc ha
          rw [List.append_cancel_right he]
          exact ⟨hne, hd⟩
        · rintro ⟨hne, hd⟩
          exact ⟨label, hne, hd, by rw [hc, List.append_assoc, List.singleton_append]⟩
      rw [← hlabel rfl] at hslice
      have hempty : String.ofList label = "" ↔ label = [] := String.ofList_eq_empty_iff
      have hresult : (String.ofList label ≠ "" && !Text.containsChar (String.ofList label) '.') =
          hostMatchesWildcard host suffix := by
        rw [Bool.eq_iff_iff, hcover]
        simp [Text.containsChar]
      simp [hbyte.mpr rfl, hslice, ← hresult]
    · have hno : hostMatchesWildcard host suffix = false := by
        by_contra hm
        obtain ⟨other, -, -, he, -⟩ := cut_of_coversName
          ((hostMatchesWildcard_iff hs).mp (Bool.eq_true_of_not_eq_false hm)) hc ha
        exact hdot (List.cons.inj (List.append_inj' he rfl).2).1
      obtain ⟨separator, hsep⟩ := Option.ne_none_iff_exists'.mp (Text.byteAt_ne_none hin)
      have hother : separator ≠ 46 := fun he => hdot (hbyte.mp (hsep.trans (congrArg some he)))
      simp [hsep, hother, hno]
  · have hno : hostMatchesWildcard host suffix = false := by
      by_contra hm
      obtain ⟨-, -, -, -, he⟩ := cut_of_coversName ((hostMatchesWildcard_iff hs).mp (Bool.eq_true_of_not_eq_false hm))
        hc ha
      exact hb he
    have htail : String.ofList b ≠ suffix := fun he => hb (by rw [← he, String.toList_ofList])
    simp [htail, hno]

end SslMatcher

/-! ## The entries of a matcher -/

theorem mem_insertions {ssls : HashMap String ProxySSL} {sni : String} {p : ProxySSL} :
    (sni, p) ∈ insertions ssls ↔ (∃ id, ssls.lookup id = some p) ∧ sni ∈ p.inner.snis := by
  unfold insertions
  rw [List.mem_flatMap]
  constructor
  · rintro ⟨q, hq, hm⟩
    obtain ⟨t, ht, he⟩ := List.mem_map.mp hm
    cases he
    exact ⟨(HashMap.mem_values_iff ssls p).mp hq, ht⟩
  · rintro ⟨hid, ht⟩
    exact ⟨p, (HashMap.mem_values_iff ssls p).mpr hid, List.mem_map.mpr ⟨sni, ht, rfl⟩⟩

theorem serves_snoc {entries : List (String × ProxySSL)} {sni : String} {p q : ProxySSL} {pattern : SniPattern} :
    Serves (entries ++ [(sni, p)]) pattern q ↔ Serves entries pattern q ∨ (SniPattern.of sni = pattern ∧ q = p) := by
  unfold Serves
  constructor
  · rintro ⟨s, hm, hp⟩
    cases List.mem_append.mp hm with
    | inl hm => exact .inl ⟨s, hm, hp⟩
    | inr hm =>
      cases List.mem_singleton.mp hm
      exact .inr ⟨hp, rfl⟩
  · rintro (⟨s, hm, hp⟩ | ⟨hp, rfl⟩)
    · exact ⟨s, List.mem_append_left _ hm, hp⟩
    · exact ⟨sni, by simp, hp⟩

def reversed (host : String) : String := String.ofList host.toList.reverse

theorem reversed_inj {host other : String} (h : reversed host = reversed other) : host = other := by
  have hl := congrArg String.toList h
  rw [reversed, reversed, String.toList_ofList, String.toList_ofList, List.reverse_inj] at hl
  exact String.toList_inj.mp hl

/-- Each server name stands under its pattern, and no pattern twice. -/
structure SslMatcher.Holds (entries : List (String × ProxySSL)) (m : SslMatcher) : Prop where
  exact : ∀ key p, m.snis.slots.lookup key = some p ↔ ∃ host, key = reversed host ∧ Serves entries (.exact host) p
  wildcard : ∀ suffix p, (suffix, p) ∈ m.wildcards ↔ Serves entries (.wildcard suffix) p
  distinct : (m.wildcards.map (·.1)).Nodup
  catchAll : ∀ p, m.catchAll = some p ↔ Serves entries .catchAll p

namespace SslMatcher

theorem Holds.unique {entries : List (String × ProxySSL)} {m : SslMatcher} (h : m.Holds entries)
    {pattern : SniPattern} {p q : ProxySSL} (hp : Serves entries pattern p) (hq : Serves entries pattern q) : p = q := by
  cases pattern with
  | exact host =>
    have h1 := (h.exact _ p).mpr ⟨host, rfl, hp⟩
    rw [(h.exact _ q).mpr ⟨host, rfl, hq⟩] at h1
    exact (Option.some.inj h1).symm
  | wildcard suffix =>
    have h1 := (h.wildcard suffix p).mpr hp
    have h2 := (h.wildcard suffix q).mpr hq
    have := List.inj_on_of_nodup_map h.distinct h1 h2 rfl
    exact congrArg Prod.snd this
  | catchAll =>
    have h1 := (h.catchAll p).mpr hp
    rw [(h.catchAll q).mpr hq] at h1
    exact (Option.some.inj h1).symm

theorem Holds.start : Holds [] {} where
  exact key p := by
    constructor
    · intro h
      rw [HashMap.lookup_empty] at h
      cases h
    · rintro ⟨host, -, sni, hm, -⟩
      cases hm
  wildcard suffix p := by
    constructor
    · intro h
      cases h
    · rintro ⟨sni, hm, -⟩
      cases hm
  distinct := List.nodup_nil
  catchAll p := by
    constructor
    · intro h
      cases h
    · rintro ⟨sni, hm, -⟩
      cases hm

variable {M : Matchit}

theorem insertSni_cases (hM : M.Lawful) {m m' : SslMatcher} {p : ProxySSL} {sni : String}
    (hi : insertSni M p m sni = .ok m') :
    (SniPattern.of sni = .catchAll ∧ m.catchAll = none ∧ m' = { m with catchAll := some p }) ∨
      (∃ suffix, SniPattern.of sni = .wildcard suffix ∧ suffix ∉ m.wildcards.map (·.1) ∧
        m' = { m with wildcards := m.wildcards ++ [(suffix, p)] }) ∨
      ∃ host, SniPattern.of sni = .exact host ∧ reversed host ∉ m.snis.patterns ∧
        m' = { m with snis := ⟨m.snis.slots.insert (reversed host) p⟩ } := by
  unfold SslMatcher.insertSni at hi
  unfold SniPattern.of
  by_cases hs : toAsciiLowercase sni = "*"
  · rw [if_pos hs] at hi
    split at hi
    · cases hi
    · rename_i hc
      cases hi
      exact .inl ⟨if_pos hs, by simpa using hc, rfl⟩
  · simp only [if_neg hs] at hi ⊢
    cases hp : Text.stripPrefix (toAsciiLowercase sni) "*." with
    | some suffix =>
      simp only [hp] at hi
      split at hi
      · cases hi
      · rename_i hw
        cases hi
        refine .inr (.inl ⟨suffix, rfl, ?_, rfl⟩)
        rintro hm
        obtain ⟨w, hw', rfl⟩ := List.mem_map.mp hm
        exact hw (List.any_eq_true.mpr ⟨w, hw', decide_eq_true rfl⟩)
    | none =>
      simp only [hp] at hi
      split at hi
      · cases hi
      · rename_i snis hr
        cases hi
        obtain ⟨hnew, rfl⟩ := Router.insert_eq_ok hM hr
        exact .inr (.inr ⟨_, rfl, hnew, rfl⟩)

theorem Holds.insertSni (hM : M.Lawful) {entries : List (String × ProxySSL)} {m m' : SslMatcher} (h : m.Holds entries)
    {p : ProxySSL} {sni : String} (hi : insertSni M p m sni = .ok m') : m'.Holds (entries ++ [(sni, p)]) := by
  have other {pattern : SniPattern} (hne : SniPattern.of sni ≠ pattern) (q : ProxySSL) :
      Serves (entries ++ [(sni, p)]) pattern q ↔ Serves entries pattern q := by
    rw [serves_snoc]
    exact or_iff_left fun hq => hne hq.1
  obtain ⟨hof, hnone, rfl⟩ | ⟨suffix, hof, hnew, rfl⟩ | ⟨host, hof, hnew, rfl⟩ := insertSni_cases hM hi
  · have hex (host : String) : SniPattern.of sni ≠ .exact host := by
      rw [hof]
      exact SniPattern.noConfusion
    refine ⟨fun key q => ?_, fun suffix q => ?_, h.distinct, fun q => ?_⟩
    · rw [h.exact]
      exact exists_congr fun host => and_congr_right fun _ => (other (hex host) q).symm
    · rw [h.wildcard, other (by rw [hof]; exact SniPattern.noConfusion)]
    · rw [serves_snoc, ← h.catchAll, hnone]
      simp [hof, eq_comm]
  · have hex (host : String) : SniPattern.of sni ≠ .exact host := by
      rw [hof]
      exact SniPattern.noConfusion
    refine ⟨fun key q => ?_, fun suffix' q => ?_, ?_, fun q => ?_⟩
    · rw [h.exact]
      exact exists_congr fun host => and_congr_right fun _ => (other (hex host) q).symm
    · rw [serves_snoc, List.mem_append, h.wildcard, List.mem_singleton, Prod.mk.injEq, hof, SniPattern.wildcard.injEq,
        @eq_comm _ suffix' suffix]
    · rw [List.map_append, List.map_singleton]
      refine List.nodup_append.mpr ⟨h.distinct, List.nodup_singleton _, fun a ha b hb he => hnew ?_⟩
      rwa [he, List.mem_singleton.mp hb] at ha
    · rw [h.catchAll, other (by rw [hof]; exact SniPattern.noConfusion)]
  · refine ⟨fun key q => ?_, fun suffix q => ?_, h.distinct, fun q => ?_⟩
    · rw [HashMap.lookup_insert]
      by_cases hk : key = reversed host
      · rw [if_pos hk, hk]
        constructor
        · intro hq
          cases hq
          exact ⟨host, rfl, serves_snoc.mpr (.inr ⟨hof, rfl⟩)⟩
        · rintro ⟨host', he, hs⟩
          cases reversed_inj he
          cases serves_snoc.mp hs with
          | inl hs => exact absurd (Router.mem_patterns.mpr ⟨q, (h.exact _ q).mpr ⟨host, rfl, hs⟩⟩) hnew
          | inr hs => rw [hs.2]
      · rw [if_neg hk, h.exact]
        refine exists_congr fun host' => and_congr_right fun he => (other (fun hp => hk ?_) q).symm
        rw [hof] at hp
        cases hp
        exact he
    · rw [h.wildcard, other (by rw [hof]; exact SniPattern.noConfusion)]
    · rw [h.catchAll, other (by rw [hof]; exact SniPattern.noConfusion)]

/-- The longest suffix stands first. -/
def Sorted (m : SslMatcher) : Prop := m.wildcards.Pairwise fun a b => b.1.utf8ByteSize ≤ a.1.utf8ByteSize

theorem holds_foldlM (hM : M.Lawful) {p : ProxySSL} : ∀ {snis : List String} {entries : List (String × ProxySSL)}
    {m m' : SslMatcher}, m.Holds entries → snis.foldlM (SslMatcher.insertSni M p) m = .ok m' →
      m'.Holds (entries ++ snis.map fun sni => (sni, p))
  | [], entries, m, m', h, hi => by
    cases hi
    rw [List.map_nil, List.append_nil]
    exact h
  | sni :: snis, entries, m, m', h, hi => by
    rw [List.foldlM_cons] at hi
    obtain ⟨m1, h1, h2⟩ := Except.bind_eq_ok.mp hi
    rw [List.map_cons, ← List.singleton_append, ← List.append_assoc]
    exact holds_foldlM hM (h.insertSni hM h1) h2

theorem holds_of_foldlM_insertSsl (hM : M.Lawful) : ∀ {ps : List ProxySSL} {entries : List (String × ProxySSL)}
    {m m' : SslMatcher}, m.Holds entries → ps.foldlM (insertSsl M) m = .ok m' →
      m'.Holds (entries ++ ps.flatMap fun p => p.inner.snis.map fun sni => (sni, p))
  | [], entries, m, m', h, hi => by
    cases hi
    rw [List.flatMap_nil, List.append_nil]
    exact h
  | p :: ps, entries, m, m', h, hi => by
    rw [List.foldlM_cons] at hi
    obtain ⟨m1, h1, h2⟩ := Except.bind_eq_ok.mp hi
    rw [List.flatMap_cons, ← List.append_assoc]
    exact holds_of_foldlM_insertSsl hM (holds_foldlM hM h h1) h2

instance : Std.Total fun a b : String × ProxySSL => b.1.utf8ByteSize ≤ a.1.utf8ByteSize where
  total a b := Nat.le_total b.1.utf8ByteSize a.1.utf8ByteSize

instance : IsTrans (String × ProxySSL) fun a b => b.1.utf8ByteSize ≤ a.1.utf8ByteSize where
  trans _ _ _ h1 h2 := Nat.le_trans h2 h1

/-- A compiled matcher holds the entries it was compiled from. -/
theorem build_spec (hM : M.Lawful) {ssls : HashMap String ProxySSL} {m : SslMatcher} (hb : build M ssls = .ok m) :
    m.Holds (insertions ssls) ∧ m.Sorted := by
  unfold build at hb
  obtain ⟨m1, h1, h2⟩ := Except.bind_eq_ok.mp hb
  cases h2
  have h : m1.Holds (insertions ssls) := holds_of_foldlM_insertSsl hM .start h1
  have hperm := List.perm_insertionSort (fun a b : String × ProxySSL => b.1.utf8ByteSize ≤ a.1.utf8ByteSize) m1.wildcards
  refine ⟨⟨h.exact, fun suffix p => ?_, ?_, h.catchAll⟩, ?_⟩
  · rw [← h.wildcard]
    exact hperm.mem_iff
  · exact (hperm.map _).nodup_iff.mpr h.distinct
  · exact List.pairwise_insertionSort _ m1.wildcards

/-! ## Lookups -/

/-- The wildcards are tried in turn until one matches or cuts a character. -/
theorem matchWildcardsSlicing_eq_none {host : String} : ∀ {ws : List (String × ProxySSL)},
    matchWildcardsSlicing host ws = none ↔ ∃ before w after, ws = before ++ w :: after ∧ CutsCharacter w.1 host ∧
      ∀ b ∈ before, hostMatchesWildcard host b.1 = false
  | [] => by
    refine iff_of_false (Option.some_ne_none _) ?_
    rintro ⟨before, w, after, he, -⟩
    exact List.append_ne_nil_of_right_ne_nil before (List.cons_ne_nil w after) he.symm
  | w :: ws => by
    rw [matchWildcardsSlicing]
    by_cases hc : CutsCharacter w.1 host
    · rw [slicing_of_cuts hc]
      exact iff_of_true rfl ⟨[], w, ws, rfl, hc, fun b hb => nomatch hb⟩
    rw [slicing_of_not_cuts hc]
    cases hm : hostMatchesWildcard host w.1 with
    | true =>
      refine iff_of_false (Option.some_ne_none _) ?_
      rintro ⟨before, w', after, he, hc', hb⟩
      cases before with
      | nil =>
        cases he
        exact hc hc'
      | cons b before =>
        cases he
        have hfalse := hb w List.mem_cons_self
        rw [hm] at hfalse
        cases hfalse
    | false =>
      simp only [Option.bind_eq_bind, Option.bind_some, Bool.false_eq_true, if_false]
      refine matchWildcardsSlicing_eq_none.trans ⟨?_, ?_⟩
      · rintro ⟨before, w', after, rfl, hc', hb⟩
        refine ⟨w :: before, w', after, rfl, hc', fun b hb' => ?_⟩
        cases List.mem_cons.mp hb' with
        | inl h => rw [h, hm]
        | inr h => exact hb b h
      · rintro ⟨before, w', after, he, hc', hb⟩
        cases before with
        | nil =>
          cases he
          exact absurd hc' hc
        | cons b before =>
          cases he
          exact ⟨before, w', after, rfl, hc', fun b hb' => hb b (List.mem_cons_of_mem _ hb')⟩

theorem matchWildcardsSlicing_eq_some {host : String} {r : Option ProxySSL} : ∀ {ws : List (String × ProxySSL)},
    matchWildcardsSlicing host ws = some r → r = (ws.find? fun w => hostMatchesWildcard host w.1).map (·.2)
  | [], h => (Option.some.inj h).symm
  | w :: ws, h => by
    rw [matchWildcardsSlicing] at h
    by_cases hc : CutsCharacter w.1 host
    · rw [slicing_of_cuts hc] at h
      cases h
    rw [slicing_of_not_cuts hc] at h
    cases hm : hostMatchesWildcard host w.1 with
    | true =>
      rw [hm] at h
      rw [List.find?_cons, hm]
      exact (Option.some.inj h).symm
    | false =>
      rw [hm] at h
      simp only [Option.bind_eq_bind, Option.bind_some, Bool.false_eq_true, if_false] at h
      rw [List.find?_cons, hm]
      exact matchWildcardsSlicing_eq_some h

/-- Where no slice panics, the lookup is the one on characters. -/
theorem matchSniSlicing_eq_some {m : SslMatcher} {sni : String} {r : Option ProxySSL}
    (h : m.matchSniSlicing M sni = some r) : r = m.matchSni M sni := by
  simp only [matchSniSlicing] at h
  simp only [matchSni]
  cases hf : m.snis.atPath M (String.ofList (toAsciiLowercase sni).toList.reverse) with
  | some found =>
    simp only [hf] at h
    exact (Option.some.inj h).symm
  | none =>
    simp only [hf] at h
    obtain ⟨found, hw, h⟩ := Option.bind_eq_some_iff.mp h
    cases matchWildcardsSlicing_eq_some hw
    simp only
    cases hfind : m.wildcards.find? fun w => hostMatchesWildcard (toAsciiLowercase sni) w.1 with
    | none =>
      rw [hfind] at h
      exact (Option.some.inj h).symm
    | some w =>
      rw [hfind] at h
      exact (Option.some.inj h).symm

theorem matchSniSlicing_eq_none {m : SslMatcher} {sni : String} :
    m.matchSniSlicing M sni = none ↔ m.snis.atPath M (reversed (toAsciiLowercase sni)) = none ∧
      matchWildcardsSlicing (toAsciiLowercase sni) m.wildcards = none := by
  unfold matchSniSlicing reversed
  cases hf : m.snis.atPath M (String.ofList (toAsciiLowercase sni).toList.reverse) with
  | some found => simp [hf]
  | none =>
    simp only [hf, true_and]
    cases matchWildcardsSlicing (toAsciiLowercase sni) m.wildcards with
    | none => rfl
    | some r => cases r <;> simp

theorem atPath_ne_none_iff (hM : M.Lawful) {entries : List (String × ProxySSL)} {m : SslMatcher}
    (h : m.Holds entries) {path : String} : m.snis.atPath M path ≠ none ↔
      ∃ host p, Serves entries (.exact host) p ∧ Pattern.Matches (reversed host) path := by
  constructor
  · intro hne
    obtain ⟨found, hf⟩ := Option.ne_none_iff_exists'.mp hne
    obtain ⟨hc, hl⟩ := Router.atPath_eq_some hf
    obtain ⟨host, hk, hs⟩ := (h.exact _ _).mp hl
    exact ⟨host, found.value, hs, hk ▸ hM.matches hc⟩
  · rintro ⟨host, p, hs, hmatch⟩ hnone
    have hstored := Router.mem_patterns.mpr ⟨p, (h.exact _ p).mpr ⟨host, rfl, hs⟩⟩
    exact hM.found hstored hmatch ((Router.atPath_eq_none hM).mp hnone)

end SslMatcher

/-! ## Panics -/

/-- Either an exact name answers, or each suffix that would cut the name comes after one that covers it. -/
def Spared (entries : List (String × ProxySSL)) (name : String) : Prop :=
  (∃ host p, Serves entries (.exact host) p ∧ Pattern.Matches (reversed host) (reversed name)) ∨
    ∀ suffix p, Serves entries (.wildcard suffix) p → SslMatcher.CutsCharacter suffix name →
      ∃ longer q, Serves entries (.wildcard longer) q ∧ suffix.utf8ByteSize < longer.utf8ByteSize ∧
        CoversName longer name

namespace SslMatcher

theorem matchWildcardsSlicing_sorted {entries : List (String × ProxySSL)} {m : SslMatcher} (h : m.Holds entries)
    (hs : m.Sorted) {name : String} : matchWildcardsSlicing name m.wildcards ≠ none ↔
      ∀ suffix p, Serves entries (.wildcard suffix) p → CutsCharacter suffix name →
        ∃ longer q, Serves entries (.wildcard longer) q ∧ suffix.utf8ByteSize < longer.utf8ByteSize ∧
          CoversName longer name := by
  rw [Ne, matchWildcardsSlicing_eq_none]
  constructor
  · intro hno suffix p hserves hcut
    by_contra hlonger
    obtain ⟨before, after, hsplit⟩ := List.append_of_mem ((h.wildcard suffix p).mpr hserves)
    refine hno ⟨before, (suffix, p), after, hsplit, hcut, fun b hb => ?_⟩
    by_contra hmatch
    have hmem : b ∈ m.wildcards := hsplit ▸ List.mem_append_left _ hb
    have hle : suffix.utf8ByteSize ≤ b.1.utf8ByteSize := by
      have hpair : m.wildcards.Pairwise fun a b => b.1.utf8ByteSize ≤ a.1.utf8ByteSize := hs
      rw [hsplit] at hpair
      exact (List.pairwise_append.mp hpair).2.2 b hb _ List.mem_cons_self
    have hne : b.1 ≠ "" := fun he => hcut.1 (String.utf8ByteSize_eq_zero_iff.mp (by
      rw [he] at hle
      exact Nat.le_zero.mp hle))
    have hcover := (hostMatchesWildcard_iff hne).mp (Bool.eq_true_of_not_eq_false hmatch)
    cases Nat.lt_or_eq_of_le hle with
    | inl hlt => exact hlonger ⟨b.1, b.2, (h.wildcard b.1 b.2).mp hmem, hlt, hcover⟩
    | inr heq =>
      -- a suffix of the same length that covers the name starts between two characters
      obtain ⟨label, -, -, hn⟩ := hcover
      refine hcut.2.2 (Text.isCharBoundary_iff.mpr ⟨label ++ ['.'], b.1.toList, by simp [hn], ?_⟩)
      rw [heq, Text.utf8ByteSize_eq name, Text.utf8ByteSize_eq b.1, hn]
      simp only [Text.byteLength_append, Text.byteLength_cons, Text.byteLength_nil]
      omega
  · rintro hlonger ⟨before, w, after, hsplit, hcut, hb⟩
    have hmem : w ∈ m.wildcards := hsplit ▸ List.mem_append_right _ List.mem_cons_self
    obtain ⟨longer, q, hserves, hlt, hcover⟩ := hlonger w.1 w.2 ((h.wildcard w.1 w.2).mp hmem) hcut
    have hne : longer ≠ "" := by
      rintro rfl
      exact Nat.not_lt_zero _ hlt
    have hpair : m.wildcards.Pairwise fun a b => b.1.utf8ByteSize ≤ a.1.utf8ByteSize := hs
    have hin := (h.wildcard longer q).mpr hserves
    rw [hsplit] at hpair hin
    cases List.mem_append.mp hin with
    | inl hin =>
      have hfalse := hb _ hin
      rw [(hostMatchesWildcard_iff hne).mpr hcover] at hfalse
      cases hfalse
    | inr hin =>
      cases List.mem_cons.mp hin with
      | inl he =>
        rw [← he] at hlt
        exact Nat.lt_irrefl _ hlt
      | inr hin =>
        have hle := (List.pairwise_cons.mp (List.pairwise_append.mp hpair).2.1).1 _ hin
        exact Nat.not_lt.mpr hle hlt

end SslMatcher

/-- Matching a name panics unless an exact name answers or each suffix that cuts it is spared by a longer one. -/
theorem match_sni_total_iff {M : Matchit} (hM : M.Lawful) {ssls : HashMap String ProxySSL} {m : SslMatcher}
    (hb : SslMatcher.build M ssls = .ok m) (name : String) :
    (m.matchSniSlicing M name).isSome = true ↔ Spared (insertions ssls) (toAsciiLowercase name) := by
  obtain ⟨h, hs⟩ := SslMatcher.build_spec hM hb
  rw [Option.isSome_iff_ne_none, Ne, SslMatcher.matchSniSlicing_eq_none, not_and_or,
    ← Ne, ← Ne, SslMatcher.atPath_ne_none_iff hM h, SslMatcher.matchWildcardsSlicing_sorted h hs]
  rfl

/-! ## Answers -/

/-- The resources were built from their configuration. -/
def Valid (ssls : HashMap String ProxySSL) : Prop :=
  ∀ id p, ssls.lookup id = some p → ∃ x value, ProxySSL.tryFrom x value = .ok p

theorem tryFrom_spec {x : X509} {value : SSL} {p : ProxySSL} (h : ProxySSL.tryFrom x value = .ok p) :
    p.inner = value ∧ ∀ sni ∈ value.snis, checkSni value.id sni = .ok () := by
  unfold ProxySSL.tryFrom at h
  obtain ⟨hsnis, h⟩ := Except.bind_unit_eq_ok.mp h
  refine ⟨?_, (Except.forM_eq_ok _).mp hsnis⟩
  split at h
  · cases h
  · split at h
    · cases h
    · split at h
      · cases h
      · split at h
        · cases h
          rfl
        · cases h

/-- The server names keep to the supported wildcards. -/
def Checked (ssls : HashMap String ProxySSL) : Prop :=
  ∀ sni p, (sni, p) ∈ insertions ssls → checkSni p.inner.id sni = .ok ()

theorem Valid.checked {ssls : HashMap String ProxySSL} (hv : Valid ssls) : Checked ssls := by
  intro sni p h
  obtain ⟨⟨id, hl⟩, ht⟩ := mem_insertions.mp h
  obtain ⟨x, value, hx⟩ := hv id p hl
  obtain ⟨hi, hc⟩ := tryFrom_spec hx
  rw [hi] at ht ⊢
  exact hc sni ht

theorem of_eq_wildcard {sni suffix : String} (h : SniPattern.of sni = .wildcard suffix) :
    toAsciiLowercase sni = "*." ++ suffix := by
  unfold SniPattern.of at h
  simp only at h
  split at h
  · cases h
  · split at h
    · rename_i suffix' hp
      cases h
      exact Text.stripPrefix_eq_some.mp hp
    · cases h

theorem of_eq_exact {sni host : String} (h : SniPattern.of sni = .exact host) : toAsciiLowercase sni = host := by
  unfold SniPattern.of at h
  simp only at h
  split at h
  · cases h
  · split at h
    · cases h
    · cases h
      rfl

theorem suffix_ne_empty {id sni suffix : String} (hc : checkSni id sni = .ok ())
    (h : SniPattern.of sni = .wildcard suffix) : suffix ≠ "" := by
  rintro rfl
  have hlower := of_eq_wildcard h
  have hstar : '*' ∈ sni.toList := mem_of_mem_toAsciiLowercase (by decide) (by rw [hlower]; decide)
  have hsni : sni = "*." := by
    have hl := congrArg String.toList hlower
    rw [toAsciiLowercase, String.toList_ofList] at hl
    obtain ⟨c, l1, hc, hstar, hl1⟩ := List.map_eq_cons_iff.mp hl
    obtain ⟨d, l2, hd, hdot, hl2⟩ := List.map_eq_cons_iff.mp hl1
    apply String.toList_inj.mp
    rw [hc, hd, List.map_eq_nil_iff.mp hl2, eq_of_toLower_eq (by decide) hstar, eq_of_toLower_eq (by decide) hdot]
    rfl
  subst hsni
  cases hc

theorem literal_reversed {host : String} (h : Pattern.Literal host.toList) : Pattern.Literal (reversed host).toList := by
  intro c hc
  rw [reversed, String.toList_ofList] at hc
  exact h c (List.mem_reverse.mp hc)

/-- Without braces in exact names, the matcher answers by the rule. -/
theorem sniAnswer_matchSni {M : Matchit} (hM : M.Lawful) {ssls : HashMap String ProxySSL} (hv : Checked ssls)
    {m : SslMatcher} (h : m.Holds (insertions ssls))
    (hl : ∀ host p, Serves (insertions ssls) (.exact host) p → Pattern.Literal host.toList) (name : String) :
    SniAnswer (insertions ssls) (toAsciiLowercase name) (m.matchSni M name) := by
  have hmatches {host : String} {p : ProxySSL} (hs : Serves (insertions ssls) (.exact host) p) {path : String} :
      Pattern.Matches (reversed host) (reversed path) ↔ path = host := by
    rw [Pattern.matches_literal (literal_reversed (hl host p hs))]
    exact ⟨reversed_inj, fun he => he ▸ rfl⟩
  simp only [SslMatcher.matchSni]
  split
  · rename_i found hf
    obtain ⟨hc, hlook⟩ := Router.atPath_eq_some hf
    obtain ⟨host, hk, hs⟩ := (h.exact _ _).mp hlook
    have he := (hmatches hs).mp (hk ▸ hM.matches hc : Pattern.Matches (reversed host) (reversed _))
    exact .exact (he ▸ hs)
  · rename_i hf
    have hn (q : ProxySSL) : ¬Serves (insertions ssls) (.exact (toAsciiLowercase name)) q := by
      intro hs
      exact (SslMatcher.atPath_ne_none_iff hM h).mpr ⟨_, q, hs, (hmatches hs).mpr rfl⟩ hf
    have hcovers {suffix : String} {q : ProxySSL} (hs : Serves (insertions ssls) (.wildcard suffix) q) :
        SslMatcher.hostMatchesWildcard (toAsciiLowercase name) suffix = true ↔
          CoversName suffix (toAsciiLowercase name) := by
      obtain ⟨sni, hm, hp⟩ := hs
      exact SslMatcher.hostMatchesWildcard_iff (suffix_ne_empty (hv sni _ hm) hp)
    split
    · rename_i w hw
      have hs := (h.wildcard w.1 w.2).mp (List.mem_of_find?_eq_some hw)
      have hfound := List.find?_some hw
      have hc := (hcovers hs).mp hfound
      exact .wildcard hn hs hc fun other q _ ho => Nat.le_of_eq (by rw [hc.unique ho])
    · rename_i hw
      have hno (suffix : String) (q : ProxySSL) (hs : Serves (insertions ssls) (.wildcard suffix) q) :
          ¬CoversName suffix (toAsciiLowercase name) := by
        intro hc
        exact List.find?_eq_none.mp hw _ ((h.wildcard suffix q).mpr hs) ((hcovers hs).mpr hc)
      cases hcatch : m.catchAll with
      | some p => exact .catchAll hn hno ((h.catchAll p).mp hcatch)
      | none =>
        refine .none hn hno fun q hs => ?_
        rw [(h.catchAll q).mpr hs] at hcatch
        cases hcatch

/-! ## Order -/

/-- The same resource with its server names in another order. -/
def ProxySSL.Reordered (p q : ProxySSL) : Prop :=
  q.inner.snis.Perm p.inner.snis ∧ q = { p with inner := { p.inner with snis := q.inner.snis } }

theorem ProxySSL.Reordered.symm {p q : ProxySSL} (h : p.Reordered q) : q.Reordered p := by
  obtain ⟨hperm, he⟩ := h
  refine ⟨hperm.symm, ?_⟩
  rw [he]

/-- The same resources in any order, each with its server names in any order. -/
def SameResources (ssls others : HashMap String ProxySSL) : Prop :=
  ∀ id, Option.Rel ProxySSL.Reordered (ssls.lookup id) (others.lookup id)

theorem SameResources.symm {ssls others : HashMap String ProxySSL} (h : SameResources ssls others) :
    SameResources others ssls := by
  intro id
  have hid := h id
  generalize AList.lookup id ssls = a at hid ⊢
  generalize AList.lookup id others = b at hid ⊢
  cases hid with
  | some hr => exact .some hr.symm
  | none => exact .none

theorem SameResources.serves {ssls others : HashMap String ProxySSL} (h : SameResources ssls others)
    {pattern : SniPattern} {p : ProxySSL} (hs : Serves (insertions ssls) pattern p) :
    ∃ q, p.Reordered q ∧ Serves (insertions others) pattern q := by
  obtain ⟨sni, hm, hp⟩ := hs
  obtain ⟨⟨id, hl⟩, ht⟩ := mem_insertions.mp hm
  have hid := h id
  rw [hl] at hid
  generalize hb : AList.lookup id others = b at hid
  cases hid with
  | some hr => exact ⟨_, hr, sni, mem_insertions.mpr ⟨⟨id, hb⟩, hr.1.mem_iff.mpr ht⟩, hp⟩

theorem SameResources.checked {ssls others : HashMap String ProxySSL} (h : SameResources ssls others)
    (hv : Checked ssls) : Checked others := by
  intro sni q hm
  obtain ⟨⟨id, hl⟩, ht⟩ := mem_insertions.mp hm
  have hid := h id
  rw [hl] at hid
  generalize ha : AList.lookup id ssls = a at hid
  cases hid with
  | some hr =>
    have hc := hv sni _ (mem_insertions.mpr ⟨⟨id, ha⟩, hr.1.mem_iff.mp ht⟩)
    rw [hr.2]
    exact hc

/-- The rule has one answer, whatever the order of the resources and of their names. -/
theorem SameResources.answers {ssls others : HashMap String ProxySSL} (h : SameResources ssls others)
    {m : SslMatcher} (hm : m.Holds (insertions others)) {name : String} {a b : Option ProxySSL}
    (ha : SniAnswer (insertions ssls) name a) (hb : SniAnswer (insertions others) name b) :
    Option.Rel ProxySSL.Reordered a b := by
  have same {pattern : SniPattern} {p q : ProxySSL} (hp : Serves (insertions ssls) pattern p)
      (hq : Serves (insertions others) pattern q) : p.Reordered q := by
    obtain ⟨r, hr, hs⟩ := h.serves hp
    rwa [hm.unique hs hq] at hr
  cases ha with
  | exact hp =>
    obtain ⟨q, -, hq⟩ := h.serves hp
    cases hb with
    | exact hs => exact .some (same hp hs)
    | wildcard hn _ _ _ => exact absurd hq (hn q)
    | catchAll hn _ _ => exact absurd hq (hn q)
    | none hn _ _ => exact absurd hq (hn q)
  | wildcard hn hp hc _ =>
    obtain ⟨q, -, hq⟩ := h.serves hp
    cases hb with
    | exact hs =>
      obtain ⟨p, -, hp'⟩ := h.symm.serves hs
      exact absurd hp' (hn p)
    | wildcard _ hs hc' _ =>
      rw [hc.unique hc'] at hp
      exact .some (same hp hs)
    | catchAll _ hw _ => exact absurd hc (hw _ q hq)
    | none _ hw _ => exact absurd hc (hw _ q hq)
  | catchAll hn hw hp =>
    obtain ⟨q, -, hq⟩ := h.serves hp
    cases hb with
    | exact hs =>
      obtain ⟨p, -, hp'⟩ := h.symm.serves hs
      exact absurd hp' (hn p)
    | wildcard _ hs hc _ =>
      obtain ⟨p, -, hp'⟩ := h.symm.serves hs
      exact absurd hc (hw _ p hp')
    | catchAll _ _ hs => exact .some (same hp hs)
    | none _ _ hno => exact absurd hq (hno q)
  | none hn hw hno =>
    cases hb with
    | exact hs =>
      obtain ⟨p, -, hp'⟩ := h.symm.serves hs
      exact absurd hp' (hn p)
    | wildcard _ hs hc _ =>
      obtain ⟨p, -, hp'⟩ := h.symm.serves hs
      exact absurd hc (hw _ p hp')
    | catchAll _ _ hs =>
      obtain ⟨p, -, hp'⟩ := h.symm.serves hs
      exact absurd hp' (hno p)
    | none _ _ _ => exact .none

/-! ## Braces in names -/

def IsAscii (s : String) : Prop := ∀ c ∈ s.toList, c.toNat < 128

instance (s : String) : Decidable (IsAscii s) := List.decidableBAll (fun c : Char => c.toNat < 128) s.toList

theorem byteLength_ascii : ∀ {cs : List Char}, (∀ c ∈ cs, c.toNat < 128) → Text.byteLength cs = cs.length
  | [], _ => rfl
  | c :: cs, h => by
    have hc : c.utf8Size = 1 := by
      have hle : c.val.toNat ≤ 127 := Nat.le_of_lt_succ (h c List.mem_cons_self)
      exact Char.utf8Size_eq_one_iff.mpr (UInt32.le_iff_toNat_le.mpr hle)
    rw [Text.byteLength_cons, byteLength_ascii fun d hd => h d (List.mem_cons_of_mem _ hd), hc, List.length_cons,
      Nat.add_comm]

/-- Every position of an ASCII name is between two characters. -/
theorem not_cutsCharacter {suffix name : String} (h : IsAscii name) : ¬SslMatcher.CutsCharacter suffix name := by
  rintro ⟨-, hsize, hb⟩
  refine hb (Text.isCharBoundary_iff.mpr ⟨name.toList.take (name.utf8ByteSize - suffix.utf8ByteSize), _,
    (List.take_append_drop _ _).symm, ?_⟩)
  have hlen : name.utf8ByteSize = name.toList.length := by rw [Text.utf8ByteSize_eq, byteLength_ascii h]
  rw [byteLength_ascii fun c hc => h c (List.mem_of_mem_take hc), List.length_take]
  omega

theorem isAscii_toAsciiLowercase {name : String} (h : IsAscii name) : IsAscii (toAsciiLowercase name) := by
  intro c hc
  rw [toAsciiLowercase, String.toList_ofList] at hc
  obtain ⟨d, hd, rfl⟩ := List.mem_map.mp hc
  have hlt := h d hd
  unfold Char.toLower
  split
  · rename_i hu
    have h2 : d.val.toNat ≤ 90 := UInt32.le_iff_toNat_le.mp hu.2
    have h4 : ('a'.val - 'A'.val).toNat = 32 := rfl
    show (d.val + ('a'.val - 'A'.val)).toNat < 128
    rw [UInt32.toNat_add, h4]
    omega
  · exact hlt

/-- The lookup of an ASCII name has a result, and it is the one on characters. -/
theorem matchSniSlicing_ascii {M : Matchit} (hM : M.Lawful) {ssls : HashMap String ProxySSL} {m : SslMatcher}
    (hb : SslMatcher.build M ssls = .ok m) {name : String} (h : IsAscii name) :
    m.matchSniSlicing M name = some (m.matchSni M name) := by
  have hsome := (match_sni_total_iff hM hb name).mpr (.inr fun suffix p _ hc =>
    absurd hc (not_cutsCharacter (isAscii_toAsciiLowercase h)))
  obtain ⟨r, hr⟩ := Option.isSome_iff_exists.mp hsome
  rw [hr, SslMatcher.matchSniSlicing_eq_some hr]

theorem reversed_reversed (s : String) : reversed (reversed s) = s := by
  rw [reversed, reversed, String.toList_ofList, List.reverse_reverse, String.ofList_toList]

/-- An exact name with a brace by itself is answered for another name, or not for its own. -/
theorem brace_misanswered {M : Matchit} (hM : M.Lawful) {sni host : String} {p : ProxySSL} {m : SslMatcher}
    (h : m.Holds [(sni, p)]) (hof : SniPattern.of sni = .exact host) (ha : IsAscii sni)
    (hb : ¬Pattern.Literal host.toList) :
    ∃ name, IsAscii name ∧ ¬SniAnswer [(sni, p)] (toAsciiLowercase name) (m.matchSni M name) := by
  have honly {pattern : SniPattern} {q : ProxySSL} (hs : Serves [(sni, p)] pattern q) : pattern = .exact host := by
    obtain ⟨s, hm, hp⟩ := hs
    cases List.mem_singleton.mp hm
    rw [← hp, hof]
  have hown : Serves [(sni, p)] (.exact host) p := ⟨sni, List.mem_cons_self, hof⟩
  have hhost : toAsciiLowercase sni = host := of_eq_exact hof
  by_cases hself : Pattern.Matches (reversed host) (reversed host)
  · -- another name is found under the pattern
    have hb' : ¬Pattern.Literal (reversed host).toList := fun hl => hb (reversed_reversed host ▸ literal_reversed hl)
    obtain ⟨path, hne, hmatch, hmem⟩ := Pattern.exists_other_match hb' hself
    have hchars : ∀ c ∈ (reversed path).toList, c ∈ host.toList ∨ c = 'a' ∨ c = 'b' := by
      intro c hc
      rw [reversed, String.toList_ofList, List.mem_reverse] at hc
      refine (hmem c hc).imp_left fun hc => ?_
      rwa [reversed, String.toList_ofList, List.mem_reverse] at hc
    have hlower : toAsciiLowercase (reversed path) = reversed path := by
      refine toAsciiLowercase_self fun c hc => ?_
      obtain hc | rfl | rfl := hchars c hc
      · rw [← hhost, toAsciiLowercase, String.toList_ofList] at hc
        obtain ⟨d, -, rfl⟩ := List.mem_map.mp hc
        exact toLower_toLower d
      · decide
      · decide
    refine ⟨reversed path, fun c hc => ?_, ?_⟩
    · obtain hc | rfl | rfl := hchars c hc
      · exact isAscii_toAsciiLowercase ha c (hhost ▸ hc)
      · decide
      · decide
    · have hfound := (@SslMatcher.atPath_ne_none_iff M hM _ m h path).mpr ⟨host, p, hown, hmatch⟩
      obtain ⟨found, hf⟩ := Option.ne_none_iff_exists'.mp hfound
      have hanswer : m.matchSni M (reversed path) = some found.value := by
        have hpath : String.ofList (reversed path).toList.reverse = path := reversed_reversed path
        simp only [SslMatcher.matchSni, hlower, hpath, hf]
      rw [hlower, hanswer]
      intro hans
      cases hans with
      | exact hs =>
        cases honly hs
        exact hne (reversed_reversed path).symm
      | wildcard _ hs _ _ => cases honly hs
      | catchAll _ _ hs => cases honly hs
  · -- its own name is not found
    refine ⟨sni, ha, ?_⟩
    have hnone : m.snis.atPath M (reversed host) = none := by
      by_contra hne
      obtain ⟨host', q, hs, hmatch⟩ := (SslMatcher.atPath_ne_none_iff hM h).mp hne
      cases honly hs
      exact hself hmatch
    have hwild : m.wildcards = [] := by
      refine List.eq_nil_iff_forall_not_mem.mpr fun w hw => ?_
      cases honly ((h.wildcard w.1 w.2).mp hw)
    have hcatch : m.catchAll = none := by
      cases hc : m.catchAll with
      | none => rfl
      | some q => cases honly ((h.catchAll q).mp hc)
    have hanswer : m.matchSni M sni = none := by
      have hnone' : m.snis.atPath M (String.ofList (toAsciiLowercase sni).toList.reverse) = none := hhost ▸ hnone
      simp only [SslMatcher.matchSni, hnone', hwild, hcatch]
      rfl
    rw [hhost, hanswer]
    intro hans
    cases hans with
    | none hn _ _ => exact hn p hown

/-- Without braces in exact names, every ASCII name is answered by the rule, whatever the order the resources and
their names were inserted in; an exact name with a brace by itself is not. -/
theorem match_sni_rule {M : Matchit} (hM : M.Lawful) :
    (∀ ssls m, Valid ssls → SslMatcher.build M ssls = .ok m →
      (∀ host p, Serves (insertions ssls) (.exact host) p → Pattern.Literal host.toList) →
        ∀ name, IsAscii name → ∃ answer, m.matchSniSlicing M name = some answer ∧
          SniAnswer (insertions ssls) (toAsciiLowercase name) answer ∧
          ∀ others m', SameResources ssls others → SslMatcher.build M others = .ok m' →
            ∃ answer', m'.matchSniSlicing M name = some answer' ∧ Option.Rel ProxySSL.Reordered answer answer') ∧
    ∀ ssls m sni host p, SslMatcher.build M ssls = .ok m → insertions ssls = [(sni, p)] →
      SniPattern.of sni = .exact host → IsAscii sni → ¬Pattern.Literal host.toList →
        ∃ name answer, IsAscii name ∧ m.matchSniSlicing M name = some answer ∧
          ¬SniAnswer (insertions ssls) (toAsciiLowercase name) answer := by
  constructor
  · intro ssls m hv hb hl name ha
    have h := (SslMatcher.build_spec hM hb).1
    refine ⟨_, matchSniSlicing_ascii hM hb ha, sniAnswer_matchSni hM hv.checked h hl name, ?_⟩
    intro others m' hsame hb'
    have h' := (SslMatcher.build_spec hM hb').1
    have hl' (host : String) (q : ProxySSL) (hs : Serves (insertions others) (.exact host) q) :
        Pattern.Literal host.toList := by
      obtain ⟨p, -, hp⟩ := hsame.symm.serves hs
      exact hl host p hp
    exact ⟨_, matchSniSlicing_ascii hM hb' ha, hsame.answers h' (sniAnswer_matchSni hM hv.checked h hl name)
      (sniAnswer_matchSni hM (hsame.checked hv.checked) h' hl' name)⟩
  · intro ssls m sni host p hb he hof ha hbrace
    have h := (SslMatcher.build_spec hM hb).1
    rw [he] at h ⊢
    obtain ⟨name, hname, hno⟩ := brace_misanswered hM h hof ha hbrace
    exact ⟨name, _, hname, matchSniSlicing_ascii hM hb hname, hno⟩

/-! ## Two certificates -/

def plainSsl (id : String) (snis : List String) : ProxySSL :=
  ⟨{ id, cert := "cert", key := "key", snis }, "cert".toUTF8, "key".toUTF8⟩

def certificates : HashMap String ProxySSL :=
  (∅ : HashMap String ProxySSL).insert "1" (plainSsl "1" ["*.example.com", "*"]) |>.insert "2"
    (plainSsl "2" ["api.example.com"])

theorem valid_certificates : Valid certificates := by
  intro id p h
  have hm := (HashMap.mem_values_iff certificates p).mpr ⟨id, h⟩
  have hvalues : certificates.values = [plainSsl "2" ["api.example.com"], plainSsl "1" ["*.example.com", "*"]] := rfl
  rw [hvalues] at hm
  cases List.mem_cons.mp hm with
  | inl he => exact ⟨plainX509, p.inner, by rw [he]; rfl⟩
  | inr hm => exact ⟨plainX509, p.inner, by rw [List.mem_singleton.mp hm]; rfl⟩

theorem serves_certificates {host : String} {p : ProxySSL} (h : Serves (insertions certificates) (.exact host) p) :
    host = "api.example.com" := by
  obtain ⟨sni, hm, hp⟩ := h
  have hins : insertions certificates = [("api.example.com", plainSsl "2" ["api.example.com"]),
      ("*.example.com", plainSsl "1" ["*.example.com", "*"]), ("*", plainSsl "1" ["*.example.com", "*"])] := rfl
  rw [hins] at hm
  simp only [List.mem_cons, Prod.mk.injEq, List.not_mem_nil, or_false] at hm
  obtain ⟨rfl, -⟩ | ⟨rfl, -⟩ | ⟨rfl, -⟩ := hm
  · exact (SniPattern.exact.inj hp).symm
  · have hof : SniPattern.of "*.example.com" = .wildcard "example.com" := by decide
    rw [hof] at hp
    cases hp
  · have hof : SniPattern.of "*" = .catchAll := by decide
    rw [hof] at hp
    cases hp

theorem match_sni_rule_certificates : ∃ m answer, SslMatcher.build Matchit.staticFirst certificates = .ok m ∧
    m.matchSniSlicing Matchit.staticFirst "WWW.example.com" = some answer ∧
      SniAnswer (insertions certificates) (toAsciiLowercase "WWW.example.com") answer := by
  obtain ⟨answer, h1, h2, -⟩ := (match_sni_rule Matchit.staticFirst_lawful).1 certificates _ valid_certificates rfl
    (fun host p h => by rw [serves_certificates h]; decide) "WWW.example.com"
    (by decide)
  exact ⟨_, answer, rfl, h1, h2⟩

/-- The reversed text of the name is a parameter, which any name fills. -/
def bracedSsls : HashMap String ProxySSL := (∅ : HashMap String ProxySSL).insert "1" (plainSsl "1" ["\x7dx\x7b"])

theorem valid_bracedSsls : Valid bracedSsls := by
  intro id p h
  have hm := (HashMap.mem_values_iff bracedSsls p).mpr ⟨id, h⟩
  have hvalues : bracedSsls.values = [plainSsl "1" ["\x7dx\x7b"]] := rfl
  rw [hvalues] at hm
  exact ⟨plainX509, p.inner, by rw [List.mem_singleton.mp hm]; rfl⟩

theorem match_sni_misanswers_braced : Valid bracedSsls ∧
    ∃ m, SslMatcher.build Matchit.staticFirst bracedSsls = .ok m ∧
      m.matchSniSlicing Matchit.staticFirst "other" = some (some (plainSsl "1" ["\x7dx\x7b"])) ∧
        ¬SniAnswer (insertions bracedSsls) (toAsciiLowercase "other") (some (plainSsl "1" ["\x7dx\x7b"])) := by
  refine ⟨valid_bracedSsls, _, rfl, rfl, fun hans => ?_⟩
  have honly {pattern : SniPattern} {q : ProxySSL} (hs : Serves (insertions bracedSsls) pattern q) :
      pattern = .exact "\x7dx\x7b" := by
    obtain ⟨sni, hm, hp⟩ := hs
    cases List.mem_singleton.mp hm
    exact hp.symm.trans (by decide)
  cases hans with
  | exact hs => exact absurd (honly hs) (by decide)
  | wildcard _ hs _ _ => cases honly hs
  | catchAll _ _ hs => cases honly hs

theorem match_sni_total_iff_certificates : ∃ m, SslMatcher.build Matchit.staticFirst certificates = .ok m ∧
    ((m.matchSniSlicing Matchit.staticFirst "WWW.example.com").isSome = true ↔
      Spared (insertions certificates) (toAsciiLowercase "WWW.example.com")) :=
  ⟨_, rfl, match_sni_total_iff Matchit.staticFirst_lawful rfl "WWW.example.com"⟩

/-- Seven letters of two bytes each are cut three bytes from their start. -/
theorem match_sni_panics_multibyte : Valid certificates ∧
    ∃ m, SslMatcher.build Matchit.staticFirst certificates = .ok m ∧
      m.matchSniSlicing Matchit.staticFirst "ééééééé" = none :=
  ⟨valid_certificates, _, rfl, rfl⟩

end Pingsix
