import Pingsix.Lib.Map
import Pingsix.Lib.Text

/-!
# Path patterns and routers

Patterns made of literal text, named parameters for one path segment and a
final catch-all parameter, and routers from patterns to values. Which stored
pattern a router prefers for a path is a parameter; a lawful one finds a stored
pattern that matches.
-/

namespace Pattern

/-! ## Patterns -/

inductive Token where
  | lit (c : Char)
  | param (name : String)
  | catchAll (name : String)
  deriving DecidableEq, Repr

def parameter : List Char → Token
  | '*' :: name => .catchAll (String.ofList name)
  | name => .param (String.ofList name)

/-- The tokens of a pattern. A doubled brace is a literal one, the others enclose a parameter, whose name read
so far the first argument holds, last character first. -/
def tokens : Option (List Char) → List Char → Option (List Token)
  | none, [] => some []
  | some _, [] => none
  | none, '{' :: '{' :: cs => (tokens none cs).map (.lit '{' :: ·)
  | none, '}' :: '}' :: cs => (tokens none cs).map (.lit '}' :: ·)
  | none, '{' :: cs => tokens (some []) cs
  | none, '}' :: _ => none
  | none, c :: cs => (tokens none cs).map (.lit c :: ·)
  | some name, '}' :: cs => (tokens none cs).map (parameter name.reverse :: ·)
  | some name, c :: cs => tokens (some (c :: name)) cs

/-- The parameters captured when the tokens match the whole path. -/
def captureTokens : List Token → List Char → Option (List (String × String))
  | [], [] => some []
  | [], _ :: _ => none
  | .lit _ :: _, [] => none
  | .lit c :: ts, d :: path => if c = d then captureTokens ts path else none
  | .param name :: ts, path =>
    let segment := path.takeWhile (· ≠ '/')
    if segment = [] then none
    else (captureTokens ts (path.dropWhile (· ≠ '/'))).map ((name, String.ofList segment) :: ·)
  | .catchAll name :: ts, path => if ts = [] ∧ path ≠ [] then some [(name, String.ofList path)] else none

def captures (pattern path : String) : Option (List (String × String)) :=
  match tokens none pattern.toList with
  | some ts => captureTokens ts path.toList
  | none => none

def Matches (pattern path : String) : Prop := (captures pattern path).isSome = true

instance (pattern path : String) : Decidable (Matches pattern path) := inferInstanceAs (Decidable (_ = true))

/-- Text without braces. -/
def Literal (cs : List Char) : Prop := ∀ c ∈ cs, c ≠ '{' ∧ c ≠ '}'

instance (cs : List Char) : Decidable (Literal cs) := List.decidableBAll (fun c : Char => c ≠ '{' ∧ c ≠ '}') cs

theorem tokens_literal : ∀ {cs : List Char}, Literal cs → ∀ rest : List Char,
    tokens none (cs ++ rest) = (tokens none rest).map (cs.map Token.lit ++ ·)
  | [], _, rest => by simp
  | c :: cs, h, rest => by
    have hc : c ≠ '{' ∧ c ≠ '}' := h c (by simp)
    have ih := tokens_literal (fun d hd => h d (by simp [hd]) : Literal cs) rest
    rw [List.cons_append, tokens]
    · rw [ih, Option.map_map]
      rfl
    · exact fun _ he _ => hc.1 he
    · exact fun _ he _ => hc.2 he
    · exact hc.1
    · exact hc.2

theorem captureTokens_literal : ∀ (cs : List Char) (ts : List Token) (path : List Char),
    (captureTokens (cs.map Token.lit ++ ts) path).isSome = true ↔
      ∃ rest, path = cs ++ rest ∧ (captureTokens ts rest).isSome = true
  | [], ts, path => by simp
  | c :: cs, ts, [] => by simp [captureTokens]
  | c :: cs, ts, d :: path => by
    rw [List.map_cons, List.cons_append, captureTokens]
    by_cases h : c = d
    · subst h
      rw [if_pos rfl, captureTokens_literal cs ts path]
      simp
    · rw [if_neg h]
      simp [Ne.symm h]

/-- A pattern without braces matches itself only. -/
theorem matches_literal {pattern path : String} (h : Literal pattern.toList) :
    Matches pattern path ↔ path = pattern := by
  have ht : tokens none pattern.toList = some (pattern.toList.map Token.lit ++ []) := by
    have := tokens_literal h []
    simpa [tokens] using this
  unfold Matches captures
  rw [ht]
  simp only
  rw [captureTokens_literal]
  constructor
  · rintro ⟨rest, hp, hs⟩
    cases rest with
    | nil => exact String.toList_inj.mp (by simpa using hp)
    | cons c rest => simp [captureTokens] at hs
  · rintro rfl
    exact ⟨[], by simp [captureTokens]⟩

/-- A catch-all after text without braces matches every proper extension of the text. -/
theorem matches_catchAll {stem path : String} (h : Literal stem.toList) :
    Matches (stem ++ "\x7b*subdomain\x7d") path ↔ ∃ rest, rest ≠ "" ∧ path = stem ++ rest := by
  have ht : tokens none (stem ++ "\x7b*subdomain\x7d").toList =
      some (stem.toList.map Token.lit ++ [.catchAll "subdomain"]) := by
    rw [String.toList_append, tokens_literal h]
    rfl
  unfold Matches captures
  rw [ht]
  simp only
  rw [captureTokens_literal]
  constructor
  · rintro ⟨rest, hp, hs⟩
    cases rest with
    | nil => simp [captureTokens] at hs
    | cons c rest => exact ⟨String.ofList (c :: rest), by simp, String.toList_inj.mp (by simpa using hp)⟩
  · rintro ⟨rest, hne, rfl⟩
    exact ⟨rest.toList, by simp, by simp [captureTokens, hne]⟩

/-! ## Braces -/

theorem parameter_ne_lit (name : List Char) (c : Char) : parameter name ≠ .lit c := by
  unfold parameter
  split <;> exact Token.noConfusion

/-- Where all tokens are literal, each brace is written twice. -/
theorem length_of_literal_tokens (acc : Option (List Char)) (cs : List Char) {ts : List Token}
    (h : tokens acc cs = some ts) (hl : ∀ t ∈ ts, ∃ c, t = .lit c) :
    acc = none ∧ ts.length ≤ cs.length ∧ (ts.length = cs.length → Literal cs) := by
  induction acc, cs using tokens.induct generalizing ts with
  | case1 =>
    cases h
    exact ⟨rfl, Nat.le_refl _, fun _ c hc => nomatch hc⟩
  | case2 => cases h
  | case3 cs ih =>
    obtain ⟨us, hu, rfl⟩ := Option.map_eq_some_iff.mp h
    obtain ⟨-, hle, -⟩ := ih hu fun t ht => hl t (List.mem_cons_of_mem _ ht)
    simp only [List.length_cons]
    exact ⟨trivial, by omega, fun he => by omega⟩
  | case4 cs ih =>
    obtain ⟨us, hu, rfl⟩ := Option.map_eq_some_iff.mp h
    obtain ⟨-, hle, -⟩ := ih hu fun t ht => hl t (List.mem_cons_of_mem _ ht)
    simp only [List.length_cons]
    exact ⟨trivial, by omega, fun he => by omega⟩
  | case5 cs hcs ih =>
    rw [tokens] at h
    · exact absurd (ih h hl).1 (Option.some_ne_none _)
    · exact hcs
  | case6 cs hcs =>
    rw [tokens] at h
    · cases h
    · exact hcs
  | case7 c cs h1 h2 h3 h4 ih =>
    rw [tokens] at h
    · obtain ⟨us, hu, rfl⟩ := Option.map_eq_some_iff.mp h
      obtain ⟨-, hle, hlit⟩ := ih hu fun t ht => hl t (List.mem_cons_of_mem _ ht)
      refine ⟨rfl, Nat.succ_le_succ hle, fun he d hd => ?_⟩
      cases List.mem_cons.mp hd with
      | inl hdc => exact hdc ▸ ⟨h3, h4⟩
      | inr hd => exact hlit (Nat.succ.inj he) d hd
    all_goals assumption
  | case8 name cs ih =>
    obtain ⟨us, hu, rfl⟩ := Option.map_eq_some_iff.mp h
    obtain ⟨c, hc⟩ := hl _ List.mem_cons_self
    exact absurd hc (parameter_ne_lit _ c)
  | case9 name c cs hc ih =>
    rw [tokens] at h
    · exact absurd (ih h hl).1 (Option.some_ne_none _)
    · exact hc

theorem length_of_literal_capture : ∀ {ts : List Token} {path : List Char}, (∀ t ∈ ts, ∃ c, t = .lit c) →
    (captureTokens ts path).isSome = true → ts.length = path.length
  | [], [], _, _ => rfl
  | [], _ :: _, _, h => by cases h
  | t :: ts, path, hl, h => by
    obtain ⟨c, rfl⟩ := hl t List.mem_cons_self
    cases path with
    | nil => cases h
    | cons d path =>
      rw [captureTokens] at h
      split at h
      · exact congrArg Nat.succ (length_of_literal_capture (fun t ht => hl t (List.mem_cons_of_mem _ ht)) h)
      · cases h

/-- A segment ends at the first slash. -/
theorem segment_cons {c : Char} (hc : c ≠ '/') (path : List Char) :
    (c :: path.dropWhile (· ≠ '/')).takeWhile (· ≠ '/') = [c] ∧
      (c :: path.dropWhile (· ≠ '/')).dropWhile (· ≠ '/') = path.dropWhile (· ≠ '/') := by
  have hd : decide (c ≠ '/') = true := decide_eq_true hc
  rw [List.takeWhile_cons, List.dropWhile_cons, hd]
  induction path with
  | nil => exact ⟨rfl, rfl⟩
  | cons d path ih =>
    by_cases hs : d = '/'
    · subst hs
      simp
    · simpa [hs] using ih

/-- A match of tokens with a parameter is not the only one: its segment may be any other letter. -/
theorem exists_other_capture : ∀ {ts : List Token} {path : List Char}, (captureTokens ts path).isSome = true →
    (∃ t ∈ ts, ∀ c, t ≠ .lit c) →
      ∃ other, other ≠ path ∧ (captureTokens ts other).isSome = true ∧ ∀ c ∈ other, c ∈ path ∨ c = 'a' ∨ c = 'b'
  | [], path, _, ht => by
    obtain ⟨t, hm, -⟩ := ht
    cases hm
  | .lit c :: ts, [], h, _ => by cases h
  | .lit c :: ts, d :: path, h, ht => by
    rw [captureTokens] at h
    split at h
    · rename_i hcd
      obtain ⟨t, hm, hne⟩ := ht
      have hm' : t ∈ ts := (List.mem_cons.mp hm).resolve_left (hne c)
      obtain ⟨other, ho, hc, hmem⟩ := exists_other_capture h ⟨t, hm', hne⟩
      refine ⟨d :: other, fun he => ho (List.cons.inj he).2, ?_, fun e he => ?_⟩
      · rw [captureTokens, if_pos hcd]
        exact hc
      · cases List.mem_cons.mp he with
        | inl he => exact .inl (by rw [he]; exact List.mem_cons_self)
        | inr he => exact (hmem e he).imp_left (List.mem_cons_of_mem _)
    · cases h
  | .param name :: ts, path, h, _ => by
    have found (c : Char) (hc : c ≠ '/') :
        (captureTokens (.param name :: ts) (c :: path.dropWhile (· ≠ '/'))).isSome = true := by
      simp only [captureTokens] at h ⊢
      split at h
      · cases h
      · rw [(segment_cons hc path).1, if_neg (List.cons_ne_nil c []), (segment_cons hc path).2]
        simpa using h
    have mem (c : Char) : ∀ e ∈ c :: path.dropWhile (· ≠ '/'), e ∈ path ∨ e = c := by
      intro e he
      cases List.mem_cons.mp he with
      | inl he => exact .inr he
      | inr he => exact .inl ((List.dropWhile_sublist _).mem he)
    by_cases ha : 'a' :: path.dropWhile (· ≠ '/') = path
    · refine ⟨'b' :: path.dropWhile (· ≠ '/'), fun hb => ?_, found 'b' (by decide), fun e he => ?_⟩
      · have hab := (List.cons.inj (ha.trans hb.symm)).1
        exact absurd hab (by decide)
      · exact (mem 'b' e he).imp_right .inr
    · exact ⟨_, ha, found 'a' (by decide), fun e he => (mem 'a' e he).imp_right .inl⟩
  | .catchAll name :: ts, path, h, _ => by
    rw [captureTokens] at h
    split at h
    · rename_i hc
      have found (c : Char) : (captureTokens (.catchAll name :: ts) [c]).isSome = true := by
        rw [captureTokens, if_pos ⟨hc.1, List.cons_ne_nil c []⟩]
        rfl
      by_cases ha : ['a'] = path
      · exact ⟨['b'], fun hb => absurd (List.cons.inj (ha.trans hb.symm)).1 (by decide), found 'b',
          fun e he => .inr (.inr (List.mem_singleton.mp he))⟩
      · exact ⟨['a'], ha, found 'a', fun e he => .inr (.inl (List.mem_singleton.mp he))⟩
    · cases h

/-- A pattern with a brace never matches itself alone. -/
theorem exists_other_match {pattern : String} (hb : ¬Literal pattern.toList) (h : Matches pattern pattern) :
    ∃ path, path ≠ pattern ∧ Matches pattern path ∧ ∀ c ∈ path.toList, c ∈ pattern.toList ∨ c = 'a' ∨ c = 'b' := by
  unfold Matches captures at h
  split at h
  · rename_i ts ht
    by_cases hl : ∀ t ∈ ts, ∃ c, t = .lit c
    · obtain ⟨-, -, hlit⟩ := length_of_literal_tokens none pattern.toList ht hl
      exact absurd (hlit (length_of_literal_capture hl h)) hb
    · obtain ⟨t, hm, hn⟩ : ∃ t ∈ ts, ∀ c, t ≠ .lit c := by
        by_contra hno
        refine hl fun t hm => ?_
        by_contra hc
        exact hno ⟨t, hm, fun c he => hc ⟨c, he⟩⟩
      obtain ⟨path, hne, hc, hmem⟩ := exists_other_capture h ⟨t, hm, hn⟩
      refine ⟨String.ofList path, fun he => hne ?_, ?_, ?_⟩
      · rw [← he, String.toList_ofList]
      · unfold Matches captures
        rw [ht, String.toList_ofList]
        exact hc
      · rw [String.toList_ofList]
        exact hmem
  · cases h

end Pattern

/-! ## Routers -/

/-- What a router library decides over the stored patterns: whether a further one may be stored, with the error's
text, and which one a path is looked up under, with the captured parameters. -/
structure Matchit where
  insertError : List String → String → Option String
  choose : List String → String → Option (String × List (String × String))

structure Matchit.Lawful (M : Matchit) : Prop where
  /-- A stored pattern is not stored again. -/
  conflict {ps : List String} {p : String} (h : p ∈ ps) : M.insertError ps p ≠ none
  /-- Lookups match the path against the stored patterns. -/
  stored {ps : List String} {path p : String} {params : List (String × String)}
    (h : M.choose ps path = some (p, params)) : p ∈ ps
  captured {ps : List String} {path p : String} {params : List (String × String)}
    (h : M.choose ps path = some (p, params)) : Pattern.captures p path = some params
  found {ps : List String} {path p : String} (h : p ∈ ps) (hp : Pattern.Matches p path) : M.choose ps path ≠ none

theorem Matchit.Lawful.matches {M : Matchit} (hM : M.Lawful) {ps : List String} {path p : String}
    {params : List (String × String)} (h : M.choose ps path = some (p, params)) : Pattern.Matches p path := by
  unfold Pattern.Matches
  rw [hM.captured h]
  rfl

structure Router (α : Type) where
  slots : HashMap String α := ∅

/-- What a lookup finds: the pattern, the value stored under it and the captured parameters. -/
structure Match (α : Type) where
  pattern : String
  value : α
  params : List (String × String)

namespace Router

variable {α : Type}

def patterns (r : Router α) : List String := r.slots.keys

def atPath (M : Matchit) (r : Router α) (path : String) : Option (Match α) :=
  match M.choose r.patterns path with
  | some (pattern, params) => (r.slots.lookup pattern).map fun value => { pattern, value, params }
  | none => none

/-- Writes through a mutable lookup. -/
def set (r : Router α) (pattern : String) (value : α) : Router α := ⟨r.slots.set pattern value⟩

def insert (M : Matchit) (r : Router α) (pattern : String) (value : α) : Except String (Router α) :=
  match M.insertError r.patterns pattern with
  | some display => .error display
  | none => .ok ⟨r.slots.insert pattern value⟩

@[simp] theorem patterns_set (r : Router α) (p : String) (v : α) : (r.set p v).patterns = r.patterns :=
  HashMap.keys_set r.slots p v

theorem mem_patterns {r : Router α} {p : String} : p ∈ r.patterns ↔ ∃ v, r.slots.lookup p = some v := by
  unfold patterns
  rw [← AList.mem_keys, ← AList.lookup_isSome, Option.isSome_iff_exists]

theorem atPath_eq_some {M : Matchit} {r : Router α} {path : String} {found : Match α}
    (h : r.atPath M path = some found) :
    M.choose r.patterns path = some (found.pattern, found.params) ∧
      r.slots.lookup found.pattern = some found.value := by
  unfold atPath at h
  split at h
  · rename_i p params hc
    obtain ⟨v, hv, rfl⟩ := Option.map_eq_some_iff.mp h
    exact ⟨hc, hv⟩
  · cases h

/-- A lawful lookup fails only when no stored pattern is chosen. -/
theorem atPath_eq_none {M : Matchit} (hM : M.Lawful) {r : Router α} {path : String} :
    r.atPath M path = none ↔ M.choose r.patterns path = none := by
  unfold atPath
  cases hc : M.choose r.patterns path with
  | none => simp
  | some c =>
    obtain ⟨v, hv⟩ := mem_patterns.mp (hM.stored hc)
    simp [hv]

/-- Storing succeeds only under a new pattern. -/
theorem insert_eq_ok {M : Matchit} (hM : M.Lawful) {r r' : Router α} {p : String} {v : α}
    (h : r.insert M p v = .ok r') : p ∉ r.patterns ∧ r' = ⟨r.slots.insert p v⟩ := by
  unfold insert at h
  split at h
  · cases h
  · rename_i hn
    exact ⟨fun hp => hM.conflict hp hn, (Except.ok.inj h).symm⟩

end Router

/-! ## The documented preference -/

namespace Pattern

/-- Whether the first pattern is looked up before the second: at the first difference a literal comes before a
parameter and a parameter before a catch-all. -/
def before : List Token → List Token → Bool
  | .lit c :: ts, .lit d :: us => c = d && before ts us
  | .lit _ :: _, _ => true
  | .param _ :: ts, .param _ :: us => before ts us
  | .param _ :: _, .catchAll _ :: _ => true
  | _, _ => false

/-- A parameter and a catch-all in one place, or two patterns that differ in their parameters' names only. -/
def conflicting : List Token → List Token → Bool
  | [], [] => true
  | .lit c :: ts, .lit d :: us => c = d && conflicting ts us
  | .param _ :: ts, .param _ :: us => conflicting ts us
  | .param _ :: _, .catchAll _ :: _ => true
  | .catchAll _ :: _, .param _ :: _ => true
  | .catchAll _ :: _, .catchAll _ :: _ => true
  | _, _ => false

/-- What is wrong with a pattern by itself. -/
def invalid : List Token → Option String
  | [] => none
  | .lit _ :: ts => invalid ts
  | .param name :: ts =>
    if name = "" then some "Parameters must be registered with a valid name"
    else if ts.head?.all fun t => t = .lit '/' then invalid ts
    else some "Only one parameter is allowed per path segment"
  | .catchAll name :: ts =>
    if name = "" then some "Parameters must be registered with a valid name"
    else if ts = [] then none
    else some "Catch-all parameters are only allowed at the end of a route"

def insertError (ps : List String) (pattern : String) : Option String :=
  match tokens none pattern.toList with
  | none => some "Parameters must be registered with a valid name"
  | some ts =>
    (invalid ts).orElse fun _ =>
      (ps.find? fun p => p = pattern || ((tokens none p.toList).map (conflicting ts)).getD false).map fun p =>
        s!"Insertion failed due to conflict with previously registered route: {p}"

/-- The first of the matching patterns, with what it captures. -/
def choose (ps : List String) (path : String) : Option (String × List (String × String)) :=
  ps.foldr
    (fun p best =>
      match captures p path, best with
      | none, best => best
      | some params, none => some (p, params)
      | some params, some (q, params') =>
        if before ((tokens none p.toList).getD []) ((tokens none q.toList).getD []) then some (p, params)
        else some (q, params'))
    none

end Pattern

/-- Literal text before parameters and parameters before catch-alls. -/
def Matchit.staticFirst : Matchit := ⟨Pattern.insertError, Pattern.choose⟩

theorem Pattern.choose_eq_some : ∀ {ps : List String} {path p : String} {params : List (String × String)},
    Pattern.choose ps path = some (p, params) → p ∈ ps ∧ Pattern.captures p path = some params
  | q :: ps, path, p, params, h => by
    unfold Pattern.choose at h
    rw [List.foldr_cons] at h
    have ih := @Pattern.choose_eq_some ps path
    unfold Pattern.choose at ih
    split at h
    · obtain ⟨hm, hc⟩ := ih h
      exact ⟨List.mem_cons_of_mem _ hm, hc⟩
    · rename_i hq _
      simp only [Option.some.injEq, Prod.mk.injEq] at h
      obtain ⟨rfl, rfl⟩ := h
      exact ⟨by simp, hq⟩
    · rename_i hq hb
      split at h
      · simp only [Option.some.injEq, Prod.mk.injEq] at h
        obtain ⟨rfl, rfl⟩ := h
        exact ⟨by simp, hq⟩
      · simp only [Option.some.injEq, Prod.mk.injEq] at h
        obtain ⟨rfl, rfl⟩ := h
        obtain ⟨hm, hc⟩ := ih hb
        exact ⟨List.mem_cons_of_mem _ hm, hc⟩

theorem Pattern.choose_ne_none : ∀ {ps : List String} {path p : String}, p ∈ ps → Pattern.Matches p path →
    Pattern.choose ps path ≠ none
  | q :: ps, path, p, h, hp => by
    unfold Pattern.choose
    rw [List.foldr_cons]
    have ih := @Pattern.choose_ne_none ps path p
    unfold Pattern.choose at ih
    unfold Pattern.Matches at hp
    split
    · rename_i hq
      cases h with
      | head => rw [hq] at hp; cases hp
      | tail _ hm => exact ih hm hp
    · simp
    · split <;> simp

theorem Matchit.staticFirst_lawful : Matchit.staticFirst.Lawful where
  conflict := by
    intro ps p h
    show Pattern.insertError ps p ≠ none
    unfold Pattern.insertError
    have hf : (ps.find? fun q => q = p || ((Pattern.tokens none q.toList).map
        (Pattern.conflicting ((Pattern.tokens none p.toList).getD []))).getD false).isSome = true := by
      rw [List.find?_isSome]
      exact ⟨p, h, by simp⟩
    split
    · simp
    · rename_i ts ht
      rw [ht] at hf
      simp only [Option.getD_some] at hf
      cases Pattern.invalid ts with
      | some e => simp
      | none =>
        obtain ⟨q, hq⟩ := Option.isSome_iff_exists.mp hf
        simp [hq]
  stored := fun h => (Pattern.choose_eq_some h).1
  captured := fun h => (Pattern.choose_eq_some h).2
  found := Pattern.choose_ne_none
