import Mathlib.Data.List.Forall2
import Pingsix.FileLogger
import Pingsix.RemovalSound
import Pingsix.TemplateSound

/-!
# Soundness of the redacted line

Two requests that differ in the values of listed parameters only, and the lines
that the logger writes for them. The lookup of parameters trims names and the
redaction does not, so a name with blanks around it is read but not hidden.
-/

namespace Pingsix.FileLogger

open HttpMessage

/-! ## Requests that differ in secrets -/

def partsOf (query : String) : List (List Char) := Text.splitChars '&' query.toList

/-- The name under which the lookup of parameters finds a part. -/
def nameRead (part : List Char) : String := (pairOf (Text.trim (String.ofList part))).1

def queryOf (s : LogSession) : String := s.reqHeader.uri.query.getD ""

/-- Two parts in one place: equal, or with two values behind a name that is read as one of `names`. -/
inductive Alike (names : List String) : List Char → List Char → Prop
  | same (part : List Char) : Alike names part part
  | secret (name value value' : List Char) : '=' ∉ name → nameRead (name ++ '=' :: value) ∈ names →
      Alike names (name ++ '=' :: value) (name ++ '=' :: value')

/-- Everything that the logging phase reads is the same, but values of listed parameters in the query. -/
structure DifferInSecrets (names : List String) (s s' : LogSession) : Prop where
  rest : ∃ uri, s' = { s with reqHeader := { s.reqHeader with uri } }
  scheme : s'.reqHeader.uri.scheme = s.reqHeader.uri.scheme
  authority : s'.reqHeader.uri.authority = s.reqHeader.uri.authority
  rawPath : s'.reqHeader.uri.rawPath = s.reqHeader.uri.rawPath
  given : s'.reqHeader.uri.query.isSome = s.reqHeader.uri.query.isSome
  parts : List.Forall₂ (Alike names) (partsOf (queryOf s)) (partsOf (queryOf s'))

/-! ## Parts -/

section
variable {names : List String} {name value : List Char} {part : List Char}

theorem splitOnceChars_name (h : '=' ∉ name) : Text.splitOnceChars '=' (name ++ '=' :: value) = some (name, value) :=
  Text.splitOnceChars_eq_some.mpr ⟨rfl, h⟩

theorem splitOnceChars_none (h : '=' ∉ part) : Text.splitOnceChars '=' part = none := by
  cases hs : Text.splitOnceChars '=' part with
  | none => rfl
  | some split =>
    obtain ⟨rfl, -⟩ := Text.splitOnceChars_eq_some.mp hs
    exact absurd (List.mem_append_right _ List.mem_cons_self) h

theorem nameRead_eq (h : '=' ∉ name) : nameRead (name ++ '=' :: value) = Text.trim (String.ofList name) := by
  have hname : '=' ∉ name.dropWhile Text.isWhitespace := fun hc => h ((List.dropWhile_sublist _).subset hc)
  unfold nameRead pairOf Text.splitOnce
  rw [Text.trim_append_cons (by decide), splitOnceChars_name hname]
  exact Text.trim_dropWhile name

theorem redactPart_listed (h : '=' ∉ name) (hname : String.ofList name ∈ names) :
    redactPart names (name ++ '=' :: value) = name ++ "=***".toList := by
  unfold redactPart
  rw [splitOnceChars_name h]
  exact if_pos hname

theorem redactPart_other (h : '=' ∉ name) (hname : String.ofList name ∉ names) :
    redactPart names (name ++ '=' :: value) = name ++ '=' :: value := by
  unfold redactPart
  rw [splitOnceChars_name h]
  exact if_neg hname

/-- A part is a name alone, or a name and a value behind the first equals sign. -/
theorem part_cases (part : List Char) :
    '=' ∉ part ∨ ∃ name value, part = name ++ '=' :: value ∧ '=' ∉ name := by
  by_cases h : '=' ∈ part
  · obtain ⟨name, value, rfl, hname⟩ := List.eq_append_cons_of_mem h
    exact .inr ⟨name, value, rfl, hname⟩
  · exact .inl h

theorem redactPart_cases (names : List String) (part : List Char) : redactPart names part = part ∨
    ∃ name value, part = name ++ '=' :: value ∧ '=' ∉ name ∧ String.ofList name ∈ names ∧
      redactPart names part = name ++ "=***".toList := by
  obtain h | ⟨name, value, rfl, h⟩ := part_cases part
  · refine .inl ?_
    unfold redactPart
    rw [splitOnceChars_none h]
  · by_cases hname : String.ofList name ∈ names
    · exact .inr ⟨name, value, rfl, h, hname, redactPart_listed h hname⟩
    · exact .inl (redactPart_other h hname)

theorem amp_not_mem_redactPart (h : '&' ∉ part) : '&' ∉ redactPart names part := by
  obtain heq | ⟨name, value, rfl, -, -, heq⟩ := redactPart_cases names part
  · rw [heq]
    exact h
  · rw [heq]
    intro hc
    obtain hc | hc := List.mem_append.mp hc
    · exact h (List.mem_append_left _ hc)
    · exact absurd hc (by decide)

/-- Redaction keeps the place of every part. -/
theorem partsOf_redactQuery (query : String) (names : List String) :
    partsOf (redactQuery query names) = (partsOf query).map (redactPart names) := by
  unfold partsOf redactQuery
  rw [String.toList_ofList]
  refine Text.splitChars_join (by simp [Text.splitChars_ne_nil]) fun piece hp => ?_
  obtain ⟨part, hpart, rfl⟩ := List.mem_map.mp hp
  exact amp_not_mem_redactPart (Text.not_mem_of_mem_splitChars hpart)

theorem redactQuery_nil (query : String) : redactQuery query [] = query := by
  have hparts : (Text.splitChars '&' query.toList).map (redactPart []) = Text.splitChars '&' query.toList := by
    refine (List.map_congr_left fun part _ => ?_).trans (List.map_id _)
    obtain heq | ⟨name, value, -, -, hname, -⟩ := redactPart_cases [] part
    · exact heq
    · cases hname
  unfold redactQuery
  rw [hparts, Text.join_splitChars, String.ofList_toList]

end

/-! ## Variables -/

section
variable {names : List String} {s s' : LogSession}

theorem resolveLogVar_queryString (s : LogSession) (names : List String) :
    resolveLogVar s names "query_string" = pushEscaped "" (redactQuery (queryOf s) names) := by
  cases names with
  | nil => rw [redactQuery_nil]; rfl
  | cons => rfl

theorem path_congr {uri uri' : Uri} (hscheme : uri'.scheme = uri.scheme) (hraw : uri'.rawPath = uri.rawPath)
    (hgiven : uri'.query.isSome = uri.query.isSome) : uri'.path = uri.path := by
  have hempty : uri'.data = "" ↔ uri.data = "" := by
    unfold Uri.data
    rw [hraw]
    cases hq : uri.query with
    | none =>
      rw [hq] at hgiven
      rw [Option.isSome_eq_false_iff.mp hgiven |> Option.isNone_iff_eq_none.mp]
    | some query =>
      rw [hq] at hgiven
      obtain ⟨query', hq'⟩ := Option.isSome_iff_exists.mp hgiven
      rw [hq']
      simp [String.append_eq_empty_iff]
  unfold Uri.path
  simp only [hempty, hscheme, hraw]

/-- Only one variable shows the query. -/
theorem resolveLogVar_congr (h : DifferInSecrets names s s') {var : String} (hvar : var ≠ "query_string") :
    resolveLogVar s' names var = resolveLogVar s names var := by
  obtain ⟨uri, rfl⟩ := h.rest
  have hpath : uri.path = s.reqHeader.uri.path := path_congr h.scheme h.rawPath h.given
  have hhost : uri.host = s.reqHeader.uri.host := congrArg (·.map Uri.hostOf) h.authority
  unfold resolveLogVar
  cases Text.stripPrefix var "var_" with
  | some custom => rfl
  | none =>
    simp only [hpath, hhost]
    generalize (if names.isEmpty then pushEscaped "" (uri.query.getD "") else _) = shown
    generalize (if names.isEmpty then pushEscaped "" (s.reqHeader.uri.query.getD "") else _) = shown'
    clear h hpath hhost
    split
    case h_3 => exact absurd rfl hvar
    all_goals rfl

/-! ## Lines -/

/-- The format has a placeholder for the variable. -/
def Shows (logFormat : LogFormat) (var : String) : Prop :=
  ∃ token ∈ tokensOf {} logFormat.format, String.ofList token.name = var

theorem line_eq (logFormat : LogFormat) (s : LogSession) (names : List String) : logFormat.render s names =
    String.ofList ((tokensOf {} logFormat.format).flatMap fun token => (token.render (resolveLogVar s names)).1) := by
  unfold LogFormat.render renderTemplate
  rw [renderTemplateWithCount_eq]
  rfl

/-- Where the format shows the query, the lines differ in what it is redacted to. -/
theorem line_congr (h : DifferInSecrets names s s') {logFormat : LogFormat}
    (hquery : Shows logFormat "query_string" → redactQuery (queryOf s') names = redactQuery (queryOf s) names) :
    logFormat.render s' names = logFormat.render s names := by
  rw [line_eq, line_eq]
  refine congrArg String.ofList (List.flatMap_congr fun token ht => ?_)
  refine congrArg Prod.fst (render_congr ?_)
  by_cases hvar : String.ofList token.name = "query_string"
  · rw [hvar, resolveLogVar_queryString, resolveLogVar_queryString, hquery ⟨token, ht, hvar⟩]
  · exact resolveLogVar_congr h hvar

/-- A longer query makes a longer line. -/
theorem length_line_lt (h : DifferInSecrets names s s') {logFormat : LogFormat} (hshows : Shows logFormat "query_string")
    (hlt : (pushEscaped "" (redactQuery (queryOf s) names)).length < (pushEscaped "" (redactQuery (queryOf s') names)).length) :
    (logFormat.render s names).length < (logFormat.render s' names).length := by
  have hshown : ∀ token : TemplateToken, String.ofList token.name = "query_string" →
      ((token.render (resolveLogVar s names)).1).length < ((token.render (resolveLogVar s' names)).1).length := by
    intro token hname
    have hne : token.name ≠ [] := by
      intro hnil
      rw [hnil] at hname
      exact absurd hname (by decide)
    rw [render_of_name hne, render_of_name hne, hname, resolveLogVar_queryString, resolveLogVar_queryString,
      String.length_toList, String.length_toList]
    exact hlt
  rw [line_eq, line_eq, String.length_ofList, String.length_ofList, List.length_flatMap, List.length_flatMap]
  refine List.sum_lt_sum _ _ (fun token _ => ?_) ?_
  · by_cases hvar : String.ofList token.name = "query_string"
    · exact (hshown token hvar).le
    · rw [render_congr (resolveLogVar_congr h hvar)]
  · obtain ⟨token, ht, hvar⟩ := hshows
    exact ⟨token, ht, hshown token hvar⟩

end

/-! ## Redaction -/

/-- The names of all parts stay in their places, and so does the text of a part that is not listed or has no value. -/
def Kept (names : List String) (query : String) : Prop :=
  List.Forall₂ (fun part left => nameRead left = nameRead part ∧ (nameRead part ∉ names ∨ '=' ∉ part → left = part))
    (partsOf query) (partsOf (redactQuery query names))

/-- The names of the parts with values are listed as they are written when they are listed as they are read, and the
other way around. -/
structure SpelledAsRead (logFormat : LogFormat) (names : List String) (s : LogSession) : Prop where
  hidden : Shows logFormat "query_string" → ∀ name value, name ++ '=' :: value ∈ partsOf (queryOf s) → '=' ∉ name →
    Text.trim (String.ofList name) ∈ names → String.ofList name ∈ names
  kept : ∀ name value, name ++ '=' :: value ∈ partsOf (queryOf s) → '=' ∉ name → value ≠ "***".toList →
    String.ofList name ∈ names → Text.trim (String.ofList name) ∈ names

section
variable {names : List String} {s s' : LogSession} {logFormat : LogFormat}

theorem kept_iff {query : String} : Kept names query ↔ ∀ name value, name ++ '=' :: value ∈ partsOf query → '=' ∉ name →
    value ≠ "***".toList → String.ofList name ∈ names → Text.trim (String.ofList name) ∈ names := by
  unfold Kept
  rw [partsOf_redactQuery, List.forall₂_map_right_iff, List.forall₂_same]
  constructor
  · intro h name value hpart hname hvalue hlisted
    by_contra hread
    have htext := (h _ hpart).2 (.inl (by rw [nameRead_eq hname]; exact hread))
    rw [redactPart_listed hname hlisted] at htext
    exact hvalue (List.cons.inj (List.append_cancel_left htext)).2.symm
  · intro h part hpart
    obtain heq | ⟨name, value, rfl, hname, hlisted, heq⟩ := redactPart_cases names part
    · exact ⟨congrArg nameRead heq, fun _ => heq⟩
    · have hstars : nameRead (name ++ "=***".toList) = nameRead (name ++ '=' :: value) := by
        show nameRead (name ++ '=' :: "***".toList) = _
        rw [nameRead_eq hname, nameRead_eq hname]
      refine ⟨by rw [heq, hstars], fun hother => ?_⟩
      by_cases hvalue : value = "***".toList
      · rw [heq, hvalue]
        rfl
      · have hread := h name value hpart hname hvalue hlisted
        rw [nameRead_eq hname] at hother
        obtain hother | hother := hother
        · exact absurd hread hother
        · exact absurd (List.mem_append_right _ List.mem_cons_self) hother

theorem redactPart_alike {part part' : List Char} (h : Alike names part part')
    (hlisted : ∀ name value, part = name ++ '=' :: value → '=' ∉ name → Text.trim (String.ofList name) ∈ names →
      String.ofList name ∈ names) : redactPart names part' = redactPart names part := by
  cases h with
  | same => rfl
  | secret name value value' hname hread =>
    rw [nameRead_eq hname] at hread
    have hmem := hlisted name value rfl hname hread
    rw [redactPart_listed hname hmem, redactPart_listed hname hmem]

/-- What is listed as it is written has the same text for every value. -/
theorem redactQuery_congr (h : List.Forall₂ (Alike names) (partsOf (queryOf s)) (partsOf (queryOf s')))
    (hlisted : ∀ name value, name ++ '=' :: value ∈ partsOf (queryOf s) → '=' ∉ name →
      Text.trim (String.ofList name) ∈ names → String.ofList name ∈ names) :
    redactQuery (queryOf s') names = redactQuery (queryOf s) names := by
  have hall : ∀ part ∈ partsOf (queryOf s), ∀ name value, part = name ++ '=' :: value → '=' ∉ name →
      Text.trim (String.ofList name) ∈ names → String.ofList name ∈ names := by
    intro part hpart name value he
    exact hlisted name value (he ▸ hpart)
  have heq : List.Forall₂ (fun part part' => redactPart names part = redactPart names part')
      (partsOf (queryOf s)) (partsOf (queryOf s')) :=
    ((List.forall₂_and_left ..).mpr ⟨hall, h⟩).imp fun part part' hp => (redactPart_alike hp.2 hp.1).symm
  have hparts : (partsOf (queryOf s)).map (redactPart names) = (partsOf (queryOf s')).map (redactPart names) := by
    rw [← List.forall₂_eq_eq_eq, List.forall₂_map_left_iff, List.forall₂_map_right_iff]
    exact heq
  exact congrArg (fun parts => String.ofList (Delimited.join '&' parts)) hparts.symm

/-! ## Longer values -/

/-- The request with one part of its query a letter longer. -/
theorem exists_longer {ps qs : List (List Char)} {part : List Char} (hparts : partsOf (queryOf s) = ps ++ part :: qs)
    (hne : queryOf s ≠ "") : ∃ uri : Uri, uri.scheme = s.reqHeader.uri.scheme ∧
      uri.authority = s.reqHeader.uri.authority ∧ uri.rawPath = s.reqHeader.uri.rawPath ∧ s.reqHeader.uri.query.isSome ∧
      ∃ query, uri.query = some query ∧ partsOf query = ps ++ (part ++ ['x']) :: qs := by
  obtain ⟨before, after, haround⟩ := Delimited.join_around '&' ps qs
  have hchars : (queryOf s).toList = before ++ part ++ after := by
    rw [← haround, ← hparts]
    exact (Text.join_splitChars _ _).symm
  cases hq : s.reqHeader.uri.query with
  | none =>
    refine absurd ?_ hne
    unfold queryOf
    rw [hq]
    rfl
  | some query =>
    have hquery : queryOf s = query := by
      unfold queryOf
      rw [hq]
      rfl
    have hgraphic : Graphic (String.ofList (before ++ (part ++ ['x']) ++ after)) := by
      intro c hc
      have hold : Graphic query := s.reqHeader.uri.graphic query (by simp [hq])
      rw [hquery] at hchars
      rw [String.toList_ofList] at hc
      have hmem : c ∈ before ++ part ++ after ∨ c = 'x' := by
        simp only [List.mem_append, List.mem_singleton] at hc ⊢
        grind
      obtain hmem | rfl := hmem
      · exact hold c (hchars ▸ hmem)
      · decide
    refine ⟨{ s.reqHeader.uri with
        query := some (String.ofList (before ++ (part ++ ['x']) ++ after))
        graphic := fun p hp => ?_ }, rfl, rfl, rfl, rfl, _, rfl, ?_⟩
    · have hold := s.reqHeader.uri.graphic
      simp only [List.mem_append, List.mem_cons, Option.mem_toList, Option.some.injEq] at hp hold
      obtain hp | rfl | rfl := hp
      · exact hold p (.inl hp)
      · exact hold _ (.inr (.inl rfl))
      · exact hgraphic
    · unfold partsOf
      rw [String.toList_ofList, ← haround]
      refine Text.splitChars_join (by simp) fun piece hpiece => ?_
      have hold : ∀ piece ∈ ps ++ part :: qs, '&' ∉ piece := fun piece hm =>
        Text.not_mem_of_mem_splitChars (hparts ▸ hm : piece ∈ partsOf (queryOf s))
      simp only [List.mem_append, List.mem_cons] at hpiece hold
      obtain hm | rfl | hm := hpiece
      · exact hold piece (.inl hm)
      · simpa using hold part (.inr (.inl rfl))
      · exact hold piece (.inr (.inr hm))

theorem length_pushEscaped_lt {ps qs : List (List Char)} {part : List Char} {query query' : String}
    (hparts : partsOf query = ps ++ part :: qs) (hparts' : partsOf query' = ps ++ (part ++ ['x']) :: qs)
    (hpart : redactPart names part = part) (hpart' : redactPart names (part ++ ['x']) = part ++ ['x']) :
    (pushEscaped "" (redactQuery query names)).length < (pushEscaped "" (redactQuery query' names)).length := by
  obtain ⟨before, after, haround⟩ := Delimited.join_around '&' (ps.map (redactPart names)) (qs.map (redactPart names))
  have hchars : ∀ {query : String} {p : List Char}, partsOf query = ps ++ p :: qs → redactPart names p = p →
      (redactQuery query names).toList = before ++ p ++ after := by
    intro query p hparts hp
    rw [← haround, ← hp, ← List.map_cons, ← List.map_append, ← hparts]
    exact String.toList_ofList
  have hx : (escaped 'x').length = 1 := by decide
  unfold pushEscaped
  rw [hchars hparts hpart, hchars hparts' hpart']
  simp [List.flatMap_append, hx]

/-- For every format, list and request: the line is the same for all values of the listed parameters and redaction keeps
the rest, just when the names of the query are listed as they are read. -/
theorem log_redaction_iff (logFormat : LogFormat) (names : List String) (s : LogSession) :
    ((∀ s', DifferInSecrets names s s' → logFormat.render s' names = logFormat.render s names) ∧ Kept names (queryOf s)) ↔
      SpelledAsRead logFormat names s := by
  constructor
  · rintro ⟨hline, hkept⟩
    refine ⟨fun hshows name value hpart hname hread => ?_, kept_iff.mp hkept⟩
    by_contra hlisted
    obtain ⟨ps, qs, hparts⟩ := List.append_of_mem hpart
    have hne : queryOf s ≠ "" := by
      intro hempty
      rw [hempty] at hpart
      simp [partsOf, Text.splitChars] at hpart
    obtain ⟨uri, hscheme, hauthority, hraw, hgiven, query, hquery, hparts'⟩ := exists_longer hparts hne
    have hqueryOf : queryOf { s with reqHeader := { s.reqHeader with uri } } = query := by
      unfold queryOf
      rw [hquery]
      rfl
    have hdiffer : DifferInSecrets names s { s with reqHeader := { s.reqHeader with uri } } := by
      refine ⟨⟨uri, rfl⟩, hscheme, hauthority, hraw, by rw [hquery, hgiven]; rfl, ?_⟩
      rw [hqueryOf, hparts, hparts']
      refine List.rel_append (List.forall₂_same.mpr fun part _ => .same part) (.cons ?_ ?_)
      · rw [List.append_assoc, List.cons_append]
        exact .secret name value _ hname (by rw [nameRead_eq hname]; exact hread)
      · exact List.forall₂_same.mpr fun part _ => .same part
    have hlt := length_line_lt hdiffer hshows (by
      rw [hqueryOf]
      refine length_pushEscaped_lt hparts hparts' (redactPart_other hname hlisted) ?_
      rw [List.append_assoc, List.cons_append]
      exact redactPart_other hname hlisted)
    rw [hline _ hdiffer] at hlt
    exact lt_irrefl _ hlt
  · intro h
    refine ⟨fun s' hdiffer => line_congr hdiffer fun hshows => ?_, kept_iff.mpr h.kept⟩
    exact redactQuery_congr hdiffer.parts (h.hidden hshows)

end

/-! ## A name with a blank -/

/-- A request for `/` with a query. -/
def queryRequest (query : String) (graphic : Graphic query) : LogSession where
  reqHeader :=
    { method := .get
      uri := { rawPath := "/", query := some query, graphic := by simpa [Graphic] using graphic }
      headers := [] }
  clientAddr := none
  serverAddr := none
  status := some 200
  isHttp2 := false
  bodyBytesSent := 0
  getStr _ := none
  requestId := none
  elapsedMs := 0
  error := none

/-- A token behind a blank is found by its lookup and written to the log. -/
theorem log_shows_blank_name :
    ¬∀ (logFormat : LogFormat) (names : List String) (s : LogSession),
      (∀ s', DifferInSecrets names s s' → logFormat.render s' names = logFormat.render s names) ∧ Kept names (queryOf s) := by
  intro h
  have hdiffer : DifferInSecrets ["token"] (queryRequest "\u00a0token=a" (by decide)) (queryRequest "\u00a0token=b" (by decide)) :=
    { rest := ⟨_, rfl⟩
      scheme := rfl
      authority := rfl
      rawPath := rfl
      given := rfl
      parts := .cons (.secret "\u00a0token".toList ['a'] ['b'] (by decide) (by decide +kernel)) .nil }
  exact absurd ((h ⟨"$query_string"⟩ _ _).1 _ hdiffer) (by decide +kernel)

end Pingsix.FileLogger
