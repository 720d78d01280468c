import Pingsix.Lib.Except
import Pingsix.Lib.HeaderFields
import Pingsix.Lib.Segments
import Pingsix.Request

/-!
# Soundness of credential removal

The request after a query parameter or a cookie has been removed, whether the
removal succeeds or not, against what is looked up in it. Removing a query
parameter builds the target anew from its path, so that an absolute one loses
its scheme and authority.
-/

namespace Pingsix

open HttpMessage

/-! ## The functions in place -/

/-- `remove_query_from_header` with the request as it leaves it. -/
def removeQueryInPlace (req : RequestHeader) (name : String) : RequestHeader × Except Unit Unit :=
  match req.uri.query with
  | some query =>
    let pairs := (splitPairs query '&').filter fun pair => pair.1 ≠ name
    let left := "&".intercalate (pairs.map pairText)
    let newPath := if left = "" then req.uri.path else req.uri.path ++ "?" ++ left
    match Uri.ofPathAndQuery newPath with
    | some uri => ({ req with uri }, .ok ())
    | none => (req, .error ())
  | none => (req, .ok ())

/-- Append the fields one after another, as far as they are header values. -/
def appendCookies (headers : HeaderMap) : List String → HeaderMap × ProxyResult Unit
  | [] => (headers, .ok ())
  | text :: texts =>
    match HeaderValue.ofString text with
    | some value => appendCookies (HeaderMap.append headers "cookie" value) texts
    | none => (headers, .error (.validationError "Failed to rebuild Cookie header: failed to parse header value"))

/-- `remove_cookie_from_header` with the request as it leaves it. -/
def removeCookieInPlace (req : RequestHeader) (cookieName : String) : RequestHeader × ProxyResult Unit :=
  let values := (HeaderMap.getAll req.headers "cookie").mapM fun value =>
    match value.toStr with
    | some text => Except.ok text
    | none => .error (ProxyError.validationError "Cookie header is not valid text")
  match values with
  | .error e => (req, .error e)
  | .ok values =>
    let retained := (values.map (retainedCookies cookieName)).filter (· ≠ "")
    let appended := appendCookies (HeaderMap.remove req.headers "cookie") retained
    ({ req with headers := appended.1 }, appended.2)

/-- The request of a successful run, or its error. -/
def resultOf {ε : Type} (run : RequestHeader × Except ε Unit) : Except ε RequestHeader := run.2.map fun _ => run.1

theorem removeQueryFromHeader_eq (req : RequestHeader) (name : String) :
    removeQueryFromHeader req name = resultOf (removeQueryInPlace req name) := by
  unfold removeQueryFromHeader removeQueryInPlace
  cases req.uri.query with
  | none => rfl
  | some query =>
    simp only
    generalize (if "&".intercalate (((splitPairs query '&').filter fun pair => pair.1 ≠ name).map pairText) = "" then
      req.uri.path else req.uri.path ++ "?" ++
        "&".intercalate (((splitPairs query '&').filter fun pair => pair.1 ≠ name).map pairText)) = newPath
    cases Uri.ofPathAndQuery newPath with
    | none => rfl
    | some uri => rfl

/-! ## Pairs -/

/-- What the pairs of a text are: trimmed, without the separator, the name without an equals sign. -/
structure CleanPair (sep : Char) (pair : String × String) : Prop where
  name_trimmed : Text.Trimmed pair.1
  value_trimmed : Text.Trimmed pair.2
  name_equals : '=' ∉ pair.1.toList
  name_sep : sep ∉ pair.1.toList
  value_sep : sep ∉ pair.2.toList

/-- A segment as a pair. -/
def pairOf (seg : String) : String × String :=
  match Text.splitOnce seg '=' with
  | some (n, v) => (Text.trim n, Text.trim v)
  | none => (seg, "")

theorem splitPairs_eq (s : String) (sep : Char) : splitPairs s sep = (Text.segments sep s).map pairOf := rfl

theorem splitOnce_eq_none {s : String} {c : Char} : Text.splitOnce s c = none ↔ c ∉ s.toList := by
  unfold Text.splitOnce
  rw [Option.map_eq_none_iff]
  generalize s.toList = l
  induction l with
  | nil => simp [Text.splitOnceChars]
  | cons x xs ih =>
    unfold Text.splitOnceChars
    by_cases hx : x = c
    · simp [hx]
    · rw [if_neg hx, Option.map_eq_none_iff, ih, List.mem_cons, not_or]
      exact ⟨fun h => ⟨Ne.symm hx, h⟩, fun h => h.2⟩

theorem cleanPair_splitPairs {s : String} {sep : Char} {pair : String × String} (h : pair ∈ splitPairs s sep) :
    CleanPair sep pair := by
  rw [splitPairs_eq] at h
  obtain ⟨seg, hseg, rfl⟩ := List.mem_map.mp h
  obtain ⟨cs, hcs, rfl⟩ := List.mem_map.mp (List.mem_filter.mp hseg).1
  have hsep : sep ∉ (Text.trim (String.ofList cs)).toList := fun hc =>
    Text.not_mem_of_mem_splitChars hcs (by simpa using trim_subset _ hc)
  unfold pairOf
  cases hs : Text.splitOnce (Text.trim (String.ofList cs)) '=' with
  | none =>
    exact ⟨Text.trimmed_trim _, Text.trimmed_empty, splitOnce_eq_none.mp hs, hsep, by simp⟩
  | some nv =>
    obtain ⟨n, v⟩ := nv
    obtain ⟨he, hn⟩ := Text.splitOnce_eq_some.mp hs
    have hmem : ∀ c, c ∈ n.toList ∨ c ∈ v.toList → c ∈ (Text.trim (String.ofList cs)).toList := fun c hc => by
      rw [he]
      simp only [String.toList_append, List.mem_append]
      exact hc.elim (fun h => .inl (.inl h)) .inr
    exact ⟨Text.trimmed_trim _, Text.trimmed_trim _, fun h => hn (trim_subset n h),
      fun h => hsep (hmem sep (.inl (trim_subset n h))), fun h => hsep (hmem sep (.inr (trim_subset v h)))⟩

theorem splitPairs_name_subset {s : String} {sep : Char} {pair : String × String} (h : pair ∈ splitPairs s sep) :
    pair.1.toList ⊆ s.toList := by
  rw [splitPairs_eq] at h
  obtain ⟨seg, hseg, rfl⟩ := List.mem_map.mp h
  obtain ⟨cs, hcs, rfl⟩ := List.mem_map.mp (List.mem_filter.mp hseg).1
  have hsub : (Text.trim (String.ofList cs)).toList ⊆ s.toList := fun c hc =>
    splitChars_subset hcs (by simpa using trim_subset _ hc)
  unfold pairOf
  cases hs : Text.splitOnce (Text.trim (String.ofList cs)) '=' with
  | none => exact hsub
  | some nv =>
    obtain ⟨n, v⟩ := nv
    obtain ⟨he, -⟩ := Text.splitOnce_eq_some.mp hs
    intro c hc
    refine hsub ?_
    rw [he]
    simp [trim_subset n hc]

theorem pairText_eq_empty {pair : String × String} : pairText pair = "" ↔ pair = ("", "") := by
  obtain ⟨n, v⟩ := pair
  unfold pairText
  by_cases hv : v = ""
  · simp [hv]
  · simp [hv]

theorem CleanPair.pairOf_pairText {sep : Char} {pair : String × String} (h : CleanPair sep pair) :
    pairOf (pairText pair) = pair := by
  obtain ⟨n, v⟩ := pair
  unfold pairText
  by_cases hv : v = ""
  · subst hv
    rw [if_pos rfl]
    unfold pairOf
    rw [splitOnce_eq_none.mpr h.name_equals]
  · rw [if_neg hv]
    have hs : Text.splitOnce (n ++ "=" ++ v) '=' = some (n, v) := Text.splitOnce_eq_some.mpr ⟨rfl, h.name_equals⟩
    unfold pairOf
    rw [hs]
    exact Prod.ext (Text.trim_of_trimmed h.name_trimmed) (Text.trim_of_trimmed h.value_trimmed)

theorem CleanPair.trimmed_pairText {sep : Char} {pair : String × String} (h : CleanPair sep pair) :
    Text.Trimmed (pairText pair) := by
  unfold pairText
  by_cases hv : pair.2 = ""
  · rw [if_pos hv]
    exact h.name_trimmed
  · rw [if_neg hv]
    have he : "=" = String.singleton '=' := String.toList_inj.mp (by simp)
    rw [he]
    exact Text.trimmed_append h.name_trimmed h.value_trimmed hv (by decide)

theorem mem_pairText {pair : String × String} {c : Char} (h : c ∈ (pairText pair).toList) :
    c ∈ pair.1.toList ∨ c = '=' ∨ c ∈ pair.2.toList := by
  unfold pairText at h
  by_cases hv : pair.2 = ""
  · rw [if_pos hv] at h
    exact .inl h
  · rw [if_neg hv] at h
    simpa [or_assoc] using h

theorem CleanPair.sep_pairText {sep : Char} {pair : String × String} (h : CleanPair sep pair) (hsep : sep ≠ '=') :
    sep ∉ (pairText pair).toList := fun hc =>
  (mem_pairText hc).elim h.name_sep fun hc => hc.elim hsep h.value_sep

/-- The joined texts of clean pairs have the pairs other than the one of two empty texts. -/
theorem splitPairs_intercalate {sep : Char} {blank : String} {pairs : List (String × String)}
    (hb : ∀ c ∈ blank.toList, Text.isWhitespace c = true) (hw : Text.isWhitespace sep = false) (he : sep ≠ '=')
    (h : ∀ pair ∈ pairs, CleanPair sep pair) :
    splitPairs ((String.singleton sep ++ blank).intercalate (pairs.map pairText)) sep = pairs.filter (· ≠ ("", "")) := by
  have hts : ∀ t ∈ pairs.map pairText, Text.Trimmed t ∧ sep ∉ t.toList := by
    intro t ht
    obtain ⟨pair, hp, rfl⟩ := List.mem_map.mp ht
    exact ⟨(h pair hp).trimmed_pairText, (h pair hp).sep_pairText he⟩
  have hseg := @Text.segments_intercalate sep blank hb hw (pairs.map pairText) "" (by simp) hts
  rw [String.empty_append] at hseg
  rw [splitPairs_eq, hseg]
  clear hseg hts
  induction pairs with
  | nil => rfl
  | cons pair pairs ih =>
    have ih := ih fun p hp => h p (List.mem_cons_of_mem _ hp)
    by_cases hp : pair = ("", "")
    · simpa [hp, pairText] using ih
    · have ht : pairText pair ≠ "" := mt pairText_eq_empty.mp hp
      rw [List.map_cons, List.filter_cons_of_pos (by simpa using ht), List.filter_cons_of_pos (by simpa using hp),
        List.map_cons, ih, (h pair (by simp)).pairOf_pairText]

theorem forall_mem_pairTexts {P : Char → Prop} {joiner s : String} {sep : Char} (hj : ∀ c ∈ joiner.toList, P c)
    (he : P '=') (hs : ∀ c ∈ s.toList, P c) (keep : String × String → Bool) :
    ∀ c ∈ (joiner.intercalate (((splitPairs s sep).filter keep).map pairText)).toList, P c := by
  refine Text.forall_mem_intercalate hj fun t ht c hc => ?_
  obtain ⟨pair, hp, rfl⟩ := List.mem_map.mp ht
  have hp := (List.mem_filter.mp hp).1
  obtain hc | rfl | hc := mem_pairText hc
  · exact hs c (splitPairs_name_subset hp hc)
  · exact he
  · exact hs c (splitPairs_subset hp hc)

/-! ## Lookups after removal -/

/-- The first value of a name. -/
def lookupPair (pairs : List (String × String)) (name : String) : Option String :=
  (pairs.find? fun pair => pair.1 = name).map (·.2)

/-- What is left of pairs that were joined and taken apart again. -/
def pairsLeft (name : String) (pairs : List (String × String)) : List (String × String) :=
  pairs.filter fun pair => pair.1 ≠ name ∧ pair ≠ ("", "")

theorem lookupPair_pairsLeft_self (name : String) (pairs : List (String × String)) :
    lookupPair (pairsLeft name pairs) name = none := by
  unfold lookupPair
  rw [Option.map_eq_none_iff, List.find?_eq_none]
  intro pair hp
  have hkeep := (List.mem_filter.mp hp).2
  simp only [ne_eq, decide_not, Bool.decide_and, Bool.and_eq_true, Bool.not_eq_eq_eq_not, Bool.not_true,
    decide_eq_false_iff_not] at hkeep
  simpa using hkeep.1

theorem lookupPair_pairsLeft_of_ne {name other : String} (hne : other ≠ name) (hempty : other ≠ "")
    (pairs : List (String × String)) : lookupPair (pairsLeft name pairs) other = lookupPair pairs other := by
  unfold lookupPair pairsLeft
  induction pairs with
  | nil => rfl
  | cons pair pairs ih =>
    by_cases ho : pair.1 = other
    · have hkeep : pair.1 ≠ name ∧ pair ≠ ("", "") := ⟨ho ▸ hne, fun h => hempty (by rw [← ho, h])⟩
      rw [List.filter_cons_of_pos (by simpa using hkeep), List.find?_cons_of_pos (by simpa using ho),
        List.find?_cons_of_pos (by simpa using ho)]
    · rw [List.find?_cons_of_neg (by simpa using ho), ← ih]
      by_cases hkeep : pair.1 ≠ name ∧ pair ≠ ("", "")
      · rw [List.filter_cons_of_pos (by simpa using hkeep), List.find?_cons_of_neg (by simpa using ho)]
      · rw [List.filter_cons_of_neg (by simpa using hkeep)]

/-- The pairs of a text whose pairs of the name were removed. -/
theorem splitPairs_removed (name s blank : String) {sep : Char} (hb : ∀ c ∈ blank.toList, Text.isWhitespace c = true)
    (hw : Text.isWhitespace sep = false) (he : sep ≠ '=') :
    splitPairs ((String.singleton sep ++ blank).intercalate
      (((splitPairs s sep).filter fun pair => pair.1 ≠ name).map pairText)) sep = pairsLeft name (splitPairs s sep) := by
  rw [splitPairs_intercalate hb hw he fun pair hp => cleanPair_splitPairs (List.mem_filter.mp hp).1, List.filter_filter]
  unfold pairsLeft
  refine List.filter_congr fun pair _ => ?_
  simp [Bool.and_comm]

/-! ## Query parameters -/

def queryPairs (req : RequestHeader) : List (String × String) := (req.uri.query.map (splitPairs · '&')).getD []

theorem getQueryValue_eq (req : RequestHeader) (name : String) : getQueryValue req name = lookupPair (queryPairs req) name := by
  unfold getQueryValue queryPairs lookupPair
  cases req.uri.query with
  | none => rfl
  | some query => rfl

/-- The target is a path from a slash on, and maybe a query. -/
structure OriginForm (uri : Uri) : Prop where
  scheme : uri.scheme = none
  authority : uri.authority = none
  path : Text.startsWith uri.rawPath "/" = true
  question : '?' ∉ uri.rawPath.toList

/-- The target is a scheme, an authority, a path that may be empty, and maybe a query. -/
structure AbsoluteForm (uri : Uri) : Prop where
  scheme : uri.scheme ≠ none
  authority : uri.authority ≠ none
  path : uri.rawPath = "" ∨ Text.startsWith uri.rawPath "/" = true
  question : '?' ∉ uri.rawPath.toList

theorem path_of_startsWith {uri : Uri} (h : Text.startsWith uri.rawPath "/" = true) : uri.path = uri.rawPath := by
  obtain ⟨rest, hr⟩ := Text.startsWith_iff.mp h
  have hne : uri.rawPath ≠ "" := fun h => by simp [h] at hr
  unfold Uri.path Uri.data
  rw [if_neg (fun h => hne (by simpa using (String.append_eq_empty_iff.mp h.1).1)), if_neg hne]

/-- The path of a target of either form starts with a slash and has no question mark. -/
theorem path_of_form {uri : Uri} (h : OriginForm uri ∨ AbsoluteForm uri) :
    Text.startsWith uri.path "/" = true ∧ '?' ∉ uri.path.toList ∧ Graphic uri.path := by
  have hraw : Graphic uri.rawPath := uri.graphic _ (by simp)
  have hpath : Text.startsWith uri.rawPath "/" = true → '?' ∉ uri.rawPath.toList →
      Text.startsWith uri.path "/" = true ∧ '?' ∉ uri.path.toList ∧ Graphic uri.path := fun hp hq => by
    rw [path_of_startsWith hp]
    exact ⟨hp, hq, hraw⟩
  cases h with
  | inl h => exact hpath h.path h.question
  | inr h =>
    cases h.path with
    | inr hp => exact hpath hp h.question
    | inl hp =>
      have hslash : uri.path = "/" := by
        unfold Uri.path
        rw [if_neg (fun hn => h.scheme hn.2), if_pos hp]
      rw [hslash]
      exact ⟨by decide, by decide, by decide⟩

/-- The target built from a path and a query has these, and neither a scheme nor an authority. -/
theorem ofPathAndQuery_path {path left : String} (hp : Text.startsWith path "/" = true) (hq : '?' ∉ path.toList)
    (hg : Graphic path) (hl : Graphic left) :
    ∃ uri, Uri.ofPathAndQuery (if left = "" then path else path ++ "?" ++ left) = some uri ∧ uri.scheme = none ∧
      uri.authority = none ∧ uri.rawPath = path ∧ uri.query = if left = "" then none else some left := by
  have hkeep : ∀ c ∈ path.toList, decide (c ≠ '?') = true := fun c hc => by
    simpa using fun e : c = '?' => hq (e ▸ hc)
  by_cases he : left = ""
  · rw [if_pos he, if_pos he]
    unfold Uri.ofPathAndQuery
    rw [dif_pos ⟨hp, hg⟩]
    refine ⟨_, rfl, rfl, rfl, ?_, ?_⟩
    · show String.ofList (path.toList.takeWhile _) = path
      rw [List.takeWhile_eq_self_iff.mpr hkeep, String.ofList_toList]
    · dsimp only
      rw [List.dropWhile_eq_nil_iff.mpr hkeep]
  · rw [if_neg he, if_neg he]
    obtain ⟨rest, hr⟩ := Text.startsWith_iff.mp hp
    have hstart : Text.startsWith (path ++ "?" ++ left) "/" = true :=
      Text.startsWith_iff.mpr ⟨rest ++ "?" ++ left, by rw [hr]; simp only [String.append_assoc]⟩
    have hgraphic : Graphic (path ++ "?" ++ left) := by
      intro c hc
      rw [String.toList_append, String.toList_append, List.mem_append, List.mem_append] at hc
      refine hc.elim (fun hc => hc.elim (hg c) fun hc => ?_) (hl c)
      cases List.mem_singleton.mp (show c ∈ ['?'] by simpa using hc)
      decide
    have hlist : (path ++ "?" ++ left).toList = path.toList ++ '?' :: left.toList := by simp [String.toList_append]
    unfold Uri.ofPathAndQuery
    rw [dif_pos ⟨hstart, hgraphic⟩]
    refine ⟨_, rfl, rfl, rfl, ?_, ?_⟩
    · show String.ofList ((path ++ "?" ++ left).toList.takeWhile _) = path
      rw [hlist, List.takeWhile_append_of_pos hkeep, List.takeWhile_cons_of_neg (by simp), List.append_nil,
        String.ofList_toList]
    · dsimp only
      rw [hlist, List.dropWhile_append_of_pos hkeep, List.dropWhile_cons_of_neg (by simp)]
      simp

theorem rawPath_of_form {uri left : Uri} (h : OriginForm uri) (hl : left.rawPath = uri.path) : left.path = uri.path := by
  rw [path_of_startsWith h.path] at hl ⊢
  rw [path_of_startsWith (hl.symm ▸ h.path), hl]

/-- What the query is rebuilt from. -/
theorem joinedQuery (name query : String) (hq : Graphic query) :
    let left := "&".intercalate (((splitPairs query '&').filter fun pair => pair.1 ≠ name).map pairText)
    Graphic left ∧ splitPairs left '&' = pairsLeft name (splitPairs query '&') := by
  have hamp : Graphic "&" := by decide
  refine ⟨forall_mem_pairTexts hamp (by decide) hq _, ?_⟩
  have hjoin : "&" = String.singleton '&' ++ "" := String.toList_inj.mp (by simp)
  rw [hjoin]
  exact splitPairs_removed name query "" (by simp) (by decide) (by decide)

/-- Removing from a target of either form succeeds, and builds the target from the path and the pairs left. -/
theorem removeQueryInPlace_of_query {req : RequestHeader} {name query : String}
    (hform : OriginForm req.uri ∨ AbsoluteForm req.uri) (hq : req.uri.query = some query) :
    ∃ uri, removeQueryInPlace req name = ({ req with uri }, .ok ()) ∧ uri.scheme = none ∧ uri.authority = none ∧
      uri.rawPath = req.uri.path ∧ queryPairs { req with uri } = pairsLeft name (queryPairs req) := by
  obtain ⟨hstart, hquestion, hgraphic⟩ := path_of_form hform
  obtain ⟨hleft, hpairs⟩ := joinedQuery name query (req.uri.graphic query (by simp [hq]))
  obtain ⟨uri, huri, hscheme, hauthority, hpath, hquery⟩ := ofPathAndQuery_path hstart hquestion hgraphic hleft
  refine ⟨uri, ?_, hscheme, hauthority, hpath, ?_⟩
  · unfold removeQueryInPlace
    rw [hq]
    simp only
    rw [huri]
  · unfold queryPairs
    rw [hq, Option.map_some, Option.getD_some, ← hpairs]
    show (uri.query.map (splitPairs · '&')).getD [] = _
    rw [hquery]
    by_cases he : "&".intercalate (((splitPairs query '&').filter fun pair => pair.1 ≠ name).map pairText) = ""
    · have hnil : splitPairs "" '&' = [] := by decide
      rw [if_pos he, he, hnil]
      rfl
    · rw [if_neg he, Option.map_some, Option.getD_some]

theorem removeQueryInPlace_of_no_query {req : RequestHeader} {name : String} (hq : req.uri.query = none) :
    removeQueryInPlace req name = (req, .ok ()) := by
  unfold removeQueryInPlace
  rw [hq]

/-- What the removal of a query parameter should leave. -/
structure QueryRemoved (name : String) (req left : RequestHeader) : Prop where
  gone : getQueryValue left name = none
  others : ∀ other, other ≠ "" → other ≠ name → getQueryValue left other = getQueryValue req other
  order : queryPairs left = (queryPairs req).filter fun pair => pair.1 ≠ name ∧ pair ≠ ("", "")
  path : left.uri.path = req.uri.path
  scheme : left.uri.scheme = req.uri.scheme
  authority : left.uri.authority = req.uri.authority
  host : getRequestHost left = getRequestHost req
  method : left.method = req.method
  headers : left.headers = req.headers

/-- On a target without scheme and authority, nothing else changes. -/
theorem queryRemoved_of_eq {req left : RequestHeader} {name : String} (hpairs : queryPairs left = pairsLeft name (queryPairs req))
    (hpath : left.uri.path = req.uri.path) (hscheme : left.uri.scheme = req.uri.scheme)
    (hauthority : left.uri.authority = req.uri.authority) (hmethod : left.method = req.method)
    (hheaders : left.headers = req.headers) : QueryRemoved name req left where
  gone := by rw [getQueryValue_eq, hpairs, lookupPair_pairsLeft_self]
  others other hempty hne := by rw [getQueryValue_eq, hpairs, lookupPair_pairsLeft_of_ne hne hempty, getQueryValue_eq]
  order := hpairs
  path := hpath
  scheme := hscheme
  authority := hauthority
  host := by
    unfold getRequestHost getReqHeaderValue Uri.host
    rw [hauthority, hheaders]
  method := hmethod
  headers := hheaders

theorem queryRemoved_origin {req : RequestHeader} {name : String} (hform : OriginForm req.uri) :
    ∃ left, removeQueryInPlace req name = (left, .ok ()) ∧ QueryRemoved name req left := by
  cases hq : req.uri.query with
  | none =>
    refine ⟨req, removeQueryInPlace_of_no_query hq, queryRemoved_of_eq ?_ rfl rfl rfl rfl rfl⟩
    unfold queryPairs
    rw [hq]
    rfl
  | some query =>
    obtain ⟨uri, hrun, hscheme, hauthority, hpath, hpairs⟩ := @removeQueryInPlace_of_query _ name _ (.inl hform) hq
    exact ⟨{ req with uri }, hrun, queryRemoved_of_eq hpairs (rawPath_of_form hform hpath) (hscheme.trans hform.scheme.symm)
      (hauthority.trans hform.authority.symm) rfl rfl⟩

theorem queryRemoved_no_query {req : RequestHeader} {name : String} (hq : req.uri.query = none) : QueryRemoved name req req :=
  queryRemoved_of_eq (by unfold queryPairs; rw [hq]; rfl) rfl rfl rfl rfl rfl

/-! ## Cookies -/

def cookiePairs (headers : HeaderMap) : List (String × String) :=
  (HeaderMap.getAll headers "cookie").flatMap fun value => (value.toStr.map (splitPairs · ';')).getD []

theorem getCookieValue_eq (req : RequestHeader) (name : String) :
    getCookieValue req name = lookupPair (cookiePairs req.headers) name := rfl

theorem removeCookieFromHeader_eq (req : RequestHeader) (cookieName : String) :
    removeCookieFromHeader req cookieName = resultOf (removeCookieInPlace req cookieName) := by
  have hfold : ∀ (texts : List String) (headers : HeaderMap), (texts.foldlM (fun headers text =>
      match HeaderValue.ofString text with
      | some value => Except.ok (HeaderMap.append headers "cookie" value)
      | none => .error (ProxyError.validationError "Failed to rebuild Cookie header: failed to parse header value"))
      headers) = (appendCookies headers texts).2.map fun _ => (appendCookies headers texts).1 := by
    intro texts
    induction texts with
    | nil => exact fun _ => rfl
    | cons text texts ih =>
      intro headers
      unfold appendCookies
      rw [List.foldlM_cons]
      cases HeaderValue.ofString text with
      | none => rfl
      | some value => exact ih _
  unfold removeCookieFromHeader removeCookieInPlace
  simp only
  cases (HeaderMap.getAll req.headers "cookie").mapM fun value =>
    match value.toStr with
    | some text => Except.ok text
    | none => .error (ProxyError.validationError "Cookie header is not valid text") with
  | error e => rfl
  | ok values =>
    refine (congrArg (fun run => Except.bind run fun headers => .ok { req with headers }) (hfold _ _)).trans ?_
    simp only
    generalize appendCookies (HeaderMap.remove req.headers "cookie") _ = appended
    obtain ⟨headers, result⟩ := appended
    cases result with
    | error e => rfl
    | ok u => rfl

/-- Texts of visible characters are all appended. -/
theorem appendCookies_visible : ∀ {texts : List String} (headers : HeaderMap), (∀ t ∈ texts, ∀ c ∈ t.toList, Visible c) →
    ∃ appended, appendCookies headers texts = (appended, .ok ()) ∧
      HeaderMap.remove appended "cookie" = HeaderMap.remove headers "cookie" ∧
      cookiePairs appended = cookiePairs headers ++ texts.flatMap (splitPairs · ';')
  | [], headers, _ => ⟨headers, rfl, rfl, by simp⟩
  | text :: texts, headers, h => by
    obtain ⟨value, hvalue, htext⟩ := HeaderValue.ofString_of_visible (h text (by simp))
    obtain ⟨appended, hrun, hremove, hpairs⟩ := appendCookies_visible (HeaderMap.append headers "cookie" value)
      fun t ht => h t (List.mem_cons_of_mem _ ht)
    refine ⟨appended, ?_, hremove.trans (HeaderMap.remove_append_self headers "cookie" value), ?_⟩
    · unfold appendCookies
      rw [hvalue]
      exact hrun
    · rw [hpairs]
      unfold cookiePairs
      rw [HeaderMap.getAll_append_self, List.flatMap_append, List.append_assoc]
      simp [htext]

/-- The cookies left of a field are of visible characters and have the pairs left. -/
theorem retainedCookies_spec (name : String) {value : String} (hv : ∀ c ∈ value.toList, Visible c) :
    (∀ c ∈ (retainedCookies name value).toList, Visible c) ∧
      splitPairs (retainedCookies name value) ';' = pairsLeft name (splitPairs value ';') := by
  have hjoin : "; " = String.singleton ';' ++ " " := String.toList_inj.mp (by simp)
  refine ⟨?_, ?_⟩
  · refine forall_mem_pairTexts (fun c hc => ?_) ⟨by decide, .inl (by decide)⟩ hv _
    rw [hjoin, String.toList_append, String.toList_singleton] at hc
    have hc : c = ';' ∨ c = ' ' := by simpa using hc
    obtain rfl | rfl := hc
    · exact ⟨by decide, .inl (by decide)⟩
    · exact ⟨by decide, .inl (by decide)⟩
  · unfold retainedCookies
    rw [hjoin]
    exact splitPairs_removed name value " " (by simp; decide) (by decide) (by decide)

theorem flatMap_filter_nonempty : ∀ texts : List String,
    (texts.filter (· ≠ "")).flatMap (splitPairs · ';') = texts.flatMap (splitPairs · ';')
  | [] => rfl
  | text :: texts => by
    have ih := flatMap_filter_nonempty texts
    by_cases ht : text = ""
    · subst ht
      have hnil : splitPairs "" ';' = [] := by decide
      rw [List.filter_cons_of_neg (by simp), ih, List.flatMap_cons, hnil, List.nil_append]
    · rw [List.filter_cons_of_pos (by simpa using ht), List.flatMap_cons, List.flatMap_cons, ih]

theorem pairsLeft_flatMap (name : String) (f : String → List (String × String)) (texts : List String) :
    pairsLeft name (texts.flatMap f) = texts.flatMap fun text => pairsLeft name (f text) := by
  unfold pairsLeft
  rw [List.filter_flatMap]

/-- What the removal of a cookie should leave. -/
structure CookieRemoved (name : String) (req left : RequestHeader) : Prop where
  gone : getCookieValue left name = none
  others : ∀ other, other ≠ "" → other ≠ name → getCookieValue left other = getCookieValue req other
  order : cookiePairs left.headers = (cookiePairs req.headers).filter fun pair => pair.1 ≠ name ∧ pair ≠ ("", "")
  uri : left.uri = req.uri
  host : getRequestHost left = getRequestHost req
  method : left.method = req.method
  headers : HeaderMap.remove left.headers "cookie" = HeaderMap.remove req.headers "cookie"

/-- The host is read from the target and from headers other than the cookies. -/
theorem getRequestHost_congr {req left : RequestHeader} (huri : left.uri = req.uri)
    (hheaders : HeaderMap.remove left.headers "cookie" = HeaderMap.remove req.headers "cookie") :
    getRequestHost left = getRequestHost req := by
  have hhost : HeaderMap.getAll left.headers "host" = HeaderMap.getAll req.headers "host" := by
    rw [← HeaderMap.getAll_remove_of_ne (show Text.toAsciiLowercase "host" ≠ Text.toAsciiLowercase "cookie" by decide), hheaders,
      HeaderMap.getAll_remove_of_ne (by decide)]
  unfold getRequestHost getReqHeaderValue HeaderMap.get
  rw [huri, hhost]

/-- The values of readable fields, and the pairs in them. -/
theorem cookiePairs_of_values {headers : HeaderMap} {values : List String}
    (h : List.Forall₂ (fun (value : HeaderValue) text => value.toStr = some text) (HeaderMap.getAll headers "cookie") values) :
    (∀ text ∈ values, ∀ c ∈ text.toList, Visible c) ∧ cookiePairs headers = values.flatMap (splitPairs · ';') := by
  unfold cookiePairs
  generalize HeaderMap.getAll headers "cookie" = fields at h
  induction h with
  | nil => exact ⟨by simp, rfl⟩
  | cons hv _ ih =>
    refine ⟨?_, ?_⟩
    · intro text ht
      cases ht with
      | head => exact HeaderValue.visible_of_toStr hv
      | tail _ ht => exact ih.1 text ht
    · rw [List.flatMap_cons, List.flatMap_cons, ih.2, hv]
      rfl

/-- Fields that were all read are text. -/
theorem readable_of_mapM {fields : List HeaderValue} {values : List String}
    (h : (fields.mapM fun value =>
      match value.toStr with
      | some text => Except.ok text
      | none => .error (ProxyError.validationError "Cookie header is not valid text")) = .ok values) :
    List.Forall₂ (fun (value : HeaderValue) text => value.toStr = some text) fields values := by
  refine (Except.mapM_eq_ok.mp h).imp fun value text hv => ?_
  cases ht : value.toStr with
  | none =>
    rw [ht] at hv
    cases hv
  | some text' =>
    rw [ht] at hv
    cases hv
    rfl

theorem mapM_isOk_of_readable {fields : List HeaderValue} (h : ∀ value ∈ fields, value.toStr.isSome = true) :
    ∃ values, (fields.mapM fun value =>
      match value.toStr with
      | some text => Except.ok text
      | none => .error (ProxyError.validationError "Cookie header is not valid text")) = .ok values := by
  refine Except.mapM_isOk.mpr fun value hv => ?_
  obtain ⟨text, ht⟩ := Option.isSome_iff_exists.mp (h value hv)
  exact ⟨text, by rw [ht]⟩

/-- The removal succeeds when every field can be read, and changes nothing else. -/
theorem cookieRemoved_of_values {req : RequestHeader} {name : String} {values : List String}
    (h : List.Forall₂ (fun (value : HeaderValue) text => value.toStr = some text) (HeaderMap.getAll req.headers "cookie") values) :
    ∃ appended, appendCookies (HeaderMap.remove req.headers "cookie") ((values.map (retainedCookies name)).filter (· ≠ "")) =
      (appended, .ok ()) ∧ CookieRemoved name req { req with headers := appended } := by
  obtain ⟨hvisible, hpairs⟩ := cookiePairs_of_values h
  have hretained : ∀ text ∈ (values.map (retainedCookies name)).filter (· ≠ ""), ∀ c ∈ text.toList, Visible c := by
    intro text ht
    obtain ⟨value, hv, rfl⟩ := List.mem_map.mp (List.mem_filter.mp ht).1
    exact (retainedCookies_spec name (hvisible value hv)).1
  obtain ⟨appended, hrun, hremove, hleft⟩ := appendCookies_visible (HeaderMap.remove req.headers "cookie") hretained
  have hnone : cookiePairs (HeaderMap.remove req.headers "cookie") = [] := by
    unfold cookiePairs
    rw [HeaderMap.getAll_remove_self, List.flatMap_nil]
  have hkept : cookiePairs appended = pairsLeft name (cookiePairs req.headers) := by
    rw [hleft, hnone, List.nil_append, flatMap_filter_nonempty, hpairs, pairsLeft_flatMap, List.flatMap_map]
    exact List.flatMap_congr fun value hv => (retainedCookies_spec name (hvisible value hv)).2
  have hheaders := hremove.trans (HeaderMap.remove_remove_self req.headers "cookie")
  exact ⟨appended, hrun, {
    gone := by rw [getCookieValue_eq, hkept, lookupPair_pairsLeft_self]
    others := fun other hempty hne => by
      rw [getCookieValue_eq, hkept, lookupPair_pairsLeft_of_ne hne hempty, getCookieValue_eq]
    order := hkept
    uri := rfl
    host := getRequestHost_congr rfl hheaders
    method := rfl
    headers := hheaders }⟩

/-- A removal either leaves what it should or, when it fails, the request as it was. -/
def Leaves {ε : Type} (removed : RequestHeader → Prop) (req : RequestHeader) (run : RequestHeader × Except ε Unit) : Prop :=
  (run.2 = .ok () → removed run.1) ∧ ∀ e, run.2 = .error e → run.1 = req

theorem leaves_removeCookieInPlace (req : RequestHeader) (name : String) :
    Leaves (CookieRemoved name req) req (removeCookieInPlace req name) := by
  unfold removeCookieInPlace
  simp only
  cases hvalues : (HeaderMap.getAll req.headers "cookie").mapM fun value =>
    match value.toStr with
    | some text => Except.ok text
    | none => .error (ProxyError.validationError "Cookie header is not valid text") with
  | error e => exact ⟨nofun, fun _ _ => rfl⟩
  | ok values =>
    obtain ⟨appended, hrun, hremoved⟩ := @cookieRemoved_of_values _ name _ (readable_of_mapM hvalues)
    simp only
    rw [hrun]
    exact ⟨fun _ => hremoved, nofun⟩

/-! ## The two removals -/

/-- Removing the name as a query parameter and as a cookie agrees with looking it up, and touches nothing else. -/
def RemovalAgrees (req : RequestHeader) (name : String) : Prop :=
  Leaves (QueryRemoved name req) req (removeQueryInPlace req name) ∧
    Leaves (CookieRemoved name req) req (removeCookieInPlace req name)

/-- Exactly the targets of a scheme, an authority and a query lose the first two. -/
theorem removalAgrees_iff (req : RequestHeader) (name : String) (hform : OriginForm req.uri ∨ AbsoluteForm req.uri) :
    RemovalAgrees req name ↔ ¬(AbsoluteForm req.uri ∧ req.uri.query ≠ none) := by
  constructor
  · rintro ⟨hquery, -⟩ ⟨habsolute, hq⟩
    obtain ⟨query, hq⟩ := Option.ne_none_iff_exists'.mp hq
    obtain ⟨uri, hrun, hscheme, -⟩ := @removeQueryInPlace_of_query _ name _ (.inr habsolute) hq
    rw [hrun] at hquery
    have hleft : QueryRemoved name req { req with uri } := hquery.1 rfl
    exact habsolute.scheme (hleft.scheme.symm.trans hscheme)
  · intro h
    refine ⟨?_, leaves_removeCookieInPlace req name⟩
    cases hform with
    | inl horigin =>
      obtain ⟨left, hrun, hremoved⟩ := @queryRemoved_origin _ name horigin
      rw [hrun]
      exact ⟨fun _ => hremoved, nofun⟩
    | inr habsolute =>
      have hq : req.uri.query = none := Classical.not_not.mp fun hq => h ⟨habsolute, hq⟩
      rw [removeQueryInPlace_of_no_query hq]
      exact ⟨fun _ => queryRemoved_no_query hq, nofun⟩

/-- A target with a scheme and an authority, and a `Host` header of another name. -/
def absoluteRequest : RequestHeader where
  method := .get
  uri := {
    scheme := some "http"
    authority := some "a.example"
    rawPath := "/p"
    query := some "key=1&x=2"
    graphic := by decide }
  headers := [("host", ⟨"b.example".toUTF8.data.toList, List.all_eq_true.mp (by decide)⟩)]

theorem removalAgrees_iff_origin :
    ¬(AbsoluteForm { absoluteRequest.uri with scheme := none, authority := none, graphic := by decide } ∧
      absoluteRequest.uri.query ≠ none) ∧
    RemovalAgrees { absoluteRequest with
      uri := { absoluteRequest.uri with scheme := none, authority := none, graphic := by decide } } "key" := by
  have horigin : ¬(AbsoluteForm { absoluteRequest.uri with scheme := none, authority := none, graphic := by decide } ∧
      absoluteRequest.uri.query ≠ none) := fun h => h.1.scheme rfl
  exact ⟨horigin, (removalAgrees_iff _ "key" (.inl ⟨rfl, rfl, by decide, by decide⟩)).mpr horigin⟩

/-- The host of the request becomes that of the header. -/
theorem removeQueryInPlace_loses_host :
    getRequestHost absoluteRequest = some "a.example" ∧
      (removeQueryInPlace absoluteRequest "key").2 = .ok () ∧
      getRequestHost (removeQueryInPlace absoluteRequest "key").1 = some "b.example" ∧
      ¬RemovalAgrees absoluteRequest "key" := by
  have hbefore : getRequestHost absoluteRequest = some "a.example" := by decide
  have hok : (removeQueryInPlace absoluteRequest "key").2 = .ok () := by decide
  have hafter : getRequestHost (removeQueryInPlace absoluteRequest "key").1 = some "b.example" := by decide
  refine ⟨hbefore, hok, hafter, fun h => ?_⟩
  have hhost := (h.1.1 hok).host
  rw [hbefore, hafter] at hhost
  exact absurd hhost (by decide)

end Pingsix
