import Pingsix.Redirect
import Pingsix.RemovalSound

/-!
# Soundness of redirects

Where the redirect plugin sends a request: to the expanded target, read as a path
and a query of its own, after the scheme and the authority of the request.
-/

namespace Pingsix

open HttpMessage

/-! ## Rewritten paths -/

/-- The first pattern that matches decides. -/
theorem applyRegexUriTemplate_first {isDigit : Char → Bool} {uri : String} {re : CaptureRegex} {template : String}
    {captures : Captures} {before after : List (CaptureRegex × String)} (hbefore : ∀ q ∈ before, q.1 uri = none)
    (hm : re uri = some captures) :
    applyRegexUriTemplate isDigit uri (before ++ (re, template) :: after) = substituted isDigit captures template := by
  induction before with
  | nil =>
    rw [List.nil_append, applyRegexUriTemplate, hm]
  | cons q before ih =>
    obtain ⟨hq, hrest⟩ := List.forall_mem_cons.mp hbefore
    rw [List.cons_append, applyRegexUriTemplate, hq]
    exact ih hrest

theorem applyRegexUriTemplate_none {isDigit : Char → Bool} {uri : String} : ∀ {patterns : List (CaptureRegex × String)},
    (∀ q ∈ patterns, q.1 uri = none) → applyRegexUriTemplate isDigit uri patterns = uri
  | [], _ => rfl
  | q :: patterns, h => by
    obtain ⟨hq, hrest⟩ := List.forall_mem_cons.mp h
    rw [applyRegexUriTemplate, hq]
    exact applyRegexUriTemplate_none hrest

namespace Redirect

/-! ## Percent-encoded paths -/

/-- The shown text stands for the same bytes, and nothing in it is left to encode. -/
structure Encodes (path shown : String) : Prop where
  same : PercentEncoding.decode shown.toUTF8.data.toList = PercentEncoding.decode path.toUTF8.data.toList
  complete : PercentEncoding.encode keptInPath shown.toUTF8.data.toList = shown.toUTF8.data.toList

/-- The bytes of the shown text: all of them are ASCII. -/
theorem bytes_encodeUriSafePath (path : String) :
    (encodeUriSafePath path).toUTF8.data.toList = PercentEncoding.encode keptInPath path.toUTF8.data.toList := by
  have hkeep : ∀ b, keptInPath b = true → 0 < b.toNat ∧ b.toNat < 0x80 := by
    intro b hb
    simp only [keptInPath, Bool.or_eq_true, Bool.and_eq_true, decide_eq_true_eq, UInt8.le_iff_toNat_le, beq_iff_eq,
      ← UInt8.toNat_inj, UInt8.reduceToNat] at hb
    omega
  have hdigit : ∀ b, (PercentEncoding.hexValue b).isSome = true → 0 < b.toNat ∧ b.toNat < 0x80 := by
    intro b hb
    unfold PercentEncoding.hexValue at hb
    split at hb
    · omega
    · split at hb
      · omega
      · split at hb
        · omega
        · cases hb
  exact Utf8.toUTF8_of_ascii (PercentEncoding.forall_mem_encodeFrom hkeep (by decide) hdigit _ 0 nofun)

theorem encodeUriSafePath_encodes (path : String) : Encodes path (encodeUriSafePath path) := by
  constructor
  · rw [bytes_encodeUriSafePath, PercentEncoding.decode_encode (by decide)]
  · rw [bytes_encodeUriSafePath, PercentEncoding.encode_encode (by decide)]

/-- The unreserved characters, and the slash. -/
def PathChar (c : Char) : Prop := c.isAlphanum = true ∨ c ∈ ['-', '.', '_', '~', '/']

def HexChar (c : Char) : Prop := c ∈ "0123456789ABCDEFabcdef".toList

/-- Text of unreserved characters, slashes and `%` with two hexadecimal digits. -/
inductive SafePath : List Char → Prop
  | nil : SafePath []
  | plain {c : Char} {rest : List Char} : PathChar c → SafePath rest → SafePath (c :: rest)
  | escape {high low : Char} {rest : List Char} : HexChar high → HexChar low → SafePath rest →
      SafePath ('%' :: high :: low :: rest)

theorem forall_byte {P : UInt8 → Prop} (h : ∀ n : Fin 256, P (.ofNat n)) (b : UInt8) : P b := by
  have hb : UInt8.ofNat b.toNat = b := UInt8.ofNat_toNat
  rw [← hb]
  exact h ⟨b.toNat, b.toNat_lt⟩

theorem pathChar_of_kept : ∀ b, keptInPath b = true → PathChar (Char.ofNat b.toNat) := by
  refine forall_byte ?_
  unfold PathChar
  decide +kernel

theorem hexChar_of_digit : ∀ b, (PercentEncoding.hexValue b).isSome = true → HexChar (Char.ofNat b.toNat) := by
  refine forall_byte ?_
  unfold HexChar
  decide +kernel

theorem safePath_of_encoded {bytes : List UInt8} (h : PercentEncoding.Encoded keptInPath bytes) :
    SafePath (bytes.map fun b => Char.ofNat b.toNat) := by
  induction h with
  | nil => exact .nil
  | kept hb _ ih => exact .plain (pathChar_of_kept _ hb) ih
  | escape hhigh hlow _ ih => exact .escape (hexChar_of_digit _ hhigh) (hexChar_of_digit _ hlow) ih

/-- A path is encoded safely: what is shown holds no other character, stands for the same bytes, and is not encoded
once more by another redirect. -/
theorem safe_encoding (path : String) :
    SafePath (encodeUriSafePath path).toList ∧
      PercentEncoding.decode (encodeUriSafePath path).toUTF8.data.toList =
        PercentEncoding.decode path.toUTF8.data.toList ∧
      encodeUriSafePath (encodeUriSafePath path) = encodeUriSafePath path := by
  refine ⟨?_, (encodeUriSafePath_encodes path).same, ?_⟩
  · have h := safePath_of_encoded (PercentEncoding.encoded_encode keptInPath path.toUTF8.data.toList)
    unfold encodeUriSafePath
    rwa [String.toList_ofList]
  · have hsame := (encodeUriSafePath_encodes path).complete
    rw [bytes_encodeUriSafePath] at hsame
    show String.ofList ((PercentEncoding.encode keptInPath (encodeUriSafePath path).toUTF8.data.toList).map _) = _
    rw [bytes_encodeUriSafePath, hsame]
    rfl

example : encodeUriSafePath "/a b%2f%zz%" = "/a%20b%2f%25zz%25" := by decide +kernel

/-! ## Queries -/

/-- The target's own query, followed by the request's when it is asked for and another one. -/
def joinedQuery (append : Bool) (target original : String) : String :=
  "&".intercalate ((target :: if append ∧ original ≠ target then [original] else []).filter (· ≠ ""))

theorem mergeQueryString_eq (target original : String) (append : Bool) :
    mergeQueryString target original append = joinedQuery append target original := by
  unfold mergeQueryString joinedQuery
  cases append with
  | false =>
    by_cases ht : target = ""
    · simp [ht]
    · simp [ht]
  | true =>
    by_cases ht : target = ""
    · by_cases ho : original = ""
      · simp [ht, ho]
      · simp [ht, ho]
    · by_cases ho : original = ""
      · simp [ht, ho, Ne.symm ht]
      · by_cases hsame : original = target
        · simp [ht, hsame]
        · simp [ht, ho, hsame, Ne.symm hsame, String.intercalate_cons_cons]

/-! ## Targets -/

def beforeQuery (text : String) : String := String.ofList (text.toList.takeWhile (· ≠ '?'))

def afterQuery (text : String) : String := String.ofList ((text.toList.dropWhile (· ≠ '?')).drop 1)

def withoutFragment (text : String) : String := String.ofList (text.toList.takeWhile (· ≠ '#'))

theorem splitOnce_question (text : String) :
    (Text.splitOnce text '?').getD (text, "") = (beforeQuery text, afterQuery text) := by
  have hchars : ∀ l : List Char, (Text.splitOnceChars '?' l).getD (l, []) =
      (l.takeWhile (· ≠ '?'), (l.dropWhile (· ≠ '?')).drop 1) := by
    intro l
    induction l with
    | nil => rfl
    | cons c l ih =>
      unfold Text.splitOnceChars
      by_cases hc : c = '?'
      · simp [hc]
      · rw [if_neg hc, List.takeWhile_cons_of_pos (by simpa using hc), List.dropWhile_cons_of_pos (by simpa using hc)]
        have hfst := congrArg Prod.fst ih
        have hsnd := congrArg Prod.snd ih
        cases hs : Text.splitOnceChars '?' l with
        | none =>
          rw [hs] at hfst hsnd
          exact Prod.ext (congrArg (c :: ·) hfst) hsnd
        | some split =>
          rw [hs] at hfst hsnd
          exact Prod.ext (congrArg (c :: ·) hfst) hsnd
  have h := hchars text.toList
  unfold Text.splitOnce beforeQuery afterQuery
  cases hs : Text.splitOnceChars '?' text.toList with
  | none =>
    rw [hs] at h
    have hpath : text.toList = text.toList.takeWhile (· ≠ '?') := congrArg Prod.fst h
    have hquery : [] = (text.toList.dropWhile (· ≠ '?')).drop 1 := congrArg Prod.snd h
    rw [← hpath, ← hquery]
    exact Prod.ext String.ofList_toList.symm rfl
  | some split =>
    rw [hs] at h
    have hpath : split.1 = text.toList.takeWhile (· ≠ '?') := congrArg Prod.fst h
    have hquery : split.2 = (text.toList.dropWhile (· ≠ '?')).drop 1 := congrArg Prod.snd h
    rw [← hpath, ← hquery]
    rfl

section
variable (libs : RedirectLibraries) (p : PluginRedirect) (s : Session)

/-- The expanded target of a request: its path, and its own query. -/
inductive Target : (path query : String) → Prop
  | uri {template : String} {uri : Uri} (configured : p.config.uri = some template)
      (parsed : libs.parseUri (expandUriTemplate template s) = some uri) :
      Target (beforeQuery (expandUriTemplate template s)) (uri.query.getD "")
  | regex {before after : List (CaptureRegex × String)} {re : CaptureRegex} {template : String} {captures : Captures}
      (configured : p.config.uri = none) (patterns : p.regexPatterns = before ++ (re, template) :: after)
      (earlier : ∀ q ∈ before, q.1 s.reqHeader.uri.path = none) (matched : re s.reqHeader.uri.path = some captures) :
      Target (beforeQuery (substituted libs.isDigit captures template))
        (afterQuery (substituted libs.isDigit captures template))

/-- How a path is shown: percent-encoded when that is on. -/
def ShownPath (path shown : String) : Prop :=
  if p.config.encodeUri then shown = encodeUriSafePath path ∧ Encodes path shown else shown = path

def locationText (shown query : String) : String := if query = "" then shown else shown ++ "?" ++ query

/-- What stands before the path of the request. -/
def absoluteStart (uri : Uri) : String := (uri.scheme.map (· ++ "://")).getD "" ++ uri.authority.getD ""

/-- A redirect to the location. -/
def redirectTo (location : String) : FilterVerdict :=
  .reject {
    status := if 100 ≤ p.config.retCode ∧ p.config.retCode < 1000 then p.config.retCode else 302
    headers := [("location", location), ("content-type", "text/plain")] }

/-- The answer for a new path and query: a redirect to it, unless the text is none. -/
inductive Answered (text : String) : Prop
  | redirected {pq : PathAndQuery} {location : String} (parsed : libs.parsePathAndQuery text = some pq)
      (answer : p.requestFilter libs s = .ok (redirectTo p location))
      (rebuilt : location = (s.reqHeader.uri.withPathAndQuery pq).display)
      (shown : pq.rawPath ≠ "" → location = absoluteStart s.reqHeader.uri ++ withoutFragment text)
  | refused (unparsed : libs.parsePathAndQuery text = none) (answer : p.requestFilter libs s = .ok .continue)

end

section
variable {libs : RedirectLibraries} {p : PluginRedirect} {s : Session} {path query : String}

theorem data_of_form {uri : Uri} (h : OriginForm uri ∨ AbsoluteForm uri) : ¬(uri.data = "" ∧ uri.scheme = none) := by
  rintro ⟨hdata, hscheme⟩
  cases h with
  | inl h =>
    obtain ⟨rest, hr⟩ := Text.startsWith_iff.mp h.path
    have hnil := congrArg String.toList hdata
    unfold Uri.data at hnil
    rw [hr, String.toList_append, String.toList_append] at hnil
    exact absurd hnil (List.cons_ne_nil _ _)
  | inr h => exact h.scheme hscheme

theorem constructUri_target (hform : OriginForm s.reqHeader.uri ∨ AbsoluteForm s.reqHeader.uri)
    (h : Target libs p s path query) : p.constructUri libs s = PluginRedirect.rebuild libs s.reqHeader.uri.intoParts
      (p.newPathAndQuery path query (PluginRedirect.originalQuery s.reqHeader)) := by
  unfold PluginRedirect.constructUri
  cases h with
  | uri configured parsed =>
    rw [configured]
    show PluginRedirect.rebuild libs _ (p.newPathAndQuery _ (((libs.parseUri _).bind _).getD "") _) = _
    rw [parsed]
    rfl
  | regex configured patterns earlier matched =>
    obtain ⟨pq, hpq, hpath⟩ := Uri.intoParts_path (data_of_form hform)
    have hne : p.regexPatterns ≠ [] := by
      rw [patterns]
      simp
    rw [configured]
    show (if p.regexPatterns ≠ [] then p.buildUriFromRegex libs s.reqHeader.uri.intoParts _ else none) = _
    rw [if_pos hne]
    unfold PluginRedirect.buildUriFromRegex
    simp only [hpq, hpath, patterns, applyRegexUriTemplate_first earlier matched, splitOnce_question]

theorem scheme_of_form {uri : Uri} (h : OriginForm uri ∨ AbsoluteForm uri) : uri.scheme.isSome = uri.authority.isSome := by
  cases h with
  | inl h => rw [h.scheme, h.authority]
  | inr h => rw [Option.isSome_iff_ne_none.mpr h.scheme, Option.isSome_iff_ne_none.mpr h.authority]

theorem newPathAndQuery_eq (path query original : String) : ∃ shown, ShownPath p path shown ∧
    p.newPathAndQuery path query original = locationText shown (joinedQuery p.config.appendQueryString query original) := by
  unfold ShownPath PluginRedirect.newPathAndQuery locationText
  by_cases hencode : p.config.encodeUri = true
  · refine ⟨encodeUriSafePath path, ?_, ?_⟩
    · rw [if_pos hencode]
      exact ⟨rfl, encodeUriSafePath_encodes path⟩
    · rw [if_pos hencode, mergeQueryString_eq]
  · refine ⟨path, ?_, ?_⟩
    · rw [if_neg hencode]
    · rw [if_neg hencode, mergeQueryString_eq]

/-- What is rebuilt from a new path and query is what is answered. -/
theorem answered_of_constructUri (hhttp : p.config.httpToHttps = false)
    (hparse : ∀ text pq, libs.parsePathAndQuery text = some pq → pq.data = withoutFragment text)
    (hform : OriginForm s.reqHeader.uri ∨ AbsoluteForm s.reqHeader.uri) {text : String}
    (h : p.constructUri libs s = PluginRedirect.rebuild libs s.reqHeader.uri.intoParts text) : Answered libs p s text := by
  have hfilter : ∀ newUri, p.constructUri libs s = newUri →
      p.requestFilter libs s = .ok (newUri.elim .continue p.redirectResponse) := by
    intro newUri hnew
    unfold PluginRedirect.requestFilter
    rw [hhttp, hnew]
    cases newUri with
    | none => rfl
    | some uri => rfl
  have hanswer := hfilter _ h
  unfold PluginRedirect.rebuild at hanswer
  cases hpq : libs.parsePathAndQuery text with
  | none =>
    rw [hpq] at hanswer
    exact .refused hpq hanswer
  | some pq =>
    rw [hpq] at hanswer
    simp only [Uri.fromParts_replaced (scheme_of_form hform)] at hanswer
    refine .redirected hpq hanswer rfl fun hraw => ?_
    rw [Uri.display_withPathAndQuery hraw, hparse text pq hpq]
    rfl

/-- A request is answered for its target, in the text of the target's path and of the joined queries. -/
theorem redirects_to_target (libs : RedirectLibraries) (p : PluginRedirect) (s : Session)
    (hhttp : p.config.httpToHttps = false)
    (hparse : ∀ text pq, libs.parsePathAndQuery text = some pq → pq.data = withoutFragment text)
    (hform : OriginForm s.reqHeader.uri ∨ AbsoluteForm s.reqHeader.uri) {path query : String}
    (htarget : Target libs p s path query) : ∃ shown, ShownPath p path shown ∧
      Answered libs p s (locationText shown
        (joinedQuery p.config.appendQueryString query (PluginRedirect.originalQuery s.reqHeader))) := by
  obtain ⟨shown, hshown, htext⟩ := newPathAndQuery_eq (p := p) path query (PluginRedirect.originalQuery s.reqHeader)
  refine ⟨shown, hshown, answered_of_constructUri hhttp hparse hform ?_⟩
  rw [constructUri_target hform htarget, htext]

/-- A request that no pattern matches has its own path for its target. -/
theorem redirects_unmatched (hhttp : p.config.httpToHttps = false)
    (hparse : ∀ text pq, libs.parsePathAndQuery text = some pq → pq.data = withoutFragment text)
    (hform : OriginForm s.reqHeader.uri ∨ AbsoluteForm s.reqHeader.uri) (huri : p.config.uri = none)
    (hne : p.regexPatterns ≠ []) (hnone : ∀ q ∈ p.regexPatterns, q.1 s.reqHeader.uri.path = none) :
    ∃ shown, ShownPath p (beforeQuery s.reqHeader.uri.path) shown ∧
      Answered libs p s (locationText shown (joinedQuery p.config.appendQueryString (afterQuery s.reqHeader.uri.path)
        (PluginRedirect.originalQuery s.reqHeader))) := by
  obtain ⟨pq, hpq, hpath⟩ := Uri.intoParts_path (data_of_form hform)
  obtain ⟨shown, hshown, htext⟩ := newPathAndQuery_eq (p := p) (beforeQuery s.reqHeader.uri.path)
    (afterQuery s.reqHeader.uri.path) (PluginRedirect.originalQuery s.reqHeader)
  refine ⟨shown, hshown, answered_of_constructUri hhttp hparse hform ?_⟩
  unfold PluginRedirect.constructUri
  rw [huri]
  show (if p.regexPatterns ≠ [] then p.buildUriFromRegex libs s.reqHeader.uri.intoParts _ else none) = _
  rw [if_pos hne, ← htext]
  unfold PluginRedirect.buildUriFromRegex
  simp only [hpq, hpath, applyRegexUriTemplate_none hnone, splitOnce_question]

end

/-- Every request with a configured target or a matching path is redirected, and its own query always appended. -/
structure AlwaysRedirects (libs : RedirectLibraries) (p : PluginRedirect) (s : Session) : Prop where
  uri : p.config.uri.isSome = true → ∃ location, p.requestFilter libs s = .ok (redirectTo p location)
  regex : p.config.uri = none → ((∃ location, p.requestFilter libs s = .ok (redirectTo p location)) ↔
    ∃ q ∈ p.regexPatterns, (q.1 s.reqHeader.uri.path).isSome = true)
  location : ∀ path query location, Target libs p s path query → p.requestFilter libs s = .ok (redirectTo p location) →
    ∃ shown, ShownPath p path shown ∧ location = absoluteStart s.reqHeader.uri ++ locationText shown
      ("&".intercalate ((query :: if p.config.appendQueryString then [PluginRedirect.originalQuery s.reqHeader]
        else []).filter (· ≠ "")))

/-- Readers of what starts with a slash. -/
def slashLibraries : RedirectLibraries where
  regexNew e := .error e
  isDigit := Char.isDigit
  parseNetwork e := .error e
  parseUri text := Uri.ofPathAndQuery (withoutFragment text)
  parsePathAndQuery text := (Uri.ofPathAndQuery (withoutFragment text)).map Uri.written
  parseAuthority e := .error e

theorem slashLibraries_parse (text : String) (pq : PathAndQuery) (h : slashLibraries.parsePathAndQuery text = some pq) :
    pq.data = withoutFragment text := by
  obtain ⟨uri, huri, rfl⟩ := Option.map_eq_some_iff.mp h
  exact Uri.data_ofPathAndQuery huri

/-- A request for `/old?a=1`. -/
def oldSession : Session where
  reqHeader :=
    { method := .get
      uri := { rawPath := "/old", query := some "a=1", graphic := by decide }
      headers := [] }
  clientAddr := none
  serverAddr := none
  isTls := false

def newTarget (uri : String) : PluginRedirect where
  config := { uri := some uri, appendQueryString := true }
  regexPatterns := []
  trustedProxies := []

def neverMatching : PluginRedirect where
  config := { regexUri := ["^/other$", "/new"] }
  regexPatterns := [(fun _ => none, "/new")]
  trustedProxies := []

def newUri (query : String) (h : Graphic query) : Uri where
  rawPath := "/new"
  query := some query
  graphic := by
    intro part hp
    have hp : part = "/new" ∨ part = query := by simpa using hp
    obtain rfl | rfl := hp
    · decide
    · exact h

/-- A target without variables is the template itself. -/
theorem target_of_plain {libs : RedirectLibraries} {p : PluginRedirect} {s : Session} {template path : String} {uri : Uri}
    (configured : p.config.uri = some template) (hplain : expandUriTemplate template s = template)
    (parsed : libs.parseUri template = some uri) (hpath : beforeQuery template = path) :
    Target libs p s path (uri.query.getD "") := by
  have h : Target libs p s (beforeQuery (expandUriTemplate template s)) (uri.query.getD "") :=
    .uri configured (by rw [hplain, parsed])
  rw [hplain, hpath] at h
  exact h

/-- A query that the target has already is not repeated, a target that is no URI leaves the request to go on, and a
request that no pattern matches is sent to its own path. -/
theorem not_always_redirects :
    ¬AlwaysRedirects slashLibraries (newTarget "/new?a=1") oldSession ∧
      ¬AlwaysRedirects slashLibraries (newTarget "/new page") oldSession ∧
      ¬AlwaysRedirects slashLibraries neverMatching oldSession := by
  refine ⟨fun h => ?_, fun h => ?_, fun h => ?_⟩
  · have hparsed : slashLibraries.parseUri "/new?a=1" = some (newUri "a=1" (by decide)) := by decide
    have htarget := target_of_plain (p := newTarget "/new?a=1") (s := oldSession) rfl (by decide) hparsed rfl
    have hfilter : (newTarget "/new?a=1").requestFilter slashLibraries oldSession =
        .ok (redirectTo (newTarget "/new?a=1") "/new?a=1") := by decide
    obtain ⟨shown, hshown, hlocation⟩ := h.location _ _ _ htarget hfilter
    have hpath : shown = "/new" := hshown
    rw [hpath] at hlocation
    exact absurd hlocation (by decide)
  · obtain ⟨location, hlocation⟩ := h.uri rfl
    have hcontinue : (newTarget "/new page").requestFilter slashLibraries oldSession = .ok .continue := by decide
    rw [hcontinue] at hlocation
    cases hlocation
  · obtain ⟨q, hq, hmatch⟩ := (h.regex rfl).mp ⟨"/old", by decide⟩
    cases List.mem_singleton.mp hq
    cases hmatch

theorem redirects_to_target_new : ∃ shown, ShownPath (newTarget "/new?b=2") "/new" shown ∧
    Answered slashLibraries (newTarget "/new?b=2") oldSession (locationText shown
      (joinedQuery true "b=2" (PluginRedirect.originalQuery oldSession.reqHeader))) := by
  have hparsed : slashLibraries.parseUri "/new?b=2" = some (newUri "b=2" (by decide)) := by decide
  exact redirects_to_target slashLibraries (newTarget "/new?b=2") oldSession rfl slashLibraries_parse
    (.inl ⟨rfl, rfl, by decide, by decide⟩) (target_of_plain rfl (by decide) hparsed rfl)

end Redirect

end Pingsix
