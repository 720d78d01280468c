import Pingsix.Lib.Except
import Pingsix.ProxyRewrite
import Pingsix.RedirectSound

/-!
# Soundness of rewritten targets

The target that the upstream is asked for, against the configured or expanded
one and the client's query. The two are glued with a question mark whatever the
first has in it, and a text that is no URI is passed over in silence.
-/

namespace Pingsix.ProxyRewrite

open HttpMessage
open Redirect (afterQuery withoutFragment)

/-! ## Readers of URIs -/

/-- A character that a URI may have: unreserved, reserved or the percent sign. -/
def uriChar (c : Char) : Bool := c.isAlphanum || "-._~:/?#[]@!$&'()*+,;=%".toList.contains c

/-- A text is read when it has no other character before a fragment, and the URI is shown as the text without it. -/
structure UriParsing (parse : String → Option Uri) : Prop where
  accepts : ∀ text, (parse text).isSome = true ↔ ∀ c ∈ (withoutFragment text).toList, uriChar c = true
  shown : ∀ text uri, parse text = some uri → uri.display = withoutFragment text

/-- What every URI that was read is made of. -/
def Parsed (uri : Uri) : Prop := ∀ c ∈ uri.display.toList, uriChar c = true ∧ c ≠ '#'

/-! ## Texts -/

section
variable {a b : String}

theorem withoutFragment_eq (h : '#' ∉ a.toList) : withoutFragment a = a := by
  unfold withoutFragment
  rw [List.takeWhile_eq_self_iff.mpr, String.ofList_toList]
  intro c hc
  simpa using fun e : c = '#' => h (e ▸ hc)

theorem withoutFragment_append_of_mem (h : '#' ∈ a.toList) : withoutFragment (a ++ b) = withoutFragment a := by
  unfold withoutFragment
  rw [String.toList_append]
  congr 1
  generalize a.toList = l at h
  induction l with
  | nil => cases h
  | cons c l ih =>
    by_cases hc : c = '#'
    · simp [hc]
    · have hl := (List.mem_cons.mp h).resolve_left (Ne.symm hc)
      rw [List.cons_append, List.takeWhile_cons_of_pos (by simpa using hc), List.takeWhile_cons_of_pos (by simpa using hc), ih hl]

theorem not_mem_withoutFragment (a : String) : '#' ∉ (withoutFragment a).toList := by
  unfold withoutFragment
  rw [String.toList_ofList]
  intro h
  have hc := List.mem_takeWhile_imp h
  simp at hc

theorem afterQuery_append (h : '?' ∈ a.toList) : afterQuery (a ++ b) = afterQuery a ++ b := by
  unfold afterQuery
  rw [String.toList_append]
  refine String.toList_inj.mp ?_
  rw [String.toList_append, String.toList_ofList, String.toList_ofList]
  generalize a.toList = l at h
  induction l with
  | nil => cases h
  | cons c l ih =>
    by_cases hc : c = '?'
    · simp [hc]
    · have hl := (List.mem_cons.mp h).resolve_left (Ne.symm hc)
      rw [List.cons_append, List.dropWhile_cons_of_pos (by simpa using hc), List.dropWhile_cons_of_pos (by simpa using hc), ih hl]

theorem afterQuery_mark (h : '?' ∉ a.toList) : afterQuery (a ++ "?" ++ b) = b := by
  unfold afterQuery
  refine String.toList_inj.mp ?_
  rw [String.toList_append, String.toList_append, String.toList_ofList, List.append_assoc,
    List.dropWhile_append_of_pos fun c hc => by simpa using fun e : c = '?' => h (e ▸ hc)]
  simp

theorem afterQuery_eq_empty (h : '?' ∉ a.toList) : afterQuery a = "" := by
  unfold afterQuery
  rw [List.dropWhile_eq_nil_iff.mpr fun c hc => by simpa using fun e : c = '?' => h (e ▸ hc)]
  rfl

end

/-! ## Joined queries -/

/-- The pieces between the ampersands of a query. -/
def parametersOf (query : String) : List (List Char) := if query = "" then [] else Text.splitChars '&' query.toList

/-- What goes between a target and a query behind it. -/
def joiner (target : String) : String :=
  if '?' ∉ target.toList then "?" else if afterQuery target = "" then "" else "&"

/-- The target with the client's query after its own. -/
def joined (target query : String) : String :=
  let target := withoutFragment target
  if query = "" then target else target ++ joiner target ++ query

/-- No parameter of the target or of the client is lost or merged into another. -/
theorem parameters_joined (target query : String) : parametersOf (afterQuery (joined target query)) =
    parametersOf (afterQuery (withoutFragment target)) ++ parametersOf query := by
  unfold joined joiner
  generalize withoutFragment target = target
  by_cases hq : query = ""
  · simp [hq, parametersOf]
  by_cases hmark : '?' ∈ target.toList
  · by_cases hown : afterQuery target = ""
    · simp only [hq, hmark, hown, if_true, if_false, not_true_eq_false, String.append_empty, afterQuery_append hmark]
      simp [parametersOf, String.empty_append]
    · simp only [hq, hmark, hown, if_false, not_true_eq_false, String.append_assoc, afterQuery_append hmark]
      unfold parametersOf
      rw [if_neg hown, if_neg hq, if_neg (by simp [String.append_eq_empty_iff]), String.toList_append, String.toList_append]
      exact Text.splitChars_append_sep _ _
  · simp only [hq, hmark, if_false, not_false_eq_true, if_true, afterQuery_mark hmark, afterQuery_eq_empty hmark]
    simp [parametersOf]

/-! ## Glued texts -/

/-- The text that is read for a target and the client's query. -/
def glued (target query : String) : String := if query = "" then target else target ++ "?" ++ query

/-- The client's query can go after a question mark. -/
def Glues (target query : String) : Prop := query ≠ "" → '?' ∉ target.toList ∧ '#' ∉ target.toList

theorem joiner_eq_mark {target : String} : joiner target = "?" ↔ '?' ∉ target.toList := by
  unfold joiner
  by_cases hmark : '?' ∈ target.toList
  · by_cases hown : afterQuery target = ""
    · simp [hmark, hown]
    · simp [hmark, hown]
  · simp [hmark]

theorem glued_eq_joined {target query : String} (hquery : '#' ∉ query.toList) :
    withoutFragment (glued target query) = joined target query ↔ Glues target query := by
  unfold glued Glues joined
  by_cases hq : query = ""
  · simp [hq]
  simp only [hq, if_false, ne_eq, not_false_eq_true, true_imp_iff]
  by_cases hfragment : '#' ∈ target.toList
  · refine iff_of_false (fun h => hq ?_) fun h => h.2 hfragment
    rw [String.append_assoc, withoutFragment_append_of_mem hfragment] at h
    have hlist := congrArg String.toList h
    rw [String.toList_append, String.toList_append, List.append_assoc, List.self_eq_append_right,
      List.append_eq_nil_iff] at hlist
    exact String.toList_eq_nil_iff.mp hlist.2
  · have hall : '#' ∉ (target ++ "?" ++ query).toList := by
      simp only [String.toList_append, List.mem_append, not_or]
      exact ⟨⟨hfragment, by decide⟩, hquery⟩
    rw [withoutFragment_eq hall, withoutFragment_eq hfragment, and_iff_left hfragment, ← joiner_eq_mark,
      ← String.toList_inj, ← String.toList_inj]
    simp only [String.toList_append, List.append_assoc, List.append_cancel_left_eq, List.append_cancel_right_eq]
    exact eq_comm

theorem glued_accepts {target query : String} (hquery : ∀ c ∈ query.toList, uriChar c = true ∧ c ≠ '#') :
    (∀ c ∈ (withoutFragment (glued target query)).toList, uriChar c = true) ↔
      ∀ c ∈ (withoutFragment target).toList, uriChar c = true := by
  have hno : '#' ∉ query.toList := fun h => (hquery '#' h).2 rfl
  unfold glued
  by_cases hq : query = ""
  · rw [if_pos hq]
  rw [if_neg hq]
  by_cases hfragment : '#' ∈ target.toList
  · rw [String.append_assoc, withoutFragment_append_of_mem hfragment]
  · have hall : '#' ∉ (target ++ "?" ++ query).toList := by
      simp only [String.toList_append, List.mem_append, not_or]
      exact ⟨⟨hfragment, by decide⟩, hno⟩
    have hmark : ∀ c ∈ ['?'], uriChar c = true := List.forall_mem_singleton.mpr (by decide)
    rw [withoutFragment_eq hall, withoutFragment_eq hfragment]
    simp only [String.toList_append, List.mem_append]
    exact ⟨fun h c hc => h c (.inl (.inl hc)), fun h c hc => hc.elim (·.elim (h c) (hmark c)) fun hc => (hquery c hc).1⟩

/-- What is joined has the characters of the target. -/
theorem withoutFragment_subset_joined (target query : String) :
    (withoutFragment target).toList ⊆ (joined target query).toList := by
  unfold joined
  by_cases hq : query = ""
  · rw [if_pos hq]
    exact fun _ h => h
  · rw [if_neg hq, String.toList_append, String.toList_append, List.append_assoc]
    exact List.subset_append_left _ _

/-! ## Targets -/

section
variable (libs : RewriteLibraries) (p : PluginProxyRewrite) (client : RequestHeader)

/-- The configured target, or that of the first pattern that matches the path. -/
def targetOf : Option String :=
  p.config.uri.or (p.regexPatterns.findSome? fun pattern =>
    (pattern.1 client.uri.written.path).map fun captures => substituted libs.isDigit captures pattern.2)

def clientQuery : String := client.uri.query.getD ""

/-- The request goes to the target with the client's query, or where it was going when there is no target. -/
structure TargetSound (upstream left : RequestHeader) : Prop where
  rewritten : ∀ target, targetOf libs p client = some target → left.uri.display = joined target (clientQuery client) ∧
    parametersOf (afterQuery left.uri.display) =
      parametersOf (afterQuery (withoutFragment target)) ++ parametersOf (clientQuery client)
  kept : targetOf libs p client = none → left.uri.display = upstream.uri.display

/-- A target has the characters of a URI, and neither a query nor a fragment where the client has a query; a request
that matches no pattern was going to the client's path and query. A client's target without a path is not rewritten. -/
structure TargetFits (upstream : RequestHeader) : Prop where
  rewritten : ∀ target, targetOf libs p client = some target →
    if client.uri.pathAndQuery.isSome then
      (∀ c ∈ (withoutFragment target).toList, uriChar c = true) ∧ Glues target (clientQuery client)
    else upstream.uri.display = joined target (clientQuery client)
  kept : targetOf libs p client = none → client.uri.pathAndQuery.isSome = true → p.regexPatterns ≠ [] →
    upstream.uri.display = glued client.uri.written.path (clientQuery client)

theorem applyRegexUriTemplate_eq (isDigit : Char → Bool) (uri : String) (patterns : List (CaptureRegex × String)) :
    applyRegexUriTemplate isDigit uri patterns = (patterns.findSome? fun pattern =>
      (pattern.1 uri).map fun captures => substituted isDigit captures pattern.2).getD uri := by
  induction patterns with
  | nil => rfl
  | cons pattern patterns ih =>
    rw [List.findSome?_cons]
    cases hm : pattern.1 uri with
    | some captures =>
      unfold applyRegexUriTemplate
      rw [hm]
      rfl
    | none =>
      unfold applyRegexUriTemplate
      rw [hm]
      exact ih

variable {libs p client}

/-- What is read for a target. -/
theorem constructPathAndQuery_of_target {target : String} (h : targetOf libs p client = some target) :
    p.constructPathAndQuery libs (some client.uri.written) = libs.parseUri (glued target (clientQuery client)) := by
  unfold PluginProxyRewrite.constructPathAndQuery glued clientQuery
  unfold targetOf at h
  cases huri : p.config.uri with
  | some path =>
    rw [huri] at h
    cases h
    exact (apply_ite libs.parseUri _ _ _).symm
  | none =>
    rw [huri, Option.none_or] at h
    have hne : p.regexPatterns ≠ [] := by
      rintro hnil
      rw [hnil] at h
      cases h
    dsimp only
    rw [if_pos hne, applyRegexUriTemplate_eq]
    have hpath : (p.regexPatterns.findSome? fun pattern => (pattern.1 client.uri.written.path).map fun captures =>
        substituted libs.isDigit captures pattern.2).getD client.uri.written.path = target := by rw [h]; rfl
    rw [hpath]
    exact (apply_ite libs.parseUri _ _ _).symm

/-- What is read when no pattern matches. -/
theorem constructPathAndQuery_of_none (h : targetOf libs p client = none) :
    p.constructPathAndQuery libs (some client.uri.written) =
      if p.regexPatterns ≠ [] then libs.parseUri (glued client.uri.written.path (clientQuery client)) else none := by
  unfold PluginProxyRewrite.constructPathAndQuery glued clientQuery
  unfold targetOf at h
  obtain ⟨huri, hpatterns⟩ := Option.or_eq_none_iff.mp h
  rw [huri]
  dsimp only
  rw [applyRegexUriTemplate_eq, hpatterns]
  split
  · exact (apply_ite libs.parseUri _ _ _).symm
  · rfl

/-- The query of a URI that was read has its characters. -/
theorem Parsed.query (h : Parsed client.uri) : ∀ c ∈ (clientQuery client).toList, uriChar c = true ∧ c ≠ '#' := by
  intro c hc
  apply h
  unfold clientQuery at hc
  unfold Uri.display
  cases hq : client.uri.query with
  | none =>
    rw [hq] at hc
    cases hc
  | some query =>
    rw [hq] at hc
    simp only [Option.map_some, Option.getD_some, String.toList_append, List.mem_append]
    exact .inr (.inr hc)

/-- And so has its path, with a slash for an empty one. -/
theorem Parsed.path (h : Parsed client.uri) : ∀ c ∈ client.uri.written.path.toList, uriChar c = true ∧ c ≠ '#' := by
  intro c hc
  unfold PathAndQuery.path at hc
  have hraw : client.uri.written.rawPath = client.uri.rawPath := rfl
  rw [hraw] at hc
  by_cases hempty : client.uri.rawPath = ""
  · rw [if_pos hempty] at hc
    cases List.mem_singleton.mp (show c ∈ ['/'] by simpa using hc)
    decide
  · rw [if_neg hempty] at hc
    apply h
    have hpath : client.uri.path = client.uri.rawPath := by
      unfold Uri.path
      rw [if_neg hempty, if_neg]
      rintro ⟨hdata, -⟩
      unfold Uri.data at hdata
      exact hempty (String.append_eq_empty_iff.mp hdata).1
    unfold Uri.display
    rw [hpath]
    simp only [String.toList_append, List.mem_append]
    exact .inl (.inr hc)

variable {upstream : RequestHeader}

/-- A target that is read stands where it should exactly when it can be glued; one that is not read does not. -/
theorem rewritten_iff (hparse : UriParsing libs.parseUri) (hclient : Parsed client.uri) (hupstream : Parsed upstream.uri)
    {target : String} (htarget : targetOf libs p client = some target) :
    (p.rewriteTarget libs client upstream).uri.display = joined target (clientQuery client) ↔
      if client.uri.pathAndQuery.isSome then
        (∀ c ∈ (withoutFragment target).toList, uriChar c = true) ∧ Glues target (clientQuery client)
      else upstream.uri.display = joined target (clientQuery client) := by
  have hno : '#' ∉ (clientQuery client).toList := fun h => (hclient.query '#' h).2 rfl
  unfold PluginProxyRewrite.rewriteTarget
  by_cases hpq : client.uri.pathAndQuery.isSome = true
  · rw [if_pos hpq, if_pos hpq, constructPathAndQuery_of_target htarget]
    have haccepts := (hparse.accepts (glued target (clientQuery client))).trans (glued_accepts hclient.query)
    cases hread : libs.parseUri (glued target (clientQuery client)) with
    | some uri =>
      rw [hread] at haccepts
      have hchars := haccepts.mp rfl
      show uri.display = _ ↔ _
      rw [hparse.shown _ uri hread, glued_eq_joined hno, and_iff_right hchars]
    | none =>
      rw [hread] at haccepts
      refine iff_of_false (fun h => ?_) fun h => Bool.false_ne_true (haccepts.mpr h.1)
      refine Bool.false_ne_true (haccepts.mpr fun c hc => ?_)
      have hmem := withoutFragment_subset_joined target (clientQuery client) hc
      rw [← h] at hmem
      exact (hupstream c hmem).1
  · rw [if_neg hpq, if_neg hpq]

/-- Without a target, the client's path and query replace what the upstream's target was. -/
theorem kept_iff (hparse : UriParsing libs.parseUri) (hclient : Parsed client.uri) (hnone : targetOf libs p client = none) :
    (p.rewriteTarget libs client upstream).uri.display = upstream.uri.display ↔
      (client.uri.pathAndQuery.isSome = true → p.regexPatterns ≠ [] →
        upstream.uri.display = glued client.uri.written.path (clientQuery client)) := by
  unfold PluginProxyRewrite.rewriteTarget
  by_cases hpq : client.uri.pathAndQuery.isSome = true
  · rw [if_pos hpq, constructPathAndQuery_of_none hnone]
    by_cases hne : p.regexPatterns ≠ []
    · rw [if_pos hne]
      have hpath : '#' ∉ client.uri.written.path.toList := fun h => (hclient.path '#' h).2 rfl
      have haccepts : (libs.parseUri (glued client.uri.written.path (clientQuery client))).isSome = true := by
        rw [hparse.accepts, glued_accepts hclient.query, withoutFragment_eq hpath]
        exact fun c hc => (hclient.path c hc).1
      obtain ⟨uri, hread⟩ := Option.isSome_iff_exists.mp haccepts
      have hall : '#' ∉ (glued client.uri.written.path (clientQuery client)).toList := by
        unfold glued
        split
        · exact hpath
        · simp only [String.toList_append, List.mem_append, not_or]
          exact ⟨⟨hpath, by decide⟩, fun h => (hclient.query '#' h).2 rfl⟩
      rw [hread]
      show uri.display = _ ↔ _
      rw [hparse.shown _ uri hread, withoutFragment_eq hall]
      exact ⟨fun h _ _ => h.symm, fun h => (h hpq hne).symm⟩
    · rw [if_neg hne]
      exact iff_of_true rfl fun _ h => absurd h hne
  · rw [if_neg hpq]
    exact iff_of_true rfl fun h => absurd h hpq

theorem targetSound_rewriteTarget (hparse : UriParsing libs.parseUri) (hclient : Parsed client.uri)
    (hupstream : Parsed upstream.uri) :
    TargetSound libs p client upstream (p.rewriteTarget libs client upstream) ↔ TargetFits libs p client upstream := by
  constructor
  · intro h
    refine ⟨fun target ht => ?_, fun hnone => (kept_iff hparse hclient hnone).mp (h.kept hnone)⟩
    exact (rewritten_iff hparse hclient hupstream ht).mp (h.rewritten target ht).1
  · intro h
    refine ⟨fun target ht => ?_, fun hnone => (kept_iff hparse hclient hnone).mpr (h.kept hnone)⟩
    have hjoined := (rewritten_iff hparse hclient hupstream ht).mpr (h.rewritten target ht)
    exact ⟨hjoined, by rw [hjoined, parameters_joined]⟩

/-- The method, the host and the headers leave the target alone. -/
theorem uri_of_filter {left : RequestHeader} (h : p.upstreamRequestFilter libs client upstream = .ok left) :
    left.uri = (p.rewriteTarget libs client upstream).uri := by
  obtain ⟨moved, hmethod, h⟩ := Except.bind_eq_ok.mp h
  obtain ⟨hosted, hhost, h⟩ := Except.bind_eq_ok.mp h
  have hmoved : moved.uri = (p.rewriteTarget libs client upstream).uri := by
    unfold PluginProxyRewrite.rewriteMethod at hmethod
    split at hmethod
    case h_1 =>
      cases hmethod
      rfl
    case h_2 =>
      split at hmethod
      case isTrue =>
        cases hmethod
        rfl
      case isFalse => cases hmethod
  have hhosted : hosted.uri = moved.uri := by
    unfold PluginProxyRewrite.rewriteHost at hhost
    split at hhost
    case h_1 =>
      cases hhost
      rfl
    case h_2 =>
      split at hhost
      case h_1 =>
        cases hhost
        rfl
      case h_2 => cases hhost
  rw [← hmoved, ← hhosted]
  cases hheaders : p.config.headers with
  | none =>
    rw [hheaders] at h
    cases h
    rfl
  | some headers =>
    rw [hheaders] at h
    obtain ⟨added, -, h⟩ := Except.bind_eq_ok.mp h
    obtain ⟨written, -, h⟩ := Except.bind_eq_ok.mp h
    cases h
    rfl

/-- A request that is let through goes where it should exactly when its target fits. -/
theorem rewritten_target_iff (hparse : UriParsing libs.parseUri) (hclient : Parsed client.uri)
    (hupstream : Parsed upstream.uri) {left : RequestHeader} (h : p.upstreamRequestFilter libs client upstream = .ok left) :
    TargetSound libs p client upstream left ↔ TargetFits libs p client upstream := by
  have huri := uri_of_filter h
  rw [← targetSound_rewriteTarget hparse hclient hupstream]
  constructor
  · exact fun hs => ⟨huri ▸ hs.rewritten, huri ▸ hs.kept⟩
  · exact fun hs => ⟨huri.symm ▸ hs.rewritten, huri.symm ▸ hs.kept⟩

end

/-! ## A target with a query -/

theorem graphic_of_uriChar {c : Char} (h : uriChar c = true) : 32 < c.toNat := by
  unfold uriChar at h
  rcases Bool.or_eq_true_iff.mp h with h | h
  · exact Nat.lt_of_lt_of_le (by decide) (Text.bounds_of_isAlphanum h).1
  · have hall : ("-._~:/?#[]@!$&'()*+,;=%".toList.all fun c => decide (32 < c.toNat)) = true := by decide
    exact of_decide_eq_true (List.all_eq_true.mp hall c (List.contains_iff_mem.mp h))

instance decidableUriChars (text : List Char) : Decidable (∀ c ∈ text, uriChar c = true) :=
  List.decidableBAll (fun c => uriChar c = true) text

/-- A reader that takes what starts with a slash apart, and leaves another text whole. -/
def readUri (text : String) : Option Uri :=
  if h : ∀ c ∈ (withoutFragment text).toList, uriChar c = true then
    match Uri.ofPathAndQuery (withoutFragment text) with
    | some uri => some uri
    | none =>
      some
        { rawPath := withoutFragment text
          graphic := fun part hp => by
            cases List.mem_singleton.mp hp
            exact fun c hc => graphic_of_uriChar (h c hc) }
  else none

theorem display_ofPathAndQuery {text : String} {uri : Uri} (h : Uri.ofPathAndQuery text = some uri) : uri.display = text := by
  have hdata : uri.data = text := Uri.data_ofPathAndQuery h
  unfold Uri.ofPathAndQuery at h
  split at h
  case isTrue hstart =>
    obtain ⟨rest, hrest⟩ := Text.startsWith_iff.mp hstart.1
    have hscheme : uri.scheme = none := by
      cases h
      rfl
    have hauthority : uri.authority = none := by
      cases h
      rfl
    have hraw : uri.rawPath = String.ofList (text.toList.takeWhile (· ≠ '?')) := by
      cases h
      rfl
    have hne : uri.rawPath ≠ "" := by
      rw [hraw, hrest]
      intro hempty
      have hnil := congrArg String.toList hempty
      simp at hnil
    have hpath : uri.path = uri.rawPath := by
      unfold Uri.path
      rw [if_neg hne, if_neg]
      rintro ⟨hempty, -⟩
      exact hne (String.append_eq_empty_iff.mp hempty).1
    unfold Uri.display
    rw [hscheme, hauthority, hpath]
    exact (congrArg (· ++ _) String.empty_append).trans hdata
  case isFalse => cases h

theorem uriParsing_readUri : UriParsing readUri where
  accepts text := by
    unfold readUri
    split
    case isTrue h =>
      refine iff_of_true ?_ h
      split <;> rfl
    case isFalse h => exact iff_of_false Bool.false_ne_true h
  shown text uri h := by
    unfold readUri at h
    split at h
    case isTrue hchars =>
      split at h
      case h_1 uri' hread =>
        cases h
        exact display_ofPathAndQuery hread
      case h_2 =>
        cases h
        have hdata : withoutFragment text ++ "" = withoutFragment text := String.append_empty
        unfold Uri.display Uri.path Uri.data
        dsimp only [Option.map_none, Option.getD_none]
        by_cases hempty : withoutFragment text = ""
        · rw [if_pos ⟨hdata.trans hempty, rfl⟩, hempty]
          rfl
        · rw [if_neg fun h => hempty (hdata.symm.trans h.1), if_neg hempty]
          exact (congrArg (· ++ "") String.empty_append).trans hdata
    case isFalse => cases h

def sampleLibraries : RewriteLibraries where
  regexNew _ := .error "unsupported"
  isDigit := Char.isDigit
  parseUri := readUri
  isHeaderName _ := true
  headerError := "invalid header"

theorem uriParsing_sample : UriParsing sampleLibraries.parseUri := by
  simp only [sampleLibraries]
  exact uriParsing_readUri

def rewriteTo (uri : String) : PluginProxyRewrite := { config := { uri := some uri }, regexPatterns := [] }

/-- A request for `/old?y=2`. -/
def oldRequest : RequestHeader where
  method := .get
  uri := { rawPath := "/old", query := some "y=2", graphic := by decide }
  headers := []

theorem parsed_oldRequest : Parsed oldRequest.uri := by
  have hall : (oldRequest.uri.display.toList.all fun c => uriChar c && decide (c ≠ '#')) = true := by decide
  intro c hc
  obtain ⟨hchar, hne⟩ := Bool.and_eq_true_iff.mp (List.all_eq_true.mp hall c hc)
  exact ⟨hchar, of_decide_eq_true hne⟩

/-- A target without a query takes the client's. -/
theorem rewritten_target_new :
    TargetSound sampleLibraries (rewriteTo "/new") oldRequest oldRequest
      ((rewriteTo "/new").rewriteTarget sampleLibraries oldRequest oldRequest) := by
  have hchars : ((withoutFragment "/new").toList.all uriChar) = true := by decide
  refine (rewritten_target_iff uriParsing_sample parsed_oldRequest parsed_oldRequest rfl).mpr ⟨fun target ht => ?_, nofun⟩
  cases ht
  exact ⟨List.all_eq_true.mp hchars, fun _ => ⟨by decide +kernel, by decide +kernel⟩⟩

/-- A target with a query of its own gets the client's into the value of its last parameter. -/
theorem not_rewritten_with_query :
    ¬∀ (libs : RewriteLibraries) (config : PluginConfig) (p : PluginProxyRewrite) (client upstream left : RequestHeader),
      UriParsing libs.parseUri → createProxyRewritePlugin libs config = .ok p → Parsed client.uri → Parsed upstream.uri →
      p.upstreamRequestFilter libs client upstream = .ok left → TargetSound libs p client upstream left := by
  intro h
  have hsound := h sampleLibraries { uri := some "/a?x=1" } (rewriteTo "/a?x=1") oldRequest oldRequest _ uriParsing_sample
    rfl parsed_oldRequest parsed_oldRequest rfl
  have hfits := (targetSound_rewriteTarget uriParsing_sample parsed_oldRequest parsed_oldRequest).mp hsound
  have hglues : Glues "/a?x=1" "y=2" := (hfits.rewritten "/a?x=1" rfl).2
  exact absurd (hglues (by decide)).1 (by decide)

end Pingsix.ProxyRewrite
