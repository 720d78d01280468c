import Pingsix.ExitTransformer
import Pingsix.Lib.Except
import Pingsix.Lib.HeaderFields

/-!
# Soundness of gateway exits

The response that the first rule for a status makes of a gateway exit: its
status, its body and, name by name, its headers. The variables of a template are
replaced one after another, so that a value can put together a variable that is
replaced later.
-/

namespace Pingsix.ExitTransformer

open HttpMessage

/-! ## Variables of a template -/

inductive ExitVar where
  | status
  | message
  | requestId
  deriving DecidableEq, Repr

namespace ExitVar

def all : List ExitVar := [.status, .message, .requestId]

def pattern : ExitVar → String
  | .status => "$status"
  | .message => "$message"
  | .requestId => "$request_id"

/-- The text of a variable as characters. -/
def chars (var : ExitVar) : List Char := var.pattern.toList

theorem mem_all (var : ExitVar) : var ∈ all := by cases var <;> simp [all]

theorem marked (var : ExitVar) : Placeholders.Marked '$' var.chars := by
  cases var
  · exact ⟨"status".toList, by decide, by decide⟩
  · exact ⟨"message".toList, by decide, by decide⟩
  · exact ⟨"request_id".toList, by decide, by decide⟩

theorem distinct (a b : ExitVar) (h : a.chars <+: b.chars) : a = b := by
  have hall : ∀ a b : ExitVar, a.chars.isPrefixOf b.chars = true → a = b := by
    intro a b
    cases a <;> cases b <;> decide
  exact hall a b (List.isPrefixOf_iff_prefix.mpr h)

/-- The values of the variables. -/
def value (status : Nat) (message requestId : Option String) : ExitVar → List Char
  | .status => (toString status).toList
  | .message => (message.getD "").toList
  | .requestId => (requestId.getD "").toList

end ExitVar

/-- All variables of the template replaced at once. -/
def substituteAtOnce (template : String) (status : Nat) (message requestId : Option String) : String :=
  String.ofList (Placeholders.substitute ExitVar.chars (ExitVar.value status message requestId) ExitVar.all template.toList)

/-- The template with the status and the message, each request id left as the variable. -/
def beforeRequestId (template : String) (status : Nat) (message : Option String) : String :=
  substituteAtOnce template status message (some "$request_id")

/-- How often the text has `$request_id` in it. -/
def requestIdCount (text : String) : Nat := Placeholders.occurrences ExitVar.requestId.chars text.toList

theorem status_text (status : Nat) : '$' ∉ (toString status).toList ∧
    ∃ c rest, (toString status).toList = c :: rest ∧ c ∉ ExitVar.message.chars := by
  have hlist : (toString status).toList = Nat.toDigits 10 status := Nat.toList_repr
  have hdigit : ∀ c ∈ (toString status).toList, c.isDigit = true := fun c hc =>
    Nat.isDigit_of_mem_toDigits (by decide) (by decide) (hlist ▸ hc)
  refine ⟨fun h => absurd (hdigit '$' h) (by decide), ?_⟩
  cases hcs : (toString status).toList with
  | nil => exact absurd (hlist.symm.trans hcs) Nat.toDigits_ne_nil
  | cons c rest =>
    have hc := hdigit c (hcs ▸ List.mem_cons_self)
    have hall : ExitVar.message.chars.all (fun d => !d.isDigit) = true := by decide
    refine ⟨c, rest, rfl, fun hm => ?_⟩
    have hnot := List.all_eq_true.mp hall c hm
    rw [hc] at hnot
    cases hnot

theorem toList_replace (s pattern value : String) :
    (replace s pattern value).toList = Placeholders.replaceAll pattern.toList value.toList s.toList := String.toList_ofList

theorem substituteExitVars_eq_iff (template : String) (status : Nat) (message requestId : Option String) :
    substituteExitVars template status message requestId = substituteAtOnce template status message requestId ↔
      requestIdCount (beforeRequestId template status message) = requestIdCount template ∨
        requestId = some "$request_id" := by
  let values := ExitVar.value status message (some "$request_id")
  let items := Placeholders.scan ExitVar.chars ExitVar.all template.toList
  let withStatus := Function.update ExitVar.chars .status (toString status).toList
  have hwithStatus : Placeholders.replaceAll ExitVar.status.chars (toString status).toList template.toList =
      Placeholders.render withStatus items := by
    have h := Placeholders.replaceAll_render (k := .status) ExitVar.marked ExitVar.mem_all ExitVar.distinct rfl
      (fun _ => .inl rfl) (toString status).toList template.toList
    rwa [Placeholders.render_scan ExitVar.marked] at h
  have hwithMessage : Placeholders.replaceAll ExitVar.message.chars (message.getD "").toList
      (Placeholders.render withStatus items) = Placeholders.render values items := by
    have hothers : ∀ var, withStatus var = var.chars ∨ '$' ∉ withStatus var ∧
        ∃ c rest, withStatus var = c :: rest ∧ c ∉ ExitVar.message.chars := by
      intro var
      cases var with
      | status => exact .inr (status_text status)
      | message => exact .inl rfl
      | requestId => exact .inl rfl
    have h := Placeholders.replaceAll_render (k := .message) (σ := withStatus) ExitVar.marked ExitVar.mem_all
      ExitVar.distinct rfl hothers (message.getD "").toList template.toList
    have hvalues : Function.update withStatus .message (message.getD "").toList = values := by
      funext var
      cases var <;> rfl
    rwa [hvalues] at h
  have hlast := Placeholders.replaceAll_render_iff (k := .requestId) (σ := values) ExitVar.marked ExitVar.mem_all
    ExitVar.distinct rfl (requestId.getD "").toList template.toList
  have hvalues : Function.update values .requestId (requestId.getD "").toList = ExitVar.value status message requestId := by
    funext var
    cases var <;> rfl
  rw [hvalues] at hlast
  have hseq : (substituteExitVars template status message requestId).toList =
      Placeholders.replaceAll ExitVar.requestId.chars (requestId.getD "").toList (Placeholders.render values items) := by
    rw [← hwithMessage, ← hwithStatus]
    unfold substituteExitVars
    rw [toList_replace, toList_replace, toList_replace]
    rfl
  rw [← String.toList_inj, hseq]
  unfold substituteAtOnce
  rw [String.toList_ofList]
  refine hlast.trans (or_congr ?_ ?_)
  · unfold requestIdCount beforeRequestId substituteAtOnce
    rw [String.toList_ofList]
    rfl
  · constructor
    · intro h
      have htext : requestId.getD "" = "$request_id" := String.toList_inj.mp h
      cases requestId with
      | none => exact absurd htext (by decide)
      | some id => exact congrArg some htext
    · rintro rfl
      rfl

/-! ## Headers by name -/

theorem eqIgnoreAsciiCase_iff {a b : String} :
    eqIgnoreAsciiCase a b = true ↔ Text.toAsciiLowercase a = Text.toAsciiLowercase b := by
  unfold eqIgnoreAsciiCase
  rw [decide_eq_true_iff]

theorem eqIgnoreAsciiCase_congr {a b : String} (h : eqIgnoreAsciiCase a b = true) (c : String) :
    eqIgnoreAsciiCase a c = eqIgnoreAsciiCase b c := by
  unfold eqIgnoreAsciiCase
  rw [eqIgnoreAsciiCase_iff.mp h]

/-- The values of the headers of a name, in any letter case. -/
def valuesNamed (headers : List (String × String)) (name : String) : List String :=
  (headers.filter fun header => eqIgnoreAsciiCase header.1 name).map (·.2)

/-- The value of the last header of a name. -/
def lastNamed (headers : List (String × String)) (name : String) : Option String := (valuesNamed headers name).getLast?

def isContentType (name : String) : Bool := eqIgnoreAsciiCase name "content-type"

theorem isContentType_self : isContentType "content-type" = true := by decide

/-- The values that the response has under a name. -/
def ResolvedExitResponse.values (resolved : ResolvedExitResponse) (name : String) : List String :=
  (if isContentType name then resolved.contentType.toList else []) ++ valuesNamed resolved.headers name

theorem not_framing_of_contentType {name : String} (h : isContentType name = true) : isFramingHeader name = false := by
  unfold isFramingHeader
  rw [eqIgnoreAsciiCase_congr h, eqIgnoreAsciiCase_congr h]
  decide

theorem lastNamed_cons (header : String × String) (headers : List (String × String)) (name : String) :
    lastNamed (header :: headers) name =
      (lastNamed headers name).or (if eqIgnoreAsciiCase header.1 name then some header.2 else none) := by
  unfold lastNamed valuesNamed
  by_cases h : eqIgnoreAsciiCase header.1 name = true
  · rw [List.filter_cons_of_pos (by simpa using h), List.map_cons, if_pos h]
    cases hv : (headers.filter fun header => eqIgnoreAsciiCase header.1 name).map (·.2) with
    | nil => rfl
    | cons v vs =>
      rw [List.getLast?_cons_cons]
      cases hl : (v :: vs).getLast? with
      | none => exact absurd (List.getLast?_eq_none_iff.mp hl) (by simp)
      | some w => rfl
  · rw [List.filter_cons_of_neg (by simpa using h), if_neg h, Option.or_none]

/-- Without content types and framing. -/
def plainHeaders (headers : List (String × String)) : List (String × String) :=
  headers.filter fun header => !isContentType header.1 && !isFramingHeader header.1

theorem foldl_normalizeHeader (headers : List (String × String)) (acc : Option String × List (String × String)) :
    headers.foldl normalizeHeader acc =
      ((lastNamed headers "content-type").or acc.1, acc.2 ++ plainHeaders headers) := by
  induction headers generalizing acc with
  | nil => simp [lastNamed, valuesNamed, plainHeaders]
  | cons header headers ih =>
    rw [List.foldl_cons, ih, lastNamed_cons, Option.or_assoc]
    unfold normalizeHeader plainHeaders isContentType
    by_cases hc : eqIgnoreAsciiCase header.1 "content-type" = true
    · simp [hc]
    · by_cases hf : isFramingHeader header.1 = true
      · simp [hc, hf]
      · simp [hc, hf]

theorem valuesNamed_plainHeaders {name : String} (hc : isContentType name = false) (hf : isFramingHeader name = false)
    (headers : List (String × String)) : valuesNamed (plainHeaders headers) name = valuesNamed headers name := by
  unfold valuesNamed plainHeaders
  rw [List.filter_filter]
  congr 1
  refine List.filter_congr fun header _ => ?_
  by_cases h : eqIgnoreAsciiCase header.1 name = true
  · have hsame : isContentType header.1 = isContentType name ∧ isFramingHeader header.1 = isFramingHeader name := by
      unfold isContentType isFramingHeader
      simp only [eqIgnoreAsciiCase_congr h, and_self]
    rw [hsame.1, hsame.2, hc, hf, h]
    rfl
  · rw [Bool.not_eq_true] at h
    rw [h]
    rfl

/-- No content type and no framing among the headers. -/
def Plain (headers : List (String × String)) : Prop :=
  ∀ header ∈ headers, isContentType header.1 = false ∧ isFramingHeader header.1 = false

theorem plain_plainHeaders (headers : List (String × String)) : Plain (plainHeaders headers) := by
  intro header hm
  have hkept := (List.mem_filter.mp hm).2
  simpa using hkept

theorem Plain.valuesNamed {headers : List (String × String)} (h : Plain headers) {name : String}
    (hname : isContentType name = true ∨ isFramingHeader name = true) : valuesNamed headers name = [] := by
  unfold ExitTransformer.valuesNamed
  rw [List.filter_eq_nil_iff.mpr, List.map_nil]
  intro header hm hsame
  obtain ⟨hc, hf⟩ := h header hm
  unfold isContentType at hc hname
  unfold isFramingHeader at hf hname
  rw [eqIgnoreAsciiCase_congr hsame] at hc
  rw [eqIgnoreAsciiCase_congr hsame, eqIgnoreAsciiCase_congr hsame] at hf
  rw [hc, hf] at hname
  cases hname <;> contradiction

/-- The headers of a rule, one after another. -/
def applyRuleHeaders (sub : String → String) (resolved : ResolvedExitResponse) (headers : List (String × String)) :
    ResolvedExitResponse :=
  headers.foldl (fun resolved header => applyRuleHeader resolved header.1 (sub header.2)) resolved

/-- What the headers of a rule leave of a response. -/
structure RuleApplied (sub : String → String) (headers : List (String × String)) (before after : ResolvedExitResponse) :
    Prop where
  status : after.status = before.status
  body : after.body = before.body
  contentType : after.contentType = ((lastNamed headers "content-type").map sub).or before.contentType
  values : ∀ name, isContentType name = false → isFramingHeader name = false → valuesNamed after.headers name =
    match lastNamed headers name with
    | some value => [sub value]
    | none => valuesNamed before.headers name
  plain : Plain before.headers → Plain after.headers

theorem ruleApplied_one (sub : String → String) (header : String × String) (before : ResolvedExitResponse) :
    RuleApplied sub [header] before (applyRuleHeader before header.1 (sub header.2)) := by
  have hlast : ∀ name, lastNamed [header] name = if eqIgnoreAsciiCase header.1 name then some header.2 else none := fun name => by
    rw [lastNamed_cons]
    rfl
  unfold applyRuleHeader
  by_cases hc : eqIgnoreAsciiCase header.1 "content-type" = true
  · rw [if_pos hc]
    refine ⟨rfl, rfl, by rw [hlast, if_pos hc]; rfl, fun name hname _ => ?_, id⟩
    have hne : eqIgnoreAsciiCase header.1 name = false := by
      refine Bool.eq_false_iff.mpr fun h => ?_
      unfold isContentType at hname
      rw [← eqIgnoreAsciiCase_congr h, hc] at hname
      cases hname
    rw [hlast, hne]
    rfl
  · have hnone : lastNamed [header] "content-type" = none := by rw [hlast, if_neg hc]
    rw [if_neg hc]
    by_cases hf : isFramingHeader header.1 = true
    · rw [if_pos hf]
      refine ⟨rfl, rfl, by rw [hnone]; rfl, fun name _ hname => ?_, id⟩
      have hne : eqIgnoreAsciiCase header.1 name = false := by
        refine Bool.eq_false_iff.mpr fun h => ?_
        unfold isFramingHeader at hf hname
        rw [eqIgnoreAsciiCase_congr h, eqIgnoreAsciiCase_congr h, hname] at hf
        cases hf
      rw [hlast, hne]
      rfl
    · rw [if_neg hf]
      refine ⟨rfl, rfl, by rw [hnone]; rfl, fun name _ _ => ?_, fun hp h hm => ?_⟩
      · unfold valuesNamed
        rw [hlast, List.filter_append, List.filter_filter, List.map_append]
        by_cases h : eqIgnoreAsciiCase header.1 name = true
        · have hgone : before.headers.filter (fun other => eqIgnoreAsciiCase other.1 name &&
              !eqIgnoreAsciiCase other.1 header.1) = [] := by
            refine List.filter_eq_nil_iff.mpr fun other _ => ?_
            have hsame : eqIgnoreAsciiCase other.1 header.1 = eqIgnoreAsciiCase other.1 name := by
              unfold eqIgnoreAsciiCase
              rw [eqIgnoreAsciiCase_iff.mp h]
            simp [hsame]
          rw [hgone, if_pos h, List.filter_cons_of_pos (by simpa using h)]
          rfl
        · rw [if_neg h, List.filter_cons_of_neg (by simpa using h), List.filter_nil, List.map_nil, List.append_nil]
          congr 1
          refine List.filter_congr fun other _ => ?_
          by_cases ho : eqIgnoreAsciiCase other.1 name = true
          · have hne : eqIgnoreAsciiCase other.1 header.1 = false := by
              refine Bool.eq_false_iff.mpr fun hoh => h ?_
              rw [eqIgnoreAsciiCase_iff] at ho hoh ⊢
              exact hoh.symm.trans ho
            rw [ho, hne]
            rfl
          · rw [Bool.not_eq_true] at ho
            rw [ho]
            rfl
      · cases List.mem_append.mp hm with
        | inl hm => exact hp h (List.mem_filter.mp hm).1
        | inr hm =>
          rw [List.mem_singleton.mp hm]
          exact ⟨Bool.eq_false_iff.mpr hc, Bool.eq_false_iff.mpr hf⟩

theorem ruleApplied (sub : String → String) (headers : List (String × String)) (before : ResolvedExitResponse) :
    RuleApplied sub headers before (applyRuleHeaders sub before headers) := by
  induction headers generalizing before with
  | nil => exact ⟨rfl, rfl, rfl, fun _ _ _ => rfl, id⟩
  | cons header headers ih =>
    have hone := ruleApplied_one sub header before
    have hrest := ih (applyRuleHeader before header.1 (sub header.2))
    have hlast : ∀ name, lastNamed (header :: headers) name = (lastNamed headers name).or (lastNamed [header] name) :=
      fun name => by
        rw [lastNamed_cons, lastNamed_cons header []]
        rfl
    refine ⟨hrest.status.trans hone.status, hrest.body.trans hone.body, ?_, fun name hc hf => ?_, fun hp =>
      hrest.plain (hone.plain hp)⟩
    · show (applyRuleHeaders sub _ headers).contentType = _
      rw [hrest.contentType, hone.contentType, hlast, ← Option.or_assoc]
      cases lastNamed headers "content-type" <;> rfl
    · show valuesNamed (applyRuleHeaders sub _ headers).headers name = _
      rw [hrest.values name hc hf, hone.values name hc hf, hlast]
      cases lastNamed headers name <;> rfl

/-! ## The response of an exit -/

/-- The first rule that names the status. -/
def FirstRule (rules : List ExitTransformRule) (status : Nat) (rule : ExitTransformRule) : Prop :=
  ∃ before after, rules = before ++ rule :: after ∧ status ∈ rule.codes ∧ ∀ other ∈ before, status ∉ other.codes

theorem firstRule_iff {rules : List ExitTransformRule} {status : Nat} {rule : ExitTransformRule} :
    FirstRule rules status rule ↔ rules.find? (fun rule => rule.codes.contains status) = some rule := by
  rw [List.find?_eq_some_iff_append]
  constructor
  · rintro ⟨before, after, hrules, hmem, hnot⟩
    exact ⟨List.contains_iff_mem.mpr hmem, before, after, hrules, fun other ho => by simpa using hnot other ho⟩
  · rintro ⟨hmem, before, after, hrules, hnot⟩
    exact ⟨before, after, hrules, List.contains_iff_mem.mp hmem, fun other ho => by simpa using hnot other ho⟩

theorem exists_firstRule {rules : List ExitTransformRule} {status : Nat} (h : ¬∀ rule ∈ rules, status ∉ rule.codes) :
    ∃ rule, FirstRule rules status rule := by
  cases hfind : rules.find? (fun rule => rule.codes.contains status) with
  | some rule => exact ⟨rule, firstRule_iff.mpr hfind⟩
  | none =>
    refine absurd (fun rule hr hmem => ?_) h
    exact List.find?_eq_none.mp hfind rule hr (List.contains_iff_mem.mpr hmem)

/-- The original content type: the last such header, or else the typed one. -/
def originalContentType (contentType : Option String) (extraHeaders : List (String × String)) : Option String :=
  (lastNamed extraHeaders "content-type").or contentType

/-- The values of the original response under a name. -/
def originalValues (contentType : Option String) (extraHeaders : List (String × String)) (name : String) : List String :=
  if isContentType name then (originalContentType contentType extraHeaders).toList else valuesNamed extraHeaders name

/-- What a gateway exit is to become. -/
structure ExitContract (rules : List ExitTransformRule) (status : Nat) (body contentType : Option String)
    (extraHeaders : List (String × String)) (requestId : Option String) (resolved : ResolvedExitResponse) : Prop where
  unmatched : (∀ rule ∈ rules, status ∉ rule.codes) → resolved.status = status ∧ resolved.body = body.map String.toUTF8 ∧
    ∀ name, isFramingHeader name = false → resolved.values name = originalValues contentType extraHeaders name
  ruleStatus : ∀ rule, FirstRule rules status rule → resolved.status = rule.statusCode.getD status
  ruleBody : ∀ rule, FirstRule rules status rule → resolved.body =
    match rule.body with
    | some template => some (substituteAtOnce template (rule.statusCode.getD status) body requestId).toUTF8
    | none => body.map String.toUTF8
  ruleHeaders : ∀ rule, FirstRule rules status rule → ∀ name value, isFramingHeader name = false →
    lastNamed rule.headers name = some value →
    resolved.values name = [substituteAtOnce value (rule.statusCode.getD status) body requestId]
  otherHeaders : ∀ rule, FirstRule rules status rule → ∀ name, isFramingHeader name = false → isContentType name = false →
    lastNamed rule.headers name = none → resolved.values name = valuesNamed extraHeaders name
  noFraming : ∀ name, isFramingHeader name = true → resolved.values name = []
  oneContentType : ∃ value, resolved.values "content-type" = [value]

/-- A template of the rule that ends up in the response. -/
def UsedTemplate (rule : ExitTransformRule) (template : String) : Prop :=
  rule.body = some template ∨ ∃ name, isFramingHeader name = false ∧ lastNamed rule.headers name = some template

/-- A content type is left: the rule's, or the original one when the rule writes no body. -/
def TypeLeft (rules : List ExitTransformRule) (status : Nat) (contentType : Option String)
    (extraHeaders : List (String × String)) : Prop :=
  ((∀ rule ∈ rules, status ∉ rule.codes) → (originalContentType contentType extraHeaders).isSome) ∧
    ∀ rule, FirstRule rules status rule → (lastNamed rule.headers "content-type").isSome ∨
      rule.body = none ∧ (originalContentType contentType extraHeaders).isSome

/-- No used template gets another `$request_id` from its status and message. -/
def NoneMadeUp (rules : List ExitTransformRule) (status : Nat) (body requestId : Option String) : Prop :=
  requestId = some "$request_id" ∨ ∀ rule, FirstRule rules status rule → ∀ template, UsedTemplate rule template →
    requestIdCount (beforeRequestId template (rule.statusCode.getD status) body) = requestIdCount template

section
variable (transform : Option ExitTransform) (status : Nat) (body contentType : Option String)
  (extraHeaders : List (String × String)) (requestId : Option String)

/-- The rules of a transformation. -/
def rulesOf (transform : Option ExitTransform) : List ExitTransformRule := transform.elim [] (·.rules)

/-- The response without a rule. -/
def originalResponse : ResolvedExitResponse where
  status
  body := body.map String.toUTF8
  contentType := originalContentType contentType extraHeaders
  headers := plainHeaders extraHeaders

theorem resolveExitResponse_none (h : ∀ rule ∈ rulesOf transform, status ∉ rule.codes) :
    resolveExitResponse transform status body contentType extraHeaders requestId =
      originalResponse status body contentType extraHeaders := by
  have hnone : transform.bind (·.matching status) = none := by
    cases transform with
    | none => rfl
    | some t => exact List.find?_eq_none.mpr fun rule hr => by simpa using h rule hr
  unfold resolveExitResponse
  rw [hnone, foldl_normalizeHeader]
  rfl

/-- The response before the headers of its rule. -/
def ruleBase (rule : ExitTransformRule) : ResolvedExitResponse where
  status := rule.statusCode.getD status
  body :=
    match rule.body with
    | some template => some (substituteExitVars template (rule.statusCode.getD status) body requestId).toUTF8
    | none => body.map String.toUTF8
  contentType := if rule.body.isSome then none else originalContentType contentType extraHeaders
  headers := plainHeaders extraHeaders

theorem resolveExitResponse_some {rule : ExitTransformRule} (h : FirstRule (rulesOf transform) status rule) :
    resolveExitResponse transform status body contentType extraHeaders requestId =
      applyRuleHeaders (fun value => substituteExitVars value (rule.statusCode.getD status) body requestId)
        (ruleBase status body contentType extraHeaders requestId rule) rule.headers := by
  have hsome : transform.bind (·.matching status) = some rule := by
    cases transform with
    | none => exact absurd (firstRule_iff.mp h) (by simp [rulesOf])
    | some t => exact firstRule_iff.mp h
  unfold resolveExitResponse ruleBase
  rw [hsome, foldl_normalizeHeader]
  simp only
  cases rule.body with
  | none => rfl
  | some template => rfl

theorem values_of_plain {resolved : ResolvedExitResponse} (h : Plain resolved.headers) (name : String) :
    resolved.values name =
      if isContentType name then resolved.contentType.toList
      else if isFramingHeader name then [] else valuesNamed resolved.headers name := by
  unfold ResolvedExitResponse.values
  by_cases hc : isContentType name = true
  · rw [if_pos hc, if_pos hc, h.valuesNamed (.inl hc), List.append_nil]
  · rw [if_neg hc, if_neg hc, List.nil_append]
    by_cases hf : isFramingHeader name = true
    · rw [if_pos hf, h.valuesNamed (.inr hf)]
    · rw [if_neg hf]

theorem originalValues_eq {name : String} (hf : isFramingHeader name = false) :
    (if isContentType name then (originalContentType contentType extraHeaders).toList
      else if isFramingHeader name then [] else valuesNamed (plainHeaders extraHeaders) name) =
      originalValues contentType extraHeaders name := by
  unfold originalValues
  by_cases hc : isContentType name = true
  · rw [if_pos hc, if_pos hc]
  · rw [if_neg hc, if_neg hc, hf, if_neg Bool.false_ne_true]
    exact valuesNamed_plainHeaders (Bool.eq_false_iff.mpr hc) hf extraHeaders

theorem exit_unmatched_iff (h : ∀ rule ∈ rulesOf transform, status ∉ rule.codes) :
    ExitContract (rulesOf transform) status body contentType extraHeaders requestId
        (resolveExitResponse transform status body contentType extraHeaders requestId) ↔
      (originalContentType contentType extraHeaders).isSome = true := by
  have hno : ∀ rule, ¬FirstRule (rulesOf transform) status rule := by
    rintro rule ⟨before, after, hrules, hmem, -⟩
    exact h rule (by rw [hrules]; simp) hmem
  rw [resolveExitResponse_none transform status body contentType extraHeaders requestId h]
  have hvalues : ∀ name, (originalResponse status body contentType extraHeaders).values name =
      if isContentType name then (originalContentType contentType extraHeaders).toList
      else if isFramingHeader name then [] else valuesNamed (plainHeaders extraHeaders) name :=
    values_of_plain (plain_plainHeaders extraHeaders)
  constructor
  · intro hcontract
    obtain ⟨value, hvalue⟩ := hcontract.oneContentType
    rw [hvalues, if_pos isContentType_self] at hvalue
    cases hc : originalContentType contentType extraHeaders with
    | none =>
      rw [hc] at hvalue
      cases hvalue
    | some v => rfl
  · intro hsome
    refine ⟨fun _ => ⟨rfl, rfl, fun name hf => ?_⟩, fun rule hr => absurd hr (hno rule), fun rule hr => absurd hr (hno rule),
      fun rule hr => absurd hr (hno rule), fun rule hr => absurd hr (hno rule), fun name hf => ?_, ?_⟩
    · rw [hvalues, originalValues_eq contentType extraHeaders hf]
    · rw [hvalues]
      by_cases hc : isContentType name = true
      · rw [not_framing_of_contentType hc] at hf
        cases hf
      · rw [if_neg hc, if_pos hf]
    · obtain ⟨v, hv⟩ := Option.isSome_iff_exists.mp hsome
      exact ⟨v, by rw [hvalues, if_pos isContentType_self, hv]; rfl⟩

theorem FirstRule.unique {rules : List ExitTransformRule} {rule rule' : ExitTransformRule} (h : FirstRule rules status rule)
    (h' : FirstRule rules status rule') : rule' = rule :=
  Option.some.inj ((firstRule_iff.mp h').symm.trans (firstRule_iff.mp h))

theorem FirstRule.matched {rules : List ExitTransformRule} {rule : ExitTransformRule} (h : FirstRule rules status rule) :
    ¬∀ rule ∈ rules, status ∉ rule.codes := by
  obtain ⟨before, after, rfl, hmem, -⟩ := h
  exact fun hall => hall rule (by simp) hmem

theorem lastNamed_congr {name name' : String} (h : eqIgnoreAsciiCase name name' = true) (headers : List (String × String)) :
    lastNamed headers name = lastNamed headers name' := by
  unfold lastNamed valuesNamed eqIgnoreAsciiCase
  rw [eqIgnoreAsciiCase_iff.mp h]

/-- The values in the response of a rule, name by name. -/
theorem values_ruled {rule : ExitTransformRule} {sub : String → String} (name : String) :
    (applyRuleHeaders sub (ruleBase status body contentType extraHeaders requestId rule) rule.headers).values name =
      if isFramingHeader name then []
      else
        match lastNamed rule.headers name with
        | some value => [sub value]
        | none =>
          if isContentType name then
            if rule.body.isSome then [] else (originalContentType contentType extraHeaders).toList
          else valuesNamed extraHeaders name := by
  have happlied := ruleApplied sub rule.headers (ruleBase status body contentType extraHeaders requestId rule)
  rw [values_of_plain (happlied.plain (plain_plainHeaders extraHeaders))]
  by_cases hc : isContentType name = true
  · rw [if_pos hc, not_framing_of_contentType hc, if_neg Bool.false_ne_true, if_pos hc, happlied.contentType,
      lastNamed_congr hc]
    unfold ruleBase
    cases lastNamed rule.headers "content-type" with
    | some value => rfl
    | none => cases rule.body <;> rfl
  · rw [if_neg hc]
    by_cases hf : isFramingHeader name = true
    · rw [if_pos hf, if_pos hf]
    · rw [if_neg hf, if_neg hf, if_neg hc, happlied.values name (Bool.eq_false_iff.mpr hc) (Bool.eq_false_iff.mpr hf)]
      unfold ruleBase
      rw [valuesNamed_plainHeaders (Bool.eq_false_iff.mpr hc) (Bool.eq_false_iff.mpr hf)]

theorem exit_matched_iff {rule : ExitTransformRule} (h : FirstRule (rulesOf transform) status rule) :
    ExitContract (rulesOf transform) status body contentType extraHeaders requestId
        (resolveExitResponse transform status body contentType extraHeaders requestId) ↔
      ((lastNamed rule.headers "content-type").isSome = true ∨
        rule.body = none ∧ (originalContentType contentType extraHeaders).isSome = true) ∧
      ∀ template, UsedTemplate rule template →
        substituteExitVars template (rule.statusCode.getD status) body requestId =
          substituteAtOnce template (rule.statusCode.getD status) body requestId := by
  have hvalues := fun name => @values_ruled status body contentType extraHeaders requestId rule
    (fun value => substituteExitVars value (rule.statusCode.getD status) body requestId) name
  have happlied := ruleApplied (fun value => substituteExitVars value (rule.statusCode.getD status) body requestId)
    rule.headers (ruleBase status body contentType extraHeaders requestId rule)
  rw [resolveExitResponse_some transform status body contentType extraHeaders requestId h]
  constructor
  · intro hcontract
    refine ⟨?_, fun template hused => ?_⟩
    · obtain ⟨value, hvalue⟩ := hcontract.oneContentType
      rw [hvalues, if_neg (by decide)] at hvalue
      cases hlast : lastNamed rule.headers "content-type" with
      | some v => exact .inl rfl
      | none =>
        rw [hlast] at hvalue
        simp only [if_pos isContentType_self] at hvalue
        cases hbody : rule.body with
        | some template =>
          rw [hbody] at hvalue
          cases hvalue
        | none =>
          rw [hbody] at hvalue
          cases horiginal : originalContentType contentType extraHeaders with
          | some v => exact .inr ⟨rfl, rfl⟩
          | none =>
            rw [horiginal] at hvalue
            cases hvalue
    · cases hused with
      | inl hbody =>
        have hcode := happlied.body
        have hspec := hcontract.ruleBody rule h
        rw [hcode] at hspec
        unfold ruleBase at hspec
        rw [hbody] at hspec
        exact String.toByteArray_inj.mp (Option.some.inj hspec)
      | inr hheader =>
        obtain ⟨name, hf, hlast⟩ := hheader
        have hspec := hcontract.ruleHeaders rule h name template hf hlast
        rw [hvalues, hf, if_neg Bool.false_ne_true, hlast] at hspec
        exact (List.cons.inj hspec).1
  · rintro ⟨htype, hsub⟩
    refine ⟨fun hall => absurd hall (FirstRule.matched status h), fun rule' h' => ?_, fun rule' h' => ?_,
      fun rule' h' name value hf hlast => ?_, fun rule' h' name hf hc hlast => ?_, fun name hf => ?_, ?_⟩
    · cases FirstRule.unique status h h'
      exact happlied.status
    · cases FirstRule.unique status h h'
      refine happlied.body.trans ?_
      unfold ruleBase
      cases hbody : rule.body with
      | none => rfl
      | some template => simp only [hsub template (.inl hbody)]
    · cases FirstRule.unique status h h'
      rw [hvalues, hf, if_neg Bool.false_ne_true, hlast]
      simp only [hsub value (.inr ⟨name, hf, hlast⟩)]
    · cases FirstRule.unique status h h'
      rw [hvalues, hf, if_neg Bool.false_ne_true, hlast]
      simp only [hc, Bool.false_eq_true, if_false]
    · rw [hvalues, if_pos hf]
    · rw [hvalues, if_neg (by decide)]
      cases hlast : lastNamed rule.headers "content-type" with
      | some v => exact ⟨_, rfl⟩
      | none =>
        rw [hlast] at htype
        obtain ⟨hbody, hsome⟩ := htype.resolve_left Bool.false_ne_true
        obtain ⟨v, hv⟩ := Option.isSome_iff_exists.mp hsome
        refine ⟨v, ?_⟩
        rw [hbody, hv]
        rfl

end

/-- A gateway exit becomes what it is to become when a content type is left and no value makes up a variable. -/
theorem exit_contract_iff (transform : Option ExitTransform) (status : Nat) (body contentType : Option String)
    (extraHeaders : List (String × String)) (requestId : Option String) :
    ExitContract (rulesOf transform) status body contentType extraHeaders requestId
        (resolveExitResponse transform status body contentType extraHeaders requestId) ↔
      TypeLeft (rulesOf transform) status contentType extraHeaders ∧
        NoneMadeUp (rulesOf transform) status body requestId := by
  by_cases hall : ∀ rule ∈ rulesOf transform, status ∉ rule.codes
  · have hno : ∀ rule, ¬FirstRule (rulesOf transform) status rule := fun rule hr => FirstRule.matched status hr hall
    rw [exit_unmatched_iff transform status body contentType extraHeaders requestId hall]
    exact ⟨fun hsome => ⟨⟨fun _ => hsome, fun rule hr => absurd hr (hno rule)⟩, .inr fun rule hr => absurd hr (hno rule)⟩,
      fun hcond => hcond.1.1 hall⟩
  · obtain ⟨rule, hrule⟩ := exists_firstRule hall
    rw [exit_matched_iff transform status body contentType extraHeaders requestId hrule]
    simp only [substituteExitVars_eq_iff]
    constructor
    · rintro ⟨htype, hsub⟩
      refine ⟨⟨fun h => absurd h hall, fun rule' hr => ?_⟩, ?_⟩
      · cases FirstRule.unique status hrule hr
        exact htype
      · by_cases hid : requestId = some "$request_id"
        · exact .inl hid
        · refine .inr fun rule' hr template hused => ?_
          cases FirstRule.unique status hrule hr
          exact (hsub template hused).resolve_right hid
    · rintro ⟨htype, hmade⟩
      refine ⟨htype.2 rule hrule, fun template hused => ?_⟩
      cases hmade with
      | inl hid => exact .inr hid
      | inr hcount => exact .inl (hcount rule hrule template hused)

/-! ## The header that is sent -/

theorem getAll_insertHeader {m m' : HeaderMap} {name value : String} (other : String)
    (h : PluginAiProxy.insertHeader m name value = .ok m') : ∃ v, HeaderValue.ofString value = some v ∧
      HeaderMap.getAll m' other = if eqIgnoreAsciiCase name other then [v] else HeaderMap.getAll m other := by
  unfold PluginAiProxy.insertHeader at h
  cases hv : HeaderValue.ofString value with
  | none =>
    rw [hv] at h
    cases h
  | some v =>
    rw [hv] at h
    cases h
    refine ⟨v, rfl, ?_⟩
    by_cases he : eqIgnoreAsciiCase name other = true
    · rw [if_pos he, ← HeaderMap.getAll_congr _ (eqIgnoreAsciiCase_iff.mp he)]
      exact HeaderMap.getAll_insert_self m name v
    · rw [if_neg he]
      exact HeaderMap.getAll_insert_of_ne (fun e => he (eqIgnoreAsciiCase_iff.mpr e.symm)) v

theorem getAll_insertHeaders {other : String} {headers : List (String × String)} {m m' : HeaderMap}
    (h : headers.foldlM (fun m header => PluginAiProxy.insertHeader m header.1 header.2) m = .ok m')
    (hne : ∀ header ∈ headers, eqIgnoreAsciiCase header.1 other = false) :
    HeaderMap.getAll m' other = HeaderMap.getAll m other := by
  induction headers generalizing m with
  | nil =>
    cases h
    rfl
  | cons header headers ih =>
    obtain ⟨c, hc, hrest⟩ := Except.foldlM_cons_eq_ok.mp h
    obtain ⟨v, -, hget⟩ := getAll_insertHeader other hc
    rw [ih hrest fun header hm => hne header (List.mem_cons_of_mem _ hm), hget, hne header List.mem_cons_self,
      if_neg Bool.false_ne_true]

/-- The headers sent besides the resolved ones: at most one content type, and the length of the body. -/
theorem getAll_exitFraming {resolved : ResolvedExitResponse} {framing : HeaderMap} (h : exitFraming resolved = .ok framing) :
    HeaderMap.getAll framing "transfer-encoding" = [] ∧ (HeaderMap.getAll framing "content-type").length ≤ 1 ∧
      (bodyForbidden resolved.status = true → framing = []) ∧
      (bodyForbidden resolved.status = false → ∃ v, HeaderMap.getAll framing "content-length" = [v] ∧
        HeaderValue.ofString (toString ((exitBody resolved).elim 0 ByteArray.size)) = some v) := by
  unfold exitFraming at h
  by_cases hb : bodyForbidden resolved.status = true
  · rw [if_pos hb] at h
    cases h
    exact ⟨rfl, Nat.zero_le _, fun _ => rfl, fun h => absurd h (by rw [hb]; decide)⟩
  · rw [if_neg hb] at h
    obtain ⟨typed, htyped, hlength⟩ := Except.bind_eq_ok.mp h
    have htype : HeaderMap.getAll typed "transfer-encoding" = [] ∧ (HeaderMap.getAll typed "content-type").length ≤ 1 := by
      cases hc : resolved.contentType with
      | none =>
        rw [hc] at htyped
        cases htyped
        exact ⟨rfl, Nat.zero_le _⟩
      | some contentType =>
        rw [hc] at htyped
        obtain ⟨_, -, hencoding⟩ := getAll_insertHeader "transfer-encoding" htyped
        obtain ⟨v, -, hvalue⟩ := getAll_insertHeader "content-type" htyped
        rw [hencoding, hvalue]
        exact ⟨rfl, Nat.le_refl 1⟩
    obtain ⟨_, -, hencoding⟩ := getAll_insertHeader "transfer-encoding" hlength
    obtain ⟨_, -, hvalue⟩ := getAll_insertHeader "content-type" hlength
    obtain ⟨v, hv, hsize⟩ := getAll_insertHeader "content-length" hlength
    refine ⟨hencoding.trans htype.1, ?_, fun h => absurd h hb, fun _ => ⟨v, hsize, hv⟩⟩
    rw [hvalue]
    exact htype.2

/-- The framing that is sent is the gateway's own, with at most one content type. -/
theorem exitResponse_framing {resolved : ResolvedExitResponse} (hplain : Plain resolved.headers) {headers : HeaderMap}
    {body : Option ByteArray} (h : exitResponse resolved = .ok (headers, body)) :
    HeaderMap.getAll headers "transfer-encoding" = [] ∧ (HeaderMap.getAll headers "content-type").length ≤ 1 ∧
      (bodyForbidden resolved.status = true → HeaderMap.getAll headers "content-length" = []) ∧
      (bodyForbidden resolved.status = false → ∃ v, HeaderMap.getAll headers "content-length" = [v] ∧
        HeaderValue.ofString (toString (body.elim 0 ByteArray.size)) = some v) := by
  unfold exitResponse at h
  obtain ⟨-, h⟩ := Except.ite_throw_eq_ok.mp h
  obtain ⟨framing, hframing, h⟩ := Except.bind_eq_ok.mp h
  obtain ⟨sent, hsent, h⟩ := Except.bind_eq_ok.mp h
  cases h
  have hplainly : ∀ other, isContentType other = true ∨ isFramingHeader other = true →
      HeaderMap.getAll headers other = HeaderMap.getAll framing other := by
    refine fun other ho => getAll_insertHeaders hsent fun header hm => Bool.eq_false_iff.mpr fun he => ?_
    obtain ⟨hc, hf⟩ := hplain header hm
    unfold isContentType at hc ho
    unfold isFramingHeader at hf ho
    rw [eqIgnoreAsciiCase_congr he] at hc
    rw [eqIgnoreAsciiCase_congr he, eqIgnoreAsciiCase_congr he] at hf
    rw [hc, hf] at ho
    cases ho <;> contradiction
  obtain ⟨hencoding, htype, hforbidden, hlength⟩ := getAll_exitFraming hframing
  rw [hplainly _ (.inr (by decide)), hplainly _ (.inl (by decide)), hplainly _ (.inr (by decide))]
  exact ⟨hencoding, htype, fun hb => by rw [hforbidden hb]; rfl, hlength⟩

theorem plain_resolveExitResponse (transform : Option ExitTransform) (status : Nat) (body contentType : Option String)
    (extraHeaders : List (String × String)) (requestId : Option String) :
    Plain (resolveExitResponse transform status body contentType extraHeaders requestId).headers := by
  by_cases hall : ∀ rule ∈ rulesOf transform, status ∉ rule.codes
  · rw [resolveExitResponse_none transform status body contentType extraHeaders requestId hall]
    exact plain_plainHeaders extraHeaders
  · obtain ⟨rule, hrule⟩ := exists_firstRule hall
    rw [resolveExitResponse_some transform status body contentType extraHeaders requestId hrule]
    exact (ruleApplied _ rule.headers _).plain (plain_plainHeaders extraHeaders)

/-- Answers refusals with their message. -/
def echoMessage (headers : List (String × String)) : ExitTransformRule where
  codes := [401]
  body := some "$message"
  headers

theorem exit_contract_broken :
    (¬ExitContract [echoMessage [("Content-Type", "text/plain")]] 401 (some "no user $request_id") none [] (some "req-42")
      (resolveExitResponse (some ⟨[echoMessage [("Content-Type", "text/plain")]]⟩) 401 (some "no user $request_id") none []
        (some "req-42"))) ∧
    ¬ExitContract [echoMessage []] 401 (some "denied") (some "text/plain") [] (some "req-42")
      (resolveExitResponse (some ⟨[echoMessage []]⟩) 401 (some "denied") (some "text/plain") [] (some "req-42")) := by
  constructor
  · intro h
    have hbody := h.ruleBody (echoMessage [("Content-Type", "text/plain")]) ⟨[], [], rfl, by decide, nofun⟩
    exact absurd hbody (by decide)
  · intro h
    obtain ⟨value, hvalue⟩ := h.oneContentType
    cases hvalue

end Pingsix.ExitTransformer
