import Pingsix.Lib.Except
import Pingsix.Transform

/-!
# Soundness of the body transformation

The fields of the document sent to the provider: which limits of tokens it
carries once one is forced, and what of a conversation the conversion for
Anthropic keeps.
-/

namespace Pingsix.AiProxy

/-! ## The steps of a transformation -/

/-- The body with the options merged and the limit forced. -/
def forcedBody (client : Json) (options : Option Json) (maxTokens : Option Nat) (provider : Provider) : Json :=
  match maxTokens with
  | some maxTokens => applyMaxTokens (mergeOptions client options) maxTokens provider
  | none => mergeOptions client options

/-- What a transformation that succeeds went through. -/
structure Steps (json : JsonCodec) (clientBody : ByteArray) (options : Option Json) (maxTokens : Option Nat)
    (provider : Provider) (client doc : Json) : Prop where
  parsed : json.fromSlice clientBody = .ok client
  isObject : client.isObject = true
  fields : validateFieldTypes (forcedBody client options maxTokens provider) = .ok ()
  converted : provider = .anthropic → ∃ out, convertToAnthropic (forcedBody client options maxTokens provider) = .ok out ∧
    validateAnthropicRequirements out = .ok () ∧ doc = .obj out
  untouched : provider ≠ .anthropic → doc = forcedBody client options maxTokens provider

variable {json : JsonCodec} {clientBody : ByteArray} {options : Option Json} {maxTokens : Option Nat} {provider : Provider}

theorem steps_of_ok {doc : Json} (h : transformDocument json clientBody options maxTokens provider = .ok doc) :
    ∃ client, Steps json clientBody options maxTokens provider client doc := by
  obtain ⟨client, hparsed, h⟩ := Except.bind_eq_ok.mp h
  have hparsed := Except.mapError_eq_ok.mp hparsed
  cases hobj : client.isObject with
  | false =>
    rw [hobj] at h
    cases h
  | true =>
    rw [hobj] at h
    obtain ⟨-, h⟩ := Except.bind_unit_eq_ok.mp h
    obtain ⟨-, h⟩ := Except.bind_unit_eq_ok.mp h
    obtain ⟨hfields, h⟩ := Except.bind_unit_eq_ok.mp h
    refine ⟨client, hparsed, hobj, hfields, fun hp => ?_, fun hp => ?_⟩
    · rw [if_pos hp] at h
      obtain ⟨out, hout, h⟩ := Except.bind_eq_ok.mp h
      obtain ⟨hvalid, h⟩ := Except.bind_unit_eq_ok.mp h
      cases h
      exact ⟨out, hout, hvalid, rfl⟩
    · rw [if_neg hp] at h
      cases h
      rfl

/-! ## Limits of tokens -/

theorem limit_of_validateFieldTypes {body : Json} (h : validateFieldTypes body = .ok ()) {field : String}
    (hf : field ∈ ["max_tokens", "max_completion_tokens"]) {v : Json} (hv : body.get field = some v) :
    ∃ n, 1 ≤ n ∧ v = tokens n := by
  have hfield := (Except.forM_eq_ok _).mp (Except.ite_throw_eq_ok.mp h).2 field hf
  rw [Except.ite_throw_eq_ok, hv, Option.any_some, Bool.not_eq_true'] at hfield
  have hsome := (Bool.not_eq_false _).mp hfield.1
  unfold Json.asU64 at hsome
  split at hsome
  · exact ⟨_, by simpa using hsome, rfl⟩
  · cases hsome

theorem stream_of_validateFieldTypes {body : Json} (h : validateFieldTypes body = .ok ()) {v : Json}
    (hv : body.get "stream" = some v) : ∃ b, v = .bool b := by
  unfold validateFieldTypes at h
  rw [hv, Option.any_some] at h
  cases v with
  | bool b => exact ⟨b, rfl⟩
  | _ => cases h

theorem isObject_mergeOptions {client : Json} (h : client.isObject = true) (options : Option Json) :
    ∃ object, mergeOptions client options = .obj object := by
  unfold Json.isObject at h
  split at h
  · rename_i object
    unfold mergeOptions
    cases ho : options.filter Json.isObject with
    | none => exact ⟨object, rfl⟩
    | some patch =>
      have hpatch := (Option.filter_eq_some_iff.mp ho).2
      unfold Json.isObject at hpatch
      split at hpatch
      · rename_i members
        exact ⟨mergeMembers object members, by simp only [deepMerge]⟩
      · cases hpatch
  · cases h

/-- The fields of a body with a forced limit. -/
theorem get_applyMaxTokens (object : List (String × Json)) (n : Nat) (provider : Provider) (name : String) :
    (applyMaxTokens (.obj object) n provider).get name =
      if provider = .openai then
        if name = "max_tokens" then none else if name = "max_completion_tokens" then some (tokens n)
        else Json.lookup object name
      else if name = "max_tokens" then some (tokens n) else Json.lookup object name := by
  cases provider with
  | openai =>
    rw [if_pos rfl]
    exact (Json.lookup_removeMember _ _ _).trans (by rw [Json.lookup_insertMember])
  | openaiCompatible => exact Json.lookup_insertMember _ _ _ _
  | deepseek => exact Json.lookup_insertMember _ _ _ _
  | anthropic => exact Json.lookup_insertMember _ _ _ _

/-! ## The conversion for Anthropic -/

def roleOf (message : Json) : Option String := (message.get "role").bind Json.asStr

def contentOf (message : Json) : Option String := (message.get "content").bind Json.asStr

/-- The messages of a body. -/
def messagesOf (body : Json) : List Json := ((body.get "messages").bind Json.asArray).getD []

/-- The texts of the system messages, in order. -/
def systemTexts (messages : List Json) : List String :=
  messages.filterMap fun message => if roleOf message = some "system" then contentOf message else none

/-- The user's and the assistant's messages, in order. -/
def turns (messages : List Json) : List (String × String) :=
  messages.filterMap fun message =>
    match roleOf message, contentOf message with
    | some role, some content => if role = "user" ∨ role = "assistant" then some (role, content) else none
    | _, _ => none

/-- A message with a role and a content and nothing else. -/
def turnMessage (turn : String × String) : Json := .obj [("content", .str turn.2), ("role", .str turn.1)]

theorem turnMessage_eq (role content : String) :
    .obj (Json.insertMember "content" (.str content) (Json.insertMember "role" (.str role) [])) =
      turnMessage (role, content) := by
  have hlt : "content" < "role" := by decide
  have hne : "role" ≠ "content" := by decide
  simp [turnMessage, Json.insertMember, hne, hlt]

theorem convertMessage_eq_ok {index : Nat} {message : Json} {acc acc' : List String × List Json}
    (h : convertMessage index message acc = .ok acc') :
    acc' = (acc.1 ++ systemTexts [message], acc.2 ++ (turns [message]).map turnMessage) := by
  unfold convertMessage at h
  rw [← roleOf, ← contentOf] at h
  unfold systemTexts turns
  cases hr : roleOf message with
  | none =>
    rw [hr] at h
    cases h
  | some role =>
    cases hc : contentOf message with
    | none =>
      rw [hr, hc] at h
      cases h
    | some content =>
      rw [hr, hc] at h
      simp only at h
      by_cases hs : role = "system"
      · subst hs
        cases h
        simp [hr, hc]
      · rw [if_neg hs] at h
        by_cases ht : role = "user" ∨ role = "assistant"
        · rw [if_pos ht] at h
          cases h
          simp [hr, hc, hs, ht, turnMessage_eq]
        · rw [if_neg ht] at h
          cases h

theorem convertMessages_eq_ok : ∀ {messages : List (Json × Nat)} {acc acc' : List String × List Json},
    messages.foldlM (fun acc message => convertMessage message.2 message.1 acc) acc = .ok acc' →
      acc' = (acc.1 ++ systemTexts (messages.map (·.1)), acc.2 ++ (turns (messages.map (·.1))).map turnMessage)
  | [], acc, acc', h => by
    cases h
    simp [systemTexts, turns]
  | message :: messages, acc, acc', h => by
    obtain ⟨mid, hmid, hrest⟩ := Except.foldlM_cons_eq_ok.mp h
    rw [convertMessages_eq_ok hrest, convertMessage_eq_ok hmid]
    have happend : ∀ {α : Type} (f : Json → Option α), [message.1].filterMap f ++ (messages.map (·.1)).filterMap f =
        ((message :: messages).map (·.1)).filterMap f := fun f => by
      rw [← List.filterMap_append]
      rfl
    unfold systemTexts turns
    rw [List.append_assoc, List.append_assoc, ← List.map_append, happend, happend]

theorem lookup_setOption (field name : String) (value : Option Json) (out : List (String × Json)) :
    Json.lookup (setOption field value out) name = if name = field then value.or (Json.lookup out name)
      else Json.lookup out name := by
  cases value with
  | none => simp [setOption]
  | some value =>
    rw [setOption, Json.lookup_insertMember]
    rfl

/-- The field of the converted body under a name. -/
def anthropicField (body : Json) (name : String) : Option Json :=
  if name = "model" then present body "model"
  else if name = "system" then
    if systemTexts (messagesOf body) = [] then none else some (.str ("\n\n".intercalate (systemTexts (messagesOf body))))
  else if name = "messages" then some (.arr ((turns (messagesOf body)).map turnMessage))
  else if name = "max_tokens" then (present body "max_tokens").or (present body "max_completion_tokens")
  else if name = "stop_sequences" then present body "stop"
  else if name ∈ ["stream", "temperature", "top_p", "top_k"] then present body name
  else none

theorem lookup_convertToAnthropic {body : Json} {out : List (String × Json)} (h : convertToAnthropic body = .ok out)
    (name : String) : Json.lookup out name = anthropicField body name := by
  unfold convertToAnthropic at h
  obtain ⟨⟨parts, messages⟩, hloop, h⟩ := Except.bind_eq_ok.mp h
  have hparts := convertMessages_eq_ok hloop
  rw [List.zipIdx_map_fst] at hparts
  simp only [List.nil_append, Prod.mk.injEq] at hparts
  obtain ⟨rfl, rfl⟩ := hparts
  cases h
  rw [show ((body.get "messages").bind Json.asArray).getD [] = messagesOf body from rfl]
  have hsystem : ∀ out : List (String × Json), Json.lookup (if systemTexts (messagesOf body) = [] then out else
      Json.insertMember "system" (.str ("\n\n".intercalate (systemTexts (messagesOf body)))) out) name =
      if name = "system" ∧ systemTexts (messagesOf body) ≠ [] then
        some (.str ("\n\n".intercalate (systemTexts (messagesOf body))))
      else Json.lookup out name := by
    intro out
    by_cases hs : systemTexts (messagesOf body) = []
    · simp [hs]
    · simp [hs, Json.lookup_insertMember]
  have hnil : Json.lookup [] name = none := rfl
  simp only [lookup_setOption, List.foldl_cons, List.foldl_nil, Json.lookup_insertMember, hsystem, hnil, Option.or_none]
  unfold anthropicField
  by_cases hstop : name = "stop_sequences"
  · simp [hstop]
  by_cases hmodel : name = "model"
  · simp [hmodel]
  by_cases hsys : name = "system"
  · simp [hsys]
  by_cases hmsg : name = "messages"
  · simp [hmsg]
  by_cases hmax : name = "max_tokens"
  · simp [hmax]
  simp only [hstop, hmodel, hsys, hmsg, hmax, if_false, false_and, List.mem_cons, List.not_mem_nil, or_false]
  by_cases htopK : name = "top_k"
  · simp [htopK]
  by_cases htopP : name = "top_p"
  · simp [htopP]
  by_cases htemperature : name = "temperature"
  · simp [htemperature]
  by_cases hstream : name = "stream"
  · simp [hstream]
  · simp [htopK, htopP, htemperature, hstream]

/-! ## A forced limit -/

def limitFields : List String := ["max_tokens", "max_completion_tokens"]

/-- Every limit of tokens that the document carries is the one, and it carries one. -/
structure LimitedTo (n : Nat) (doc : Json) : Prop where
  equal : ∀ field ∈ limitFields, ∀ v, doc.get field = some v → v = tokens n
  carried : ∃ field ∈ limitFields, (doc.get field).isSome = true

theorem transformRequest_eq_ok {r : TransformedRequest}
    (h : transformRequest json clientBody options maxTokens provider = .ok r) :
    ∃ doc, transformDocument json clientBody options maxTokens provider = .ok doc ∧ r.body = json.toVec doc ∧
      r.streaming = decide (doc.get "stream" = some (.bool true)) := by
  obtain ⟨doc, hdoc, h⟩ := Except.bind_eq_ok.mp h
  cases h
  exact ⟨doc, hdoc, rfl, rfl⟩

/-- The limits in the document once a limit is forced. -/
theorem limits_of_steps {client doc : Json} {n : Nat} (h : Steps json clientBody options (some n) provider client doc) :
    doc.get "max_tokens" = (if provider = .openai then none else some (tokens n)) ∧
      doc.get "max_completion_tokens" =
        if provider = .openai then some (tokens n)
        else if provider = .anthropic then none
        else (mergeOptions client options).get "max_completion_tokens" := by
  obtain ⟨object, hobject⟩ := isObject_mergeOptions h.isObject options
  have hforced : forcedBody client options (some n) provider = applyMaxTokens (.obj object) n provider := by
    unfold forcedBody
    rw [hobject]
  by_cases hp : provider = .anthropic
  · obtain ⟨out, hout, -, rfl⟩ := h.converted hp
    have hget : ∀ name, (Json.obj out).get name = anthropicField (applyMaxTokens (.obj object) n provider) name :=
      fun name => by
        rw [← hforced]
        exact lookup_convertToAnthropic hout name
    have hmax : (applyMaxTokens (.obj object) n provider).get "max_tokens" = some (tokens n) := by
      rw [get_applyMaxTokens, hp]
      rfl
    rw [hget, hget, hp]
    rw [hp] at hmax
    refine ⟨?_, rfl⟩
    unfold anthropicField present
    rw [hmax]
    rfl
  · rw [h.untouched hp, hforced, get_applyMaxTokens, get_applyMaxTokens, if_neg hp]
    refine ⟨if_congr Iff.rfl (if_pos rfl) (if_pos rfl), if_congr Iff.rfl rfl ?_⟩
    rw [hobject]
    rfl

theorem forced_limit_iff {n : Nat} {r : TransformedRequest}
    (h : transformRequest json clientBody options (some n) provider = .ok r) :
    ∃ client doc, json.fromSlice clientBody = .ok client ∧
      transformDocument json clientBody options (some n) provider = .ok doc ∧ r.body = json.toVec doc ∧
      (LimitedTo n doc ↔ provider = .openai ∨ provider = .anthropic ∨
        ∀ v, (mergeOptions client options).get "max_completion_tokens" = some v → v = tokens n) := by
  obtain ⟨doc, hdoc, hbody, -⟩ := transformRequest_eq_ok h
  obtain ⟨client, hsteps⟩ := steps_of_ok hdoc
  obtain ⟨hmax, hcompletion⟩ := limits_of_steps hsteps
  refine ⟨client, doc, hsteps.parsed, hdoc, hbody, fun hl => ?_, fun hcond => ⟨fun field hf v hv => ?_, ?_⟩⟩
  · by_cases ho : provider = .openai
    · exact .inl ho
    · by_cases ha : provider = .anthropic
      · exact .inr (.inl ha)
      · refine .inr (.inr fun v hv => hl.equal "max_completion_tokens" (by simp [limitFields]) v ?_)
        rw [hcompletion, if_neg ho, if_neg ha, hv]
  · have hf : field = "max_tokens" ∨ field = "max_completion_tokens" := by simpa [limitFields] using hf
    cases hf with
    | inl hf =>
      rw [hf, hmax] at hv
      split at hv
      · cases hv
      · exact (Option.some.inj hv).symm
    | inr hf =>
      rw [hf, hcompletion] at hv
      split at hv
      · exact (Option.some.inj hv).symm
      · rename_i ho
        split at hv
        · cases hv
        · rename_i ha
          exact (hcond.resolve_left ho).resolve_left ha v hv
  · by_cases ho : provider = .openai
    · refine ⟨"max_completion_tokens", by simp [limitFields], ?_⟩
      rw [hcompletion, if_pos ho]
      rfl
    · refine ⟨"max_tokens", by simp [limitFields], ?_⟩
      rw [hmax, if_neg ho]
      rfl

/-- Reads the one text and writes the other. -/
def codecFor (text : String) (read : Json) (written : String) : JsonCodec where
  fromSlice bytes := if bytes = text.toUTF8 then .ok read else .error (.malformed "expected value at line 1 column 1")
  toVec _ := written.toUTF8
  render _ := "expected value at line 1 column 1"

/-- The text of a greeting with other members before its messages. -/
def greetingText (members : String) : String :=
  "\x7b" ++ members ++ ",\"messages\":[\x7b\"content\":\"hi\",\"role\":\"user\"\x7d]\x7d"

def greeting (before after : List (String × Json)) : Json :=
  .obj (before ++ ("messages", .arr [.obj [("content", .str "hi"), ("role", .str "user")]]) :: after)

/-- Asks for a long answer and is sent with the members. -/
def longAnswer (sent : String) : JsonCodec :=
  codecFor (greetingText "\"max_completion_tokens\":9000") (greeting [("max_completion_tokens", tokens 9000)] [])
    (greetingText sent)

def longAnswerBody : ByteArray := (greetingText "\"max_completion_tokens\":9000").toUTF8

theorem client_limit_stays : ∃ doc,
    transformDocument (longAnswer "\"max_completion_tokens\":9000,\"max_tokens\":16") longAnswerBody none (some 16) .deepseek =
      .ok doc ∧ ¬LimitedTo 16 doc := by
  refine ⟨greeting [("max_completion_tokens", tokens 9000), ("max_tokens", tokens 16)] [], rfl, fun h => ?_⟩
  have he := h.equal "max_completion_tokens" (by simp [limitFields]) (tokens 9000) rfl
  cases he

theorem forced_limit_iff_openai : ∃ r doc,
    transformRequest (longAnswer "\"max_completion_tokens\":16") longAnswerBody none (some 16) .openai = .ok r ∧
    transformDocument (longAnswer "\"max_completion_tokens\":16") longAnswerBody none (some 16) .openai = .ok doc ∧
    r.body = (greetingText "\"max_completion_tokens\":16").toUTF8 ∧ LimitedTo 16 doc := by
  have hr : transformRequest (longAnswer "\"max_completion_tokens\":16") longAnswerBody none (some 16) .openai =
      .ok ⟨(greetingText "\"max_completion_tokens\":16").toUTF8, false⟩ := rfl
  obtain ⟨_, doc, -, hdoc, hbody, hiff⟩ := forced_limit_iff hr
  exact ⟨_, doc, hr, hdoc, hbody, hiff.mpr (.inl rfl)⟩

/-! ## A conversation for Anthropic -/

def anthropicFields : List String :=
  ["model", "system", "messages", "max_tokens", "stream", "temperature", "top_p", "top_k", "stop_sequences"]

/-- The texts of a stop value: one, or several in an array. -/
def stopTexts : Json → Option (List String)
  | .str text => some [text]
  | .arr items => items.mapM Json.asStr
  | _ => none

/-- What is kept of the merged body. -/
structure Preserved (merged : Json) (out : List (String × Json)) (streaming : Bool) : Prop where
  fields : ∀ member ∈ out, member.1 ∈ anthropicFields
  roles : ∀ message ∈ messagesOf merged, ∃ role content, roleOf message = some role ∧ contentOf message = some content ∧
    role ∈ ["system", "user", "assistant"]
  messages : Json.lookup out "messages" = some (.arr ((turns (messagesOf merged)).map turnMessage))
  system : Json.lookup out "system" =
    if systemTexts (messagesOf merged) = [] then none else some (.str ("\n\n".intercalate (systemTexts (messagesOf merged))))
  maxTokens : ∃ n, 1 ≤ n ∧ Json.lookup out "max_tokens" = some (tokens n)
  stop : ∀ v, Json.lookup out "stop_sequences" = some v →
    ∃ texts, v = .arr (texts.map .str) ∧ (merged.get "stop").bind stopTexts = some texts
  stream : ∀ v, Json.lookup out "stream" = some v → v = .bool streaming
  unstreamed : Json.lookup out "stream" = none → streaming = false

/-- The stop value is absent, null or an array of texts. -/
def StopListed (merged : Json) : Prop :=
  ∀ v, merged.get "stop" = some v → v = .null ∨ ∃ texts : List String, v = .arr (texts.map .str)

theorem mapM_asStr (texts : List String) : (texts.map Json.str).mapM Json.asStr = some texts := by
  induction texts with
  | nil => rfl
  | cons text texts ih => simp [List.mapM_cons, Json.asStr, ih]

theorem roles_of_convertMessages : ∀ {messages : List (Json × Nat)} {acc acc' : List String × List Json},
    messages.foldlM (fun acc message => convertMessage message.2 message.1 acc) acc = .ok acc' →
      ∀ message ∈ messages.map (·.1), ∃ role content, roleOf message = some role ∧ contentOf message = some content ∧
        role ∈ ["system", "user", "assistant"]
  | [], _, _, _, message, hm => by cases hm
  | (message, index) :: messages, acc, acc', h, m, hm => by
    obtain ⟨mid, hmid, hrest⟩ := Except.foldlM_cons_eq_ok.mp h
    cases hm with
    | tail _ hm => exact roles_of_convertMessages hrest m hm
    | head =>
      unfold convertMessage at hmid
      rw [← roleOf, ← contentOf] at hmid
      cases hr : roleOf message with
      | none =>
        rw [hr] at hmid
        cases hmid
      | some role =>
        cases hc : contentOf message with
        | none =>
          rw [hr, hc] at hmid
          cases hmid
        | some content =>
          rw [hr, hc] at hmid
          refine ⟨role, content, rfl, rfl, ?_⟩
          simp only at hmid
          split at hmid
          · simp [*]
          · split at hmid
            · rename_i hrole
              obtain rfl | rfl := hrole <;> simp
            · cases hmid

/-- Fields other than the limits are those of the merged body. -/
theorem get_forcedBody {client : Json} (hc : client.isObject = true) {name : String} (hn : name ∉ limitFields) :
    (forcedBody client options maxTokens provider).get name = (mergeOptions client options).get name := by
  unfold forcedBody
  cases maxTokens with
  | none => rfl
  | some n =>
    obtain ⟨object, hobject⟩ := isObject_mergeOptions hc options
    have hne : name ≠ "max_tokens" ∧ name ≠ "max_completion_tokens" := by simpa [limitFields] using hn
    simp only [hobject, get_applyMaxTokens, if_neg hne.1, if_neg hne.2]
    split <;> rfl

theorem maxTokens_of_validate {out : List (String × Json)} (h : validateAnthropicRequirements out = .ok ()) :
    ∃ n, 1 ≤ n ∧ Json.lookup out "max_tokens" = some (tokens n) := by
  obtain ⟨-, h⟩ := Except.bind_unit_eq_ok.mp h
  obtain ⟨hmax, -⟩ := Except.bind_unit_eq_ok.mp h
  unfold requireMember at hmax
  cases hm : Json.lookup out "max_tokens" with
  | none =>
    rw [hm] at hmax
    cases hmax
  | some v =>
    rw [hm] at hmax
    simp only at hmax
    split at hmax
    · rename_i hany
      unfold Json.asU64 at hany
      split at hany
      · exact ⟨_, by simpa using hany, rfl⟩
      · cases hany
    · cases hmax

theorem mem_anthropicFields {body : Json} {name : String} (h : anthropicField body name ≠ none) :
    name ∈ anthropicFields := by
  refine Classical.byContradiction fun hn => h ?_
  simp only [anthropicFields, List.mem_cons, List.not_mem_nil, or_false, not_or] at hn
  simp [anthropicField, hn]

/-- A converted stop value is an array of texts when the client's is. -/
theorem stop_iff {merged : Json} : (∀ v, present merged "stop" = some v →
      ∃ texts, v = .arr (texts.map .str) ∧ (merged.get "stop").bind stopTexts = some texts) ↔ StopListed merged := by
  unfold present StopListed
  cases hs : merged.get "stop" with
  | none => simp
  | some v =>
    constructor
    · intro h w hw
      cases hw
      by_cases hnull : v = .null
      · exact .inl hnull
      · obtain ⟨texts, hv, -⟩ := h v (Option.filter_eq_some_iff.mpr ⟨rfl, by simpa using hnull⟩)
        exact .inr ⟨texts, hv⟩
    · intro h w hw
      obtain ⟨hw, hnull⟩ := Option.filter_eq_some_iff.mp hw
      cases hw
      obtain ⟨texts, hv⟩ := (h v rfl).resolve_left (by simpa using hnull)
      refine ⟨texts, hv, ?_⟩
      rw [hv]
      exact mapM_asStr texts

theorem conversation_preserved_iff {r : TransformedRequest}
    (h : transformRequest json clientBody options maxTokens .anthropic = .ok r) :
    ∃ client out, json.fromSlice clientBody = .ok client ∧
      transformDocument json clientBody options maxTokens .anthropic = .ok (.obj out) ∧ r.body = json.toVec (.obj out) ∧
      (Preserved (mergeOptions client options) out r.streaming ↔ StopListed (mergeOptions client options)) := by
  obtain ⟨doc, hdoc, hbody, hstreaming⟩ := transformRequest_eq_ok h
  obtain ⟨client, hsteps⟩ := steps_of_ok hdoc
  obtain ⟨out, hout, hvalid, rfl⟩ := hsteps.converted rfl
  have hlookup := lookup_convertToAnthropic hout
  have hget : ∀ name, name ∉ limitFields → (forcedBody client options maxTokens .anthropic).get name =
      (mergeOptions client options).get name := fun name hn => get_forcedBody hsteps.isObject hn
  have hmessages : messagesOf (forcedBody client options maxTokens .anthropic) = messagesOf (mergeOptions client options) := by
    unfold messagesOf
    rw [hget _ (by decide)]
  have hstop : Json.lookup out "stop_sequences" = present (mergeOptions client options) "stop" := by
    have hfield : ∀ body, anthropicField body "stop_sequences" = present body "stop" := fun _ => rfl
    rw [hlookup, hfield]
    unfold present
    rw [hget _ (by decide)]
  refine ⟨client, out, hsteps.parsed, hdoc, hbody, fun hp => ?_, fun hlisted => ?_⟩
  · refine stop_iff.mp ?_
    rw [← hstop]
    exact hp.stop
  have hstream : Json.lookup out "stream" = present (forcedBody client options maxTokens .anthropic) "stream" := by
    rw [hlookup]
    rfl
  have hloop : ∃ acc, (messagesOf (forcedBody client options maxTokens .anthropic)).zipIdx.foldlM
      (fun acc message => convertMessage message.2 message.1 acc) ([], []) = .ok acc := by
    unfold convertToAnthropic at hout
    obtain ⟨acc, hloop, -⟩ := Except.bind_eq_ok.mp hout
    exact ⟨acc, hloop⟩
  refine ⟨fun member hm => ?_, fun message hm => ?_, ?_, ?_, maxTokens_of_validate hvalid, ?_, fun v hv => ?_, fun hnone => ?_⟩
  · refine @mem_anthropicFields (forcedBody client options maxTokens .anthropic) _ ?_
    rw [← hlookup]
    exact fun hnone => Json.lookup_eq_none.mp hnone (List.mem_map_of_mem hm)
  · obtain ⟨acc, hloop⟩ := hloop
    refine roles_of_convertMessages hloop message ?_
    rw [List.zipIdx_map_fst, hmessages]
    exact hm
  · rw [hlookup, ← hmessages]
    rfl
  · rw [hlookup, ← hmessages]
    rfl
  · rw [hstop]
    exact stop_iff.mpr hlisted
  · have hbool : ∃ b, v = .bool b := by
      rw [hstream] at hv
      exact stream_of_validateFieldTypes hsteps.fields (Option.filter_eq_some_iff.mp hv).1
    obtain ⟨b, rfl⟩ := hbool
    have hlook : (Json.obj out).get "stream" = some (.bool b) := hv
    rw [hstreaming, hlook]
    cases b with
    | false => rfl
    | true => rfl
  · have hlook : (Json.obj out).get "stream" = none := hnone
    rw [hstreaming, hlook]
    rfl

/-- The text of a greeting to a model with more members after it. -/
def stoppingText (stop : String) : String :=
  "\x7b\"max_tokens\":64,\"messages\":[\x7b\"content\":\"hi\",\"role\":\"user\"\x7d],\"model\":\"claude-3\"," ++ stop ++ "\x7d"

def stopping (value : Json) : Json := greeting [("max_tokens", tokens 64)] [("model", .str "claude-3"), ("stop", value)]

def stoppingBody (text : String) : ByteArray := (stoppingText ("\"stop\":" ++ text)).toUTF8

/-- Asks to stop at a value, written as the text. -/
def stopsAt (value : Json) (text : String) : JsonCodec :=
  codecFor (stoppingText ("\"stop\":" ++ text)) (stopping value) (stoppingText ("\"stop_sequences\":" ++ text))

theorem text_stop_unlisted : ∃ r client out,
    transformRequest (stopsAt (.str "END") "\"END\"") (stoppingBody "\"END\"") none none .anthropic = .ok r ∧
    transformDocument (stopsAt (.str "END") "\"END\"") (stoppingBody "\"END\"") none none .anthropic =
      .ok (.obj out) ∧
    client = stopping (.str "END") ∧ ¬Preserved (mergeOptions client none) out r.streaming := by
  refine ⟨_, _, _, rfl, rfl, rfl, fun h => ?_⟩
  obtain ⟨texts, hv, -⟩ := h.stop (.str "END") rfl
  cases hv

theorem conversation_preserved_iff_listed : ∃ r client out,
    transformRequest (stopsAt (.arr [.str "END"]) "[\"END\"]") (stoppingBody "[\"END\"]") none none .anthropic =
      .ok r ∧
    client = stopping (.arr [.str "END"]) ∧
    transformDocument (stopsAt (.arr [.str "END"]) "[\"END\"]") (stoppingBody "[\"END\"]") none none
      .anthropic = .ok (.obj out) ∧ Preserved (mergeOptions client none) out r.streaming := by
  have hr : transformRequest (stopsAt (.arr [.str "END"]) "[\"END\"]") (stoppingBody "[\"END\"]") none none
      .anthropic = .ok ⟨(stoppingText "\"stop_sequences\":[\"END\"]").toUTF8, false⟩ := rfl
  obtain ⟨client, out, hclient, hdoc, -, hiff⟩ := conversation_preserved_iff hr
  cases hclient
  refine ⟨_, _, out, hr, rfl, hdoc, hiff.mpr fun v hv => .inr ⟨["END"], ?_⟩⟩
  cases hv
  rfl

end Pingsix.AiProxy
