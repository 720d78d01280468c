import Pingsix.Cors
import Pingsix.Lib.HeaderFields
import Pingsix.Lib.Segments
import Pingsix.VarySound

/-!
# Soundness of the cors headers for caches

Responses to requests that differ in `Origin` alone, and in
`Access-Control-Request-Headers` alone, against what their `Vary` fields name.
The plugin names `Origin` only where it writes an origin that it allows, not
where it decides by one.
-/

namespace Pingsix

open HttpMessage
open PluginAiProxy (insertHeader)

namespace Cors

/-! ## The names of the `Vary` fields -/

/-- A `Vary` field of the response names the header. -/
def Names (resp : HeaderMap) (name : String) : Prop := ∃ v ∈ HeaderMap.getAll resp "vary", NamedBy v name

/-- A `Vary` field of text names the header. -/
def TextNames (resp : HeaderMap) (name : String) : Prop :=
  ∃ v ∈ HeaderMap.getAll resp "vary", v.toStr.isSome ∧ NamedBy v name

theorem TextNames.names {resp : HeaderMap} {name : String} (h : TextNames resp name) : Names resp name :=
  let ⟨v, hv, _, hn⟩ := h
  ⟨v, hv, hn⟩

/-- An entry of a list in a field: trimmed, of visible characters, without a comma. -/
structure Token (t : String) : Prop where
  visible : ∀ c ∈ t.toList, Visible c
  trimmed : Text.Trimmed t
  comma : ',' ∉ t.toList
  nonempty : t ≠ ""

/-- The entries of the `Vary` fields of text. -/
def tokens (resp : HeaderMap) : List String :=
  ((HeaderMap.getAll resp "vary").flatMap fun v => splitTrimmed (v.toStr.getD "")).filter (· ≠ "")

theorem toAsciiLowercase_eq_empty {t : String} : Text.toAsciiLowercase t = "" ↔ t = "" := by
  unfold Text.toAsciiLowercase
  rw [← String.toList_inj, String.toList_ofList, ← String.toList_inj]
  simp

theorem varyFieldNames_eq (resp : HeaderMap) : varyFieldNames resp = (tokens resp).map Text.toAsciiLowercase := by
  unfold varyFieldNames tokens
  rw [List.filter_map]
  congr 1
  refine List.filter_congr fun t _ => ?_
  simp [toAsciiLowercase_eq_empty]

theorem token_of_mem_tokens {resp : HeaderMap} {t : String} (h : t ∈ tokens resp) : Token t := by
  obtain ⟨hmem, hne⟩ := List.mem_filter.mp h
  obtain ⟨v, -, ht⟩ := List.mem_flatMap.mp hmem
  obtain ⟨piece, hpiece, rfl⟩ := List.mem_map.mp ht
  have hsub : ∀ c ∈ (Text.trim (String.ofList piece)).toList, c ∈ piece := fun c hc => by
    simpa using trim_subset _ hc
  refine ⟨fun c hc => ?_, Text.trimmed_trim _, fun hc => ?_, by simpa using hne⟩
  · have hline := splitChars_subset hpiece (hsub c hc)
    cases hs : v.toStr with
    | none =>
      rw [hs] at hline
      simp at hline
    | some text =>
      rw [hs] at hline
      exact HeaderValue.visible_of_toStr hs c hline
  · exact Text.not_mem_of_mem_splitChars hpiece (hsub ',' hc)

/-- The entries of a field that joins them are the entries. -/
theorem tokens_insert {v : HeaderValue} {ts : List String} (resp : HeaderMap) (hts : ∀ t ∈ ts, Token t)
    (hv : v.toStr = some (", ".intercalate ts)) : tokens (HeaderMap.insert resp "vary" v) = ts := by
  have hjoin : ", " = String.singleton ',' ++ " " := String.toList_inj.mp (by simp)
  have hseg := @Text.segments_intercalate ',' " " (by simp; decide) (by decide) ts "" (by simp)
    fun t ht => ⟨(hts t ht).trimmed, (hts t ht).comma⟩
  rw [String.empty_append, ← hjoin] at hseg
  unfold tokens
  rw [HeaderMap.getAll_insert_self, List.flatMap_singleton, hv, Option.getD_some]
  refine hseg.trans (List.filter_eq_self.mpr fun t ht => ?_)
  simpa using (hts t ht).nonempty

theorem visible_intercalate {ts : List String} (hts : ∀ t ∈ ts, Token t) :
    ∀ c ∈ (", ".intercalate ts).toList, Visible c := by
  refine Text.forall_mem_intercalate (fun c hc => ?_) fun t ht => (hts t ht).visible
  have hc : c = ',' ∨ c = ' ' := by simpa using hc
  obtain rfl | rfl := hc
  · exact ⟨by decide, .inl (by decide)⟩
  · exact ⟨by decide, .inl (by decide)⟩

/-! ## Merging -/

/-- Values left are the values not seen, each once. -/
theorem retainUnseen_spec : ∀ (seen values : List String), retainUnseen seen values ⊆ values ∧
    ((retainUnseen seen values).map Text.toAsciiLowercase).Nodup ∧
      ∀ n, n ∈ (retainUnseen seen values).map Text.toAsciiLowercase ↔ n ∈ values.map Text.toAsciiLowercase ∧ n ∉ seen
  | _, [] => ⟨by simp [retainUnseen], by simp [retainUnseen], by simp [retainUnseen]⟩
  | seen, v :: values => by
    unfold retainUnseen
    by_cases hv : Text.toAsciiLowercase v ∈ seen
    · obtain ⟨hsub, hnodup, hmem⟩ := retainUnseen_spec seen values
      rw [if_pos (List.contains_iff_mem.mpr hv)]
      refine ⟨fun t ht => List.mem_cons_of_mem v (hsub ht), hnodup, fun n => ?_⟩
      rw [hmem, List.map_cons, List.mem_cons]
      exact ⟨fun h => ⟨.inr h.1, h.2⟩, fun h => ⟨h.1.resolve_left fun e => h.2 (e ▸ hv), h.2⟩⟩
    · obtain ⟨hsub, hnodup, hmem⟩ := retainUnseen_spec (Text.toAsciiLowercase v :: seen) values
      rw [if_neg fun h => hv (List.contains_iff_mem.mp h), List.map_cons]
      refine ⟨List.cons_subset_cons v hsub, List.nodup_cons.mpr ⟨fun h => ?_, hnodup⟩, fun n => ?_⟩
      · exact ((hmem _).mp h).2 List.mem_cons_self
      · rw [List.mem_cons, hmem, List.map_cons, List.mem_cons, List.mem_cons, not_or]
        by_cases hn : n = Text.toAsciiLowercase v
        · simp [hn, hv]
        · simp [hn]

/-- What merging a name leaves: text that names what text named and the name, each once, and the other fields. -/
structure Merged (resp : HeaderMap) (name : String) (merged : HeaderMap) : Prop where
  others : ∀ other, Text.toAsciiLowercase other ≠ "vary" → HeaderMap.getAll merged other = HeaderMap.getAll resp other
  text : ∀ v ∈ HeaderMap.getAll merged "vary", v.toStr.isSome
  nodup : (varyFieldNames merged).Nodup
  mem : ∀ n, n ∈ varyFieldNames merged ↔ n ∈ varyFieldNames resp ∨ n = Text.toAsciiLowercase name

theorem mergeVary_spec (resp : HeaderMap) {name : String} (hname : Token name) :
    ∃ merged, mergeVary resp name = .ok merged ∧ Merged resp name merged := by
  have hlist : ∃ values, values = (if (tokens resp).any fun v => Text.toAsciiLowercase v = Text.toAsciiLowercase name
      then tokens resp else tokens resp ++ [name]) ∧ (∀ t ∈ values, Token t) ∧
      ∀ n, n ∈ values.map Text.toAsciiLowercase ↔ n ∈ varyFieldNames resp ∨ n = Text.toAsciiLowercase name := by
    refine ⟨_, rfl, ?_⟩
    rw [varyFieldNames_eq]
    by_cases hhas : ((tokens resp).any fun v => Text.toAsciiLowercase v = Text.toAsciiLowercase name) = true
    · rw [if_pos hhas]
      refine ⟨fun t ht => token_of_mem_tokens ht, fun n => ⟨.inl, fun h => h.elim id ?_⟩⟩
      rintro rfl
      obtain ⟨v, hv, he⟩ := List.any_eq_true.mp hhas
      exact List.mem_map.mpr ⟨v, hv, of_decide_eq_true he⟩
    · rw [if_neg hhas]
      refine ⟨fun t ht => ?_, fun n => by simp⟩
      cases List.mem_append.mp ht with
      | inl ht => exact token_of_mem_tokens ht
      | inr ht => exact List.mem_singleton.mp ht ▸ hname
  obtain ⟨values, hvalues, htoken, hmem⟩ := hlist
  obtain ⟨hsub, hnodup, hleft⟩ := retainUnseen_spec [] values
  have hkept : ∀ t ∈ retainUnseen [] values, Token t := fun t ht => htoken t (hsub ht)
  obtain ⟨v, hv, htext⟩ := HeaderValue.ofString_of_visible (visible_intercalate hkept)
  have htokens := tokens_insert resp hkept htext
  refine ⟨HeaderMap.insert resp "vary" v, ?_, fun other h => HeaderMap.getAll_insert_of_ne h v, ?_, ?_, fun n => ?_⟩
  · show insertHeader resp "vary" (", ".intercalate (retainUnseen [] (if (tokens resp).any fun v =>
      Text.toAsciiLowercase v = Text.toAsciiLowercase name then tokens resp else tokens resp ++ [name]))) = _
    rw [← hvalues]
    unfold insertHeader
    rw [hv]
  · intro w hw
    rw [HeaderMap.getAll_insert_self, List.mem_singleton] at hw
    rw [hw, htext]
    rfl
  · rw [varyFieldNames_eq, htokens]
    exact hnodup
  · rw [varyFieldNames_eq, htokens, hleft, hmem]
    simp

theorem token_of_ascii {name : String} (h : ∀ c ∈ name.toList, c.isAlpha ∨ c = '-') (hne : name ≠ "") : Token name := by
  have hchar : ∀ c ∈ name.toList, Visible c ∧ Text.isWhitespace c = false ∧ c ≠ ',' := by
    intro c hc
    obtain ha | rfl := h c hc
    · have hnat := Text.bounds_of_isAlpha ha
      refine ⟨⟨by omega, .inl (by omega)⟩, ?_, fun e => ?_⟩
      · rw [isWhitespace_eq (by omega) (.inl (by omega))]
        unfold isOws
        simp only [Bool.or_eq_false_iff, decide_eq_false_iff_not]
        constructor
        · rintro rfl
          simp at hnat
        · rintro rfl
          simp at hnat
      · rw [e] at hnat
        simp at hnat
    · exact ⟨⟨by decide, .inl (by decide)⟩, by decide, by decide⟩
  exact ⟨fun c hc => (hchar c hc).1, ⟨fun c hc => (hchar c (List.mem_of_mem_head? hc)).2.1,
    fun c hc => (hchar c (List.mem_of_getLast? hc)).2.1⟩, fun hc => (hchar ',' hc).2.2 rfl, hne⟩

/-! ## What applying the headers writes -/

variable {config : OptimizedPluginConfig} {req req' : RequestHeader} {up resp resp' : HeaderMap}

/-- The origin of the request when it is allowed. -/
def allowedOrigin (config : OptimizedPluginConfig) (req : RequestHeader) : Option String :=
  (getReqHeaderValue req "origin").filter config.isOriginAllowed

/-- The fields that an allowed origin is granted. -/
def grantFields (config : OptimizedPluginConfig) (req : RequestHeader) (origin : String) : List (String × String) :=
  ("access-control-allow-origin", if config.reflectingOrigin then origin else "*") ::
    (if config.allowCredential then [("access-control-allow-credentials", "true")] else []) ++
    [("access-control-allow-methods",
        if config.allowMethods = "**" then "GET,POST,PUT,DELETE,PATCH,OPTIONS,HEAD" else config.allowMethods),
      ("access-control-allow-headers",
        if config.dynamicAllowHeaders then (getReqHeaderValue req "access-control-request-headers").getD ""
        else config.allowHeaders),
      ("access-control-max-age", toString config.maxAge)] ++
    config.exposeHeaders.toList.map fun expose => ("access-control-expose-headers", expose)

/-- The names merged into `Vary` with a grant. -/
def varyNames (config : OptimizedPluginConfig) : List String :=
  (if config.reflectingOrigin then ["Origin"] else []) ++
    if config.dynamicAllowHeaders then ["Access-Control-Request-Headers"] else []

def insertTexts (m : HeaderMap) (fields : List (String × String)) : ProxyResult HeaderMap :=
  fields.foldlM (fun m field => insertHeader m field.1 field.2) m

theorem applyCorsHeadersWithOrigin_eq (config : OptimizedPluginConfig) (req : RequestHeader) (up : HeaderMap) (origin : String) :
    config.applyCorsHeadersWithOrigin req up origin =
      insertTexts up (grantFields config req origin) >>= (varyNames config).foldlM mergeVary := by
  have hok : ∀ m : HeaderMap, (Except.ok m : ProxyResult HeaderMap) = pure m := fun _ => rfl
  unfold OptimizedPluginConfig.applyCorsHeadersWithOrigin insertTexts grantFields varyNames
  cases config.allowCredential <;> cases config.exposeHeaders <;> cases config.reflectingOrigin <;>
    cases config.dynamicAllowHeaders <;> simp [hok]

/-- Fields set are the only ones of their names, and the others are kept. -/
structure Sets (fields : List (String × String)) (m m' : HeaderMap) : Prop where
  set : ∀ field ∈ fields, ∃ v, HeaderValue.ofString field.2 = some v ∧ HeaderMap.getAll m' field.1 = [v]
  others : ∀ other, (∀ field ∈ fields, Text.toAsciiLowercase field.1 ≠ Text.toAsciiLowercase other) →
    HeaderMap.getAll m' other = HeaderMap.getAll m other

theorem sets_of_insertTexts {fields : List (String × String)} {m m' : HeaderMap}
    (hn : (fields.map fun field => Text.toAsciiLowercase field.1).Nodup) (h : insertTexts m fields = .ok m') :
    Sets fields m m' := by
  induction fields generalizing m with
  | nil =>
    cases h
    exact ⟨fun _ hf => absurd hf List.not_mem_nil, fun _ _ => rfl⟩
  | cons field fields ih =>
    rw [List.map_cons, List.nodup_cons] at hn
    obtain ⟨c, hc, hrest⟩ := Except.foldlM_cons_eq_ok.mp h
    obtain ⟨hset, hothers⟩ := ih hn.2 hrest
    unfold insertHeader at hc
    cases hv : HeaderValue.ofString field.2 with
    | none =>
      rw [hv] at hc
      cases hc
    | some v =>
      rw [hv] at hc
      cases hc
      refine ⟨fun f hf => ?_, fun other hne => ?_⟩
      · cases hf with
        | head =>
          refine ⟨v, hv, ?_⟩
          rw [hothers field.1 fun g hg he => hn.1 (List.mem_map.mpr ⟨g, hg, he⟩)]
          exact HeaderMap.getAll_insert_self m field.1 v
        | tail _ hf => exact hset f hf
      · rw [hothers other fun f hf => hne f (List.mem_cons_of_mem _ hf)]
        exact HeaderMap.getAll_insert_of_ne (hne field List.mem_cons_self).symm v

/-- What merging names leaves, none when there are none. -/
structure MergedAll (names : List String) (m m' : HeaderMap) : Prop where
  others : ∀ other, Text.toAsciiLowercase other ≠ "vary" → HeaderMap.getAll m' other = HeaderMap.getAll m other
  none : names = [] → HeaderMap.getAll m' "vary" = HeaderMap.getAll m "vary"
  text : names ≠ [] → ∀ v ∈ HeaderMap.getAll m' "vary", v.toStr.isSome
  mem : ∀ n, n ∈ varyFieldNames m' ↔ n ∈ varyFieldNames m ∨ n ∈ names.map Text.toAsciiLowercase

theorem mergedAll_of_foldlM {names : List String} (htoken : ∀ name ∈ names, Token name) {m m' : HeaderMap}
    (h : names.foldlM mergeVary m = .ok m') : MergedAll names m m' := by
  induction names generalizing m with
  | nil =>
    cases h
    exact ⟨fun _ _ => rfl, fun _ => rfl, fun h => absurd rfl h, fun n => by simp⟩
  | cons name names ih =>
    obtain ⟨c, hc, hrest⟩ := Except.foldlM_cons_eq_ok.mp h
    obtain ⟨c', hc', hmerged⟩ := mergeVary_spec m (htoken name List.mem_cons_self)
    cases hc.symm.trans hc'
    have ih := ih (fun n hn => htoken n (List.mem_cons_of_mem _ hn)) hrest
    refine ⟨fun other ho => (ih.others other ho).trans (hmerged.others other ho), nofun, fun _ => ?_, fun n => ?_⟩
    · by_cases hnil : names = []
      · rw [ih.none hnil]
        exact hmerged.text
      · exact ih.text hnil
    · rw [ih.mem, hmerged.mem, List.map_cons, List.mem_cons, or_assoc]

/-- The names of the granted fields, the same for every origin. -/
def grantNames (config : OptimizedPluginConfig) : List String :=
  "access-control-allow-origin" :: (if config.allowCredential then ["access-control-allow-credentials"] else []) ++
    ["access-control-allow-methods", "access-control-allow-headers", "access-control-max-age"] ++
    config.exposeHeaders.toList.map fun _ => "access-control-expose-headers"

theorem map_fst_grantFields (origin : String) : (grantFields config req origin).map (·.1) = grantNames config := by
  unfold grantFields grantNames
  cases config.allowCredential <;> cases config.exposeHeaders <;> rfl

theorem grantNames_spec (config : OptimizedPluginConfig) : (grantNames config).Nodup ∧
    ∀ name ∈ grantNames config, Text.toAsciiLowercase name = name ∧ Text.startsWith name "access-control-" = true := by
  unfold grantNames
  cases config.allowCredential <;> cases config.exposeHeaders <;> simp <;> decide

/-- The names of access control. -/
def AccessControl (name : String) : Prop := Text.startsWith (Text.toAsciiLowercase name) "access-control-" = true

/-- The fields granted to the request, none when its origin is not allowed. -/
def granted (config : OptimizedPluginConfig) (req : RequestHeader) : List (String × String) :=
  (allowedOrigin config req).elim [] (grantFields config req)

/-- The value of `Timing-Allow-Origin` for the request. -/
def timingValue (config : OptimizedPluginConfig) (req : RequestHeader) : Option String :=
  config.timingAllowOriginValue (getReqHeaderValue req "origin")

/-- The names merged for the request. -/
def mergedNames (config : OptimizedPluginConfig) (req : RequestHeader) : List String :=
  if (allowedOrigin config req).isSome then varyNames config else []

/-- What applying the headers leaves. -/
structure Applied (config : OptimizedPluginConfig) (req : RequestHeader) (up resp : HeaderMap) : Prop where
  grant : ∀ field ∈ granted config req, ∃ v, HeaderValue.ofString field.2 = some v ∧ HeaderMap.getAll resp field.1 = [v]
  kept : ∀ name, AccessControl name → (∀ field ∈ granted config req, field.1 ≠ Text.toAsciiLowercase name) →
    HeaderMap.getAll resp name = HeaderMap.getAll up name
  timing : ∀ text, timingValue config req = some text →
    ∃ v, HeaderValue.ofString text = some v ∧ HeaderMap.getAll resp "timing-allow-origin" = [v]
  untimed : timingValue config req = none →
    HeaderMap.getAll resp "timing-allow-origin" = HeaderMap.getAll up "timing-allow-origin"
  unmerged : mergedNames config req = [] → HeaderMap.getAll resp "vary" = HeaderMap.getAll up "vary"
  text : mergedNames config req ≠ [] → ∀ v ∈ HeaderMap.getAll resp "vary", v.toStr.isSome
  mem : ∀ n, n ∈ varyFieldNames resp ↔ n ∈ varyFieldNames up ∨ n ∈ (mergedNames config req).map Text.toAsciiLowercase

theorem varyFieldNames_congr (h : HeaderMap.getAll resp "vary" = HeaderMap.getAll up "vary") :
    varyFieldNames resp = varyFieldNames up := by
  unfold varyFieldNames
  rw [h]

theorem token_of_mem_varyNames : ∀ name ∈ varyNames config, Token name := by
  intro name hname
  unfold varyNames at hname
  cases List.mem_append.mp hname with
  | inl hname =>
    have he : name = "Origin" := by
      split at hname
      · exact List.mem_singleton.mp hname
      · cases hname
    exact he ▸ token_of_ascii (by simp) (by decide)
  | inr hname =>
    have he : name = "Access-Control-Request-Headers" := by
      split at hname
      · exact List.mem_singleton.mp hname
      · cases hname
    exact he ▸ token_of_ascii (by simp) (by decide)

/-- What a grant writes: its fields and the merged names. -/
theorem grant_spec {m : HeaderMap} (h : (match allowedOrigin config req with
      | some origin => config.applyCorsHeadersWithOrigin req up origin
      | none => .ok up) = .ok m) :
    ∃ set, Sets (granted config req) up set ∧ MergedAll (mergedNames config req) set m := by
  unfold granted mergedNames
  cases ho : allowedOrigin config req with
  | none =>
    rw [ho] at h
    cases h
    have hempty : MergedAll [] up up := mergedAll_of_foldlM (fun _ hn => absurd hn List.not_mem_nil) rfl
    exact ⟨up, ⟨fun _ hf => absurd hf List.not_mem_nil, fun _ _ => rfl⟩, hempty⟩
  | some origin =>
    rw [ho] at h
    simp only [applyCorsHeadersWithOrigin_eq] at h
    obtain ⟨set, hset, hmerge⟩ := Except.bind_eq_ok.mp h
    refine ⟨set, sets_of_insertTexts ?_ hset, mergedAll_of_foldlM token_of_mem_varyNames hmerge⟩
    obtain ⟨hnodup, hlower⟩ := grantNames_spec config
    rw [← @map_fst_grantFields _ req origin] at hnodup hlower
    rw [List.map_congr_left fun field hf => (hlower field.1 (List.mem_map_of_mem hf)).1]
    exact hnodup

theorem mem_granted {field : String × String} (h : field ∈ granted config req) :
    Text.toAsciiLowercase field.1 = field.1 ∧ Text.startsWith field.1 "access-control-" = true := by
  unfold granted at h
  cases ho : allowedOrigin config req with
  | none =>
    rw [ho] at h
    cases h
  | some origin =>
    rw [ho] at h
    refine (grantNames_spec config).2 field.1 ?_
    rw [← @map_fst_grantFields _ req origin]
    exact List.mem_map_of_mem h

theorem applyCorsHeaders_eq (config : OptimizedPluginConfig) (req : RequestHeader) (up : HeaderMap) :
    config.applyCorsHeaders req up = (match allowedOrigin config req with
      | some origin => config.applyCorsHeadersWithOrigin req up origin
      | none => .ok up) >>= fun m => config.applyTimingAllowOrigin m (getReqHeaderValue req "origin") := by
  unfold OptimizedPluginConfig.applyCorsHeaders allowedOrigin
  simp only
  cases (getReqHeaderValue req "origin").filter config.isOriginAllowed with
  | none => rfl
  | some origin => rfl

theorem applied_of_ok (h : config.applyCorsHeaders req up = .ok resp) : Applied config req up resp := by
  rw [applyCorsHeaders_eq] at h
  obtain ⟨m, hm, htiming⟩ := Except.bind_eq_ok.mp h
  obtain ⟨set, hset, hmerged⟩ := grant_spec hm
  have htiming : resp = m ∧ timingValue config req = none ∨
      ∃ text v, timingValue config req = some text ∧ HeaderValue.ofString text = some v ∧
        resp = HeaderMap.insert m "timing-allow-origin" v := by
    unfold OptimizedPluginConfig.applyTimingAllowOrigin at htiming
    unfold timingValue
    cases ht : config.timingAllowOriginValue (getReqHeaderValue req "origin") with
    | none =>
      rw [ht] at htiming
      cases htiming
      exact .inl ⟨rfl, rfl⟩
    | some text =>
      rw [ht] at htiming
      simp only [insertHeader] at htiming
      cases hv : HeaderValue.ofString text with
      | none =>
        rw [hv] at htiming
        cases htiming
      | some v =>
        rw [hv] at htiming
        cases htiming
        exact .inr ⟨text, v, rfl, hv, rfl⟩
  have hrest : ∀ name, Text.toAsciiLowercase name ≠ "timing-allow-origin" →
      HeaderMap.getAll resp name = HeaderMap.getAll m name := by
    intro name hne
    obtain ⟨rfl, -⟩ | ⟨text, v, -, -, rfl⟩ := htiming
    · rfl
    · exact HeaderMap.getAll_insert_of_ne hne v
  have hac : ∀ name, AccessControl name → Text.toAsciiLowercase name ≠ "timing-allow-origin" ∧
      Text.toAsciiLowercase name ≠ "vary" := by
    intro name hname
    unfold AccessControl at hname
    constructor
    · intro he
      rw [he] at hname
      exact absurd hname (by decide)
    · intro he
      rw [he] at hname
      exact absurd hname (by decide)
  have huntouched : ∀ name, (∀ field ∈ granted config req, field.1 ≠ Text.toAsciiLowercase name) →
      HeaderMap.getAll set name = HeaderMap.getAll up name := fun name hne =>
    hset.others name fun field hf => by
      rw [(mem_granted hf).1]
      exact hne field hf
  have hout : ∀ name, Text.startsWith name "access-control-" = false →
      ∀ field ∈ granted config req, field.1 ≠ name := by
    rintro name hname field hf rfl
    rw [(mem_granted hf).2] at hname
    cases hname
  have hvary : HeaderMap.getAll set "vary" = HeaderMap.getAll up "vary" := huntouched "vary" (hout _ (by decide))
  have hnames : varyFieldNames resp = varyFieldNames m := varyFieldNames_congr (hrest "vary" (by decide))
  refine ⟨fun field hf => ?_, fun name hname hne => ?_, fun text ht => ?_, fun ht => ?_, fun hnil => ?_, fun hnil => ?_,
    fun n => ?_⟩
  · obtain ⟨v, hv, hget⟩ := hset.set field hf
    obtain ⟨hlower, hstart⟩ := mem_granted hf
    have hfield := hac field.1 (by unfold AccessControl; rw [hlower]; exact hstart)
    exact ⟨v, hv, by rw [hrest field.1 hfield.1, hmerged.others field.1 hfield.2, hget]⟩
  · rw [hrest name (hac name hname).1, hmerged.others name (hac name hname).2, huntouched name hne]
  · obtain ⟨-, hnone⟩ | ⟨text', v, hsome, hv, rfl⟩ := htiming
    · rw [hnone] at ht
      cases ht
    · rw [hsome] at ht
      cases ht
      exact ⟨v, hv, HeaderMap.getAll_insert_self m _ v⟩
  · obtain ⟨rfl, -⟩ | ⟨text', v, hsome, -, -⟩ := htiming
    · rw [hmerged.others _ (by decide), huntouched _ (hout _ (by decide))]
    · rw [hsome] at ht
      cases ht
  · rw [hrest "vary" (by decide), hmerged.none hnil, hvary]
  · rw [hrest "vary" (by decide)]
    exact hmerged.text hnil
  · rw [hnames, hmerged.mem, varyFieldNames_congr hvary]

/-! ## Two requests -/

/-- The requests have the same fields of every other name. -/
def SameBut (name : String) (req req' : RequestHeader) : Prop :=
  ∀ other, Text.toAsciiLowercase other ≠ Text.toAsciiLowercase name →
    HeaderMap.getAll req.headers other = HeaderMap.getAll req'.headers other

/-- The responses differ in a header of access control or in `Timing-Allow-Origin`. -/
def Differ (resp resp' : HeaderMap) : Prop :=
  ∃ name, (AccessControl name ∨ Text.toAsciiLowercase name = "timing-allow-origin") ∧
    HeaderMap.getAll resp name ≠ HeaderMap.getAll resp' name

/-- Responses to requests that differ in the one header name it where they differ. -/
def NamesWhatDiffers (name : String) (req req' : RequestHeader) (resp resp' : HeaderMap) : Prop :=
  SameBut name req req' → Differ resp resp' → Names resp name ∧ Names resp' name

/-- Merging keeps every name that the upstream's response names, and names none twice. -/
def MergesAll (up : HeaderMap) : Prop :=
  ∀ name ∈ ["Origin", "Access-Control-Request-Headers"], ∀ merged, mergeVary up name = .ok merged →
    (∀ token, Names up token → Names merged token) ∧ (varyFieldNames merged).Nodup

/-- The fields are there, each alone under its name. -/
def Carries (up : HeaderMap) (fields : List (String × String)) : Prop :=
  ∀ field ∈ fields, ∃ v, HeaderValue.ofString field.2 = some v ∧ HeaderMap.getAll up field.1 = [v]

/-- Both are granted the same, or what the one is granted the upstream sent. -/
def SameGrant (config : OptimizedPluginConfig) (up : HeaderMap) (req req' : RequestHeader) : Prop :=
  match allowedOrigin config req, allowedOrigin config req' with
  | none, none => True
  | some origin, some origin' => config.reflectingOrigin = true → origin = origin'
  | some origin, none => Carries up (grantFields config req origin)
  | none, some origin' => Carries up (grantFields config req' origin')

def SameTiming (config : OptimizedPluginConfig) (up : HeaderMap) (req req' : RequestHeader) : Prop :=
  match timingValue config req, timingValue config req' with
  | none, none => True
  | some text, some text' => text = text'
  | some text, none | none, some text => Carries up [("timing-allow-origin", text)]

/-- The response names `Origin`: the plugin merges the name, or the upstream sent it and merging keeps it. -/
def OriginNamed (config : OptimizedPluginConfig) (up : HeaderMap) (req : RequestHeader) : Prop :=
  if (allowedOrigin config req).isSome then
    config.reflectingOrigin = true ∨ if config.dynamicAllowHeaders then TextNames up "origin" else Names up "origin"
  else Names up "origin"

theorem SameBut.value {name other : String} (h : SameBut name req req')
    (hne : Text.toAsciiLowercase other ≠ Text.toAsciiLowercase name) :
    getReqHeaderValue req other = getReqHeaderValue req' other := by
  unfold getReqHeaderValue HeaderMap.get
  rw [h other hne]

theorem grantFields_congr (h : getReqHeaderValue req "access-control-request-headers" =
    getReqHeaderValue req' "access-control-request-headers") (origin : String) :
    grantFields config req origin = grantFields config req' origin := by
  unfold grantFields
  rw [h]

/-- The names in the response of an applied grant. -/
theorem Applied.names (h : Applied config req up resp) (n : String) : Names resp n ↔
    if mergedNames config req = [] then Names up n
    else TextNames up n ∨ n ∈ (mergedNames config req).map Text.toAsciiLowercase := by
  by_cases hnil : mergedNames config req = []
  · rw [if_pos hnil]
    unfold Names
    rw [h.unmerged hnil]
  · rw [if_neg hnil]
    have htext : Names resp n ↔ TextNames resp n :=
      ⟨fun ⟨v, hv, hn⟩ => ⟨v, hv, h.text hnil v hv, hn⟩, TextNames.names⟩
    rw [htext]
    unfold TextNames
    rw [← mem_varyFieldNames, ← mem_varyFieldNames]
    exact h.mem n

theorem originNamed_iff (h : Applied config req up resp) : Names resp "origin" ↔ OriginNamed config up req := by
  rw [h.names]
  unfold OriginNamed mergedNames varyNames
  cases (allowedOrigin config req).isSome with
  | false => rfl
  | true =>
    have hne : "origin" ≠ Text.toAsciiLowercase "Access-Control-Request-Headers" := by decide
    have he : "origin" = Text.toAsciiLowercase "Origin" := by decide
    cases config.reflectingOrigin with
    | false => cases config.dynamicAllowHeaders <;> simp [hne]
    | true => cases config.dynamicAllowHeaders <;> simp [← he]

/-- Against a response without a grant, one with a grant is the same when the upstream sent the grant. -/
theorem sameFields_of_none (h : Applied config req up resp) (h' : Applied config req' up resp')
    (hnone : granted config req' = []) :
    (∀ name, AccessControl name → HeaderMap.getAll resp name = HeaderMap.getAll resp' name) ↔
      Carries up (granted config req) := by
  have hup : ∀ name, AccessControl name → HeaderMap.getAll resp' name = HeaderMap.getAll up name := fun name hname =>
    h'.kept name hname fun field hf => by
      rw [hnone] at hf
      cases hf
  constructor
  · intro hsame field hf
    obtain ⟨v, hv, hget⟩ := h.grant field hf
    obtain ⟨hlower, hstart⟩ := mem_granted hf
    have hname : AccessControl field.1 := by
      unfold AccessControl
      rw [hlower]
      exact hstart
    exact ⟨v, hv, by rw [← hup _ hname, ← hsame _ hname, hget]⟩
  · intro hcarries name hname
    rw [hup name hname]
    by_cases hf : ∃ field ∈ granted config req, field.1 = Text.toAsciiLowercase name
    · obtain ⟨field, hf, he⟩ := hf
      obtain ⟨v, hv, hget⟩ := h.grant field hf
      obtain ⟨w, hw, hgetw⟩ := hcarries field hf
      have hlower : Text.toAsciiLowercase name = Text.toAsciiLowercase field.1 := by rw [(mem_granted hf).1, he]
      rw [HeaderMap.getAll_congr resp hlower, HeaderMap.getAll_congr up hlower, hget, hgetw]
      rw [hv] at hw
      cases hw
      rfl
    · exact h.kept name hname fun field hm he => hf ⟨field, hm, he⟩

/-- The same fields granted leave the same fields. -/
theorem sameFields_of_eq (h : Applied config req up resp) (h' : Applied config req' up resp')
    (he : granted config req = granted config req') {name : String} (hname : AccessControl name) :
    HeaderMap.getAll resp name = HeaderMap.getAll resp' name := by
  by_cases hf : ∃ field ∈ granted config req, field.1 = Text.toAsciiLowercase name
  · obtain ⟨field, hf, hfield⟩ := hf
    obtain ⟨v, hv, hget⟩ := h.grant field hf
    obtain ⟨w, hw, hgetw⟩ := h'.grant field (he ▸ hf)
    have hlower : Text.toAsciiLowercase name = Text.toAsciiLowercase field.1 := by rw [(mem_granted hf).1, hfield]
    rw [HeaderMap.getAll_congr resp hlower, HeaderMap.getAll_congr resp' hlower, hget, hgetw]
    rw [hv] at hw
    cases hw
    rfl
  · rw [h.kept name hname fun field hm hn => hf ⟨field, hm, hn⟩,
      h'.kept name hname fun field hm hn => hf ⟨field, he ▸ hm, hn⟩]

theorem sameGrant_iff (h : Applied config req up resp) (h' : Applied config req' up resp')
    (hsame : SameBut "origin" req req') :
    (∀ name, AccessControl name → HeaderMap.getAll resp name = HeaderMap.getAll resp' name) ↔
      SameGrant config up req req' := by
  unfold SameGrant
  cases ho : allowedOrigin config req with
  | none =>
    have hnil : granted config req = [] := by
      unfold granted
      rw [ho]
      rfl
    cases ho' : allowedOrigin config req' with
    | none =>
      refine iff_true_intro fun name hname => sameFields_of_eq h h' ?_ hname
      unfold granted
      rw [ho, ho']
      rfl
    | some origin' =>
      have hgrant : granted config req' = grantFields config req' origin' := by
        unfold granted
        rw [ho']
        rfl
      show _ ↔ Carries up (grantFields config req' origin')
      rw [← hgrant, ← sameFields_of_none h' h hnil]
      exact forall₂_congr fun name _ => eq_comm
  | some origin =>
    have hgrant : granted config req = grantFields config req origin := by
      unfold granted
      rw [ho]
      rfl
    cases ho' : allowedOrigin config req' with
    | none =>
      show _ ↔ Carries up (grantFields config req origin)
      rw [← hgrant, ← sameFields_of_none h h']
      unfold granted
      rw [ho']
      rfl
    | some origin' =>
      have hgrant' : granted config req' = grantFields config req origin' := by
        unfold granted
        rw [ho', grantFields_congr (hsame.value (by decide))]
        rfl
      constructor
      · intro hall hreflecting
        have hfield : ∀ origin, ("access-control-allow-origin", origin) ∈ grantFields config req origin := by
          intro origin
          unfold grantFields
          rw [if_pos hreflecting]
          exact List.mem_cons_self
        obtain ⟨v, hv, hget⟩ := h.grant _ (hgrant ▸ hfield origin)
        obtain ⟨w, hw, hgetw⟩ := h'.grant _ (hgrant' ▸ hfield origin')
        have hname : AccessControl "access-control-allow-origin" := by
          unfold AccessControl
          decide
        have hvw : [v] = [w] := hget.symm.trans ((hall _ hname).trans hgetw)
        cases hvw
        exact HeaderValue.ofString_inj hv hw
      · intro heq name hname
        refine sameFields_of_eq h h' ?_ hname
        rw [hgrant, hgrant']
        unfold grantFields
        cases hr : config.reflectingOrigin with
        | false => rfl
        | true => rw [heq hr]

theorem sameTiming_iff (h : Applied config req up resp) (h' : Applied config req' up resp') :
    HeaderMap.getAll resp "timing-allow-origin" = HeaderMap.getAll resp' "timing-allow-origin" ↔
      SameTiming config up req req' := by
  have hsingle : ∀ text, Carries up [("timing-allow-origin", text)] ↔
      ∃ v, HeaderValue.ofString text = some v ∧ HeaderMap.getAll up "timing-allow-origin" = [v] := fun text =>
    List.forall_mem_singleton
  unfold SameTiming
  cases ht : timingValue config req with
  | none =>
    rw [h.untimed ht]
    cases ht' : timingValue config req' with
    | none =>
      rw [h'.untimed ht']
      exact iff_true_intro rfl
    | some text' =>
      obtain ⟨w, hw, hget⟩ := h'.timing text' ht'
      simp only [hsingle, hget]
      exact ⟨fun he => ⟨w, hw, he⟩, fun ⟨v, hv, he⟩ => by rw [he, Option.some.inj (hv.symm.trans hw)]⟩
  | some text =>
    obtain ⟨v, hv, hget⟩ := h.timing text ht
    cases ht' : timingValue config req' with
    | none =>
      rw [h'.untimed ht']
      simp only [hsingle, hget]
      exact ⟨fun he => ⟨v, hv, he.symm⟩, fun ⟨w, hw, he⟩ => by rw [he, Option.some.inj (hw.symm.trans hv)]⟩
    | some text' =>
      obtain ⟨w, hw, hget'⟩ := h'.timing text' ht'
      simp only [hget, hget']
      constructor
      · intro he
        cases he
        exact HeaderValue.ofString_inj hv hw
      · rintro rfl
        rw [Option.some.inj (hv.symm.trans hw)]

theorem differ_iff : Differ resp resp' ↔
    ¬((∀ name, AccessControl name → HeaderMap.getAll resp name = HeaderMap.getAll resp' name) ∧
      HeaderMap.getAll resp "timing-allow-origin" = HeaderMap.getAll resp' "timing-allow-origin") := by
  have hlower : "timing-allow-origin" = Text.toAsciiLowercase "timing-allow-origin" := by decide
  constructor
  · rintro ⟨name, hname, hne⟩ ⟨hall, htiming⟩
    cases hname with
    | inl hname => exact hne (hall name hname)
    | inr hname =>
      rw [hlower] at hname
      rw [HeaderMap.getAll_congr resp hname, HeaderMap.getAll_congr resp' hname] at hne
      exact hne htiming
  · intro hnot
    by_cases hall : ∀ name, AccessControl name → HeaderMap.getAll resp name = HeaderMap.getAll resp' name
    · exact ⟨_, .inr hlower.symm, fun he => hnot ⟨hall, he⟩⟩
    · push Not at hall
      obtain ⟨name, hname, hne⟩ := hall
      exact ⟨name, .inl hname, hne⟩

/-- Responses to requests with the same origin name the requested headers where they differ. -/
theorem namesWhatDiffers_requestHeaders (h : Applied config req up resp) (h' : Applied config req' up resp') :
    NamesWhatDiffers "access-control-request-headers" req req' resp resp' := by
  intro hsame hdiffer
  have horigin : getReqHeaderValue req "origin" = getReqHeaderValue req' "origin" := hsame.value (by decide)
  have hallowed : allowedOrigin config req = allowedOrigin config req' := by
    unfold allowedOrigin
    rw [horigin]
  have htiming : SameTiming config up req req' := by
    unfold SameTiming timingValue
    rw [horigin]
    cases config.timingAllowOriginValue (getReqHeaderValue req' "origin") with
    | none => trivial
    | some text => rfl
  have hgrant : granted config req ≠ granted config req' := fun he =>
    differ_iff.mp hdiffer ⟨fun name hname => sameFields_of_eq h h' he hname, (sameTiming_iff h h').mpr htiming⟩
  have hmerged : "access-control-request-headers" ∈ (mergedNames config req).map Text.toAsciiLowercase ∧
      mergedNames config req = mergedNames config req' := by
    unfold granted at hgrant
    unfold mergedNames
    rw [← hallowed] at hgrant ⊢
    refine ⟨?_, rfl⟩
    cases ho : allowedOrigin config req with
    | none =>
      rw [ho] at hgrant
      exact absurd rfl hgrant
    | some origin =>
      rw [ho] at hgrant
      have hdynamic : config.dynamicAllowHeaders = true := by
        refine Bool.not_eq_false _ ▸ fun hd => hgrant ?_
        simp only [Option.elim_some, grantFields, hd]
        rfl
      unfold varyNames
      rw [hdynamic]
      simp
      right
      decide
  have hnil : ∀ {names : List String}, "access-control-request-headers" ∈ names.map Text.toAsciiLowercase → names ≠ [] := by
    rintro names hmem rfl
    cases hmem
  refine ⟨(h.names _).mpr ?_, (h'.names _).mpr ?_⟩
  · rw [if_neg (hnil hmerged.1)]
    exact .inr hmerged.1
  · rw [← hmerged.2, if_neg (hnil hmerged.1)]
    exact .inr hmerged.1

/-- Merging keeps the names of a response whose unreadable `Vary` fields name nothing that the readable ones do not. -/
theorem mergesAll_iff : MergesAll up ↔ ∀ token, Names up token → TextNames up token := by
  have htoken : ∀ name ∈ ["Origin", "Access-Control-Request-Headers"], Token name := by
    intro name hname
    have hname : name = "Origin" ∨ name = "Access-Control-Request-Headers" := by simpa using hname
    obtain rfl | rfl := hname
    · exact token_of_ascii (by simp) (by decide)
    · exact token_of_ascii (by simp) (by decide)
  have hnames : ∀ name ∈ ["Origin", "Access-Control-Request-Headers"], ∃ merged, mergeVary up name = .ok merged ∧
      (varyFieldNames merged).Nodup ∧ ∀ n, Names merged n ↔ TextNames up n ∨ n = Text.toAsciiLowercase name := by
    intro name hname
    obtain ⟨merged, hok, hmerged⟩ := mergeVary_spec up (htoken name hname)
    refine ⟨merged, hok, hmerged.nodup, fun n => ?_⟩
    have htext : Names merged n ↔ TextNames merged n :=
      ⟨fun ⟨v, hv, hn⟩ => ⟨v, hv, hmerged.text v hv, hn⟩, TextNames.names⟩
    rw [htext]
    unfold TextNames
    rw [← mem_varyFieldNames, ← mem_varyFieldNames]
    exact hmerged.mem n
  constructor
  · intro hall token ht
    obtain ⟨m, hm, -, hmem⟩ := hnames "Origin" (by simp)
    obtain ⟨m', hm', -, hmem'⟩ := hnames "Access-Control-Request-Headers" (by simp)
    obtain hin | ho := (hmem token).mp ((hall _ (by simp) m hm).1 token ht)
    · exact hin
    · obtain hin | ha := (hmem' token).mp ((hall _ (by simp) m' hm').1 token ht)
      · exact hin
      · exact absurd (ho.symm.trans ha) (by decide)
  · intro hall name hname merged hok
    obtain ⟨m, hm, hnodup, hmem⟩ := hnames name hname
    cases hok.symm.trans hm
    exact ⟨fun token ht => (hmem token).mpr (.inl (hall token ht)), hnodup⟩

/-! ## Responses a cache may keep -/

/-- The responses name what they differ with, and merging keeps what the upstream's response names. -/
structure CacheSafe (up : HeaderMap) (req req' : RequestHeader) (resp resp' : HeaderMap) : Prop where
  origin : NamesWhatDiffers "origin" req req' resp resp'
  requestHeaders : NamesWhatDiffers "access-control-request-headers" req req' resp resp'
  merging : MergesAll up

/-- The two requests get the same headers, or `Origin` is named in both responses. -/
def OriginSafe (config : OptimizedPluginConfig) (up : HeaderMap) (req req' : RequestHeader) : Prop :=
  (SameGrant config up req req' ∧ SameTiming config up req req') ∨ (OriginNamed config up req ∧ OriginNamed config up req')

theorem namesWhatDiffers_origin_iff (h : Applied config req up resp) (h' : Applied config req' up resp') :
    NamesWhatDiffers "origin" req req' resp resp' ↔ (SameBut "origin" req req' → OriginSafe config up req req') := by
  unfold NamesWhatDiffers OriginSafe
  refine forall_congr' fun hsame => ?_
  rw [differ_iff, sameGrant_iff h h' hsame, sameTiming_iff h h', originNamed_iff h, originNamed_iff h', ← or_iff_not_imp_left]

theorem cors_cache_safe_iff (h : config.applyCorsHeaders req up = .ok resp)
    (h' : config.applyCorsHeaders req' up = .ok resp') :
    CacheSafe up req req' resp resp' ↔
      (SameBut "origin" req req' → OriginSafe config up req req') ∧ ∀ token, Names up token → TextNames up token := by
  have ha := applied_of_ok h
  have ha' := applied_of_ok h'
  rw [← namesWhatDiffers_origin_iff ha ha', ← mergesAll_iff]
  exact ⟨fun hs => ⟨hs.origin, hs.merging⟩, fun hs => ⟨hs.1, namesWhatDiffers_requestHeaders ha ha', hs.2⟩⟩

/-- A list of one origin. -/
def listed : OptimizedPluginConfig where
  allowOrigins := "https://a.example"
  allowMethods := "*"
  allowHeaders := "*"
  exposeHeaders := none
  maxAge := 5
  allowCredential := false
  allowOriginsByRegex := none
  allowOriginsSet := some ["https://a.example"]
  timingAllowOrigins := none
  timingAllowOriginsByRegex := none
  timingAllowOriginsSet := none

def crossOrigin (headers : HeaderMap) : RequestHeader where
  method := .get
  uri := .root
  headers

def fromOrigin (origin : String) (h : origin.toUTF8.data.toList.all isValidByte = true) : RequestHeader :=
  crossOrigin [("origin", ⟨origin.toUTF8.data.toList, List.all_eq_true.mp h⟩)]

def fromFirst : RequestHeader := fromOrigin "https://a.example" (by decide)

def fromSecond : RequestHeader := fromOrigin "https://b.example" (by decide)

theorem sameBut_fromOrigin {origin origin' : String} (h : origin.toUTF8.data.toList.all isValidByte = true)
    (h' : origin'.toUTF8.data.toList.all isValidByte = true) :
    SameBut "origin" (fromOrigin origin h) (fromOrigin origin' h') := by
  intro other hne
  have hne : "origin" ≠ Text.toAsciiLowercase other := fun he => hne (he ▸ by decide)
  simp [fromOrigin, crossOrigin, HeaderMap.getAll, hne]

theorem exists_applied (config : OptimizedPluginConfig) (req : RequestHeader)
    (h : (config.applyCorsHeaders req []).toOption.isSome = true) : ∃ resp, config.applyCorsHeaders req [] = .ok resp := by
  cases hresp : config.applyCorsHeaders req [] with
  | error e =>
    rw [hresp] at h
    cases h
  | ok resp => exact ⟨resp, rfl⟩

theorem refused_origin_unnamed : ∃ resp resp', listed.applyCorsHeaders fromFirst [] = .ok resp ∧
    listed.applyCorsHeaders fromSecond [] = .ok resp' ∧ ¬CacheSafe [] fromFirst fromSecond resp resp' := by
  obtain ⟨resp, hresp⟩ := exists_applied listed fromFirst (by decide +kernel)
  have hrefused : listed.applyCorsHeaders fromSecond [] = .ok [] := by decide
  refine ⟨resp, [], hresp, hrefused, fun hs => ?_⟩
  have hsafe := (namesWhatDiffers_origin_iff (applied_of_ok hresp) (applied_of_ok hrefused)).mp hs.origin
    (sameBut_fromOrigin _ _)
  have hallowed : allowedOrigin listed fromFirst = some "https://a.example" := by decide
  have hnone : allowedOrigin listed fromSecond = none := by decide
  cases hsafe with
  | inl hsame =>
    have hgrant := hsame.1
    unfold SameGrant at hgrant
    rw [hallowed, hnone] at hgrant
    obtain ⟨v, -, hget⟩ := hgrant _ List.mem_cons_self
    cases hget
  | inr hnamed =>
    have hnames := hnamed.2
    unfold OriginNamed at hnames
    rw [hnone] at hnames
    obtain ⟨v, hv, -⟩ := hnames
    cases hv

/-- Two listed origins. -/
def listedPair : OptimizedPluginConfig :=
  { listed with
    allowOrigins := "https://a.example,https://b.example"
    allowOriginsSet := some ["https://a.example", "https://b.example"] }

theorem cors_cache_safe_iff_listed : ∃ resp resp', listedPair.applyCorsHeaders fromFirst [] = .ok resp ∧
    listedPair.applyCorsHeaders fromSecond [] = .ok resp' ∧ CacheSafe [] fromFirst fromSecond resp resp' := by
  obtain ⟨resp, hresp⟩ := exists_applied listedPair fromFirst (by decide +kernel)
  obtain ⟨resp', hresp'⟩ := exists_applied listedPair fromSecond (by decide +kernel)
  refine ⟨resp, resp', hresp, hresp', (cors_cache_safe_iff hresp hresp').mpr ⟨fun _ => .inr ?_, ?_⟩⟩
  · exact ⟨.inl rfl, .inl rfl⟩
  · rintro token ⟨v, hv, -⟩
    cases hv

end Cors

end Pingsix
