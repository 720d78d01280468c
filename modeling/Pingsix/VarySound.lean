import Pingsix.CacheConfig
import Pingsix.CacheResponse
import Pingsix.Lib.HeaderText

/-!
# Soundness of the variance

The variance of a request is made of the first field of every selecting header,
an absent one as an empty one. Requests that differ in anything else of their
selecting headers share a stored response.
-/

namespace Pingsix

open HttpMessage

variable {υ η : Type}

/-! ## What a response varies with -/

/-- The characters of a field, one a byte. -/
def lineChars (v : HeaderValue) : List Char := v.bytes.map fun b => Char.ofNat b.toNat

def isOws (c : Char) : Bool := c = ' ' || c = '\t'

def trimOws (cs : List Char) : List Char := ((cs.dropWhile isOws).reverse.dropWhile isOws).reverse

/-- The `Vary` field names the header. -/
def NamedBy (v : HeaderValue) (name : String) : Prop :=
  name ≠ "" ∧ ∃ piece ∈ Text.splitChars ',' (lineChars v), Text.toAsciiLowercase (String.ofList (trimOws piece)) = name

/-- The configured list names the header. -/
def Configured (config : CacheConfig) (name : String) : Prop :=
  name ≠ "" ∧ ∃ h ∈ config.vary, Text.toAsciiLowercase (Text.trim h) = name

/-- A selecting header of the stored response. -/
def Selecting (headers : HeaderMap) (config : CacheConfig) (name : String) : Prop :=
  (∃ v ∈ HeaderMap.getAll headers "vary", NamedBy v name) ∨ Configured config name

/-- A selecting header that the variance is made of: its `Vary` field is text, or it is configured. -/
def Collected (headers : HeaderMap) (config : CacheConfig) (name : String) : Prop :=
  (∃ v ∈ HeaderMap.getAll headers "vary", v.toStr.isSome ∧ NamedBy v name) ∨ Configured config name

/-- The fields of a name, in order. -/
def fieldsOf (req : RequestHeader) (name : String) : List HeaderValue := HeaderMap.getAll req.headers name

/-! ## Trimming a line of text -/

theorem isWhitespace_eq {c : Char} (h : c.toNat < 127) (hp : 32 ≤ c.toNat ∨ c = '\t') :
    Text.isWhitespace c = isOws c := by
  have hchar : ∀ d : Char, c = d ↔ c.toNat = d.toNat := fun d => ⟨fun e => by rw [e], fun e => Char.ext (UInt32.toNat_inj.mp e)⟩
  rw [hchar] at hp
  unfold Text.isWhitespace isOws
  rw [Bool.eq_iff_iff]
  simp only [List.contains_iff_mem, List.mem_cons, List.not_mem_nil, Bool.or_eq_true, Bool.and_eq_true,
    decide_eq_true_eq, hchar]
  simp only [show ('\t' : Char).toNat = 9 from rfl, show (' ' : Char).toNat = 32 from rfl, or_false] at hp ⊢
  omega

theorem dropWhile_congr {p q : Char → Bool} : ∀ {l : List Char}, (∀ c ∈ l, p c = q c) → l.dropWhile p = l.dropWhile q
  | [], _ => rfl
  | c :: l, h => by
    rw [List.dropWhile_cons, List.dropWhile_cons, h c (by simp), dropWhile_congr fun d hd => h d (by simp [hd])]

theorem text_of_toStr {v : HeaderValue} {text : String} (h : v.toStr = some text) :
    text = String.ofList (lineChars v) ∧ ∀ c ∈ lineChars v, Text.isWhitespace c = isOws c := by
  have htext := (HeaderValue.toStr_eq_some.mp h).2
  refine ⟨htext.symm, fun c hc => ?_⟩
  have hvis := HeaderValue.visible_of_toStr h c (by rw [← htext, String.toList_ofList]; exact hc)
  exact isWhitespace_eq hvis.1 hvis.2

theorem trim_piece {v : HeaderValue} {text : String} (h : v.toStr = some text) {piece : List Char}
    (hp : piece ∈ Text.splitChars ',' (lineChars v)) : Text.trim (String.ofList piece) = String.ofList (trimOws piece) := by
  have hsame : ∀ c ∈ piece, Text.isWhitespace c = isOws c := fun c hc => (text_of_toStr h).2 c (splitChars_subset hp hc)
  unfold Text.trim trimOws
  rw [String.toList_ofList, dropWhile_congr hsame, dropWhile_congr (p := Text.isWhitespace) (q := isOws)]
  intro c hc
  exact hsame c ((List.dropWhile_sublist _).subset (List.mem_reverse.mp hc))

/-! ## The names of the variance -/

theorem mem_varyFieldNames {headers : HeaderMap} {name : String} :
    name ∈ varyFieldNames headers ↔ ∃ v ∈ HeaderMap.getAll headers "vary", v.toStr.isSome ∧ NamedBy v name := by
  unfold varyFieldNames
  rw [List.mem_filter, List.mem_map, decide_eq_true_eq]
  constructor
  · rintro ⟨⟨token, htoken, hlower⟩, hne⟩
    obtain ⟨v, hv, ht⟩ := List.mem_flatMap.mp htoken
    cases hs : v.toStr with
    | none =>
      rw [hs, Option.getD_none] at ht
      have hempty : token = "" := by simpa [splitTrimmed, Text.splitChars, Text.trim] using ht
      exact absurd (by rw [← hlower, hempty]; rfl) hne
    | some text =>
      rw [hs, Option.getD_some] at ht
      obtain ⟨piece, hpiece, rfl⟩ := List.mem_map.mp ht
      rw [(text_of_toStr hs).1, String.toList_ofList] at hpiece
      refine ⟨v, hv, by rw [hs]; rfl, hne, piece, hpiece, ?_⟩
      rw [← trim_piece hs hpiece, hlower]
  · rintro ⟨v, hv, htext, hne, piece, hpiece, hlower⟩
    obtain ⟨text, hs⟩ := Option.isSome_iff_exists.mp htext
    refine ⟨⟨Text.trim (String.ofList piece), List.mem_flatMap.mpr ⟨v, hv, ?_⟩, ?_⟩, hne⟩
    · rw [hs, Option.getD_some]
      refine List.mem_map.mpr ⟨piece, ?_, rfl⟩
      rw [(text_of_toStr hs).1, String.toList_ofList]
      exact hpiece
    · rw [trim_piece hs hpiece, hlower]

theorem mem_normalizeVary {config : CacheConfig} {name : String} :
    name ∈ CacheConfig.normalizeVary config.vary ↔ Configured config name := by
  unfold CacheConfig.normalizeVary Configured
  rw [List.mem_dedup, List.mem_insertionSort, List.mem_filter, List.mem_map, decide_eq_true_eq]
  exact and_comm

theorem mem_names {headers : HeaderMap} {config : CacheConfig} {defaultMaxObjectBytes : Nat} {name : String} :
    name ∈ varyFieldNames headers ++ (config.settings defaultMaxObjectBytes).policy.vary ↔ Collected headers config name := by
  rw [List.mem_append, mem_varyFieldNames]
  exact or_congr_right mem_normalizeVary

/-! ## Equal variances -/

section
variable {variance : List (String × List UInt8) → η} (hv : Function.Injective variance) {headers : HeaderMap}
  (hstar : responseHasVaryStar headers = false) {config : CacheConfig} {defaultMaxObjectBytes : Nat}
  {ctx ctx' : ProxyContext υ} {req req' : RequestHeader}
  (hctx : ctx.cacheSettings = some (config.settings defaultMaxObjectBytes))
  (hctx' : ctx'.cacheSettings = some (config.settings defaultMaxObjectBytes))
include hv hstar hctx hctx'

/-- Two variances are equal when the first fields of the collected headers are. -/
theorem cacheVary_eq_iff : cacheVary variance headers ctx req = cacheVary variance headers ctx' req' ↔
    ∀ name, Collected headers config name → firstFieldBytes req name = firstFieldBytes req' name := by
  unfold cacheVary
  rw [hctx, hctx']
  simp only [hstar, Bool.false_eq_true, if_false]
  by_cases hnil : varyFieldNames headers ++ (config.settings defaultMaxObjectBytes).policy.vary = []
  · rw [if_pos hnil, if_pos hnil]
    refine ⟨fun _ name hn => ?_, fun _ => rfl⟩
    have hmem := (@mem_names headers config defaultMaxObjectBytes name).mpr hn
    rw [hnil] at hmem
    cases hmem
  · rw [if_neg hnil, if_neg hnil, Option.some.injEq, hv.eq_iff, List.map_inj_left]
    refine forall_congr' fun name => ?_
    rw [List.mem_dedup, List.mem_insertionSort, mem_names, Prod.mk.injEq, and_iff_right rfl]

end

/-! ## What the variance hides -/

/-- Two sequences of fields with the same first bytes, an absent field counted as an empty one, that are not the same. -/
inductive HiddenDifference : List HeaderValue → List HeaderValue → Prop
  | absentAndEmpty {v : HeaderValue} {rest : List HeaderValue} (hv : v.bytes = []) : HiddenDifference [] (v :: rest)
  | emptyAndAbsent {v : HeaderValue} {rest : List HeaderValue} (hv : v.bytes = []) : HiddenDifference (v :: rest) []
  | laterFields {v : HeaderValue} {rest rest' : List HeaderValue} (hr : rest ≠ rest') :
    HiddenDifference (v :: rest) (v :: rest')

theorem bytes_injective {v w : HeaderValue} (h : v.bytes = w.bytes) : v = w := by
  cases v
  cases w
  cases h
  rfl

theorem hiddenDifference_iff {req req' : RequestHeader} {name : String}
    (h : firstFieldBytes req name = firstFieldBytes req' name) :
    HiddenDifference (fieldsOf req name) (fieldsOf req' name) ↔ fieldsOf req name ≠ fieldsOf req' name := by
  unfold firstFieldBytes HeaderMap.get at h
  unfold fieldsOf
  generalize HeaderMap.getAll req.headers name = l at h
  generalize HeaderMap.getAll req'.headers name = l' at h
  constructor
  · intro hd
    cases hd with
    | absentAndEmpty => simp
    | emptyAndAbsent => simp
    | laterFields hr => simpa using hr
  · intro hne
    cases l with
    | nil =>
      cases l' with
      | nil => exact absurd rfl hne
      | cons v rest => exact .absentAndEmpty (by simpa using h.symm)
    | cons v rest =>
      cases l' with
      | nil => exact .emptyAndAbsent (by simpa using h)
      | cons w rest' =>
        have hvw : v = w := bytes_injective (by simpa using h)
        subst hvw
        exact .laterFields fun hr => hne (by rw [hr])

/-- The requests agree on the first field of every collected header, and yet not on a selecting one: a collected header
differs in a way its first field does not show, or one that is named only by a `Vary` field that is not text differs. -/
def Confused (headers : HeaderMap) (config : CacheConfig) (req req' : RequestHeader) : Prop :=
  (∀ name, Collected headers config name → firstFieldBytes req name = firstFieldBytes req' name) ∧
    ((∃ name, Collected headers config name ∧ HiddenDifference (fieldsOf req name) (fieldsOf req' name)) ∨
      ∃ name, Selecting headers config name ∧ ¬Collected headers config name ∧ fieldsOf req name ≠ fieldsOf req' name)

theorem Collected.selecting {headers : HeaderMap} {config : CacheConfig} {name : String}
    (h : Collected headers config name) : Selecting headers config name :=
  h.imp (fun ⟨v, hv, _, hn⟩ => ⟨v, hv, hn⟩) id

theorem not_confused_iff {headers : HeaderMap} {config : CacheConfig} {req req' : RequestHeader}
    (h : ∀ name, Collected headers config name → firstFieldBytes req name = firstFieldBytes req' name) :
    ¬Confused headers config req req' ↔ ∀ name, Selecting headers config name → fieldsOf req name = fieldsOf req' name := by
  constructor
  · intro hc name hs
    by_contra hne
    refine hc ⟨h, ?_⟩
    by_cases hcol : Collected headers config name
    · exact .inl ⟨name, hcol, (hiddenDifference_iff (h name hcol)).mpr hne⟩
    · exact .inr ⟨name, hs, hcol, hne⟩
  · rintro hall ⟨-, ⟨name, hcol, hd⟩ | ⟨name, hs, -, hne⟩⟩
    · exact (hiddenDifference_iff (h name hcol)).mp hd (hall name hcol.selecting)
    · exact hne (hall name hs)

/-- Requests of one variance carry the same fields of every selecting header, exactly unless they are confused. -/
theorem cacheVary_sound_iff {variance : List (String × List UInt8) → η} (hv : Function.Injective variance)
    {headers : HeaderMap} (hstar : responseHasVaryStar headers = false) {config : CacheConfig}
    {defaultMaxObjectBytes : Nat} {ctx ctx' : ProxyContext υ} {req req' : RequestHeader}
    (hctx : ctx.cacheSettings = some (config.settings defaultMaxObjectBytes))
    (hctx' : ctx'.cacheSettings = some (config.settings defaultMaxObjectBytes)) :
    (cacheVary variance headers ctx req = cacheVary variance headers ctx' req' →
        ∀ name, Selecting headers config name → fieldsOf req name = fieldsOf req' name) ↔
      ¬Confused headers config req req' := by
  rw [cacheVary_eq_iff hv hstar hctx hctx']
  constructor
  · intro h hc
    exact (not_confused_iff hc.1).mpr (h hc.1) hc
  · intro hc h
    exact (not_confused_iff h).mp hc

/-! ## An empty language -/

def variesWithLanguage : HeaderMap := [("vary", fieldOf "Accept-Language" (by decide))]

def pageRequest (headers : HeaderMap) : RequestHeader where
  method := .get
  uri := .root
  headers := headers

def emptyLanguage : RequestHeader := pageRequest [("accept-language", fieldOf "" (by decide))]

def cachedContext : ProxyContext String := { cacheSettings := some (CacheConfig.settings {} 1048576) }

theorem selecting_language : Selecting variesWithLanguage {} "accept-language" :=
  .inl ⟨fieldOf "Accept-Language" (by decide), by decide, by decide, "Accept-Language".toList, by decide, by decide⟩

theorem cacheVary_sound_iff_language :
    (cacheVary id variesWithLanguage cachedContext (pageRequest []) =
        cacheVary id variesWithLanguage cachedContext emptyLanguage →
        ∀ name, Selecting variesWithLanguage {} name → fieldsOf (pageRequest []) name = fieldsOf emptyLanguage name) ↔
      ¬Confused variesWithLanguage {} (pageRequest []) emptyLanguage :=
  @cacheVary_sound_iff _ _ _ Function.injective_id _ (by decide) {} 1048576 _ _ _ _ rfl rfl

/-- A request without a language and one with an empty language share the stored page. -/
theorem cacheVary_hides_empty_field :
    ¬∃ (η : Type) (variance : List (String × List UInt8) → η), Function.Injective variance ∧
      ∀ (headers : HeaderMap) (config : CacheConfig) (defaultMaxObjectBytes : Nat) (ctx ctx' : ProxyContext String)
        (req req' : RequestHeader), responseHasVaryStar headers = false →
        ctx.cacheSettings = some (config.settings defaultMaxObjectBytes) →
        ctx'.cacheSettings = some (config.settings defaultMaxObjectBytes) →
        cacheVary variance headers ctx req = cacheVary variance headers ctx' req' →
        ∀ name, Selecting headers config name → fieldsOf req name = fieldsOf req' name := by
  rintro ⟨η, variance, -, h⟩
  have heq := h variesWithLanguage {} 1048576 cachedContext cachedContext (pageRequest []) emptyLanguage (by decide) rfl
    rfl rfl "accept-language" selecting_language
  exact absurd heq (by decide)

end Pingsix
