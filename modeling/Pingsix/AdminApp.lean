import Pingsix.Csrf
import Pingsix.Externals
import Pingsix.Lib.Delimited
import Pingsix.Lib.Pattern
import Pingsix.Store

/-!
# The Admin API

From a request on the Admin listener to the operation on the configuration
graph it asks for: the API key, the routes, the body and the id are checked
before the graph is touched.
-/

namespace Pingsix

namespace AdminHttpApp

inductive Method where
  | get
  | put
  | delete
  | other (name : String)
  deriving DecidableEq, Repr

/-- One handler for each operation and kind. -/
inductive Handler where
  | publication
  | resource (kind : ResourceKind)
  | get (kind : ResourceKind)
  | delete (kind : ResourceKind)
  | list (kind : ResourceKind)
  deriving DecidableEq, Repr

/-- What a handler asks of the configuration graph. -/
inductive GraphCall where
  | publication (revision : Nat)
  | put (key : ResourceKey) (value : Json)
  | get (key : ResourceKey)
  | delete (key : ResourceKey)
  | list (kind : ResourceKind)

/-- The request as read: headers as text where they are visible text, and the chunks of the body as they come. -/
structure ServerSession where
  method : Method
  path : String
  apiKey : Option String := none
  contentType : Option (Option String) := none
  body : List (Except String ByteArray) := []

inductive ApiError where
  | validationError (msg : String)
  | missingParameter (msg : String)
  | invalidRequest (msg : String)
  | requestBodyReadError (msg : String)
  | graph (status : Nat) (code message : String) (source : GraphError)
  deriving DecidableEq, Repr

structure ApiResponse where
  status : Nat
  contentType : String
  body : String ⊕ List (String × String)
  deriving DecidableEq, Repr

namespace ApiError

def display : ApiError → String
  | validationError msg => s!"Validation error: {msg}"
  | missingParameter msg => s!"Missing parameter: {msg}"
  | invalidRequest msg => s!"Invalid request: {msg}"
  | requestBodyReadError msg => s!"Request body read error: {msg}"
  | graph _ code message source => s!"graph {code}: {message} ({source.display})"

def ofGraph (err : GraphError) : ApiError :=
  let (status, code, message) :=
    match err with
    | .notFound _ => (404, "not_found", "Resource not found")
    | .casConflict => (409, "cas_conflict", "Configuration changed concurrently")
    | .referentialConflict _ => (409, "referential_conflict", "Resource is still referenced")
    | .invalidKey _ _ | .invalidResource _ _ | .invalidCandidate _ | .secret _ _ _ =>
      (400, "validation_failed", "Configuration validation failed")
    | .store _ => (503, "store_unavailable", "Backend configuration store unavailable")
    | .staleRevision _ _ | .workerStopped => (500, "internal_error", "Internal server error")
  .graph status code message err

def errorHttp (status : Nat) (message : String) : ApiResponse := ⟨status, "text/plain", .inl message⟩

def intoResponse : ApiError → ApiResponse
  | .requestBodyReadError _ => errorHttp 400 "Failed to read request body"
  | .graph status code message _ => ⟨status, "application/json", .inr [("code", code), ("error", message)]⟩
  | e => errorHttp 400 e.display

end ApiError

/-! ## Checks -/

def validateApiKey (sha : Sha256) (apiKey : String) (session : ServerSession) : Except ApiError Unit :=
  if Text.trim apiKey = "" then .error (.invalidRequest "Must provide valid API key")
  else
    let providedKey := session.apiKey.getD ""
    if providedKey ≠ "" ∧ Csrf.constantTimeEq sha providedKey apiKey = true then .ok ()
    else .error (.invalidRequest "Must provide valid API key")

def isJsonContentType (ct : String) : Bool :=
  Text.toAsciiLowercase (Text.trim (String.ofList (ct.toList.takeWhile (· ≠ ';')))) = "application/json"

def validateContentType (session : ServerSession) : Except ApiError Unit :=
  match session.contentType with
  | some contentType =>
    if isJsonContentType (contentType.getD "") then .ok ()
    else .error (.invalidRequest "Content-Type must be application/json")
  | none => .error (.invalidRequest "Content-Type header is required")

def maxBodySize : Nat := 1048576

def readRequestBody : List (Except String ByteArray) → ByteArray → Except ApiError ByteArray
  | [], bodyData => .ok bodyData
  | .error e :: _, _ => .error (.requestBodyReadError e)
  | .ok bytes :: rest, bodyData =>
    if maxBodySize < bodyData.size + bytes.size then .error (.invalidRequest "Request body too large")
    else readRequestBody rest (bodyData ++ bytes)

def extractKey (kind : ResourceKind) (params : List (String × String)) : Except ApiError ResourceKey :=
  match params.lookup "id" with
  | none => .error (.missingParameter "id")
  | some id => (ResourceKey.new kind id).mapError ApiError.ofGraph

/-- A positive `i64`; what is no number and what is not positive are refused alike. -/
def parseRevision (text : String) : Option Nat :=
  let digits := if text.toList.head? = some '+' then text.toList.tail else text.toList
  if digits ≠ [] ∧ digits.all Char.isDigit = true then
    let n := digits.foldl (fun n c => 10 * n + (c.toNat - 48)) 0
    if 0 < n ∧ n < 2 ^ 63 then some n else none
  else none

/-- What the handler does before it calls the graph. -/
def Handler.handle (json : JsonCodec) (session : ServerSession) (params : List (String × String)) :
    Handler → Except ApiError GraphCall
  | publication =>
    match params.lookup "revision" with
    | none => .error (.missingParameter "revision")
    | some text =>
      match parseRevision text with
      | some revision => .ok (.publication revision)
      | none => .error (.invalidRequest "revision must be a positive integer")
  | resource kind => do
    validateContentType session
    let bodyData ← (readRequestBody session.body .empty).mapError fun e => .requestBodyReadError e.display
    let key ← extractKey kind params
    let value ← (json.fromSlice bodyData).mapError fun e => .validationError s!"Invalid JSON: {json.render e}"
    return .put key value
  | get kind => (extractKey kind params).map .get
  | delete kind => (extractKey kind params).map .delete
  | list kind => .ok (.list kind)

/-! ## Routes -/

abbrev Routes := Router (HashMap Method Handler)

def route (M : Matchit) (router : Routes) (path : String) (method : Method) (handler : Handler) : Routes :=
  match router.atPath M path with
  | none =>
    match router.insert M path (AList.insert method handler ∅) with
    | .ok router => router
    | .error _ => router
  | some found => router.set found.pattern (found.value.insert method handler)

def resourcePath (kind : ResourceKind) : String := "/apisix/admin/" ++ kind.asStr ++ "/" ++ "\x7bid\x7d"

def listPath (kind : ResourceKind) : String := "/apisix/admin/" ++ kind.asStr

def publicationPath : String := "/apisix/admin/publications/" ++ "\x7brevision\x7d"

def registerResourceRoutes (M : Matchit) (router : Routes) (kind : ResourceKind) : Routes :=
  let router := route M router (resourcePath kind) .put (.resource kind)
  let router := route M router (resourcePath kind) .get (.get kind)
  let router := route M router (resourcePath kind) .delete (.delete kind)
  route M router (listPath kind) .get (.list kind)

def new (M : Matchit) : Routes :=
  [ResourceKind.route, .upstream, .service, .globalRule, .ssl].foldl (registerResourceRoutes M)
    (route M {} publicationPath .get .publication)

/-- The call a request comes to, or its answer without one. -/
def response (M : Matchit) (sha : Sha256) (json : JsonCodec) (apiKey : String) (session : ServerSession) :
    Except ApiResponse GraphCall :=
  match validateApiKey sha apiKey session with
  | .error _ => .error (ApiError.errorHttp 403 "Invalid API key")
  | .ok () =>
    match (new M).atPath M session.path with
    | none => .error (ApiError.errorHttp 404 "Not Found")
    | some found =>
      match found.value.lookup session.method with
      | none => .error (ApiError.errorHttp 405 "Method not allowed")
      | some handler => (handler.handle json session found.params).mapError ApiError.intoResponse

/-! ## The registered routes -/

/-- The paths of the API, each with the methods it has. -/
inductive Endpoint where
  | publication
  | resource (kind : ResourceKind)
  | list (kind : ResourceKind)
  deriving DecidableEq, Repr

namespace Endpoint

def pattern : Endpoint → String
  | publication => publicationPath
  | resource kind => resourcePath kind
  | list kind => listPath kind

def all : List Endpoint :=
  [publication, resource .route, resource .upstream, resource .service, resource .globalRule, resource .ssl,
    list .route, list .upstream, list .service, list .globalRule, list .ssl]

theorem mem_all (e : Endpoint) : e ∈ all := by
  cases e with
  | publication => decide
  | resource kind => cases kind <;> decide
  | list kind => cases kind <;> decide

/-- A pattern as a path is matched by itself only. -/
theorem matches_pattern : ∀ e ∈ all, ∀ e' ∈ all, Pattern.Matches e.pattern e'.pattern ↔ e = e' := by decide +kernel

theorem matches_iff {e e' : Endpoint} : Pattern.Matches e.pattern e'.pattern ↔ e = e' :=
  matches_pattern e e.mem_all e' e'.mem_all

theorem pattern_inj {e e' : Endpoint} (h : e.pattern = e'.pattern) : e = e' := by
  rw [← matches_iff, ← h]
  exact matches_iff.mpr rfl

def handler : Endpoint → Method → Option Handler
  | publication, .get => some .publication
  | resource kind, .put => some (.resource kind)
  | resource kind, .get => some (.get kind)
  | resource kind, .delete => some (.delete kind)
  | list kind, .get => some (.list kind)
  | _, _ => none

end Endpoint

/-- The patterns of the API can be stored side by side. -/
def Accepts (M : Matchit) : Prop := ∀ (ps : List String) (e : Endpoint),
  (∀ p ∈ ps, ∃ e' : Endpoint, p = e'.pattern) → e.pattern ∉ ps → M.insertError ps e.pattern = none

/-- Only the paths of the API are stored, with these methods. -/
structure Registered (router : Routes) (table : Endpoint → Option (HashMap Method Handler)) : Prop where
  stored : ∀ p ∈ router.patterns, ∃ e : Endpoint, p = e.pattern
  lookup : ∀ e, router.slots.lookup e.pattern = table e

/-- What a further registration makes of the methods. -/
def register (table : Endpoint → Option (HashMap Method Handler)) (e : Endpoint) (method : Method) (handler : Handler) :
    Endpoint → Option (HashMap Method Handler) :=
  fun e' => if e' = e then some (((table e).getD ∅).insert method handler) else table e'

variable {M : Matchit} {router : Routes} {table : Endpoint → Option (HashMap Method Handler)}

theorem Registered.route (hM : M.Lawful) (hA : Accepts M) (h : Registered router table) (e : Endpoint) (method : Method)
    (handler : Handler) : Registered (route M router e.pattern method handler) (register table e method handler) := by
  have hpattern (e' : Endpoint) : e'.pattern = e.pattern ↔ e' = e := ⟨Endpoint.pattern_inj, fun he => he ▸ rfl⟩
  unfold AdminHttpApp.route
  cases hat : router.atPath M e.pattern with
  | none =>
    have hnone := (Router.atPath_eq_none hM).mp hat
    have hnew : e.pattern ∉ router.patterns := fun hm => hM.found hm (Endpoint.matches_iff.mpr rfl) hnone
    have hlookup : table e = none := by
      rw [← h.lookup e]
      exact AList.lookup_eq_none.mpr hnew
    have hinsert : router.insert M e.pattern (AList.insert method handler ∅) =
        .ok ⟨router.slots.insert e.pattern (AList.insert method handler ∅)⟩ := by
      unfold Router.insert
      rw [hA router.patterns e h.stored hnew]
    simp only [hinsert]
    constructor
    · intro p hp
      obtain ⟨v, hv⟩ := Router.mem_patterns.mp hp
      rw [HashMap.lookup_insert] at hv
      by_cases he : p = e.pattern
      · exact ⟨e, he⟩
      · rw [if_neg he] at hv
        exact h.stored p (Router.mem_patterns.mpr ⟨v, hv⟩)
    · intro e'
      rw [HashMap.lookup_insert, register, hlookup, h.lookup e']
      simp only [hpattern, Option.getD_none]
  | some found =>
    obtain ⟨hchoose, hvalue⟩ := Router.atPath_eq_some hat
    obtain ⟨e₁, he₁⟩ := h.stored _ (hM.stored hchoose)
    have hmatches := hM.matches hchoose
    rw [he₁, Endpoint.matches_iff] at hmatches
    subst hmatches
    have hlookup : table e₁ = some found.value := by rw [← h.lookup e₁, ← he₁, hvalue]
    simp only [he₁]
    constructor
    · rw [Router.patterns_set]
      exact h.stored
    · intro e'
      have hset := HashMap.lookup_set router.slots e₁.pattern e'.pattern (found.value.insert method handler)
      unfold Router.set register
      simp only [hset, hpattern, hlookup, Option.getD_some, h.lookup]
      by_cases he : e' = e₁
      · subst he
        simp [hlookup]
      · simp [he]

/-- What registering the routes of a kind makes of the methods. -/
def registerKind (table : Endpoint → Option (HashMap Method Handler)) (kind : ResourceKind) :
    Endpoint → Option (HashMap Method Handler) :=
  register (register (register (register table (.resource kind) .put (.resource kind)) (.resource kind) .get (.get kind))
    (.resource kind) .delete (.delete kind)) (.list kind) .get (.list kind)

theorem Registered.kind (hM : M.Lawful) (hA : Accepts M) (h : Registered router table) (kind : ResourceKind) :
    Registered (registerResourceRoutes M router kind) (registerKind table kind) :=
  (((h.route hM hA (.resource kind) .put (.resource kind)).route hM hA (.resource kind) .get (.get kind)).route hM hA
    (.resource kind) .delete (.delete kind)).route hM hA (.list kind) .get (.list kind)

theorem registered_new (hM : M.Lawful) (hA : Accepts M) : ∃ table, Registered (new M) table ∧
    ∀ e, ∃ methods, table e = some methods ∧ ∀ method, AList.lookup method methods = e.handler method := by
  have hempty : Registered {} fun _ => none := by
    constructor
    · intro p hp
      cases hp
    · intro e
      rfl
  have hpublication := hempty.route hM hA .publication .get .publication
  refine ⟨_, ((((hpublication.kind hM hA .route).kind hM hA .upstream).kind hM hA .service).kind hM hA .globalRule).kind
    hM hA .ssl, fun e => ?_⟩
  cases e with
  | publication =>
    refine ⟨_, rfl, fun method => ?_⟩
    cases method <;> rfl
  | resource kind =>
    cases kind <;> refine ⟨_, rfl, fun method => ?_⟩ <;> cases method <;> rfl
  | list kind =>
    cases kind <;> refine ⟨_, rfl, fun method => ?_⟩ <;> cases method <;> rfl

/-- A path is looked up under the only pattern it matches. -/
theorem atPath_new (hM : M.Lawful) (hA : Accepts M) {path : String} :
    (∀ found, (new M).atPath M path = some found → ∃ e : Endpoint, Pattern.captures e.pattern path = some found.params ∧
      ∀ method, AList.lookup method found.value = e.handler method) ∧
    ((new M).atPath M path = none → ∀ e : Endpoint, Pattern.captures e.pattern path = none) := by
  obtain ⟨table, h, htable⟩ := registered_new hM hA
  constructor
  · intro found hat
    obtain ⟨hchoose, hvalue⟩ := Router.atPath_eq_some hat
    obtain ⟨e, he⟩ := h.stored _ (hM.stored hchoose)
    obtain ⟨methods, hmethods, hhandler⟩ := htable e
    rw [he, h.lookup e, hmethods] at hvalue
    cases hvalue
    exact ⟨e, he ▸ hM.captured hchoose, hhandler⟩
  · intro hat e
    obtain ⟨methods, hmethods, -⟩ := htable e
    have hm : e.pattern ∈ (new M).patterns := Router.mem_patterns.mpr ⟨methods, by rw [h.lookup e, hmethods]⟩
    by_contra hc
    exact hM.found hm (Option.isSome_iff_ne_none.mpr hc) ((Router.atPath_eq_none hM).mp hat)

/-! ## Paths -/

theorem captureTokens_literal_eq {cs : List Char} {ts : List Pattern.Token} {path : List Char}
    {params : List (String × String)} : Pattern.captureTokens (cs.map Pattern.Token.lit ++ ts) path = some params ↔
      ∃ rest, path = cs ++ rest ∧ Pattern.captureTokens ts rest = some params := by
  induction cs generalizing path with
  | nil => simp
  | cons c cs ih =>
    cases path with
    | nil => simp [Pattern.captureTokens]
    | cons d path =>
      rw [List.map_cons, List.cons_append, Pattern.captureTokens]
      by_cases h : c = d
      · subst h
        rw [if_pos rfl, ih]
        simp
      · rw [if_neg h]
        simp [Ne.symm h]

theorem captureTokens_param {name : String} {path : List Char} {params : List (String × String)} :
    Pattern.captureTokens [.param name] path = some params ↔
      path ≠ [] ∧ '/' ∉ path ∧ params = [(name, String.ofList path)] := by
  have hsplit := List.takeWhile_append_dropWhile (p := fun c : Char => decide (c ≠ '/')) (l := path)
  simp only [Pattern.captureTokens]
  constructor
  · intro h
    by_cases hs : path.takeWhile (fun c => decide (c ≠ '/')) = []
    · rw [if_pos hs] at h
      cases h
    · rw [if_neg hs] at h
      cases hd : path.dropWhile (fun c => decide (c ≠ '/')) with
      | cons c rest =>
        rw [hd] at h
        simp [Pattern.captureTokens] at h
      | nil =>
        rw [hd, Pattern.captureTokens, Option.map_some, Option.some.injEq] at h
        rw [hd, List.append_nil] at hsplit
        rw [hsplit] at h hs
        refine ⟨hs, fun hm => ?_, h.symm⟩
        have hall := List.dropWhile_eq_nil_iff.mp hd '/' hm
        simp at hall
  · intro h
    obtain ⟨hne, hslash, rfl⟩ := h
    have hall : ∀ c ∈ path, decide (c ≠ '/') = true := by
      intro c hc
      rw [decide_eq_true_eq]
      rintro rfl
      exact hslash hc
    rw [List.takeWhile_eq_self_iff.mpr hall, List.dropWhile_eq_nil_iff.mpr hall, if_neg hne, Pattern.captureTokens,
      Option.map_some]

/-- A pattern that ends in a parameter captures one segment behind its text. -/
theorem captures_segment {stem brace name path : String} {params : List (String × String)}
    (hstem : Pattern.Literal stem.toList) (hbrace : Pattern.tokens none brace.toList = some [.param name]) :
    Pattern.captures (stem ++ brace) path = some params ↔
      ∃ text, path = stem ++ text ∧ text ≠ "" ∧ '/' ∉ text.toList ∧ params = [(name, text)] := by
  have ht : Pattern.tokens none (stem ++ brace).toList = some (stem.toList.map Pattern.Token.lit ++ [.param name]) := by
    rw [String.toList_append, Pattern.tokens_literal hstem, hbrace, Option.map_some]
  unfold Pattern.captures
  simp only [ht]
  rw [captureTokens_literal_eq]
  constructor
  · intro h
    obtain ⟨rest, hp, h⟩ := h
    obtain ⟨hne, hslash, rfl⟩ := captureTokens_param.mp h
    refine ⟨String.ofList rest, ?_, ?_, ?_, rfl⟩
    · apply String.toList_inj.mp
      rw [hp, String.toList_append, String.toList_ofList]
    · intro he
      rw [← String.toList_inj, String.toList_ofList] at he
      exact hne he
    · rwa [String.toList_ofList]
  · intro h
    obtain ⟨text, rfl, hne, hslash, rfl⟩ := h
    refine ⟨text.toList, String.toList_append, captureTokens_param.mpr ⟨?_, hslash, ?_⟩⟩
    · intro he
      exact hne (String.toList_inj.mp he)
    · rw [String.ofList_toList]

theorem captures_literal {pattern path : String} {params : List (String × String)} (h : Pattern.Literal pattern.toList) :
    Pattern.captures pattern path = some params ↔ path = pattern ∧ params = [] := by
  have ht : Pattern.tokens none pattern.toList = some (pattern.toList.map Pattern.Token.lit ++ []) := by
    have ht := Pattern.tokens_literal h []
    simpa [Pattern.tokens] using ht
  unfold Pattern.captures
  simp only [ht]
  rw [captureTokens_literal_eq]
  constructor
  · intro h
    obtain ⟨rest, hp, h⟩ := h
    cases rest with
    | nil =>
      rw [Pattern.captureTokens, Option.some.injEq] at h
      exact ⟨String.toList_inj.mp (by simpa using hp), h.symm⟩
    | cons c rest => simp [Pattern.captureTokens] at h
  · intro h
    obtain ⟨rfl, rfl⟩ := h
    exact ⟨[], by simp, rfl⟩

theorem literal_admin (kind : ResourceKind) : Pattern.Literal ("/apisix/admin/" ++ kind.asStr).toList ∧
    Pattern.Literal ("/apisix/admin/" ++ kind.asStr ++ "/").toList := by
  cases kind <;> decide +kernel

theorem captures_resource {kind : ResourceKind} {path : String} {params : List (String × String)} :
    Pattern.captures (Endpoint.resource kind).pattern path = some params ↔
      ∃ key : ResourceKey, key.kind = kind ∧ path = "/apisix/admin/" ++ key.logicalPath ∧ params = [("id", key.id)] := by
  unfold Endpoint.pattern resourcePath
  rw [captures_segment (literal_admin kind).2 (show _ = some [Pattern.Token.param "id"] from rfl)]
  constructor
  · intro h
    obtain ⟨id, rfl, hne, hslash, rfl⟩ := h
    have hvalid : id ≠ "" ∧ Text.containsChar id '/' = false := by
      refine ⟨hne, ?_⟩
      rw [Bool.eq_false_iff, ne_eq, Text.containsChar_iff]
      exact hslash
    exact ⟨⟨kind, id, hvalid⟩, rfl, by simp [ResourceKey.logicalPath, String.append_assoc], rfl⟩
  · intro h
    obtain ⟨key, rfl, rfl, rfl⟩ := h
    exact ⟨key.id, by simp [ResourceKey.logicalPath, String.append_assoc], key.valid.1, key.slash_notMem_id, rfl⟩

theorem captures_list {kind : ResourceKind} {path : String} {params : List (String × String)} :
    Pattern.captures (Endpoint.list kind).pattern path = some params ↔
      path = "/apisix/admin/" ++ kind.asStr ∧ params = [] := captures_literal (literal_admin kind).1

theorem captures_publication {path : String} {params : List (String × String)} :
    Pattern.captures Endpoint.publication.pattern path = some params ↔ ∃ text,
      path = "/apisix/admin/publications/" ++ text ∧ text ≠ "" ∧ '/' ∉ text.toList ∧ params = [("revision", text)] :=
  captures_segment (by decide +kernel) rfl

namespace Endpoint

/-- The first segment behind the common text. -/
def head : Endpoint → String
  | publication => "publications"
  | resource kind => kind.asStr
  | list kind => kind.asStr

def isList : Endpoint → Bool
  | list _ => true
  | _ => false

theorem slash_notMem_head (e : Endpoint) : '/' ∉ e.head.toList := by
  cases e with
  | publication => decide
  | resource kind => exact kind.slash_notMem_asStr
  | list kind => exact kind.slash_notMem_asStr

theorem eq_of_head {e e' : Endpoint} (h : e.head = e'.head) (hl : e.isList = e'.isList) : e = e' := by
  have hall : ∀ a ∈ all, ∀ b ∈ all, a.head = b.head → a.isList = b.isList → a = b := by decide +kernel
  exact hall e e.mem_all e' e'.mem_all h hl

/-- Behind the first segment of a path there is one more, or for a list nothing. -/
theorem path_of_captures {e : Endpoint} {path : String} {params : List (String × String)}
    (h : Pattern.captures e.pattern path = some params) : ∃ rest : List Char, e.isList = decide (rest = []) ∧
      (rest ≠ [] → rest.head? = some '/') ∧ path.toList = "/apisix/admin/".toList ++ (e.head.toList ++ rest) := by
  cases e with
  | publication =>
    obtain ⟨text, rfl, -⟩ := captures_publication.mp h
    refine ⟨'/' :: text.toList, rfl, fun _ => rfl, ?_⟩
    rw [String.toList_append]
    rfl
  | resource kind =>
    obtain ⟨key, rfl, rfl, -⟩ := captures_resource.mp h
    refine ⟨'/' :: key.id.toList, rfl, fun _ => rfl, ?_⟩
    rw [String.toList_append, ResourceKey.logicalPath, String.toList_append, String.toList_append]
    simp [head]
  | list kind =>
    obtain ⟨rfl, -⟩ := captures_list.mp h
    exact ⟨[], rfl, fun h => absurd rfl h, by rw [String.toList_append, List.append_nil]; rfl⟩

/-- No path belongs to two endpoints. -/
theorem captures_unique {e e' : Endpoint} {path : String} {params params' : List (String × String)}
    (h : Pattern.captures e.pattern path = some params) (h' : Pattern.captures e'.pattern path = some params') : e = e' := by
  obtain ⟨rest, hl, hrest, hp⟩ := path_of_captures h
  obtain ⟨rest', hl', hrest', hp'⟩ := path_of_captures h'
  have heq := List.append_cancel_left (hp.symm.trans hp')
  cases rest with
  | nil =>
    cases rest' with
    | nil =>
      rw [List.append_nil, List.append_nil] at heq
      exact eq_of_head (String.toList_inj.mp heq) (hl.trans hl'.symm)
    | cons c rest' =>
      have hc := Option.some.inj (hrest' (List.cons_ne_nil _ _))
      subst hc
      rw [List.append_nil] at heq
      exact absurd (heq ▸ List.mem_append_right _ List.mem_cons_self) e.slash_notMem_head
  | cons c rest =>
    have hc := Option.some.inj (hrest (List.cons_ne_nil _ _))
    subst hc
    cases rest' with
    | nil =>
      rw [List.append_nil] at heq
      exact absurd (heq ▸ List.mem_append_right _ List.mem_cons_self) e'.slash_notMem_head
    | cons c rest' =>
      have hc := Option.some.inj (hrest' (List.cons_ne_nil _ _))
      subst hc
      have hhead := (Delimited.append_sep_inj e.slash_notMem_head e'.slash_notMem_head heq).1
      exact eq_of_head (String.toList_inj.mp hhead) (hl.trans hl'.symm)

theorem captures_inj {e e' : Endpoint} {path : String} {params params' : List (String × String)}
    (h : Pattern.captures e.pattern path = some params) (h' : Pattern.captures e'.pattern path = some params') :
    e = e' ∧ params = params' := by
  have he := captures_unique h h'
  subst he
  exact ⟨rfl, Option.some.inj (h.symm.trans h')⟩

end Endpoint

/-! ## Bodies -/

theorem size_le_foldl : ∀ (parts : List ByteArray) (bodyData : ByteArray),
    bodyData.size ≤ (parts.foldl (· ++ ·) bodyData).size
  | [], _ => Nat.le_refl _
  | bytes :: parts, bodyData => by
    refine Nat.le_trans ?_ (size_le_foldl parts (bodyData ++ bytes))
    rw [ByteArray.size_append]
    exact Nat.le_add_right _ _

/-- A body is read when no chunk fails and all of them together are within the limit. -/
theorem readRequestBody_eq_ok : ∀ {chunks : List (Except String ByteArray)} {bodyData data : ByteArray},
    bodyData.size ≤ maxBodySize → (readRequestBody chunks bodyData = .ok data ↔ ∃ parts : List ByteArray,
      chunks = parts.map .ok ∧ data = parts.foldl (· ++ ·) bodyData ∧ data.size ≤ maxBodySize)
  | [], bodyData, data, h => by
    rw [readRequestBody]
    constructor
    · intro he
      cases he
      exact ⟨[], rfl, rfl, h⟩
    · intro he
      obtain ⟨parts, hp, rfl, -⟩ := he
      cases List.map_eq_nil_iff.mp hp.symm
      rfl
  | .error e :: chunks, bodyData, data, h => by
    rw [readRequestBody]
    constructor
    · intro he
      cases he
    · intro he
      obtain ⟨parts, hp, -⟩ := he
      obtain ⟨_, _, _, hc, _⟩ := List.map_eq_cons_iff.mp hp.symm
      cases hc
  | .ok bytes :: chunks, bodyData, data, h => by
    rw [readRequestBody]
    have hsize : (bodyData ++ bytes).size = bodyData.size + bytes.size := ByteArray.size_append
    by_cases hlt : maxBodySize < bodyData.size + bytes.size
    · rw [if_pos hlt]
      constructor
      · intro he
        cases he
      · intro he
        obtain ⟨parts, hp, rfl, hmax⟩ := he
        obtain ⟨part, parts, rfl, hc, -⟩ := List.map_eq_cons_iff.mp hp.symm
        cases hc
        have hle := size_le_foldl parts (bodyData ++ bytes)
        rw [List.foldl_cons] at hmax
        omega
    · rw [if_neg hlt, readRequestBody_eq_ok (hsize ▸ Nat.not_lt.mp hlt)]
      constructor
      · intro he
        obtain ⟨parts, rfl, rfl, hmax⟩ := he
        exact ⟨bytes :: parts, rfl, rfl, hmax⟩
      · intro he
        obtain ⟨parts, hp, rfl, hmax⟩ := he
        obtain ⟨part, parts, rfl, hc, rfl⟩ := List.map_eq_cons_iff.mp hp.symm
        cases hc
        exact ⟨parts, rfl, rfl, hmax⟩

/-! ## What a request comes to -/

/-- The key of the header is that of the configuration, which is not blank. -/
structure Authorized (sha : Sha256) (apiKey : String) (session : ServerSession) : Prop where
  configured : Text.trim apiKey ≠ ""
  provided : ∃ key, session.apiKey = some key ∧ key ≠ "" ∧ secretDigest sha key = secretDigest sha apiKey

/-- The method, the path, the content type and the body spell the call. -/
inductive Asks (json : JsonCodec) (session : ServerSession) : GraphCall → Prop
  | publication {text : String} {revision : Nat} (hm : session.method = .get)
      (hp : session.path = "/apisix/admin/publications/" ++ text) (hs : '/' ∉ text.toList)
      (hr : parseRevision text = some revision) : Asks json session (.publication revision)
  | put {key : ResourceKey} {contentType : Option String} {parts : List ByteArray} {value : Json}
      (hm : session.method = .put) (hp : session.path = "/apisix/admin/" ++ key.logicalPath)
      (hc : session.contentType = some contentType) (hj : isJsonContentType (contentType.getD "") = true)
      (hb : session.body = parts.map .ok) (hs : (parts.foldl (· ++ ·) ByteArray.empty).size ≤ maxBodySize)
      (hv : json.fromSlice (parts.foldl (· ++ ·) ByteArray.empty) = .ok value) : Asks json session (.put key value)
  | get {key : ResourceKey} (hm : session.method = .get) (hp : session.path = "/apisix/admin/" ++ key.logicalPath) :
      Asks json session (.get key)
  | delete {key : ResourceKey} (hm : session.method = .delete)
      (hp : session.path = "/apisix/admin/" ++ key.logicalPath) : Asks json session (.delete key)
  | list {kind : ResourceKind} (hm : session.method = .get) (hp : session.path = "/apisix/admin/" ++ kind.asStr) :
      Asks json session (.list kind)

variable {sha : Sha256} {json : JsonCodec} {apiKey : String} {session : ServerSession} {call : GraphCall}

theorem validateApiKey_eq_ok : validateApiKey sha apiKey session = .ok () ↔ Authorized sha apiKey session := by
  unfold validateApiKey Csrf.constantTimeEq
  by_cases ht : Text.trim apiKey = ""
  · rw [if_pos ht]
    exact ⟨fun h => (nomatch h), fun h => absurd ht h.configured⟩
  · rw [if_neg ht]
    cases hk : session.apiKey with
    | none =>
      constructor
      · intro h
        simp at h
      · intro h
        obtain ⟨key, he, -⟩ := h.provided
        rw [hk] at he
        cases he
    | some key =>
      simp only [Option.getD_some, decide_eq_true_eq]
      constructor
      · intro h
        split at h
        · next hkey => exact ⟨ht, key, hk, hkey⟩
        · cases h
      · intro h
        obtain ⟨key', he, hkey⟩ := h.provided
        cases Option.some.inj (hk.symm.trans he)
        rw [if_pos hkey]

theorem validateContentType_eq_ok : validateContentType session = .ok () ↔
    ∃ contentType, session.contentType = some contentType ∧ isJsonContentType (contentType.getD "") = true := by
  unfold validateContentType
  cases session.contentType with
  | none => simp
  | some contentType =>
    by_cases h : isJsonContentType (contentType.getD "") = true
    · simp [h]
    · simp [h]

theorem extractKey_key (key : ResourceKey) : extractKey key.kind [("id", key.id)] = .ok key := by
  have hnew : ResourceKey.new key.kind key.id = .ok key := dif_pos key.valid
  unfold extractKey
  rw [List.lookup_cons_self]
  simp only [hnew]
  rfl

/-- A handler of the path comes to the call the request spells. -/
theorem asks_of_handle {e : Endpoint} {params : List (String × String)} {handler : Handler}
    (hc : Pattern.captures e.pattern session.path = some params) (hh : e.handler session.method = some handler)
    (h : handler.handle json session params = .ok call) : Asks json session call := by
  cases e with
  | publication =>
    obtain ⟨text, hp, -, hs, rfl⟩ := captures_publication.mp hc
    cases hm : session.method <;> rw [hm] at hh <;> cases hh
    rw [Handler.handle, List.lookup_cons_self] at h
    cases hr : parseRevision text with
    | none =>
      simp only [hr] at h
      cases h
    | some revision =>
      simp only [hr] at h
      cases h
      exact .publication hm hp hs hr
  | resource kind =>
    obtain ⟨key, rfl, hp, rfl⟩ := captures_resource.mp hc
    cases hm : session.method <;> rw [hm] at hh <;> cases hh
    · rw [Handler.handle, extractKey_key] at h
      cases h
      exact .get hm hp
    · obtain ⟨_, hct, h⟩ := Except.bind_eq_ok.mp h
      obtain ⟨bodyData, hb, h⟩ := Except.bind_eq_ok.mp h
      obtain ⟨key', hk, h⟩ := Except.bind_eq_ok.mp h
      obtain ⟨value, hv, h⟩ := Except.bind_eq_ok.mp h
      cases hk.symm.trans (extractKey_key key)
      cases h
      obtain ⟨contentType, hct, hj⟩ := validateContentType_eq_ok.mp hct
      obtain ⟨parts, hparts, rfl, hs⟩ := (readRequestBody_eq_ok (Nat.zero_le _)).mp (Except.mapError_eq_ok.mp hb)
      exact .put hm hp hct hj hparts hs (Except.mapError_eq_ok.mp hv)
    · rw [Handler.handle, extractKey_key] at h
      cases h
      exact .delete hm hp
  | list kind =>
    obtain ⟨hp, rfl⟩ := captures_list.mp hc
    cases hm : session.method <;> rw [hm] at hh <;> cases hh
    cases h
    exact .list hm hp

/-- What a request spells has a path of the API, and a handler there that comes to it. -/
theorem handle_of_asks (h : Asks json session call) : ∃ (e : Endpoint) (params : List (String × String))
    (handler : Handler), Pattern.captures e.pattern session.path = some params ∧
      e.handler session.method = some handler ∧ handler.handle json session params = .ok call := by
  cases h with
  | @publication text revision hm hp hs hr =>
    have hne : text ≠ "" := by
      rintro rfl
      cases hr
    refine ⟨.publication, [("revision", text)], .publication, captures_publication.mpr ⟨text, hp, hne, hs, rfl⟩,
      by rw [hm]; rfl, ?_⟩
    rw [Handler.handle, List.lookup_cons_self]
    simp only [hr]
  | @put key contentType parts value hm hp hc hj hb hs hv =>
    refine ⟨.resource key.kind, [("id", key.id)], .resource key.kind, captures_resource.mpr ⟨key, rfl, hp, rfl⟩,
      by rw [hm]; rfl, ?_⟩
    refine Except.bind_eq_ok.mpr ⟨(), validateContentType_eq_ok.mpr ⟨contentType, hc, hj⟩, ?_⟩
    refine Except.bind_eq_ok.mpr ⟨parts.foldl (· ++ ·) ByteArray.empty, Except.mapError_eq_ok.mpr ?_, ?_⟩
    · exact (readRequestBody_eq_ok (Nat.zero_le _)).mpr ⟨parts, hb, rfl, hs⟩
    · refine Except.bind_eq_ok.mpr ⟨key, extractKey_key key, ?_⟩
      exact Except.bind_eq_ok.mpr ⟨value, Except.mapError_eq_ok.mpr hv, rfl⟩
  | @get key hm hp =>
    refine ⟨.resource key.kind, [("id", key.id)], .get key.kind, captures_resource.mpr ⟨key, rfl, hp, rfl⟩,
      by rw [hm]; rfl, ?_⟩
    rw [Handler.handle, extractKey_key]
    rfl
  | @delete key hm hp =>
    refine ⟨.resource key.kind, [("id", key.id)], .delete key.kind, captures_resource.mpr ⟨key, rfl, hp, rfl⟩,
      by rw [hm]; rfl, ?_⟩
    rw [Handler.handle, extractKey_key]
    rfl
  | @list kind hm hp => exact ⟨.list kind, [], .list kind, captures_list.mpr ⟨hp, rfl⟩, by rw [hm]; rfl, rfl⟩

/-- The graph is called exactly for authorized requests that spell a call, and with that one; whoever lacks the key
learns nothing but that. -/
theorem response_calls_graph (hM : M.Lawful) (hA : Accepts M) (sha : Sha256) (json : JsonCodec) (apiKey : String)
    (session : ServerSession) :
    (∀ call, response M sha json apiKey session = .ok call ↔ Authorized sha apiKey session ∧ Asks json session call) ∧
    (¬Authorized sha apiKey session →
      response M sha json apiKey session = .error (ApiError.errorHttp 403 "Invalid API key")) := by
  obtain ⟨hfound, hmissing⟩ := @atPath_new M hM hA session.path
  cases hkey : validateApiKey sha apiKey session with
  | error e =>
    have hno : ¬Authorized sha apiKey session := by
      intro h
      rw [validateApiKey_eq_ok.mpr h] at hkey
      cases hkey
    have hresponse : response M sha json apiKey session = .error (ApiError.errorHttp 403 "Invalid API key") := by
      unfold response
      simp only [hkey]
    rw [hresponse]
    exact ⟨fun call => ⟨fun h => (nomatch h), fun h => absurd h.1 hno⟩, fun _ => rfl⟩
  | ok u =>
    have hauth : Authorized sha apiKey session := validateApiKey_eq_ok.mp hkey
    refine ⟨fun call => ?_, fun h => absurd hauth h⟩
    unfold response
    simp only [hkey]
    cases hat : (new M).atPath M session.path with
    | none =>
      constructor
      · intro h
        cases h
      · intro h
        obtain ⟨e, params, handler, hc, -⟩ := handle_of_asks h.2
        rw [hmissing hat e] at hc
        cases hc
    | some found =>
      obtain ⟨e, hc, hhandler⟩ := hfound found hat
      simp only [hhandler]
      cases hh : e.handler session.method with
      | none =>
        constructor
        · intro h
          cases h
        · intro h
          obtain ⟨e', params, handler, hc', hh', -⟩ := handle_of_asks h.2
          obtain ⟨rfl, -⟩ := Endpoint.captures_inj hc hc'
          rw [hh] at hh'
          cases hh'
      | some handler =>
        simp only [Except.mapError_eq_ok]
        constructor
        · intro h
          exact ⟨hauth, asks_of_handle hc hh h⟩
        · intro h
          obtain ⟨e', params, handler', hc', hh', h⟩ := handle_of_asks h.2
          obtain ⟨rfl, rfl⟩ := Endpoint.captures_inj hc hc'
          cases Option.some.inj (hh.symm.trans hh')
          exact h

/-! ## One update -/

theorem insertError_eq_none {ps : List String} {pattern : String} (h : Pattern.insertError [] pattern = none)
    (hps : ∀ p ∈ ps, Pattern.insertError [p] pattern = none) : Pattern.insertError ps pattern = none := by
  unfold Pattern.insertError at h hps ⊢
  cases ht : Pattern.tokens none pattern.toList with
  | none =>
    rw [ht] at h
    cases h
  | some ts =>
    simp only [ht] at h hps ⊢
    cases hi : Pattern.invalid ts with
    | some display =>
      rw [hi] at h
      cases h
    | none =>
      simp only [hi, Option.orElse, Option.map_eq_none_iff, List.find?_eq_none] at hps ⊢
      exact fun p hp => hps p hp p List.mem_cons_self

theorem accepts_staticFirst : Accepts Matchit.staticFirst := by
  have hall : ∀ e ∈ Endpoint.all, Pattern.insertError [] e.pattern = none ∧
      ∀ e' ∈ Endpoint.all, e' ≠ e → Pattern.insertError [e'.pattern] e.pattern = none := by decide +kernel
  intro ps e hps hnew
  refine insertError_eq_none (hall e e.mem_all).1 fun p hp => ?_
  obtain ⟨e', rfl⟩ := hps p hp
  refine (hall e e.mem_all).2 e' e'.mem_all ?_
  rintro rfl
  exact hnew hp

/-- The digest of the one secret below. -/
def secretSha : Sha256 := fun _ =>
  { chars := "2bb80d537b1da3e38bd30361aa855686bde0eacd7162fef6a25fe97bf527a25b".toList
    length_eq := by decide
    hex := List.all_eq_true.mp (by decide) }

def nullJson : JsonCodec := ⟨fun _ => .ok .null, fun _ => "null".toUTF8, fun _ => ""⟩

def putNull : ServerSession where
  method := .put
  path := "/apisix/admin/routes/1"
  apiKey := some "secret"
  contentType := some (some "application/json; charset=utf-8")
  body := [.ok "null".toUTF8]

theorem response_calls_graph_null : ∃ key : ResourceKey, key.kind = .route ∧ key.id = "1" ∧
    response Matchit.staticFirst secretSha nullJson "secret" putNull = .ok (.put key .null) := by
  have hvalid : "1" ≠ "" ∧ Text.containsChar "1" '/' = false := by decide
  refine ⟨⟨.route, "1", hvalid⟩, rfl, rfl, ?_⟩
  refine ((response_calls_graph Matchit.staticFirst_lawful accepts_staticFirst secretSha nullJson "secret" putNull).1
    _).mpr ⟨⟨by decide, "secret", rfl, by decide, rfl⟩, ?_⟩
  have hbody : (List.foldl (· ++ ·) ByteArray.empty ["null".toUTF8]).size ≤ maxBodySize := by decide
  exact .put rfl rfl rfl (by decide) rfl hbody rfl

end AdminHttpApp

end Pingsix
