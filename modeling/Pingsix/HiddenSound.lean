import Pingsix.AuthPlugins
import Pingsix.RemovalSound

/-!
# Hidden credentials

What an authentication plugin that hides its credentials leaves for the
upstream, run through the same plugin once more. Only the carrier that was read
is emptied, so a credential in a carrier behind it still passes.
-/

namespace Pingsix

open HttpMessage

variable {υ : Type}

/-- An instance of one of the three plugins. -/
inductive AuthInstance where
  | basicAuth (p : PluginBasicAuth)
  | keyAuth (p : PluginKeyAuth)
  | jwtAuth (p : PluginJWTAuth)

namespace AuthInstance

def hideCredentials : AuthInstance → Bool
  | basicAuth p => p.hideCredentials
  | keyAuth p => p.hideCredentials
  | jwtAuth p => p.hideCredentials

def requestFilter (sha : Sha256) : AuthInstance → FilterState υ → FilterResult υ
  | basicAuth p => p.requestFilter sha
  | keyAuth p => p.requestFilter sha
  | jwtAuth p => p.requestFilter sha

/-- The instance lets a request with this header go on. -/
def Admits (υ : Type) (sha : Sha256) (i : AuthInstance) (req : RequestHeader) : Prop :=
  ∃ (ctx : ProxyContext υ) (st' : FilterState υ), i.requestFilter sha { request := req, ctx } = .ok (.continue, st')

end AuthInstance

/-! ## The carriers -/

def PluginKeyAuth.queryKey (p : PluginKeyAuth) (req : RequestHeader) : Option String :=
  if p.query = "" then none else getQueryValue req p.query

namespace PluginJWTAuth

def headerToken (p : PluginJWTAuth) (req : RequestHeader) : Option String :=
  (getReqHeaderValue req p.header).map stripBearer

def queryToken (p : PluginJWTAuth) (req : RequestHeader) : Option String :=
  if p.query = "" then none else getQueryValue req p.query

/-- A cookie is read where it could also be removed, which takes that every Cookie field is text. -/
def cookieToken (p : PluginJWTAuth) (req : RequestHeader) : Option String :=
  if (HeaderMap.getAll req.headers "cookie").all fun value => value.toStr.isSome then getCookieValue req p.cookie else none

/-- The token in the carriers behind the one that is read; a header named `Cookie` takes the cookies with it. -/
def laterToken (p : PluginJWTAuth) (req : RequestHeader) : Option String :=
  let cookie := if Text.toAsciiLowercase p.header = "cookie" then none else p.cookieToken req
  if (p.headerToken req).isSome then (p.queryToken req).or cookie
  else if (p.queryToken req).isSome then p.cookieToken req
  else none

end PluginJWTAuth

/-- A credential that passes is in a carrier behind the one that is read. -/
def AuthInstance.LiveElsewhere (sha : Sha256) (req : RequestHeader) : AuthInstance → Prop
  | .basicAuth _ => False
  | .keyAuth p => (getReqHeaderValue req p.header).isSome = true ∧
      ∃ key, p.queryKey req = some key ∧ key ≠ "" ∧ p.isValidKey sha key = true
  | .jwtAuth p => ∃ token, p.laterToken req = some token ∧ p.decode token = .ok ()

/-- A target with a query is a path or an absolute one, as every parsed target is. -/
def QueryForm (uri : Uri) : Prop := ∀ query, uri.query = some query → OriginForm uri ∨ AbsoluteForm uri

/-! ## Removals and lookups -/

section
variable {req : RequestHeader} {name other : String}

theorem getReqHeaderValue_removed (req : RequestHeader) (name : String) :
    getReqHeaderValue { req with headers := HeaderMap.remove req.headers name } name = none := by
  unfold getReqHeaderValue HeaderMap.get
  rw [HeaderMap.getAll_remove_self]
  rfl

theorem getAll_cookies_removed (req : RequestHeader) (hne : Text.toAsciiLowercase name ≠ "cookie") :
    HeaderMap.getAll (HeaderMap.remove req.headers name) "cookie" = HeaderMap.getAll req.headers "cookie" :=
  HeaderMap.getAll_remove_of_ne fun h => hne (h.symm.trans (by decide))

/-- Removing a query parameter succeeds, empties the query of it and keeps the headers. -/
theorem removeQuery_succeeds (hform : QueryForm req.uri) (name : String) :
    ∃ left, removeQueryFromHeader req name = .ok left ∧ left.headers = req.headers ∧ getQueryValue left name = none ∧
      QueryForm left.uri := by
  rw [removeQueryFromHeader_eq]
  cases hq : req.uri.query with
  | none =>
    rw [removeQueryInPlace_of_no_query hq]
    refine ⟨req, rfl, rfl, ?_, hform⟩
    unfold getQueryValue
    rw [hq]
  | some query =>
    obtain ⟨uri, hrun, hscheme, hauthority, hpath, hpairs⟩ := @removeQueryInPlace_of_query _ name _ (hform query hq) hq
    obtain ⟨hstart, hquestion, -⟩ := path_of_form (hform query hq)
    rw [hrun]
    refine ⟨{ req with uri }, rfl, rfl, ?_, fun _ _ => .inl ⟨hscheme, hauthority, hpath ▸ hstart, hpath ▸ hquestion⟩⟩
    rw [getQueryValue_eq, hpairs, lookupPair_pairsLeft_self]

/-- Removing a cookie succeeds when every field is text, and fails otherwise. -/
theorem removeCookie_succeeds (req : RequestHeader) (name : String) :
    ((HeaderMap.getAll req.headers "cookie").all fun value => value.toStr.isSome) = true ↔
      ∃ left, removeCookieFromHeader req name = .ok left := by
  rw [removeCookieFromHeader_eq]
  unfold removeCookieInPlace
  dsimp only
  split
  case h_1 e hvalues =>
    refine iff_of_false (fun hall => ?_) nofun
    obtain ⟨values, hok⟩ := mapM_isOk_of_readable (List.all_eq_true.mp hall)
    cases hvalues.symm.trans hok
  case h_2 values hvalues =>
    have hread := readable_of_mapM hvalues
    obtain ⟨appended, hrun, -⟩ := @cookieRemoved_of_values _ name _ hread
    have hall : (∀ value ∈ HeaderMap.getAll req.headers "cookie", value.toStr.isSome = true) ∧ _ :=
      (List.forall₂_and_left _ _).mp (hread.imp fun value text hv => ⟨by rw [hv]; rfl, hv⟩)
    refine iff_of_true (List.all_eq_true.mpr hall.1) ⟨{ req with headers := appended }, ?_⟩
    rw [hrun]
    rfl

theorem removeCookie_left {left : RequestHeader} (h : removeCookieFromHeader req name = .ok left) :
    CookieRemoved name req left := by
  rw [removeCookieFromHeader_eq] at h
  obtain ⟨_, hok, rfl⟩ := Except.map_eq_ok.mp h
  exact (leaves_removeCookieInPlace req name).1 hok

theorem getAll_of_cookieRemoved {left : RequestHeader} (h : CookieRemoved name req left)
    (hne : Text.toAsciiLowercase other ≠ "cookie") : HeaderMap.getAll left.headers other = HeaderMap.getAll req.headers other := by
  have hcookie : Text.toAsciiLowercase other ≠ Text.toAsciiLowercase "cookie" := fun he => hne (he.trans (by decide))
  rw [← HeaderMap.getAll_remove_of_ne hcookie, h.headers, HeaderMap.getAll_remove_of_ne hcookie]

end

/-! ## Basic authentication -/

/-- A request goes on with a credential that was verified. -/
theorem PluginBasicAuth.continue_cases {sha : Sha256} {p : PluginBasicAuth} {st st' : FilterState υ}
    (h : p.requestFilter sha st = .ok (.continue, st')) :
    (p.verified sha st.request).isSome = true ∧
      (p.hideCredentials = true → st'.request.headers = HeaderMap.remove st.request.headers "authorization") := by
  unfold PluginBasicAuth.requestFilter at h
  cases hv : p.verified sha st.request with
  | none =>
    rw [hv] at h
    cases h
  | some credential =>
    rw [hv] at h
    cases h
    refine ⟨rfl, fun hhide => ?_⟩
    have hmarked : ∀ marked : Bool, (if marked then st.mark else st).request = st.request := by
      intro marked
      cases marked <;> rfl
    rw [if_pos hhide]
    exact congrArg (fun req => HeaderMap.remove req.headers "authorization") (hmarked _)

theorem basicAuth_hidden {sha : Sha256} {p : PluginBasicAuth} (hhide : p.hideCredentials = true) {st st' : FilterState υ}
    (h : p.requestFilter sha st = .ok (.continue, st')) : ¬(AuthInstance.basicAuth p).Admits υ sha st'.request := by
  rintro ⟨ctx, st'', hagain⟩
  have hleft := (PluginBasicAuth.continue_cases h).2 hhide
  have hverified := (PluginBasicAuth.continue_cases hagain).1
  have hnone : getReqHeaderValue st'.request "authorization" = none := by
    unfold getReqHeaderValue HeaderMap.get
    rw [hleft, HeaderMap.getAll_remove_self]
    rfl
  unfold PluginBasicAuth.verified at hverified
  dsimp only at hverified
  rw [hnone] at hverified
  cases hverified

/-! ## Key authentication -/

namespace PluginKeyAuth

theorem findKey_of_header {p : PluginKeyAuth} {req : RequestHeader} {value : String}
    (h : getReqHeaderValue req p.header = some value) : p.findKey req = some (value, .header) := by
  unfold findKey
  rw [h]

theorem findKey_of_no_header {p : PluginKeyAuth} {req : RequestHeader} (h : getReqHeaderValue req p.header = none) :
    p.findKey req = (p.queryKey req).map fun value => (value, .query) := by
  unfold findKey queryKey
  rw [h]
  by_cases hq : p.query = ""
  · simp [hq]
  · simp [hq]

/-- What a request that goes on was verified with, and what is left of it. -/
theorem continue_cases {sha : Sha256} {p : PluginKeyAuth} (hhide : p.hideCredentials = true) {st st' : FilterState υ}
    (h : p.requestFilter sha st = .ok (.continue, st')) :
    (p.verified sha st.request).isSome = true ∧
      ((∃ value, getReqHeaderValue st.request p.header = some value ∧
          st'.request = { st.request with headers := HeaderMap.remove st.request.headers p.header }) ∨
        (getReqHeaderValue st.request p.header = none ∧ removeQueryFromHeader st.request p.query = .ok st'.request)) := by
  have hmarked : ∀ marked : Bool, (if marked then st.mark else st).request = st.request := by
    intro marked
    cases marked <;> rfl
  unfold requestFilter at h
  cases hv : p.verified sha st.request with
  | none =>
    rw [hv] at h
    cases h
  | some found =>
    obtain ⟨value, source⟩ := found
    rw [hv] at h
    dsimp only at h
    rw [if_pos hhide] at h
    refine ⟨rfl, ?_⟩
    have hfound : p.findKey st.request = some (value, source) := (Option.filter_eq_some_iff.mp hv).1
    cases hheader : getReqHeaderValue st.request p.header with
    | some text =>
      rw [findKey_of_header hheader] at hfound
      cases hfound
      cases h
      refine .inl ⟨_, rfl, ?_⟩
      exact congrArg (fun req : RequestHeader => { req with headers := HeaderMap.remove req.headers p.header }) (hmarked _)
    | none =>
      rw [findKey_of_no_header hheader] at hfound
      obtain ⟨_, -, he⟩ := Option.map_eq_some_iff.mp hfound
      cases he
      refine .inr ⟨rfl, ?_⟩
      have hrequest : ∀ marked : Bool, ((if marked then st.mark else st).note sha value).request = st.request := hmarked
      dsimp only at h
      rw [hrequest] at h
      cases hr : removeQueryFromHeader st.request p.query with
      | error e =>
        rw [hr] at h
        cases h
      | ok left =>
        rw [hr] at h
        cases h
        rfl

/-- A request whose key is verified goes on. -/
theorem continues {sha : Sha256} {p : PluginKeyAuth} {st : FilterState υ} (hform : QueryForm st.request.uri)
    (hv : (p.verified sha st.request).isSome = true) : ∃ st', p.requestFilter sha st = .ok (.continue, st') := by
  obtain ⟨⟨value, source⟩, hv⟩ := Option.isSome_iff_exists.mp hv
  unfold requestFilter
  rw [hv]
  dsimp only
  by_cases hhide : p.hideCredentials = true
  · rw [if_pos hhide]
    cases source with
    | header => exact ⟨_, rfl⟩
    | query =>
      have hrequest : ∀ marked : Bool, ((if marked then st.mark else st).note sha value).request = st.request := by
        intro marked
        cases marked <;> rfl
      obtain ⟨left, hr, -⟩ := removeQuery_succeeds hform p.query
      dsimp only
      rw [hrequest, hr]
      exact ⟨_, rfl⟩
  · rw [if_neg hhide]
    exact ⟨_, rfl⟩

theorem verified_of_no_header {sha : Sha256} {p : PluginKeyAuth} {req : RequestHeader}
    (h : getReqHeaderValue req p.header = none) :
    (p.verified sha req).isSome = true ↔ ∃ key, p.queryKey req = some key ∧ key ≠ "" ∧ p.isValidKey sha key = true := by
  unfold verified
  rw [findKey_of_no_header h]
  cases hq : p.queryKey req with
  | none => simp
  | some key => simp [Option.isSome_filter]

end PluginKeyAuth

theorem keyAuth_hidden_iff {sha : Sha256} {p : PluginKeyAuth} (hhide : p.hideCredentials = true) {st st' : FilterState υ}
    (hform : QueryForm st.request.uri) (h : p.requestFilter sha st = .ok (.continue, st')) :
    (AuthInstance.keyAuth p).Admits υ sha st'.request ↔ (AuthInstance.keyAuth p).LiveElsewhere sha st.request := by
  have hverified : (AuthInstance.keyAuth p).Admits υ sha st'.request → (p.verified sha st'.request).isSome = true :=
    fun ⟨_, _, hagain⟩ => (PluginKeyAuth.continue_cases hhide hagain).1
  rcases (PluginKeyAuth.continue_cases hhide h).2 with ⟨value, hheader, hleft⟩ | ⟨hheader, hremoved⟩
  · have hnone : getReqHeaderValue st'.request p.header = none := by
      rw [hleft]
      exact getReqHeaderValue_removed st.request p.header
    have huri : st'.request.uri = st.request.uri := by rw [hleft]
    have hkey : p.queryKey st'.request = p.queryKey st.request := by
      unfold PluginKeyAuth.queryKey getQueryValue
      rw [huri]
    constructor
    · intro hadmits
      obtain ⟨key, hk, hvalid⟩ := (PluginKeyAuth.verified_of_no_header hnone).mp (hverified hadmits)
      exact ⟨by rw [hheader]; rfl, key, hkey ▸ hk, hvalid⟩
    · rintro ⟨-, key, hk, hvalid⟩
      have hv : (p.verified sha st'.request).isSome = true :=
        (PluginKeyAuth.verified_of_no_header hnone).mpr ⟨key, hkey.trans hk, hvalid⟩
      obtain ⟨st'', hagain⟩ := @PluginKeyAuth.continues _ sha p { request := st'.request, ctx := st'.ctx } (huri ▸ hform) hv
      exact ⟨st'.ctx, st'', hagain⟩
  · obtain ⟨left, hr, hheaders, hgone, -⟩ := removeQuery_succeeds hform p.query
    cases hremoved.symm.trans hr
    have hnone : getReqHeaderValue st'.request p.header = none := by
      unfold getReqHeaderValue at hheader ⊢
      rw [hheaders]
      exact hheader
    refine iff_of_false (fun hadmits => ?_) fun hlive => ?_
    · obtain ⟨key, hk, -⟩ := (PluginKeyAuth.verified_of_no_header hnone).mp (hverified hadmits)
      unfold PluginKeyAuth.queryKey at hk
      rw [hgone, ite_self] at hk
      cases hk
    · have hsome := hlive.1
      rw [hheader] at hsome
      cases hsome

/-! ## JWT authentication -/

namespace PluginJWTAuth

/-- The token that is read, where it can be removed. -/
def liveToken (p : PluginJWTAuth) (req : RequestHeader) : Option String :=
  (p.headerToken req).or ((p.queryToken req).or (p.cookieToken req))

/-- Where an extracted token was, and what is left of the request. -/
theorem extractToken_cases {p : PluginJWTAuth} (hhide : p.hideCredentials = true) {st left : FilterState υ} {token : String}
    (h : p.extractToken st = .ok (some token, left)) :
    (p.headerToken st.request = some token ∧
        left.request = { st.request with headers := HeaderMap.remove st.request.headers p.header }) ∨
      (p.headerToken st.request = none ∧ p.queryToken st.request = some token ∧
        removeQueryFromHeader st.request p.query = .ok left.request) ∨
      (p.headerToken st.request = none ∧ p.queryToken st.request = none ∧ p.cookieToken st.request = some token ∧
        removeCookieFromHeader st.request p.cookie = .ok left.request) := by
  unfold extractToken at h
  unfold headerToken queryToken
  simp only [hhide, if_true] at h
  cases hheader : (getReqHeaderValue st.request p.header).map stripBearer with
  | some text =>
    rw [hheader] at h
    cases h
    exact .inl ⟨rfl, rfl⟩
  | none =>
    rw [hheader] at h
    dsimp only at h
    cases hquery : (if p.query = "" then none else getQueryValue st.request p.query) with
    | some text =>
      rw [hquery] at h
      dsimp only at h
      cases hr : removeQueryFromHeader st.request p.query with
      | error e =>
        rw [hr] at h
        cases h
      | ok request =>
        rw [hr] at h
        cases h
        exact .inr (.inl ⟨rfl, rfl, rfl⟩)
    | none =>
      rw [hquery] at h
      dsimp only at h
      cases hcookie : getCookieValue st.request p.cookie with
      | none =>
        rw [hcookie] at h
        cases h
      | some text =>
        rw [hcookie] at h
        dsimp only at h
        cases hr : removeCookieFromHeader st.request p.cookie with
        | error e =>
          rw [hr] at h
          cases h
        | ok request =>
          rw [hr] at h
          cases h
          refine .inr (.inr ⟨rfl, rfl, ?_, rfl⟩)
          unfold cookieToken
          rw [if_pos ((removeCookie_succeeds st.request p.cookie).mpr ⟨_, hr⟩), hcookie]

theorem extractToken_of_live {p : PluginJWTAuth} (hhide : p.hideCredentials = true) {st : FilterState υ}
    (hform : QueryForm st.request.uri) {token : String} (h : p.liveToken st.request = some token) :
    ∃ left, p.extractToken st = .ok (some token, left) := by
  unfold extractToken
  unfold liveToken headerToken queryToken at h
  simp only [hhide, if_true]
  cases hheader : (getReqHeaderValue st.request p.header).map stripBearer with
  | some text =>
    rw [hheader] at h
    cases h
    exact ⟨_, rfl⟩
  | none =>
    rw [hheader] at h
    dsimp only
    cases hquery : (if p.query = "" then none else getQueryValue st.request p.query) with
    | some text =>
      rw [hquery] at h
      cases h
      obtain ⟨left, hr, -⟩ := removeQuery_succeeds hform p.query
      dsimp only
      rw [hr]
      exact ⟨_, rfl⟩
    | none =>
      rw [hquery] at h
      have hcookie : p.cookieToken st.request = some token := h
      obtain ⟨hall, hcookie⟩ := Option.ite_none_right_eq_some.mp hcookie
      obtain ⟨left, hr⟩ := (removeCookie_succeeds st.request p.cookie).mp hall
      dsimp only
      rw [hcookie]
      dsimp only
      rw [hr]
      exact ⟨_, rfl⟩

/-- A request goes on with the token that is read, when it decodes. -/
theorem continue_cases {sha : Sha256} {p : PluginJWTAuth} {st st' : FilterState υ}
    (h : p.requestFilter sha st = .ok (.continue, st')) :
    ∃ token left, p.extractToken st = .ok (some token, left) ∧ p.decode token = .ok () ∧ st'.request = left.request := by
  unfold requestFilter at h
  split at h
  case h_1 => cases h
  case h_2 => cases h
  case h_3 token left he =>
    split at h
    case h_1 => cases h
    case h_2 hd =>
      cases h
      exact ⟨token, left, he, hd, rfl⟩

theorem liveToken_of_extract {p : PluginJWTAuth} (hhide : p.hideCredentials = true) {st left : FilterState υ} {token : String}
    (h : p.extractToken st = .ok (some token, left)) : p.liveToken st.request = some token := by
  unfold liveToken
  rcases extractToken_cases hhide h with ⟨hh, -⟩ | ⟨hh, hq, -⟩ | ⟨hh, hq, hc, -⟩
  · rw [hh]
    rfl
  · rw [hh, hq]
    rfl
  · rw [hh, hq, hc]
    rfl

theorem admits_iff {sha : Sha256} {p : PluginJWTAuth} (hhide : p.hideCredentials = true) {req : RequestHeader}
    (hform : QueryForm req.uri) :
    (AuthInstance.jwtAuth p).Admits υ sha req ↔ ∃ token, p.liveToken req = some token ∧ p.decode token = .ok () := by
  constructor
  · rintro ⟨ctx, st', h⟩
    obtain ⟨token, left, he, hd, -⟩ := continue_cases h
    exact ⟨token, liveToken_of_extract hhide he, hd⟩
  · rintro ⟨token, hlive, hd⟩
    obtain ⟨left, he⟩ := @extractToken_of_live υ p hhide { request := req, ctx := {} } hform token hlive
    refine ⟨{}, left.mark.note sha token, ?_⟩
    show p.requestFilter sha _ = _
    unfold requestFilter
    rw [he]
    dsimp only
    rw [hd]

theorem queryToken_congr {p : PluginJWTAuth} {req left : RequestHeader} (h : left.uri = req.uri) :
    p.queryToken left = p.queryToken req := by
  unfold queryToken getQueryValue
  rw [h]

theorem cookieToken_congr {p : PluginJWTAuth} {req left : RequestHeader}
    (h : HeaderMap.getAll left.headers "cookie" = HeaderMap.getAll req.headers "cookie") :
    p.cookieToken left = p.cookieToken req := by
  unfold cookieToken getCookieValue
  rw [h]

theorem headerToken_congr {p : PluginJWTAuth} {req left : RequestHeader}
    (h : HeaderMap.getAll left.headers p.header = HeaderMap.getAll req.headers p.header) :
    p.headerToken left = p.headerToken req := by
  unfold headerToken getReqHeaderValue HeaderMap.get
  rw [h]

theorem cookieToken_of_none {p : PluginJWTAuth} {req : RequestHeader} (h : getCookieValue req p.cookie = none) :
    p.cookieToken req = none := by
  unfold cookieToken
  rw [h, ite_self]

/-- A header named `Cookie` is read where a cookie can be. -/
theorem header_ne_cookie {p : PluginJWTAuth} {req : RequestHeader} {token : String} (hheader : p.headerToken req = none)
    (hcookie : p.cookieToken req = some token) : Text.toAsciiLowercase p.header ≠ "cookie" := by
  intro hname
  obtain ⟨hall, hvalue⟩ := Option.ite_none_right_eq_some.mp hcookie
  have hsame : HeaderMap.getAll req.headers p.header = HeaderMap.getAll req.headers "cookie" :=
    HeaderMap.getAll_congr req.headers (hname.trans (by decide))
  unfold headerToken getReqHeaderValue HeaderMap.get at hheader
  rw [hsame] at hheader
  unfold getCookieValue at hvalue
  cases hfields : HeaderMap.getAll req.headers "cookie" with
  | nil =>
    rw [hfields] at hvalue
    cases hvalue
  | cons value values =>
    rw [hfields] at hall hheader
    obtain ⟨text, ht⟩ := Option.isSome_iff_exists.mp (List.all_eq_true.mp hall value List.mem_cons_self)
    rw [List.head?_cons, Option.bind_some, ht] at hheader
    cases hheader

end PluginJWTAuth

open PluginJWTAuth in
/-- What is left has the tokens behind the one that was read. -/
theorem liveToken_left {p : PluginJWTAuth} (hhide : p.hideCredentials = true) {st left : FilterState υ} {token : String}
    (hform : QueryForm st.request.uri) (h : p.extractToken st = .ok (some token, left)) :
    p.liveToken left.request = p.laterToken st.request ∧ QueryForm left.request.uri := by
  rcases extractToken_cases hhide h with ⟨hheader, hleft⟩ | ⟨hheader, hquery, hremoved⟩ | ⟨hheader, hquery, hcookie, hremoved⟩
  · have huri : left.request.uri = st.request.uri := by rw [hleft]
    have hnone : p.headerToken left.request = none := by
      unfold headerToken
      rw [hleft, getReqHeaderValue_removed]
      rfl
    have hcookie : p.cookieToken left.request =
        if Text.toAsciiLowercase p.header = "cookie" then none else p.cookieToken st.request := by
      by_cases hname : Text.toAsciiLowercase p.header = "cookie"
      · rw [if_pos hname]
        apply cookieToken_of_none
        have hempty : HeaderMap.getAll left.request.headers "cookie" = [] := by
          rw [hleft, ← HeaderMap.getAll_congr _ (hname.trans (by decide : "cookie" = Text.toAsciiLowercase "cookie"))]
          exact HeaderMap.getAll_remove_self st.request.headers p.header
        unfold getCookieValue
        rw [hempty]
        rfl
      · rw [if_neg hname]
        apply cookieToken_congr
        rw [hleft]
        exact getAll_cookies_removed st.request hname
    refine ⟨?_, huri ▸ hform⟩
    unfold liveToken laterToken
    rw [hnone, queryToken_congr huri, hcookie, hheader]
    rfl
  · obtain ⟨request, hr, hheaders, hgone, hleft⟩ := removeQuery_succeeds hform p.query
    cases hremoved.symm.trans hr
    have hnone : p.queryToken left.request = none := by
      unfold queryToken
      rw [hgone, ite_self]
    have hsame : p.headerToken left.request = none := (headerToken_congr (by rw [hheaders])).trans hheader
    have hcookie : p.cookieToken left.request = p.cookieToken st.request := cookieToken_congr (by rw [hheaders])
    refine ⟨?_, hleft⟩
    unfold liveToken laterToken
    rw [hsame, hheader, hnone, hcookie, hquery]
    rfl
  · have hleft := removeCookie_left hremoved
    have hname := header_ne_cookie hheader hcookie
    refine ⟨?_, hleft.uri ▸ hform⟩
    unfold liveToken laterToken
    rw [headerToken_congr (getAll_of_cookieRemoved hleft hname), hheader, queryToken_congr hleft.uri, hquery,
      cookieToken_of_none hleft.gone]
    rfl

theorem jwtAuth_hidden_iff {sha : Sha256} {p : PluginJWTAuth} (hhide : p.hideCredentials = true) {st st' : FilterState υ}
    (hform : QueryForm st.request.uri) (h : p.requestFilter sha st = .ok (.continue, st')) :
    (AuthInstance.jwtAuth p).Admits υ sha st'.request ↔ (AuthInstance.jwtAuth p).LiveElsewhere sha st.request := by
  obtain ⟨token, left, he, -, hleft⟩ := PluginJWTAuth.continue_cases h
  obtain ⟨hlive, hform'⟩ := liveToken_left hhide hform he
  rw [hleft, PluginJWTAuth.admits_iff hhide hform', hlive]
  rfl

/-- A request that is let through no longer authenticates exactly when no carrier behind the one that was read has a
credential that passes. -/
theorem hidden_iff {sha : Sha256} {i : AuthInstance} (hhide : i.hideCredentials = true) {st st' : FilterState υ}
    (hform : QueryForm st.request.uri) (h : i.requestFilter sha st = .ok (.continue, st')) :
    ¬i.Admits υ sha st'.request ↔ ¬i.LiveElsewhere sha st.request := by
  cases i with
  | basicAuth p => exact iff_of_true (basicAuth_hidden hhide h) not_false
  | keyAuth p => exact not_congr (keyAuth_hidden_iff hhide hform h)
  | jwtAuth p => exact not_congr (jwtAuth_hidden_iff hhide hform h)

/-! ## A key in one carrier and in two -/

def hidingKeyAuth : PluginKeyAuth := { query := "apikey", key := some "k", hideCredentials := true }

def zeroDigest : Sha256 := fun _ =>
  ⟨List.replicate 64 '0', List.length_replicate, fun c hc => by rw [List.eq_of_mem_replicate hc]; decide⟩

def keyHeaders : HeaderMap := [("apikey", ⟨bytesOf "k", List.all_eq_true.mp (by decide)⟩)]

def keyOnce : FilterState Unit where
  request := { method := .get, uri := .root, headers := keyHeaders }
  ctx := {}

def keyTwice : FilterState Unit where
  request :=
    { method := .get
      uri := { rawPath := "/", query := some "apikey=k", graphic := by decide }
      headers := keyHeaders }
  ctx := {}

theorem hidingKeyAuth_valid : hidingKeyAuth.isValidKey zeroDigest "k" = true :=
  List.any_eq_true.mpr ⟨"k", by decide, decide_eq_true rfl⟩

theorem keyAuth_continues (st : FilterState Unit) (hheader : getReqHeaderValue st.request hidingKeyAuth.header = some "k") :
    ∃ st', hidingKeyAuth.requestFilter zeroDigest st = .ok (.continue, st') := by
  have hv : hidingKeyAuth.verified zeroDigest st.request = some ("k", .header) := by
    unfold PluginKeyAuth.verified
    rw [PluginKeyAuth.findKey_of_header hheader]
    exact Option.filter_eq_some_iff.mpr ⟨rfl, by rw [hidingKeyAuth_valid]; rfl⟩
  unfold PluginKeyAuth.requestFilter
  rw [hv]
  exact ⟨_, rfl⟩

/-- A key in the header alone is hidden. -/
theorem hidden_keyOnce :
    ∃ st', (AuthInstance.keyAuth hidingKeyAuth).requestFilter zeroDigest keyOnce = .ok (.continue, st') ∧
      ¬(AuthInstance.keyAuth hidingKeyAuth).Admits Unit zeroDigest st'.request := by
  obtain ⟨st', h⟩ := keyAuth_continues keyOnce (by decide)
  refine ⟨st', h, (@hidden_iff Unit zeroDigest (.keyAuth hidingKeyAuth) rfl keyOnce st' (fun _ hq => by cases hq) h).mpr ?_⟩
  rintro ⟨-, key, hk, -⟩
  have hnone : hidingKeyAuth.queryKey keyOnce.request = none := by decide
  rw [hnone] at hk
  cases hk

/-- A key in the query as well is left there. -/
theorem not_hidden_keyTwice :
    ¬∀ (sha : Sha256) (i : AuthInstance) (st st' : FilterState Unit), i.hideCredentials = true →
      QueryForm st.request.uri → i.requestFilter sha st = .ok (.continue, st') → ¬i.Admits Unit sha st'.request := by
  intro h
  have hform : QueryForm keyTwice.request.uri := fun _ _ => .inl ⟨rfl, rfl, by decide, by decide⟩
  obtain ⟨st', hfilter⟩ := keyAuth_continues keyTwice (by decide)
  have hlive : (AuthInstance.keyAuth hidingKeyAuth).LiveElsewhere zeroDigest keyTwice.request :=
    ⟨by decide, "k", by decide, by decide, hidingKeyAuth_valid⟩
  exact h zeroDigest (.keyAuth hidingKeyAuth) keyTwice st' rfl hform hfilter
    ((keyAuth_hidden_iff rfl hform hfilter).mpr hlive)

end Pingsix
