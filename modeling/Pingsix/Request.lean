import Pingsix.Error
import Pingsix.Lib.HttpMessage

/-!
# Reading requests

Query parameters, cookies, header values and the host of a request, and removing
the first two of them.
-/

namespace Pingsix

open HttpMessage

/-- The trimmed, nonempty segments of a text as pairs of a name and a value. -/
def splitPairs (s : String) (sep : Char) : List (String × String) :=
  let segments := (Text.splitChars sep s.toList).map fun cs => Text.trim (String.ofList cs)
  (segments.filter (· ≠ "")).map fun seg =>
    match Text.splitOnce seg '=' with
    | some (n, v) => (Text.trim n, Text.trim v)
    | none => (seg, "")

def pairText (pair : String × String) : String := if pair.2 = "" then pair.1 else pair.1 ++ "=" ++ pair.2

def getQueryValue (req : RequestHeader) (name : String) : Option String :=
  match req.uri.query with
  | some query => ((splitPairs query '&').find? fun pair => pair.1 = name).map (·.2)
  | none => none

/-- An error when what is left of the URI is none. -/
def removeQueryFromHeader (req : RequestHeader) (name : String) : Except Unit RequestHeader :=
  match req.uri.query with
  | some query =>
    let pairs := (splitPairs query '&').filter fun pair => pair.1 ≠ name
    let left := "&".intercalate (pairs.map pairText)
    let newPath := if left = "" then req.uri.path else req.uri.path ++ "?" ++ left
    match Uri.ofPathAndQuery newPath with
    | some uri => .ok { req with uri }
    | none => .error ()
  | none => .ok req

def getReqHeaderValue (req : RequestHeader) (key : String) : Option String := (HeaderMap.get req.headers key).bind (·.toStr)

def getCookieValue (req : RequestHeader) (cookieName : String) : Option String :=
  let pairs := (HeaderMap.getAll req.headers "cookie").flatMap fun value => (value.toStr.map (splitPairs · ';')).getD []
  (pairs.find? fun pair => pair.1 = cookieName).map (·.2)

/-- The cookies left of one field. -/
def retainedCookies (cookieName value : String) : String :=
  "; ".intercalate (((splitPairs value ';').filter fun pair => pair.1 ≠ cookieName).map pairText)

def removeCookieFromHeader (req : RequestHeader) (cookieName : String) : ProxyResult RequestHeader := do
  let values ← (HeaderMap.getAll req.headers "cookie").mapM fun value =>
    match value.toStr with
    | some text => .ok text
    | none => .error (.validationError "Cookie header is not valid text")
  let retained := (values.map (retainedCookies cookieName)).filter (· ≠ "")
  let headers ← retained.foldlM (fun headers text =>
    match HeaderValue.ofString text with
    | some value => .ok (HeaderMap.append headers "cookie" value)
    | none => .error (.validationError "Failed to rebuild Cookie header: failed to parse header value"))
    (HeaderMap.remove req.headers "cookie")
  return { req with headers }

/-- The host of a `Host` header: without the port, in brackets when it was. -/
def hostOfHeader (host : String) : String :=
  if Text.startsWith host "[" then
    match Text.splitOnce host ']' with
    | some (before, _) => before ++ "]"
    | none => host
  else if host.toList.contains ':' then
    String.ofList ((host.toList.reverse.dropWhile (· ≠ ':')).drop 1).reverse
  else host

/-- The host of the URI, or else of the `Host` header. -/
def getRequestHost (req : RequestHeader) : Option String :=
  match req.uri.host.filter (· ≠ "") with
  | some host => some host
  | none => (getReqHeaderValue req "host").map hostOfHeader

/-! ## Values are printable -/

theorem trim_subset (s : String) : (Text.trim s).toList ⊆ s.toList := by
  intro c hc
  unfold Text.trim at hc
  rw [String.toList_ofList, List.mem_reverse] at hc
  have h1 := (List.dropWhile_sublist (p := Text.isWhitespace)).subset hc
  exact (List.dropWhile_sublist (p := Text.isWhitespace)).subset (List.mem_reverse.mp h1)

theorem splitChars_subset {sep : Char} : ∀ {l piece : List Char}, piece ∈ Text.splitChars sep l → piece ⊆ l
  | [], piece, h => by
    cases List.mem_singleton.mp h
    exact fun _ hc => hc
  | x :: xs, piece, h => by
    unfold Text.splitChars at h
    split at h
    · cases h with
      | head => simp
      | tail _ h => exact fun c hc => List.mem_cons_of_mem _ (splitChars_subset h hc)
    · have ih := @splitChars_subset sep xs
      split at h
      · cases List.mem_singleton.mp h
        exact fun c hc => by simpa using Or.inl (List.mem_singleton.mp hc)
      · rename_i p ps hs
        rw [hs] at ih
        cases h with
        | head => exact List.cons_subset_cons _ (ih (by simp))
        | tail _ h => exact fun c hc => List.mem_cons_of_mem _ (ih (List.mem_cons_of_mem _ h) hc)

theorem splitPairs_subset {s : String} {sep : Char} {pair : String × String} (h : pair ∈ splitPairs s sep) :
    pair.2.toList ⊆ s.toList := by
  unfold splitPairs at h
  obtain ⟨seg, hseg, rfl⟩ := List.mem_map.mp h
  obtain ⟨cs, hcs, rfl⟩ := List.mem_map.mp (List.mem_filter.mp hseg).1
  have hsub : (Text.trim (String.ofList cs)).toList ⊆ s.toList := fun c hc =>
    splitChars_subset hcs (by simpa using trim_subset _ hc)
  split
  · rename_i n v hsplit
    obtain ⟨he, -⟩ := Text.splitOnce_eq_some.mp hsplit
    intro c hc
    refine hsub ?_
    rw [he]
    simp [trim_subset v hc]
  · simp

/-- The URI and the header values of a request, and so all that is read from it, have no control characters but the tab. -/
theorem printable_getQueryValue {req : RequestHeader} {name : String} :
    Printable ((getQueryValue req name).getD "") := by
  unfold getQueryValue
  cases hq : req.uri.query with
  | none => exact printable_empty
  | some query =>
    simp only
    cases hf : (splitPairs query '&').find? fun pair => pair.1 = name with
    | none => exact printable_empty
    | some pair =>
      have hg : Graphic query := req.uri.graphic query (by simp [hq])
      rw [Option.map_some, Option.getD_some]
      exact .of_subset (splitPairs_subset (List.mem_of_find?_eq_some hf)) hg.printable

theorem printable_getReqHeaderValue {req : RequestHeader} {key s : String} (h : getReqHeaderValue req key = some s) :
    Printable s := by
  obtain ⟨v, -, hv⟩ := Option.bind_eq_some_iff.mp h
  exact HeaderValue.printable hv

theorem throughBracket_subset {s a b : String} (h : Text.splitOnce s ']' = some (a, b)) :
    (a ++ "]").toList ⊆ s.toList := by
  obtain ⟨rfl, -⟩ := Text.splitOnce_eq_some.mp h
  simp [String.toList_append]

theorem hostOfHeader_subset (host : String) : (hostOfHeader host).toList ⊆ host.toList := by
  unfold hostOfHeader
  by_cases hb : Text.startsWith host "[" = true
  · rw [if_pos hb]
    cases hs : Text.splitOnce host ']' with
    | none => exact fun _ hc => hc
    | some pair => simpa only using throughBracket_subset (a := pair.1) (b := pair.2) hs
  · rw [if_neg hb]
    by_cases hc : host.toList.contains ':' = true
    · rw [if_pos hc]
      intro c hc
      rw [String.toList_ofList, List.mem_reverse] at hc
      exact List.mem_reverse.mp ((List.dropWhile_sublist (p := (· ≠ ':'))).subset (List.mem_of_mem_drop hc))
    · rw [if_neg hc]
      exact fun _ hc => hc

theorem hostOf_subset (authority : String) : (Uri.hostOf authority).toList ⊆ authority.toList := by
  have hseg : (Text.lastSegment authority '@').toList ⊆ authority.toList := by
    intro c hc
    unfold Text.lastSegment Text.lastSegmentChars at hc
    rw [String.toList_ofList, List.mem_reverse] at hc
    exact List.mem_reverse.mp ((List.takeWhile_sublist _).subset hc)
  unfold Uri.hostOf
  simp only
  by_cases hb : Text.startsWith (Text.lastSegment authority '@') "[" = true
  · rw [if_pos hb]
    cases hs : Text.splitOnce (Text.lastSegment authority '@') ']' with
    | none => exact hseg
    | some pair => exact fun c hc => hseg (throughBracket_subset hs hc)
  · rw [if_neg hb]
    intro c hc
    rw [String.toList_ofList] at hc
    exact hseg ((List.takeWhile_sublist _).subset hc)

theorem printable_getRequestHost {req : RequestHeader} : Printable ((getRequestHost req).getD "") := by
  unfold getRequestHost
  split
  · rename_i host hh
    obtain ⟨authority, ha, rfl⟩ := Option.map_eq_some_iff.mp (Option.filter_eq_some_iff.mp hh).1
    have hg : Graphic authority := req.uri.graphic authority (by simp [ha])
    rw [Option.getD_some]
    exact .of_subset (hostOf_subset authority) hg.printable
  · cases hv : getReqHeaderValue req "host" with
    | none => exact printable_empty
    | some s =>
      rw [Option.map_some, Option.getD_some]
      exact .of_subset (hostOfHeader_subset s) (printable_getReqHeaderValue hv)

end Pingsix
