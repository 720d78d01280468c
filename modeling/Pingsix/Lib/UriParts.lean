import Pingsix.Lib.HttpMessage

/-!
# URIs in parts

A URI taken apart into its scheme, its authority and its path with the query,
and one put together from such parts, which must fit each other.
-/

namespace HttpMessage

structure PathAndQuery where
  /-- The path as written. -/
  rawPath : String
  query : Option String := none
  graphic : ∀ part ∈ rawPath :: query.toList, Graphic part
  deriving DecidableEq, Repr

namespace PathAndQuery

/-- The path and the query as written. -/
def data (pq : PathAndQuery) : String := pq.rawPath ++ (pq.query.map ("?" ++ ·)).getD ""

def path (pq : PathAndQuery) : String := if pq.rawPath = "" then "/" else pq.rawPath

end PathAndQuery

namespace Uri

structure Parts where
  scheme : Option String
  authority : Option String
  pathAndQuery : Option PathAndQuery
  graphic : ∀ part ∈ scheme.toList ++ authority.toList, Graphic part
  deriving DecidableEq, Repr

/-- A URI without a scheme and with nothing written for path and query has none. -/
def intoParts (u : Uri) : Parts where
  scheme := u.scheme
  authority := u.authority
  pathAndQuery :=
    if u.data = "" ∧ u.scheme = none then none
    else some { rawPath := u.rawPath, query := u.query, graphic := fun _ h => u.graphic _ (List.mem_append_right _ h) }
  graphic := fun _ h => u.graphic _ (List.mem_append_left _ h)

/-- Scheme, authority and path fit each other, or there is neither scheme nor both of the others. -/
def fromParts (parts : Parts) : Option Uri :=
  if (if parts.scheme.isSome then parts.authority.isSome ∧ parts.pathAndQuery.isSome
      else ¬(parts.authority.isSome ∧ parts.pathAndQuery.isSome)) then
    some {
      scheme := parts.scheme
      authority := parts.authority
      rawPath := (parts.pathAndQuery.map (·.rawPath)).getD ""
      query := parts.pathAndQuery.bind (·.query)
      graphic := by
        intro part h
        cases List.mem_append.mp h with
        | inl h => exact parts.graphic _ h
        | inr h =>
          cases hpq : parts.pathAndQuery with
          | none =>
            rw [hpq] at h
            cases List.mem_singleton.mp h
            exact fun c hc => by simp at hc
          | some pq =>
            rw [hpq] at h
            exact pq.graphic _ h }
  else none

/-- The path and the query of a URI as written. -/
def written (u : Uri) : PathAndQuery where
  rawPath := u.rawPath
  query := u.query
  graphic := fun _ h => u.graphic _ (List.mem_append_right _ h)

theorem data_ofPathAndQuery {text : String} {u : Uri} (h : ofPathAndQuery text = some u) : u.written.data = text := by
  unfold ofPathAndQuery at h
  split at h
  · have hpath : u.rawPath = String.ofList (text.toList.takeWhile (· ≠ '?')) := by
      cases h
      rfl
    have hsplit := List.takeWhile_append_dropWhile (p := (· ≠ '?')) (l := text.toList)
    refine String.toList_inj.mp ?_
    show (u.rawPath ++ (u.query.map ("?" ++ ·)).getD "").toList = _
    rw [String.toList_append, hpath, String.toList_ofList]
    cases hd : text.toList.dropWhile (· ≠ '?') with
    | nil =>
      have hquery : u.query = none := by
        cases h
        dsimp only
        rw [hd]
      rw [hd] at hsplit
      rw [hquery]
      exact hsplit
    | cons c rest =>
      have hc : c = '?' := by
        have hhead := List.head?_dropWhile_not (· ≠ '?') text.toList
        rw [hd] at hhead
        simpa using hhead
      have hquery : u.query = some (String.ofList rest) := by
        cases h
        dsimp only
        rw [hd]
      rw [hd, hc] at hsplit
      rw [hquery]
      show text.toList.takeWhile (· ≠ '?') ++ ("?" ++ String.ofList rest).toList = _
      have hmark : ("?" ++ String.ofList rest).toList = '?' :: rest := by simp [String.toList_append]
      rw [hmark]
      exact hsplit
  · cases h

/-- The URI with another path and query. -/
def withPathAndQuery (u : Uri) (pq : PathAndQuery) : Uri where
  scheme := u.scheme
  authority := u.authority
  rawPath := pq.rawPath
  query := pq.query
  graphic := fun _ h => (List.mem_append.mp h).elim (fun h => u.graphic _ (List.mem_append_left _ h)) (pq.graphic _)

/-- A URI with both a scheme and an authority, or with neither, takes another path and query. -/
theorem fromParts_replaced {u : Uri} (h : u.scheme.isSome = u.authority.isSome) (pq : PathAndQuery) :
    fromParts { u.intoParts with pathAndQuery := some pq } = some (u.withPathAndQuery pq) := by
  unfold fromParts intoParts
  rw [if_pos]
  · rfl
  · show if u.scheme.isSome then u.authority.isSome ∧ true = true else ¬(u.authority.isSome ∧ true = true)
    rw [← h]
    cases u.scheme.isSome <;> simp

theorem intoParts_path {u : Uri} (h : ¬(u.data = "" ∧ u.scheme = none)) :
    ∃ pq, u.intoParts.pathAndQuery = some pq ∧ pq.path = u.path := by
  unfold intoParts path
  rw [if_neg h]
  exact ⟨_, rfl, (if_neg h).symm⟩

/-- A new path that is not empty is shown after what the URI has before its path, with the new query. -/
theorem display_withPathAndQuery {u : Uri} {pq : PathAndQuery} (h : pq.rawPath ≠ "") :
    (u.withPathAndQuery pq).display = (u.scheme.map (· ++ "://")).getD "" ++ u.authority.getD "" ++ pq.data := by
  have hpath : (u.withPathAndQuery pq).path = pq.rawPath := by
    have hdata : ¬((u.withPathAndQuery pq).data = "" ∧ (u.withPathAndQuery pq).scheme = none) := fun he => by
      have hnil := congrArg String.toList he.1
      unfold data at hnil
      rw [String.toList_append] at hnil
      exact h (String.toList_eq_nil_iff.mp (List.append_eq_nil_iff.mp hnil).1)
    unfold path
    rw [if_neg hdata]
    exact if_neg h
  unfold display PathAndQuery.data
  rw [hpath]
  exact String.append_assoc

end Uri

end HttpMessage
