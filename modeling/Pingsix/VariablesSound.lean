import Pingsix.Session

/-!
# Soundness of the variables

The value that a condition compares against and the value that the resolvers
give for the same name. A condition looks a header up under the name as it is
written, the resolvers with dashes for its underscores.
-/

namespace Pingsix

open HttpMessage

variable {s : Session} {name : String}

/-- The resolver of the request agrees with that of the session where it knows the name. -/
theorem resolveVar_of_request {value : String} (h : resolveRequestVar s.reqHeader s.isTls name = some value) :
    resolveVar s name = value := by
  have hconnection : ∀ other ∈ ["remote_addr", "remote_port", "server_addr"],
      resolveRequestVar s.reqHeader s.isTls other = none := by
    intro other hother
    have hother : other = "remote_addr" ∨ other = "remote_port" ∨ other = "server_addr" := by simpa using hother
    obtain rfl | rfl | rfl := hother <;> rfl
  have hne : ∀ other ∈ ["remote_addr", "remote_port", "server_addr"], name ≠ other := by
    rintro other hother rfl
    rw [hconnection name hother] at h
    cases h
  have hrest : resolveVar s name = (resolveRequestVar s.reqHeader s.isTls name).getD "" := by
    unfold resolveVar
    split
    · exact absurd rfl (hne _ (by simp))
    · exact absurd rfl (hne _ (by simp))
    · exact absurd rfl (hne _ (by simp))
    · rfl
  rw [hrest, h]
  rfl

/-- The text of the first field of a name, empty when there is none. -/
def headerText (req : RequestHeader) (header : String) : String := (getReqHeaderValue req header).getD ""

theorem conditionValue_header {header : String} (h : Text.stripPrefix name "http_" = some header) :
    conditionValue s name = headerText s.reqHeader header := by
  unfold conditionValue
  rw [h]
  rfl

theorem resolveVar_header {header : String} (h : Text.stripPrefix name "http_" = some header) :
    resolveVar s name = headerText s.reqHeader (Text.replaceChar header '_' '-') := by
  refine resolveVar_of_request ?_
  have harg : Text.stripPrefix name "arg_" = none := by
    rw [Text.stripPrefix_eq_some.mp h]
    unfold Text.stripPrefix
    rw [if_neg]
    rw [Text.startsWith_iff]
    rintro ⟨rest, hrest⟩
    have hlist := congrArg String.toList hrest
    rw [String.toList_append, String.toList_append] at hlist
    exact absurd (List.cons.inj hlist).1 (by decide)
  unfold resolveRequestVar
  rw [harg, h]
  rfl

theorem conditionValue_other (h : Text.stripPrefix name "http_" = none) : conditionValue s name = resolveVar s name := by
  unfold conditionValue
  rw [h]
  rfl

/-- What a condition compares against is what the resolvers give. -/
structure ComparesResolved (s : Session) (name : String) : Prop where
  equal : ∀ value, matchApisixVars s [[name, "==", value]] = true ↔ resolveVar s name = value
  different : ∀ value, matchApisixVars s [[name, "!=", value]] = true ↔ resolveVar s name ≠ value
  request : ∀ value, resolveRequestVar s.reqHeader s.isTls name = some value →
    ∀ other, matchApisixVars s [[name, "==", other]] = true ↔ value = other

/-- A header is found under the name as it is written when it is found with dashes for the underscores. -/
def NamedAsWritten (s : Session) (name : String) : Prop :=
  ∀ header, Text.stripPrefix name "http_" = some header →
    '_' ∉ header.toList ∨ headerText s.reqHeader header = headerText s.reqHeader (Text.replaceChar header '_' '-')

theorem replaceChar_of_not_mem {text : String} {c d : Char} (h : c ∉ text.toList) : Text.replaceChar text c d = text := by
  unfold Text.replaceChar
  have hmap : text.toList.map (fun x => if x = c then d else x) = text.toList := by
    refine (List.map_congr_left fun x hx => ?_).trans (List.map_id _)
    exact if_neg fun e : x = c => h (e ▸ hx)
  rw [hmap, String.ofList_toList]

theorem conditionValue_eq_iff : conditionValue s name = resolveVar s name ↔ NamedAsWritten s name := by
  unfold NamedAsWritten
  cases hheader : Text.stripPrefix name "http_" with
  | none => exact iff_of_true (conditionValue_other hheader) nofun
  | some header =>
    rw [conditionValue_header hheader, resolveVar_header hheader]
    constructor
    · intro he other hother
      cases hother
      exact .inr he
    · intro h
      cases h header rfl with
      | inl hdash => rw [replaceChar_of_not_mem hdash]
      | inr he => exact he

theorem conditionHolds_equal (value : String) :
    matchApisixVars s [[name, "==", value]] = true ↔ conditionValue s name = value := by
  simp [matchApisixVars, conditionHolds]

theorem conditionHolds_different (value : String) :
    matchApisixVars s [[name, "!=", value]] = true ↔ conditionValue s name ≠ value := by
  simp [matchApisixVars, conditionHolds]

theorem compares_resolved_iff (s : Session) (name : String) : ComparesResolved s name ↔ NamedAsWritten s name := by
  rw [← conditionValue_eq_iff]
  constructor
  · intro h
    exact (conditionHolds_equal _).mp ((h.equal _).mpr rfl)
  · intro he
    refine ⟨fun value => ?_, fun value => ?_, fun value hv other => ?_⟩
    · rw [conditionHolds_equal, he]
    · rw [conditionHolds_different, he]
    · rw [conditionHolds_equal, he, resolveVar_of_request hv]

/-- A request with one header. -/
def taggedSession (header : String) (bytes : List UInt8) (h : bytes.all isValidByte = true) : Session where
  reqHeader :=
    { method := .get
      uri := .root
      headers := [(header, .ofBytes bytes h)] }
  clientAddr := none
  serverAddr := none
  isTls := false

theorem underscored_header_missed :
    ¬ComparesResolved (taggedSession "x-user-type" "beta".toUTF8.data.toList (by decide)) "http_x_user_type" := by
  intro h
  have hmatch := (h.equal "beta").mpr (by decide)
  exact absurd hmatch (by decide)

end Pingsix
