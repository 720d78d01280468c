import Pingsix.Lib.Text

/-!
# HTTP messages

Methods, URIs, header values and header maps, with what their types keep out:
blanks in methods and URIs, control bytes other than the tab in header values.
-/

namespace HttpMessage

/-- Without blanks and control characters. -/
def Graphic (s : String) : Prop := ∀ c ∈ s.toList, 32 < c.toNat

instance (s : String) : Decidable (Graphic s) :=
  List.decidableBAll (fun c : Char => 32 < c.toNat) s.toList

structure Method where
  text : String
  graphic : Graphic text
  deriving DecidableEq, Repr

def Method.get : Method := ⟨"GET", by decide⟩

def Method.post : Method := ⟨"POST", by decide⟩

/-! ## URIs -/

structure Uri where
  scheme : Option String := none
  authority : Option String := none
  /-- The path as written, empty when there is none. -/
  rawPath : String
  query : Option String := none
  graphic : ∀ part ∈ scheme.toList ++ authority.toList ++ rawPath :: query.toList, Graphic part
  deriving DecidableEq, Repr

namespace Uri

def root : Uri := { rawPath := "/", graphic := by decide }

/-- The path and the query as written. -/
def data (u : Uri) : String := u.rawPath ++ (u.query.map ("?" ++ ·)).getD ""

def path (u : Uri) : String :=
  if u.data = "" ∧ u.scheme = none then "" else if u.rawPath = "" then "/" else u.rawPath

def pathAndQuery (u : Uri) : Option String :=
  if u.scheme.isSome ∨ u.authority = none then some (if u.data = "" then "/" else u.data) else none

/-- The host of an authority: without the user before the last `@` and the port, in brackets when it was. -/
def hostOf (authority : String) : String :=
  let hostPort := Text.lastSegment authority '@'
  if Text.startsWith hostPort "[" then
    match Text.splitOnce hostPort ']' with
    | some (before, _) => before ++ "]"
    | none => hostPort
  else String.ofList (hostPort.toList.takeWhile (· ≠ ':'))

def host (u : Uri) : Option String := u.authority.map hostOf

def display (u : Uri) : String :=
  (u.scheme.map (· ++ "://")).getD "" ++ u.authority.getD "" ++ u.path ++ (u.query.map ("?" ++ ·)).getD ""

/-- The URI of a path that starts with a slash, up to a first question mark, and a query. -/
def ofPathAndQuery (text : String) : Option Uri :=
  if h : Text.startsWith text "/" ∧ Graphic text then
    some {
      rawPath := String.ofList (text.toList.takeWhile (· ≠ '?'))
      query :=
        match text.toList.dropWhile (· ≠ '?') with
        | [] => none
        | _ :: query => some (String.ofList query)
      graphic := by
        intro part hp
        have hall : ∀ cs : List Char, cs ⊆ text.toList → Graphic (String.ofList cs) := by
          intro cs hs c hc
          rw [String.toList_ofList] at hc
          exact h.2 c (hs hc)
        simp only [Option.toList_none, List.nil_append, List.mem_cons] at hp
        cases hp with
        | inl hp =>
          subst hp
          exact hall _ (List.takeWhile_sublist _).subset
        | inr hp =>
          split at hp
          · cases hp
          · rename_i q rest hd
            rw [Option.toList_some, List.mem_singleton] at hp
            subst hp
            refine hall _ fun c hc => (List.dropWhile_sublist (p := (· ≠ '?'))).subset ?_
            rw [hd]
            exact List.mem_cons_of_mem _ hc }
  else none

end Uri

/-! ## Headers -/

def isValidByte (b : UInt8) : Bool := (32 ≤ b && b ≠ 127) || b == 9

def isVisibleAscii (b : UInt8) : Bool := (32 ≤ b && b < 127) || b == 9

structure HeaderValue where
  bytes : List UInt8
  valid : ∀ b ∈ bytes, isValidByte b = true
  deriving DecidableEq, Repr

namespace HeaderValue

/-- The text of a value of visible characters and tabs. -/
def toStr (v : HeaderValue) : Option String :=
  if v.bytes.all isVisibleAscii then some (String.ofList (v.bytes.map fun b => Char.ofNat b.toNat)) else none

def ofBytes (bytes : List UInt8) (h : bytes.all isValidByte = true) : HeaderValue := ⟨bytes, List.all_eq_true.mp h⟩

instance decidableValidBytes (bytes : List UInt8) : Decidable (∀ b ∈ bytes, isValidByte b = true) :=
  List.decidableBAll (fun b => isValidByte b = true) bytes

def ofString (s : String) : Option HeaderValue :=
  if h : ∀ b ∈ s.toUTF8.data.toList, isValidByte b = true then some ⟨s.toUTF8.data.toList, h⟩ else none

end HeaderValue

/-- Names in lower case, with their values in the order they came. -/
abbrev HeaderMap := List (String × HeaderValue)

namespace HeaderMap

def getAll (m : HeaderMap) (name : String) : List HeaderValue :=
  (m.filter fun entry => entry.1 = Text.toAsciiLowercase name).map (·.2)

def get (m : HeaderMap) (name : String) : Option HeaderValue := (getAll m name).head?

def containsKey (m : HeaderMap) (name : String) : Bool := (getAll m name) ≠ []

def remove (m : HeaderMap) (name : String) : HeaderMap := m.filter fun entry => entry.1 ≠ Text.toAsciiLowercase name

def append (m : HeaderMap) (name : String) (value : HeaderValue) : HeaderMap := m ++ [(Text.toAsciiLowercase name, value)]

def insert (m : HeaderMap) (name : String) (value : HeaderValue) : HeaderMap := append (remove m name) name value

end HeaderMap

structure RequestHeader where
  method : Method
  uri : Uri
  headers : HeaderMap
  deriving DecidableEq, Repr

/-! ## What the types keep out -/

/-- Without control characters other than the tab. -/
def Printable (s : String) : Prop := ∀ c ∈ s.toList, 32 ≤ c.toNat ∨ c = '\t'

theorem Graphic.printable {s : String} (h : Graphic s) : Printable s := fun c hc => .inl (Nat.le_of_lt (h c hc))

theorem Graphic.no_space {s : String} (h : Graphic s) : ' ' ∉ s.toList := fun hc => by
  have := h ' ' hc
  simp at this

theorem Printable.of_subset {s t : String} (hs : s.toList ⊆ t.toList) (ht : Printable t) : Printable s :=
  fun c hc => ht c (hs hc)

theorem printable_empty : Printable "" := fun c hc => by simp at hc

theorem Printable.no_newline {s : String} (h : Printable s) : '\n' ∉ s.toList := fun hc => by
  cases h '\n' hc with
  | inl h => simp at h
  | inr h => cases h

theorem Printable.no_nul {s : String} (h : Printable s) {c : Char} (hc : c ∈ s.toList) : c.toNat ≠ 0 := by
  cases h c hc with
  | inl h => omega
  | inr h => rw [h]; decide

theorem toNat_ofNat_byte (b : UInt8) : (Char.ofNat b.toNat).toNat = b.toNat := by
  have hv : b.toNat.isValidChar := .inl (by have := b.toNat_lt; omega)
  unfold Char.ofNat
  rw [dif_pos hv]
  rfl

theorem HeaderValue.printable {v : HeaderValue} {s : String} (h : v.toStr = some s) : Printable s := by
  unfold HeaderValue.toStr at h
  split at h
  · rename_i hv
    cases h
    intro c hc
    rw [String.toList_ofList] at hc
    obtain ⟨b, hb, rfl⟩ := List.mem_map.mp hc
    have hvis := List.all_eq_true.mp hv b hb
    unfold isVisibleAscii at hvis
    rw [Bool.or_eq_true, Bool.and_eq_true] at hvis
    cases hvis with
    | inl hvis =>
      have hle : (32 : UInt8) ≤ b := by simpa using hvis.1
      rw [toNat_ofNat_byte]
      exact .inl (UInt8.le_iff_toNat_le.mp hle)
    | inr hvis =>
      rw [eq_of_beq hvis]
      exact .inr rfl
  · cases h

theorem HeaderValue.zero_not_mem (v : HeaderValue) : 0 ∉ v.bytes := fun h => absurd (v.valid 0 h) (by decide)

end HttpMessage
