import Mathlib.Algebra.Ring.Int.Defs
import Mathlib.Algebra.Ring.Nat
import Pingsix.Lib.Map

/-!
# JSON documents and typed reading

A document, its members, and the readers a derived deserializer is made of: a
struct is read from an object by name or from an array by position, an absent
field falls back to what its declaration says.
-/

/-- A number as the parser classifies it; a float stands for its rational value. -/
inductive Number where
  | posInt (n : Nat)
  | negInt (n : Int)
  | float (value : Rat)
  deriving DecidableEq, Repr

/-- A document; the members of an object are in key order, with distinct keys. -/
inductive Json where
  | null
  | bool (b : Bool)
  | num (n : Number)
  | str (s : String)
  | arr (items : List Json)
  | obj (members : List (String × Json))
  deriving Repr

namespace Json

/-! ## Equality -/

mutual
def beq : Json → Json → Bool
  | .null, .null => true
  | .bool a, .bool b => a == b
  | .num a, .num b => a == b
  | .str a, .str b => a == b
  | .arr a, .arr b => beqItems a b
  | .obj a, .obj b => beqMembers a b
  | _, _ => false

def beqItems : List Json → List Json → Bool
  | [], [] => true
  | a :: as, b :: bs => a.beq b && beqItems as bs
  | _, _ => false

def beqMembers : List (String × Json) → List (String × Json) → Bool
  | [], [] => true
  | (k, a) :: as, (l, b) :: bs => k == l && a.beq b && beqMembers as bs
  | _, _ => false
end

mutual
theorem beq_iff : ∀ a b : Json, a.beq b = true ↔ a = b
  | .null, b => by cases b <;> simp [beq]
  | .bool a, b => by cases b <;> simp [beq]
  | .num a, b => by cases b <;> simp [beq]
  | .str a, b => by cases b <;> simp [beq]
  | .arr a, b => by cases b <;> simp [beq, beqItems_iff a]
  | .obj a, b => by cases b <;> simp [beq, beqMembers_iff a]

theorem beqItems_iff : ∀ a b : List Json, beqItems a b = true ↔ a = b
  | [], b => by cases b <;> simp [beqItems]
  | a :: as, b => by cases b <;> simp [beqItems, beq_iff a, beqItems_iff as]

theorem beqMembers_iff : ∀ a b : List (String × Json), beqMembers a b = true ↔ a = b
  | [], b => by cases b <;> simp [beqMembers]
  | (k, a) :: as, b => by
    cases b with
    | nil => simp [beqMembers]
    | cons m bs => obtain ⟨l, b⟩ := m; simp [beqMembers, beq_iff a, beqMembers_iff as]
end

instance : DecidableEq Json := fun a b => decidable_of_iff _ (beq_iff a b)

instance : Inhabited Json := ⟨.null⟩

/-! ## Members -/

def lookup (members : List (String × Json)) (name : String) : Option Json :=
  (members.find? fun m => m.1 = name).map (·.2)

/-- Member `name` of an object. -/
def get : Json → String → Option Json
  | .obj members, name => lookup members name
  | _, _ => none

def asArray : Json → Option (List Json)
  | .arr items => some items
  | _ => none

def asStr : Json → Option String
  | .str s => some s
  | _ => none

/-- Where a member stands in key order. -/
def insertMember (name : String) (value : Json) : List (String × Json) → List (String × Json)
  | [] => [(name, value)]
  | (k, v) :: rest =>
    if k = name then (k, value) :: rest
    else if name < k then (name, value) :: (k, v) :: rest
    else (k, v) :: insertMember name value rest

/-- Change the member `name`, when it is there. -/
def modifyMember {ε : Type} (name : String) (f : Json → Except ε Json) :
    List (String × Json) → Except ε (List (String × Json))
  | [] => .ok []
  | (k, v) :: rest =>
    if k = name then do return (k, ← f v) :: rest
    else do return (k, v) :: (← modifyMember name f rest)

/-- Change every member. -/
def mapMembers {ε : Type} (f : String → Json → Except ε Json) :
    List (String × Json) → Except ε (List (String × Json))
  | [] => .ok []
  | (k, v) :: rest => do return (k, ← f k v) :: (← mapMembers f rest)

end Json

/-! ## Typed reading -/

/-- Why a value does not have the type it is read at. -/
inductive DeError where
  | malformed (message : String)
  | invalidType (unexpected : Json) (expected : String)
  | invalidValue (unexpected : Json) (expected : String)
  | invalidLength (length : Nat) (expected : String)
  | unknownVariant (variant : String) (expected : List String)
  | missingField (field : String)
  | custom (message : String)
  deriving DecidableEq, Repr

/-- A reader of values of one type. -/
abbrev De (α : Type) := Json → Except DeError α

namespace De

variable {α : Type}

def value : De Json := .ok

def string : De String
  | .str s => .ok s
  | v => .error (.invalidType v "a string")

def bool : De Bool
  | .bool b => .ok b
  | v => .error (.invalidType v "a boolean")

def unsigned (bits : Nat) : De Nat
  | .num (.posInt n) => if n < 2 ^ bits then .ok n else .error (.invalidValue (.num (.posInt n)) s!"u{bits}")
  | .num (.negInt n) => .error (.invalidValue (.num (.negInt n)) s!"u{bits}")
  | v => .error (.invalidType v s!"u{bits}")

def signed (bits : Nat) : De Int
  | .num (.posInt n) =>
    if n < 2 ^ (bits - 1) then .ok n else .error (.invalidValue (.num (.posInt n)) s!"i{bits}")
  | .num (.negInt n) =>
    if -(2 ^ (bits - 1) : Int) ≤ n then .ok n else .error (.invalidValue (.num (.negInt n)) s!"i{bits}")
  | v => .error (.invalidType v s!"i{bits}")

def option (d : De α) : De (Option α)
  | .null => .ok none
  | v => (d v).map some

def vec (d : De α) : De (List α)
  | .arr items => items.mapM d
  | v => .error (.invalidType v "a sequence")

/-- The members of an object, each read at one type. -/
def map (d : De α) : De (HashMap String α)
  | .obj members =>
    members.foldlM (fun m kv => do return AList.insert kv.1 (← d kv.2) m) ∅
  | v => .error (.invalidType v "a map")

/-- A variant without data, named by a string or by an object with one null member. -/
def unitVariant (variants : List (String × α)) : De α
  | .str s => named s
  | .obj [(s, .null)] => named s
  | .obj [(_, v)] => .error (.invalidType v "unit")
  | .obj members => .error (.invalidValue (.obj members) "map with a single key")
  | v => .error (.invalidType v "string or map")
where
  named (s : String) : Except DeError α :=
    match variants.find? (fun v => v.1 = s) with
    | some v => .ok v.2
    | none => .error (.unknownVariant s (variants.map (·.1)))

/-- What the fields of a struct are read from. -/
inductive Source where
  | byName (members : List (String × Json))
  | byPosition (items : List Json)

/-- What an absent field means. -/
inductive Absent (α : Type) where
  | required
  | optional (a : α)
  | default (a : α)

/-- The struct `name` with `count` fields. -/
def struct (name : String) (count : Nat) : De Source
  | .obj members => .ok (.byName members)
  | .arr items =>
    if count < items.length then .error (.invalidLength items.length "fewer elements in array")
    else .ok (.byPosition items)
  | v => .error (.invalidType v s!"struct {name}")

/-- An optional field may be left out of an object, not out of an array; a field with a default out of both. -/
def Source.field (src : Source) (struct : String) (index : Nat) (name : String) (d : De α) (absent : Absent α) :
    Except DeError α :=
  match src with
  | .byName members =>
    match Json.lookup members name, absent with
    | some v, _ => d v
    | none, .required => .error (.missingField name)
    | none, .optional a => .ok a
    | none, .default a => .ok a
  | .byPosition items =>
    match items[index]?, absent with
    | some v, _ => d v
    | none, .default a => .ok a
    | none, _ => .error (.invalidLength index s!"struct {struct}")

end De

/-! ## Doubles -/

namespace Double

def twoPow (e : Int) : Rat := if 0 ≤ e then ((2 ^ e.toNat : Nat) : Rat) else mkRat 1 (2 ^ (-e).toNat)

/-- The integer nearest to a non-negative rational, ties to the even one. -/
def roundHalfEven (x : Rat) : Nat :=
  let q := x.num.toNat / x.den
  let r := x.num.toNat % x.den
  if 2 * r < x.den then q else if x.den < 2 * r then q + 1 else q + q % 2

/-- The integer nearest to a non-negative rational, ties upwards. -/
def roundHalfUp (x : Rat) : Nat := (2 * x.num.toNat + x.den) / (2 * x.den)

/-- The double nearest to a non-negative rational: 53 significant bits. -/
def ofRat (x : Rat) : Rat :=
  if x = 0 then 0
  else
    let e : Int := (Nat.log2 x.num.toNat : Int) - Nat.log2 x.den
    let e := if x < twoPow e then e - 1 else e
    (roundHalfEven (x / twoPow (e - 52)) : Rat) * twoPow (e - 52)

/-- The value of a number read as a double; `none` when it is negative. -/
def ofNumber? : Number → Option Rat
  | .posInt n => some (ofRat n)
  | .negInt n => if n < 0 then none else some (ofRat n)
  | .float value => if value < 0 then none else some value

end Double
