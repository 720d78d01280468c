import Pingsix.Lib.Shape

/-!
# Members of documents

The readers of documents by type, and members that one was taken out of.
-/

namespace Json

def isObject : Json → Bool
  | .obj _ => true
  | _ => false

def isString : Json → Bool
  | .str _ => true
  | _ => false

def isBoolean : Json → Bool
  | .bool _ => true
  | _ => false

def asU64 : Json → Option Nat
  | .num (.posInt n) => some n
  | _ => none

def removeMember (name : String) (members : List (String × Json)) : List (String × Json) :=
  members.filter fun m => m.1 ≠ name

theorem lookup_removeMember (name other : String) (members : List (String × Json)) :
    lookup (removeMember name members) other = if other = name then none else lookup members other := by
  induction members with
  | nil => simp [removeMember, lookup]
  | cons m members ih =>
    unfold removeMember at ih ⊢
    by_cases hm : m.1 = name
    · rw [List.filter_cons_of_neg (by simpa using hm), ih, lookup_cons]
      by_cases ho : other = name
      · rw [if_pos ho, if_pos ho]
      · rw [if_neg ho, if_neg ho, if_neg fun h => ho (h.symm.trans hm)]
    · rw [List.filter_cons_of_pos (by simpa using hm), lookup_cons, lookup_cons, ih]
      by_cases ho : other = name
      · rw [if_pos ho, if_pos ho, if_neg fun h => hm (h.trans ho)]
      · rw [if_neg ho, if_neg ho]

end Json
