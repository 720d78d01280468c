import Pingsix.Lib.Map
import Pingsix.Template

/-!
# Limiter shards

The bounded maps that `limit-req`, `limit-conn` and `limit-count` keep their
state in: sixteen shards, each with its entries and the order in which their
keys were last used. The tokens of `TouchOrder` only put the keys in that
order, so the order itself is kept.
-/

namespace Pingsix

universe u

def maxKeys : Nat := 4096
def limitShards : Nat := 16
def perShardMax : Nat := maxKeys / limitShards

/-- One slot of each shard is left for the overflow entry. -/
def perShardRegularMax : Nat := perShardMax - 1

def cleanupBudget : Nat := 8

def limitReqOverflow : String := "__pingsix_limit_req_overflow__"
def limitConnOverflow : String := "__pingsix_limit_conn_overflow__"
def limitCountOverflow : String := "__pingsix_limit_count_overflow__"

/-- The keys of a shard, least recently used first. -/
structure TouchOrder where
  oldest : List String := []

namespace TouchOrder

def touch (o : TouchOrder) (key : String) : TouchOrder := ⟨o.oldest.erase key ++ [key]⟩

def popOldest (o : TouchOrder) : Option (String × TouchOrder) :=
  match o.oldest with
  | [] => none
  | key :: oldest => some (key, ⟨oldest⟩)

/-- Puts a key just popped back at its place. -/
def restore (o : TouchOrder) (key : String) : TouchOrder := ⟨key :: o.oldest⟩

end TouchOrder

/-- What a sweep does with an entry it keeps. -/
inductive SweepMiss where
  | restore
  | pushBack
  deriving DecidableEq, Repr

structure Shard (V : Type u) where
  entries : HashMap String V := ∅
  touchOrder : TouchOrder := {}

namespace Shard

variable {V : Type u}

def len (s : Shard V) : Nat := s.entries.keys.length

def containsKey (s : Shard V) (key : String) : Bool := (s.entries.lookup key).isSome

def touch (s : Shard V) (key : String) : Shard V := { s with touchOrder := s.touchOrder.touch key }

def insert (s : Shard V) (key : String) (value : V) : Shard V := { s with entries := s.entries.insert key value }

def remove (s : Shard V) (key : String) : Shard V := { s with entries := s.entries.erase key }

/-- One round of a sweep; `none` when no key is left to examine. -/
def examine (evict : V → Bool) (onMiss : SweepMiss) (s : Shard V) : Option (Shard V) :=
  match s.touchOrder.popOldest with
  | none => none
  | some (key, order) =>
    let s := { s with touchOrder := order }
    if (s.entries.lookup key).all evict then some (s.remove key)
    else
      match onMiss with
      | .restore => some { s with touchOrder := order.restore key }
      | .pushBack => some (s.touch key)

def sweepUpTo (evict : V → Bool) (onMiss : SweepMiss) : Nat → Shard V → Shard V
  | 0, s => s
  | budget + 1, s =>
    match s.examine evict onMiss with
    | none => s
    | some s => sweepUpTo evict onMiss budget s

def sweep (evict : V → Bool) (onMiss : SweepMiss) (s : Shard V) : Shard V := s.sweepUpTo evict onMiss cleanupBudget

/-- An absent key finds the regular slots taken. -/
def isFullFor (s : Shard V) (newKey : Bool) : Bool := newKey && decide (perShardRegularMax ≤ s.len)

/-- Where the state of `key` is kept. -/
def storageKey (s : Shard V) (newKey : Bool) (key overflowKey : String) : String :=
  if !newKey || decide (s.len < perShardRegularMax) then key else overflowKey

/-- The slot of `key`, marked as used last. -/
def admitKey (key overflowKey : String) (sweep : Shard V → Shard V) (s : Shard V) : String × Shard V :=
  let newKey := !s.containsKey key
  let s := if s.isFullFor newKey then sweep s else s
  let slot := s.storageKey newKey key overflowKey
  (slot, s.touch slot)

end Shard

/-- The index of the shard that owns a key; `hash` is the standard library's default hasher. -/
def shardIdx (hash : String → Nat) (key : String) : Nat := hash key % limitShards

/-- The shards by their index. -/
abbrev BoundedShardMap (V : Type u) := Nat → Shard V

/-! ## Rules -/

/-- The key of one entry of `rules`; a template without a variable does not apply. -/
def resolveRuleKey (resolve : ResolveVar) (ruleKey : String) : Option String :=
  if Text.containsChar ruleKey '$' then some (renderApisixTemplate ruleKey resolve) else none

/-- The selections of all rules that apply, `none` when no rule does. -/
def selectRules {R S : Type u} (resolve : ResolveVar) (rules : List R) (ruleKey : R → String)
    (selection : Nat → R → String → S) : Option (List S) :=
  let selected := rules.zipIdx.filterMap fun p => (resolveRuleKey resolve (ruleKey p.1)).map (selection p.2 p.1)
  if selected.isEmpty then none else some selected

end Pingsix
