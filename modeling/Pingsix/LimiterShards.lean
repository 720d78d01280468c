import Pingsix.ApiBreaker
import Pingsix.Lib.MachineInt
import Pingsix.Lib.SortedMap
import Pingsix.Limiting

/-!
# Limiter shards with their tokens

The recency index of a shard as it is kept: the keys under their tokens, the
tokens under their keys, and the last token given out. `Pingsix.Shard` has the
order of the keys alone.
-/

namespace Pingsix.LimiterShards

universe u

structure TouchOrder where
  oldest : SortedMap Nat String := ∅
  touches : HashMap String Nat := ∅
  nextTouch : Nat := 0

namespace TouchOrder

/-- The next token; zero is none. -/
def nextToken (o : TouchOrder) : Nat :=
  let next := (o.nextTouch + 1) % 2 ^ 64
  if next = 0 then 1 else next

def touch (o : TouchOrder) (key : String) : TouchOrder :=
  let oldest :=
    match o.touches.lookup key with
    | some previousTouch => o.oldest.erase previousTouch
    | none => o.oldest
  let next := o.nextToken
  { oldest := oldest.insert next key
    touches := (o.touches.erase key).insert key next
    nextTouch := next }

def popOldest (o : TouchOrder) : Option ((Nat × String) × TouchOrder) :=
  o.oldest.popFirst.map fun popped => (popped.1, { o with oldest := popped.2, touches := o.touches.erase popped.1.2 })

def restore (o : TouchOrder) (touch : Nat) (key : String) : TouchOrder :=
  { o with oldest := o.oldest.insert touch key, touches := o.touches.insert key touch }

end TouchOrder

structure Shard (V : Type u) where
  entries : HashMap String V := ∅
  touchOrder : TouchOrder := {}

namespace Shard

variable {V : Type u}

def len (s : Shard V) : Nat := s.entries.keys.length

def containsKey (s : Shard V) (key : String) : Bool := (s.entries.lookup key).isSome

def touch (s : Shard V) (key : String) : Shard V := { s with touchOrder := s.touchOrder.touch key }

def insert (s : Shard V) (key : String) (value : V) : Shard V := { s with entries := s.entries.insert key value }

def remove (s : Shard V) (key : String) : Shard V := { s with entries := s.entries.erase key }

def evictOldest (s : Shard V) : Shard V :=
  match s.touchOrder.popOldest with
  | some ((_, key), touchOrder) => { s with touchOrder }.remove key
  | none => s

/-- One round of a sweep; `none` when no key is left to examine. -/
def examine (evict : V → Bool) (onMiss : SweepMiss) (s : Shard V) : Option (Shard V) :=
  match s.touchOrder.popOldest with
  | none => none
  | some ((touch, key), touchOrder) =>
    let s := { s with touchOrder }
    if (s.entries.lookup key).all evict then some (s.remove key)
    else
      match onMiss with
      | .restore => some { s with touchOrder := touchOrder.restore touch key }
      | .pushBack => some (s.touch key)

def sweepUpTo (evict : V → Bool) (onMiss : SweepMiss) : Nat → Shard V → Shard V
  | 0, s => s
  | budget + 1, s =>
    match s.examine evict onMiss with
    | none => s
    | some s => sweepUpTo evict onMiss budget s

def sweep (evict : V → Bool) (onMiss : SweepMiss) (s : Shard V) : Shard V := s.sweepUpTo evict onMiss cleanupBudget

/-- The slot of `key`, marked as used last. -/
def admitKey (key overflowKey : String) (sweep : Shard V → Shard V) (s : Shard V) : String × Shard V :=
  let newKey := !s.containsKey key
  let s := if newKey && decide (perShardRegularMax ≤ s.len) then sweep s else s
  let slot := if !newKey || decide (s.len < perShardRegularMax) then key else overflowKey
  (slot, s.touch slot)

/-- `BreakerStates::entry`, whose new keys the oldest makes room for, before the entry is taken. -/
def breakerEntry (key : String) (s : Shard V) : Shard V :=
  let s := if !s.containsKey key && decide (ApiBreaker.maxBreakerKeys ≤ s.len) then s.evictOldest else s
  s.touch key

end Shard

/-! ## Operations -/

/-- What the limiters do to a shard. The slot of an admitted key is filled or changed before the lock is released. -/
inductive LimiterOp (V : Type u) where
  | touch (key : String)
  | admitKey (key : String) (evict : V → Bool) (onMiss : SweepMiss) (change : Option V → V)
  | sweep (evict : V → Bool) (onMiss : SweepMiss)
  | evictOldest

/-- An entry of the breaker's table is taken and changed. -/
structure BreakerOp (V : Type u) where
  key : String
  change : Option V → V

namespace Shard

variable {V : Type u}

/-- The entry of a slot after its holder has changed it. -/
def fill (slot : String) (change : Option V → V) (s : Shard V) : Shard V := s.insert slot (change (s.entries.lookup slot))

/-- Only keys that have an entry are touched alone. -/
def limiterStep (overflowKey : String) (s : Shard V) : LimiterOp V → Option (Shard V)
  | .touch key => if s.containsKey key then some (s.touch key) else none
  | .admitKey key evict onMiss change =>
    let admitted := s.admitKey key overflowKey (sweep evict onMiss)
    some (admitted.2.fill admitted.1 change)
  | .sweep evict onMiss => some (s.sweep evict onMiss)
  | .evictOldest => some s.evictOldest

def breakerStep (s : Shard V) (op : BreakerOp V) : Shard V := (s.breakerEntry op.key).fill op.key op.change

end Shard

end Pingsix.LimiterShards
