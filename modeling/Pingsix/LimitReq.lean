import Mathlib.Algebra.Order.Field.Rat
import Pingsix.Limiting

/-!
# limit-req

The leaky-bucket limiter with rational time and amounts. `Forever` is the
limiter it stands for: the same buckets, none of which is ever given up.
-/

namespace Pingsix

namespace LimitReq

inductive KeyType where
  | var
  | varCombination
  deriving DecidableEq, Repr

/-- The validated fields that decide about a request. -/
structure PluginConfig where
  rate : ℚ
  burst : ℚ := 0
  keyType : KeyType := .var
  key : String
  nodelay : Bool := false
  rate_pos : 0 < rate
  burst_nonneg : 0 ≤ burst

structure Bucket where
  excess : ℚ
  last : ℚ
  deriving DecidableEq

/-- `Instant::duration_since`, zero when `last` is the later one. -/
def durationSince (now last : ℚ) : ℚ := max (now - last) 0

/-- The delay and the new excess; `none` when the request exceeds rate and burst. -/
def leakyBucketStep (oldExcess elapsed rate burst : ℚ) : Option (ℚ × ℚ) :=
  let excess := max (oldExcess - elapsed * rate + 1) 0
  if burst < excess then none else some (excess / rate, excess)

/-- The delay of one request, and the bucket after it; a rejected request does not change it. -/
def bucketIncoming (bucket : Bucket) (now rate burst : ℚ) : Option ℚ × Bucket :=
  match leakyBucketStep bucket.excess (durationSince now bucket.last) rate burst with
  | some (delay, excess) => (some delay, { excess, last := now })
  | none => (none, bucket)

/-- The eviction predicate of the sweep. -/
def drained (now rate : ℚ) (bucket : Bucket) : Bool :=
  decide (bucket.excess ≤ durationSince now bucket.last * rate)

structure TimedRequest where
  resolve : ResolveVar
  now : ℚ

/-- Rejected, or passed on after a sleep. -/
inductive Verdict where
  | reject
  | continue (slept : ℚ)
  deriving DecidableEq

def Verdict.accepted : Verdict → Bool
  | .reject => false
  | .continue _ => true

namespace PluginConfig

variable (config : PluginConfig)

def keyOf (r : TimedRequest) : String := apisixKey r.resolve config.key (config.keyType = .varCombination)

def verdict : Option ℚ → Verdict
  | none => .reject
  | some delay => .continue (if 0 < delay ∧ config.nodelay = false then delay else 0)

/-- What the entry the request was admitted to makes of it. -/
def incoming (now : ℚ) : Option Bucket → Option ℚ × Bucket
  | none => (some 0, { excess := 0, last := now })
  | some bucket => bucketIncoming bucket now config.rate config.burst

/-- The slot of the request's key, and the shard with it. -/
def admitKey (shard : Shard Bucket) (key : String) (now : ℚ) : String × Shard Bucket :=
  Shard.admitKey key limitReqOverflow (Shard.sweep (drained now config.rate) .restore) shard

def requestFilter (hash : String → Nat) (buckets : BoundedShardMap Bucket) (r : TimedRequest) :
    Verdict × BoundedShardMap Bucket :=
  let key := config.keyOf r
  let (slot, shard) := config.admitKey (buckets (shardIdx hash key)) key r.now
  let (delay, bucket) := config.incoming r.now (shard.entries.lookup slot)
  (config.verdict delay, Function.update buckets (shardIdx hash key) (shard.insert slot bucket))

/-- The verdicts of a sequence of requests, and the buckets after it. -/
def serve (hash : String → Nat) : BoundedShardMap Bucket → List TimedRequest → List Verdict × BoundedShardMap Bucket
  | buckets, [] => ([], buckets)
  | buckets, r :: rs =>
    let first := config.requestFilter hash buckets r
    let rest := serve hash first.2 rs
    (first.1 :: rest.1, rest.2)

/-! ## The requests on one bucket -/

/-- The verdicts of requests on one bucket, at the times they come, and the bucket after them. -/
def serveBucket : Option Bucket → List ℚ → List Verdict × Option Bucket
  | bucket, [] => ([], bucket)
  | bucket, now :: times =>
    let (delay, kept) := config.incoming now bucket
    let rest := serveBucket (some kept) times
    (config.verdict delay :: rest.1, rest.2)

/-- The times of the requests that are not rejected. -/
def acceptedTimes (bucket : Option Bucket) (times : List ℚ) : List ℚ :=
  ((times.zip (config.serveBucket bucket times).1).filter (·.2.accepted)).map Prod.fst

/-! ## Buckets that are kept forever -/

abbrev Forever := String → Option Bucket

def requestFilterForever (buckets : Forever) (r : TimedRequest) : Verdict × Forever :=
  let (delay, bucket) := config.incoming r.now (buckets (config.keyOf r))
  (config.verdict delay, Function.update buckets (config.keyOf r) (some bucket))

def serveForever : Forever → List TimedRequest → List Verdict × Forever
  | buckets, [] => ([], buckets)
  | buckets, r :: rs =>
    let first := config.requestFilterForever buckets r
    let rest := serveForever first.2 rs
    (first.1 :: rest.1, rest.2)

end PluginConfig

end LimitReq

end Pingsix
