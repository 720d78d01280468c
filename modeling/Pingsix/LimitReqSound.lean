import Mathlib.Tactic.Linarith
import Pingsix.LimitReq
import Pingsix.LimitingSound

/-!
# Eviction and the verdicts of limit-req

A bucket that was evicted answers the next request of its key like a fresh
one. The bucket that is kept would add the request to what is left in it, so
the two agree when the time since its last accepted request drains one request
more than its excess, while a sweep asks for the excess only.
-/

namespace Pingsix

namespace LimitReq

namespace PluginConfig

variable {config : PluginConfig} {hash : String → Nat}

/-- No request of the sequence goes to the overflow entry. -/
def Fits (config : PluginConfig) (hash : String → Nat) : BoundedShardMap Bucket → List TimedRequest → Prop
  | _, [] => True
  | buckets, r :: rs =>
    (config.admitKey (buckets (shardIdx hash (config.keyOf r))) (config.keyOf r) r.now).1 = config.keyOf r ∧
      Fits config hash (config.requestFilter hash buckets r).2 rs

/-- Every request whose bucket was evicted comes after the bucket, had it been kept, drained one request more than
its excess. -/
def Rested (config : PluginConfig) (hash : String → Nat) :
    BoundedShardMap Bucket → Forever → List TimedRequest → Prop
  | _, _, [] => True
  | buckets, kept, r :: rs =>
    (∀ bucket, (buckets (shardIdx hash (config.keyOf r))).containsKey (config.keyOf r) = false →
      kept (config.keyOf r) = some bucket →
      bucket.excess + 1 ≤ durationSince r.now bucket.last * config.rate) ∧
      Rested config hash (config.requestFilter hash buckets r).2 (config.requestFilterForever kept r).2 rs

/-- The buckets in the shards are those that would have been kept. -/
def Agree (hash : String → Nat) (buckets : BoundedShardMap Bucket) (kept : Forever) : Prop :=
  ∀ key bucket, (buckets (shardIdx hash key)).entries.lookup key = some bucket → kept key = some bucket

theorem agree_empty (hash : String → Nat) : Agree hash (fun _ => {}) (fun _ => none) := by
  intro key bucket h
  cases h

/-! ## One request -/

/-- Rested, a kept bucket answers like a fresh one. -/
theorem incoming_rested {bucket : Bucket} {now : ℚ}
    (h : bucket.excess + 1 ≤ durationSince now bucket.last * config.rate) :
    config.incoming now (some bucket) = config.incoming now none := by
  have he : max (bucket.excess - durationSince now bucket.last * config.rate + 1) 0 = 0 :=
    max_eq_right (by linarith)
  simp only [incoming, bucketIncoming, leakyBucketStep, he, if_neg (not_lt.mpr config.burst_nonneg), zero_div]

/-- Not rested, it rejects the request or delays it. -/
theorem verdict_not_rested (hn : config.nodelay = false) {bucket : Bucket} {now : ℚ}
    (h : ¬ bucket.excess + 1 ≤ durationSince now bucket.last * config.rate) :
    config.verdict (config.incoming now (some bucket)).1 ≠ config.verdict (config.incoming now none).1 := by
  have hpos : 0 < bucket.excess - durationSince now bucket.last * config.rate + 1 := by linarith
  have he := max_eq_left (le_of_lt hpos)
  have hfresh : config.verdict (config.incoming now none).1 = .continue 0 := by
    simp [incoming, verdict]
  rw [hfresh]
  simp only [incoming, bucketIncoming, leakyBucketStep, he]
  by_cases hb : config.burst < bucket.excess - durationSince now bucket.last * config.rate + 1
  · rw [if_pos hb]
    intro hv
    cases hv
  · rw [if_neg hb]
    have hd := div_pos hpos config.rate_pos
    simp only [verdict, hd, hn, and_self, if_true]
    intro hv
    rw [Verdict.continue.injEq] at hv
    exact ne_of_gt hd hv

/-- The bucket the request finds, when it has a slot of its own, and what is left of the others. -/
theorem admit_lookup {buckets : BoundedShardMap Bucket} {r : TimedRequest} :
    (config.admitKey (buckets (shardIdx hash (config.keyOf r))) (config.keyOf r) r.now).2.entries.lookup
      (config.keyOf r) = (buckets (shardIdx hash (config.keyOf r))).entries.lookup (config.keyOf r) := by
  unfold admitKey at *
  by_cases hc : (buckets (shardIdx hash (config.keyOf r))).containsKey (config.keyOf r) = true
  · rw [Shard.admit_present hc]
    rfl
  · rw [Bool.not_eq_true, Shard.containsKey_eq_false] at hc
    rw [hc]
    exact (Shard.swept_admit _ _ _ _ _ _).absent hc

/-- A request in a slot of its own. -/
theorem requestFilter_own {buckets : BoundedShardMap Bucket} {r : TimedRequest}
    (hfit : (config.admitKey (buckets (shardIdx hash (config.keyOf r))) (config.keyOf r) r.now).1 = config.keyOf r) :
    config.requestFilter hash buckets r =
      (config.verdict (config.incoming r.now
        ((buckets (shardIdx hash (config.keyOf r))).entries.lookup (config.keyOf r))).1,
      Function.update buckets (shardIdx hash (config.keyOf r))
        ((config.admitKey (buckets (shardIdx hash (config.keyOf r))) (config.keyOf r) r.now).2.insert (config.keyOf r)
          (config.incoming r.now
            ((buckets (shardIdx hash (config.keyOf r))).entries.lookup (config.keyOf r))).2)) := by
  have hl := @admit_lookup config hash buckets r
  unfold requestFilter
  simp only
  rw [hfit, hl]

/-- What is kept of each key after such a request. -/
theorem lookup_requestFilter {buckets : BoundedShardMap Bucket} {r : TimedRequest}
    (hfit : (config.admitKey (buckets (shardIdx hash (config.keyOf r))) (config.keyOf r) r.now).1 = config.keyOf r)
    {key : String} {bucket : Bucket}
    (h : ((config.requestFilter hash buckets r).2 (shardIdx hash key)).entries.lookup key = some bucket) :
    if key = config.keyOf r then
      bucket = (config.incoming r.now
        ((buckets (shardIdx hash (config.keyOf r))).entries.lookup (config.keyOf r))).2
    else (buckets (shardIdx hash key)).entries.lookup key = some bucket := by
  rw [requestFilter_own hfit] at h
  simp only at h
  by_cases hi : shardIdx hash key = shardIdx hash (config.keyOf r)
  · rw [hi, Function.update_self, Shard.lookup_insert] at h
    by_cases hk : key = config.keyOf r
    · rw [if_pos hk, Option.some.injEq] at h
      rw [if_pos hk, h]
    · rw [if_neg hk] at h ⊢
      rw [hi]
      exact (Shard.swept_admit _ _ _ _ _ _).present h
  · have hk : key ≠ config.keyOf r := fun hk => hi (by rw [hk])
    rw [if_neg hk]
    rw [Function.update_of_ne hi] at h
    exact h

theorem lookup_requestFilterForever (kept : Forever) (r : TimedRequest) (key : String) :
    (config.requestFilterForever kept r).2 key =
      if key = config.keyOf r then some (config.incoming r.now (kept (config.keyOf r))).2 else kept key := by
  unfold requestFilterForever
  by_cases hk : key = config.keyOf r
  · rw [if_pos hk, hk]
    exact Function.update_self _ _ _
  · rw [if_neg hk]
    exact Function.update_of_ne hk _ _

/-- The condition of one request. -/
def RestedOne (config : PluginConfig) (hash : String → Nat) (buckets : BoundedShardMap Bucket) (kept : Forever)
    (r : TimedRequest) : Prop :=
  ∀ bucket, (buckets (shardIdx hash (config.keyOf r))).containsKey (config.keyOf r) = false →
    kept (config.keyOf r) = some bucket → bucket.excess + 1 ≤ durationSince r.now bucket.last * config.rate

/-- A request that meets the condition is answered alike, and alike buckets are left. -/
theorem incoming_alike {buckets : BoundedShardMap Bucket} {kept : Forever} {r : TimedRequest}
    (ha : Agree hash buckets kept) (hr : RestedOne config hash buckets kept r) :
    config.incoming r.now ((buckets (shardIdx hash (config.keyOf r))).entries.lookup (config.keyOf r)) =
      config.incoming r.now (kept (config.keyOf r)) := by
  cases hl : (buckets (shardIdx hash (config.keyOf r))).entries.lookup (config.keyOf r) with
  | some bucket => rw [ha _ _ hl]
  | none =>
    cases hk : kept (config.keyOf r) with
    | none => rfl
    | some bucket => exact (incoming_rested (hr bucket (Shard.containsKey_eq_false.mpr hl) hk)).symm

theorem agree_step {buckets : BoundedShardMap Bucket} {kept : Forever} {r : TimedRequest}
    (ha : Agree hash buckets kept)
    (hfit : (config.admitKey (buckets (shardIdx hash (config.keyOf r))) (config.keyOf r) r.now).1 = config.keyOf r)
    (hr : RestedOne config hash buckets kept r) :
    Agree hash (config.requestFilter hash buckets r).2 (config.requestFilterForever kept r).2 := by
  intro key bucket h
  have h := lookup_requestFilter hfit h
  rw [lookup_requestFilterForever]
  by_cases hk : key = config.keyOf r
  · rw [if_pos hk] at h ⊢
    rw [h, incoming_alike ha hr]
  · rw [if_neg hk] at h ⊢
    exact ha key bucket h

/-! ## A sequence of requests -/

/-- Rested requests are answered as if every bucket had been kept. -/
theorem serve_eq {rs : List TimedRequest} {buckets : BoundedShardMap Bucket} {kept : Forever}
    (ha : Agree hash buckets kept) (hfit : Fits config hash buckets rs) (hr : Rested config hash buckets kept rs) :
    (config.serve hash buckets rs).1 = (config.serveForever kept rs).1 := by
  induction rs generalizing buckets kept with
  | nil => rfl
  | cons r rs ih =>
    have hv : (config.requestFilter hash buckets r).1 = (config.requestFilterForever kept r).1 := by
      rw [requestFilter_own hfit.1, incoming_alike ha hr.1]
      rfl
    simp only [serve, serveForever, hv, ih (agree_step ha hfit.1 hr.1) hfit.2 hr.2]

/-- A delaying limiter answers some request differently when one was not rested. -/
theorem rested_of_serve_eq (hn : config.nodelay = false) {rs : List TimedRequest} {buckets : BoundedShardMap Bucket}
    {kept : Forever} (ha : Agree hash buckets kept) (hfit : Fits config hash buckets rs)
    (h : (config.serve hash buckets rs).1 = (config.serveForever kept rs).1) :
    Rested config hash buckets kept rs := by
  induction rs generalizing buckets kept with
  | nil => trivial
  | cons r rs ih =>
    simp only [serve, serveForever, List.cons.injEq] at h
    have hr : RestedOne config hash buckets kept r := by
      intro bucket hc hk
      by_contra hnot
      have hv := h.1
      rw [requestFilter_own hfit.1, Shard.containsKey_eq_false.mp hc] at hv
      simp only at hv
      refine verdict_not_rested hn hnot ?_
      rw [hv]
      unfold requestFilterForever
      simp only [hk]
    exact ⟨hr, ih (agree_step ha hfit.1 hr) hfit.2 h.2⟩

/-- One request a second, none delayed. -/
def onePerSecond : PluginConfig where
  rate := 1
  key := "remote_addr"
  rate_pos := by decide
  burst_nonneg := le_refl _

/-- A request of the key at instant zero. -/
def requestOf (key : String) : TimedRequest := { resolve := fun _ => key, now := 0 }

theorem keyOf_requestOf (key : String) : onePerSecond.keyOf (requestOf key) = key := by
  have h : onePerSecond.keyOf (requestOf key) = if key = "" then key else key := rfl
  rw [h]
  by_cases hk : key = ""
  · rw [if_pos hk]
  · rw [if_neg hk]

/-- Sweeping is transparent to a sequence of requests if, and for a delaying limiter only if, every request whose
bucket was evicted comes after a rest of one request more than the excess. -/
theorem sweep_transparent_iff (config : PluginConfig) (hash : String → Nat) (rs : List TimedRequest)
    (hfit : Fits config hash (fun _ => {}) rs) :
    (Rested config hash (fun _ => {}) (fun _ => none) rs →
      (config.serve hash (fun _ => {}) rs).1 = (config.serveForever (fun _ => none) rs).1) ∧
    (config.nodelay = false → (config.serve hash (fun _ => {}) rs).1 = (config.serveForever (fun _ => none) rs).1 →
      Rested config hash (fun _ => {}) (fun _ => none) rs) :=
  ⟨serve_eq (agree_empty hash) hfit, fun hn => rested_of_serve_eq hn (agree_empty hash) hfit⟩

theorem sweep_transparent_twice :
    (onePerSecond.serve (fun _ => 0) (fun _ => {}) [requestOf "10.0.0.1", requestOf "10.0.0.1"]).1 =
      (onePerSecond.serveForever (fun _ => none) [requestOf "10.0.0.1", requestOf "10.0.0.1"]).1 := by
  refine (sweep_transparent_iff onePerSecond (fun _ => 0) [requestOf "10.0.0.1", requestOf "10.0.0.1"]
    ⟨rfl, rfl, trivial⟩).1 ⟨fun _ _ h => ?_, fun _ h => ?_, trivial⟩
  · cases h
  · cases h

/-- A key of the shard that has no entry fits while the keys are few. -/
theorem admit_few {shard : Shard Bucket} {keys : List String} {key : String} {now : ℚ} (hkey : key ∈ keys)
    (hfew : ∀ l : List String, l.Nodup → (∀ k ∈ l, k ∈ keys) → l.length ≤ perShardRegularMax)
    (hin : ∀ k, shard.containsKey k = true → k ∈ keys) : config.admitKey shard key now = (key, shard.touch key) := by
  unfold admitKey
  by_cases hc : shard.containsKey key = true
  · exact Shard.admit_present hc
  · rw [Bool.not_eq_true] at hc
    have hnot : key ∉ shard.entries.keys := AList.lookup_eq_none.mp (Shard.containsKey_eq_false.mp hc)
    have hlen : shard.len < perShardRegularMax := by
      have h := hfew (key :: shard.entries.keys) (List.nodup_cons.mpr ⟨hnot, shard.entries.nodupKeys⟩) ?_
      · exact h
      intro k hk
      rcases List.mem_cons.mp hk with rfl | hk
      · exact hkey
      · refine hin k ?_
        unfold Shard.containsKey
        rw [Option.isSome_iff_ne_none]
        exact fun hn => AList.lookup_eq_none.mp hn hk
    simp [Shard.admitKey, hc, Shard.isFullFor, Shard.storageKey, hlen, not_le.mpr hlen]

/-- With no more keys in a shard than it has regular slots nothing is ever evicted. -/
theorem rested_of_few {keys : Nat → List String} {rs : List TimedRequest} {buckets : BoundedShardMap Bucket}
    {kept : Forever}
    (hfew : ∀ i, ∀ l : List String, l.Nodup → (∀ k ∈ l, k ∈ keys i) → l.length ≤ perShardRegularMax)
    (hrs : ∀ r ∈ rs, config.keyOf r ∈ keys (shardIdx hash (config.keyOf r)))
    (hin : ∀ i k, (buckets i).containsKey k = true → k ∈ keys i)
    (hkept : ∀ k bucket, kept k = some bucket → (buckets (shardIdx hash k)).containsKey k = true) :
    Fits config hash buckets rs ∧ Rested config hash buckets kept rs := by
  induction rs generalizing buckets kept with
  | nil => exact ⟨trivial, trivial⟩
  | cons r rs ih =>
    have ha : config.admitKey (buckets (shardIdx hash (config.keyOf r))) (config.keyOf r) r.now =
        (config.keyOf r, (buckets (shardIdx hash (config.keyOf r))).touch (config.keyOf r)) :=
      admit_few (hrs r List.mem_cons_self) (hfew _) (hin _)
    have hfit := congrArg Prod.fst ha
    have hcontains : ∀ i k, ((config.requestFilter hash buckets r).2 i).containsKey k = true ↔
        (i = shardIdx hash (config.keyOf r) ∧ k = config.keyOf r) ∨ (buckets i).containsKey k = true := by
      intro i k
      rw [requestFilter_own hfit, ha]
      simp only
      by_cases hi : i = shardIdx hash (config.keyOf r)
      · rw [hi, Function.update_self]
        unfold Shard.containsKey
        rw [Shard.lookup_insert]
        by_cases hk : k = config.keyOf r
        · simp [hk]
        · simp [hk]
      · rw [Function.update_of_ne hi]
        simp [hi]
    have hrest := @ih (config.requestFilter hash buckets r).2 (config.requestFilterForever kept r).2
      (fun r' hr' => hrs r' (List.mem_cons_of_mem _ hr')) ?_ ?_
    · refine ⟨⟨hfit, hrest.1⟩, ?_, hrest.2⟩
      intro bucket hc hk
      rw [hkept _ _ hk] at hc
      cases hc
    · intro i k hc
      rcases (hcontains i k).mp hc with ⟨rfl, rfl⟩ | hc
      · exact hrs r List.mem_cons_self
      · exact hin i k hc
    · intro k bucket hk
      rw [lookup_requestFilterForever] at hk
      by_cases he : k = config.keyOf r
      · exact (hcontains _ k).mpr (.inl ⟨by rw [he], he⟩)
      · rw [if_neg he] at hk
        exact (hcontains _ k).mpr (.inr (hkept k bucket hk))

/-- While no shard has more keys than regular slots the verdicts are those of buckets kept forever. -/
theorem few_keys_transparent (rs : List TimedRequest)
    (hfew : ∀ i, ∀ l : List String, l.Nodup →
      (∀ k ∈ l, ∃ r ∈ rs, config.keyOf r = k ∧ shardIdx hash k = i) → l.length ≤ perShardRegularMax) :
    (config.serve hash (fun _ => {}) rs).1 = (config.serveForever (fun _ => none) rs).1 := by
  let keys : Nat → List String := fun i => (rs.map config.keyOf).filter fun k => shardIdx hash k = i
  have hmem : ∀ {i k}, k ∈ keys i → ∃ r ∈ rs, config.keyOf r = k ∧ shardIdx hash k = i := by
    intro i k hk
    obtain ⟨hk, hi⟩ := List.mem_filter.mp hk
    obtain ⟨r, hr, hkr⟩ := List.mem_map.mp hk
    exact ⟨r, hr, hkr, by simpa using hi⟩
  have hrs : ∀ r ∈ rs, config.keyOf r ∈ keys (shardIdx hash (config.keyOf r)) :=
    fun r hr => List.mem_filter.mpr ⟨List.mem_map_of_mem hr, by simp⟩
  obtain ⟨hfit, hrested⟩ := @rested_of_few config hash keys rs (fun _ => {}) (fun _ => none)
    (fun i l hl hk => hfew i l hl fun k hkl => hmem (hk k hkl)) hrs
    (fun i k hc => by cases hc) (fun k bucket hk => by cases hk)
  exact serve_eq (agree_empty hash) hfit hrested

theorem serve_append (buckets : BoundedShardMap Bucket) (xs ys : List TimedRequest) :
    config.serve hash buckets (xs ++ ys) = ((config.serve hash buckets xs).1 ++
      (config.serve hash (config.serve hash buckets xs).2 ys).1,
      (config.serve hash (config.serve hash buckets xs).2 ys).2) := by
  induction xs generalizing buckets with
  | nil => rfl
  | cons r xs ih => simp only [List.cons_append, serve, ih]

theorem serveForever_append (kept : Forever) (xs ys : List TimedRequest) :
    config.serveForever kept (xs ++ ys) = ((config.serveForever kept xs).1 ++
      (config.serveForever (config.serveForever kept xs).2 ys).1,
      (config.serveForever (config.serveForever kept xs).2 ys).2) := by
  induction xs generalizing kept with
  | nil => rfl
  | cons r xs ih => simp only [List.cons_append, serveForever, ih]

theorem fits_append (buckets : BoundedShardMap Bucket) (xs ys : List TimedRequest) :
    Fits config hash buckets (xs ++ ys) ↔
      Fits config hash buckets xs ∧ Fits config hash (config.serve hash buckets xs).2 ys := by
  induction xs generalizing buckets with
  | nil => simp [Fits, serve]
  | cons r xs ih => simp only [List.cons_append, Fits, serve, ih, and_assoc]

theorem length_serve (buckets : BoundedShardMap Bucket) (rs : List TimedRequest) :
    (config.serve hash buckets rs).1.length = rs.length := by
  induction rs generalizing buckets with
  | nil => rfl
  | cons r rs ih => simp [serve, ih]

theorem length_serveForever (kept : Forever) (rs : List TimedRequest) :
    (config.serveForever kept rs).1.length = rs.length := by
  induction rs generalizing kept with
  | nil => rfl
  | cons r rs ih => simp [serveForever, ih]

/-! ## A bucket evicted at its own instant -/

section

variable (e : Nat → String) (i : Nat)

/-- One request of each of the first `n` keys. -/
def firstRequests (n : Nat) : List TimedRequest := (List.range n).map fun j => requestOf (e j)

theorem firstRequests_succ (n : Nat) : firstRequests e (n + 1) = firstRequests e n ++ [requestOf (e n)] := by
  simp [firstRequests, List.range_succ]

variable {e i} (he : Function.Injective e) (hi : ∀ n, shardIdx hash (e n) = i ∧ e n ≠ limitReqOverflow)
include he

theorem forever_first (n : Nat) :
    (onePerSecond.serveForever (fun _ => none) (firstRequests e (n + 1))).2 (e 0) =
      some { excess := 0, last := 0 } := by
  induction n with
  | zero =>
    rw [firstRequests_succ, serveForever_append]
    simp only [serveForever]
    rw [lookup_requestFilterForever, keyOf_requestOf, if_pos rfl]
    rfl
  | succ n ih =>
    rw [firstRequests_succ, serveForever_append]
    simp only [serveForever]
    rw [lookup_requestFilterForever, keyOf_requestOf, if_neg fun h => Nat.succ_ne_zero n (he h).symm]
    exact ih

include hi

omit he in
/-- A request of a key that has no entry and finds room. -/
theorem requestFilter_room {buckets : BoundedShardMap Bucket} {shard : Shard Bucket} {n : Nat}
    (ha : onePerSecond.admitKey (buckets i) (e n) 0 = (e n, shard.touch (e n)))
    (hl : (buckets i).entries.lookup (e n) = none) :
    onePerSecond.requestFilter hash buckets (requestOf (e n)) =
      (.continue 0, Function.update buckets i ((shard.touch (e n)).insert (e n) { excess := 0, last := 0 })) ∧
    (onePerSecond.admitKey (buckets (shardIdx hash (onePerSecond.keyOf (requestOf (e n)))))
      (onePerSecond.keyOf (requestOf (e n))) (requestOf (e n)).now).1 = onePerSecond.keyOf (requestOf (e n)) := by
  have hfit : (onePerSecond.admitKey (buckets (shardIdx hash (onePerSecond.keyOf (requestOf (e n)))))
      (onePerSecond.keyOf (requestOf (e n))) (requestOf (e n)).now).1 = onePerSecond.keyOf (requestOf (e n)) := by
    rw [keyOf_requestOf, (hi n).1]
    exact congrArg Prod.fst ha
  refine ⟨?_, hfit⟩
  rw [requestFilter_own hfit]
  rw [keyOf_requestOf, (hi n).1, hl, show (requestOf (e n)).now = 0 from rfl, ha]
  simp [incoming, verdict]

theorem serve_first (n : Nat) (hn : n ≤ perShardRegularMax) :
    (onePerSecond.serve hash (fun _ => {}) (firstRequests e n)).2 =
      Function.update (fun _ => {}) i (Shard.filled e (fun _ => { excess := 0, last := 0 }) n) ∧
    Fits onePerSecond hash (fun _ => {}) (firstRequests e n) := by
  induction n with
  | zero => exact ⟨(Function.update_eq_self i (fun _ => ({} : Shard Bucket))).symm, trivial⟩
  | succ n ih =>
    obtain ⟨hserve, hfit⟩ := ih (by omega)
    have hc : (onePerSecond.serve hash (fun _ => {}) (firstRequests e n)).2 i =
        Shard.filled e (fun _ => { excess := 0, last := 0 }) n := by
      rw [hserve]
      exact Function.update_self i _ (fun _ : Nat => ({} : Shard Bucket))
    have habsent : (Shard.filled e (fun _ => ({ excess := 0, last := 0 } : Bucket)) n).entries.lookup (e n) =
        none := by
      rw [Shard.lookup_filled he, if_neg (lt_irrefl n)]
    have hlen : ¬ perShardRegularMax ≤ (Shard.filled e (fun _ => ({ excess := 0, last := 0 } : Bucket)) n).len := by
      rw [Shard.len_filled he]
      exact not_le.mpr hn
    have ha : onePerSecond.admitKey ((onePerSecond.serve hash (fun _ => {}) (firstRequests e n)).2 i) (e n) 0 =
        (e n, (Shard.filled e (fun _ => { excess := 0, last := 0 }) n).touch (e n)) := by
      rw [hc]
      simp [admitKey, Shard.admitKey, Shard.isFullFor, Shard.storageKey, hlen, not_le.mp hlen]
    have hroom := requestFilter_room hi ha (by rw [hc]; exact habsent)
    constructor
    · rw [firstRequests_succ, serve_append]
      simp only [serve]
      rw [hroom.1, hserve, Function.update_idem]
      rfl
    · rw [firstRequests_succ, fits_append]
      exact ⟨hfit, hroom.2, trivial⟩

omit hi in
/-- A sweep at instant zero takes the two oldest of the buckets, all of which are drained. -/
theorem sweep_filled (k : Nat) :
    (((Shard.filled e (fun _ => ({ excess := 0, last := 0 } : Bucket)) (2 + k)).sweep
      (drained 0 onePerSecond.rate) .restore).len ≤ k) ∧
    ((Shard.filled e (fun _ => ({ excess := 0, last := 0 } : Bucket)) (2 + k)).sweep
      (drained 0 onePerSecond.rate) .restore).entries.lookup (e 0) = none := by
  generalize hs : Shard.filled e (fun _ => ({ excess := 0, last := 0 } : Bucket)) (2 + k) = s
  have hdrained : drained 0 onePerSecond.rate { excess := 0, last := 0 } = true := by
    simp [drained, durationSince]
  have hlookup : ∀ j, j < 2 + k → s.entries.lookup (e j) = some { excess := 0, last := 0 } := by
    intro j hj
    rw [← hs, Shard.lookup_filled he, if_pos hj]
  have horder : s.touchOrder.oldest = e 0 :: e 1 :: (List.range k).map fun j => e (2 + j) := by
    rw [← hs, Shard.oldest_filled he, List.range_add, List.map_append, List.map_map]
    rfl
  have hne : e 1 ≠ e 0 := fun h => Nat.one_ne_zero (he h)
  have h0 : (s.entries.lookup (e 0)).all (drained 0 onePerSecond.rate) = true := by
    rw [hlookup 0 (by omega)]
    exact hdrained
  have h1 : ((s.remove (e 0)).entries.lookup (e 1)).all (drained 0 onePerSecond.rate) = true := by
    rw [Shard.lookup_remove, if_neg hne, hlookup 1 (by omega)]
    exact hdrained
  have hsweep : s.sweep (drained 0 onePerSecond.rate) .restore =
      ({ entries := ((s.remove (e 0)).remove (e 1)).entries
         touchOrder := ⟨(List.range k).map fun j => e (2 + j)⟩ } : Shard Bucket).sweepUpTo
        (drained 0 onePerSecond.rate) .restore 6 := by
    unfold Shard.sweep cleanupBudget
    rw [Shard.sweepUpTo_evict horder h0 7]
    exact Shard.sweepUpTo_evict (s := { entries := s.entries.erase (e 0), touchOrder := ⟨e 1 :: _⟩ }) rfl h1 6
  have hgone : ((s.remove (e 0)).remove (e 1)).entries.lookup (e 0) = none := by
    rw [Shard.lookup_remove, if_neg hne.symm, Shard.lookup_remove, if_pos rfl]
  have hlen : ((s.remove (e 0)).remove (e 1)).len = k := by
    have hl0 := Shard.len_remove_present (hlookup 0 (by omega))
    have hl1 := @Shard.len_remove_present _ (s.remove (e 0)) (e 1) _
      (by rw [Shard.lookup_remove, if_neg hne]; exact hlookup 1 (by omega))
    have hn : s.len = 2 + k := by rw [← hs, Shard.len_filled he]
    omega
  rw [hsweep]
  refine ⟨le_trans (Shard.len_sweepUpTo_le _ _ _ _) (le_of_eq hlen), ?_⟩
  exact (Shard.swept_sweepUpTo _ _ _ _ _).absent hgone

theorem evicted_while_full {k : Nat} (hk : perShardRegularMax = 2 + k) :
    Fits onePerSecond hash (fun _ => {}) (firstRequests e (2 + k) ++ [requestOf (e (2 + k)), requestOf (e 0)]) ∧
    (onePerSecond.serve hash (fun _ => {})
      (firstRequests e (2 + k) ++ [requestOf (e (2 + k)), requestOf (e 0)])).1 ≠
    (onePerSecond.serveForever (fun _ => none)
      (firstRequests e (2 + k) ++ [requestOf (e (2 + k)), requestOf (e 0)])).1 := by
  obtain ⟨hserve, hfit⟩ := serve_first he hi (2 + k) (le_of_eq hk.symm)
  obtain ⟨hswept, hgone⟩ := sweep_filled he k
  generalize hs : (Shard.filled e (fun _ => ({ excess := 0, last := 0 } : Bucket)) (2 + k)).sweep
    (drained 0 onePerSecond.rate) .restore = swept at *
  have hc : (onePerSecond.serve hash (fun _ => {}) (firstRequests e (2 + k))).2 i =
      Shard.filled e (fun _ => { excess := 0, last := 0 }) (2 + k) := by
    rw [hserve]
    exact Function.update_self i _ (fun _ : Nat => ({} : Shard Bucket))
  have habsent : (Shard.filled e (fun _ => ({ excess := 0, last := 0 } : Bucket)) (2 + k)).entries.lookup
      (e (2 + k)) = none := by
    rw [Shard.lookup_filled he, if_neg (lt_irrefl _)]
  -- the next key makes the sweep run and gets a regular slot
  have ha : onePerSecond.admitKey ((onePerSecond.serve hash (fun _ => {}) (firstRequests e (2 + k))).2 i)
      (e (2 + k)) 0 = (e (2 + k), swept.touch (e (2 + k))) := by
    have hlen : perShardRegularMax ≤
        (Shard.filled e (fun _ => ({ excess := 0, last := 0 } : Bucket)) (2 + k)).len := by
      rw [Shard.len_filled he]
      exact le_of_eq hk
    have hnew := Shard.containsKey_eq_false.mpr habsent
    have hroom : swept.len < perShardRegularMax := by omega
    rw [hc]
    simp only [admitKey, Shard.admitKey, hnew, Shard.isFullFor, hlen, Bool.not_false, decide_true, Bool.and_true, if_true,
      hs, Shard.storageKey, hroom, Bool.or_true]
  have hnext := requestFilter_room hi ha (by rw [hc]; exact habsent)
  have hsweptNext : swept.entries.lookup (e (2 + k)) = none := by
    rw [← hs]
    exact (Shard.swept_sweep _ _ _ _).absent habsent
  generalize hb : (onePerSecond.serve hash (fun _ => {}) (firstRequests e (2 + k))).2 = buckets at *
  have hback : Function.update buckets i ((swept.touch (e (2 + k))).insert (e (2 + k)) { excess := 0, last := 0 }) i =
      (swept.touch (e (2 + k))).insert (e (2 + k)) { excess := 0, last := 0 } := Function.update_self _ _ _
  have hne : e 0 ≠ e (2 + k) := fun h => by have := he h; omega
  have hgone' : ((swept.touch (e (2 + k))).insert (e (2 + k)) { excess := 0, last := 0 }).entries.lookup (e 0) =
      none := by
    rw [Shard.lookup_insert, if_neg hne]
    exact hgone
  -- the evicted key finds room without a sweep
  have ha0 : onePerSecond.admitKey (Function.update buckets i
      ((swept.touch (e (2 + k))).insert (e (2 + k)) { excess := 0, last := 0 }) i) (e 0) 0 =
      (e 0, ((swept.touch (e (2 + k))).insert (e (2 + k)) { excess := 0, last := 0 }).touch (e 0)) := by
    have hlen : ((swept.touch (e (2 + k))).insert (e (2 + k)) ({ excess := 0, last := 0 } : Bucket)).len <
        perShardRegularMax := by
      rw [Shard.len_insert_absent (s := swept.touch (e (2 + k))) hsweptNext, Shard.len_touch]
      omega
    rw [hback]
    simp [admitKey, Shard.admitKey, Shard.isFullFor, Shard.storageKey, hlen, not_le.mpr hlen]
  have hreturn := requestFilter_room hi ha0 (by rw [hback]; exact hgone')
  constructor
  · rw [fits_append, hb]
    refine ⟨hfit, hnext.2, ?_, trivial⟩
    rw [hnext.1]
    exact hreturn.2
  · intro heq
    rw [serve_append, serveForever_append] at heq
    have htail := (List.append_inj heq (by rw [length_serve, length_serveForever])).2
    have hkept : (onePerSecond.requestFilterForever
        (onePerSecond.serveForever (fun _ => none) (firstRequests e (2 + k))).2 (requestOf (e (2 + k)))).2 (e 0) =
        some { excess := 0, last := 0 } := by
      rw [lookup_requestFilterForever, keyOf_requestOf, if_neg hne]
      have := forever_first he (1 + k)
      rw [show 1 + k + 1 = 2 + k by omega] at this
      exact this
    rw [hb] at htail
    simp only [serve, serveForever, hnext.1, hreturn.1, List.cons.injEq] at htail
    have hlast : Verdict.continue 0 = onePerSecond.verdict (onePerSecond.incoming 0
        ((onePerSecond.requestFilterForever
          (onePerSecond.serveForever (fun _ => none) (firstRequests e (2 + k))).2 (requestOf (e (2 + k)))).2
          (onePerSecond.keyOf (requestOf (e 0))))).1 := htail.2.1
    rw [keyOf_requestOf, hkept] at hlast
    have hnot : ¬ ({ excess := 0, last := 0 } : Bucket).excess + 1 ≤
        durationSince 0 ({ excess := 0, last := 0 } : Bucket).last * onePerSecond.rate := by
      simp [durationSince]
    refine verdict_not_rested rfl hnot ?_
    rw [← hlast]
    simp [incoming, verdict]

end

/-- Two requests of one key at one instant pass where one a second may, when the sweep for another key comes
between them. -/
theorem sweep_forgets_a_request : ¬ ∃ hash : String → Nat, ∀ (config : PluginConfig) (rs : List TimedRequest),
    Fits config hash (fun _ => {}) rs →
      (config.serve hash (fun _ => {}) rs).1 = (config.serveForever (fun _ => none) rs).1 := by
  intro ⟨hash, hall⟩
  obtain ⟨i, e, he, hi⟩ := exists_keys_of_one_shard hash limitReqOverflow
  obtain ⟨hfit, hne⟩ := evicted_while_full he hi (k := 253) rfl
  exact hne (hall onePerSecond _ hfit)

end PluginConfig

end LimitReq

end Pingsix
