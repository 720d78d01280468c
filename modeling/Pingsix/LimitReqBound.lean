import Pingsix.Lib.LeakyBucket
import Pingsix.LimitReqSound

/-!
# How much limit-req lets through

The requests a bucket accepts raise its excess, and only time drains it: a span
of time holds at most one accepted request more than the burst and what drains
in the span. Whether requests are delayed does not decide which are accepted.
-/

namespace Pingsix

namespace LimitReq

open LeakyBucket (Mark Raises)

def Bucket.mark (bucket : Bucket) : Mark ℚ := ⟨bucket.last, bucket.excess⟩

namespace PluginConfig

variable {config : PluginConfig}

/-! ## One request -/

theorem accepted_verdict (delay : Option ℚ) : (config.verdict delay).accepted = delay.isSome := by
  cases delay <;> rfl

/-- A request is rejected and changes nothing, or its bucket holds it on top of what is left of its excess. -/
theorem incoming_cases (now : ℚ) (bucket : Option Bucket) :
    ((config.incoming now bucket).1 = none ∧ bucket = some (config.incoming now bucket).2) ∨
    ((config.incoming now bucket).1.isSome ∧ (config.incoming now bucket).2.last = now ∧
      0 ≤ (config.incoming now bucket).2.excess ∧ (config.incoming now bucket).2.excess ≤ config.burst ∧
      ∀ kept, bucket = some kept →
        kept.excess - durationSince now kept.last * config.rate + 1 ≤ (config.incoming now bucket).2.excess) := by
  cases bucket with
  | none => exact .inr ⟨rfl, rfl, le_refl _, config.burst_nonneg, nofun⟩
  | some kept =>
    simp only [incoming, bucketIncoming, leakyBucketStep]
    by_cases hb : config.burst < max (kept.excess - durationSince now kept.last * config.rate + 1) 0
    · rw [if_pos hb]
      exact .inl ⟨rfl, rfl⟩
    · rw [if_neg hb]
      refine .inr ⟨rfl, rfl, le_max_right _ _, not_lt.mp hb, ?_⟩
      intro other he
      cases he
      exact le_max_left _ _

/-! ## The accepted requests of a bucket -/

/-- The bucket after each accepted request. -/
def acceptedBuckets (config : PluginConfig) : Option Bucket → List ℚ → List Bucket
  | _, [] => []
  | bucket, now :: times =>
    let (delay, kept) := config.incoming now bucket
    if delay.isSome then kept :: acceptedBuckets config (some kept) times
    else acceptedBuckets config (some kept) times

theorem acceptedTimes_eq (bucket : Option Bucket) (times : List ℚ) :
    config.acceptedTimes bucket times = (config.acceptedBuckets bucket times).map Bucket.last := by
  induction times generalizing bucket with
  | nil => rfl
  | cons now times ih =>
    simp only [acceptedTimes] at ih
    simp only [acceptedTimes, serveBucket, acceptedBuckets, List.zip_cons_cons, List.filter_cons, accepted_verdict]
    cases config.incoming_cases now bucket with
    | inl h => simp [h.1, ih]
    | inr h => simp [h.1, h.2.1, ih]

theorem excess_of_accepted {bucket : Option Bucket} {times : List ℚ} :
    ∀ b ∈ config.acceptedBuckets bucket times, 0 ≤ b.excess ∧ b.excess ≤ config.burst := by
  induction times generalizing bucket with
  | nil => exact fun b hb => nomatch hb
  | cons now times ih =>
    simp only [acceptedBuckets]
    cases config.incoming_cases now bucket with
    | inl h => simpa [h.1] using ih
    | inr h =>
      rw [if_pos h.1]
      intro b hb
      cases List.mem_cons.mp hb with
      | inl he => exact he ▸ ⟨h.2.2.1, h.2.2.2.1⟩
      | inr hb => exact ih b hb

theorem raises_trans {a b c : Mark ℚ} (hab : Raises config.rate a b) (hbc : Raises config.rate b c) :
    Raises config.rate a c := by
  refine ⟨hab.1.trans hbc.1, ?_⟩
  have := hab.2
  have := hbc.2
  linarith

/-- Every later accepted request finds the bucket drained by the time since, at most. -/
theorem raises_of_accepted {kept : Bucket} {times : List ℚ} (hlast : ∀ now ∈ times, kept.last ≤ now)
    (hordered : times.Pairwise (· ≤ ·)) :
    ∀ b ∈ config.acceptedBuckets (some kept) times, Raises config.rate kept.mark b.mark := by
  induction times generalizing kept with
  | nil => exact fun b hb => nomatch hb
  | cons now times ih =>
    obtain ⟨hnow, hordered⟩ := List.pairwise_cons.mp hordered
    simp only [acceptedBuckets]
    cases config.incoming_cases now (some kept) with
    | inl h =>
      rw [if_neg (by simp [h.1]), ← Option.some.inj h.2]
      exact ih (fun t ht => hlast t (List.mem_cons_of_mem _ ht)) hordered
    | inr h =>
      obtain ⟨hsome, htime, -, -, hraise⟩ := h
      rw [if_pos hsome]
      have hself : Raises config.rate kept.mark (config.incoming now (some kept)).2.mark := by
        have hle := hlast now List.mem_cons_self
        have hsince : durationSince now kept.last = now - kept.last := max_eq_left (sub_nonneg.mpr hle)
        have hexcess := hraise kept rfl
        rw [hsince] at hexcess
        unfold Raises Bucket.mark
        rw [htime]
        refine ⟨hle, ?_⟩
        show kept.excess - config.rate * (now - kept.last) + 1 ≤ (config.incoming now (some kept)).2.excess
        linarith
      intro b hb
      cases List.mem_cons.mp hb with
      | inl he => exact he ▸ hself
      | inr hb => exact raises_trans hself (ih (fun t ht => htime.symm ▸ hnow t ht) hordered b hb)

theorem pairwise_accepted {bucket : Option Bucket} {times : List ℚ} (hordered : times.Pairwise (· ≤ ·)) :
    ((config.acceptedBuckets bucket times).map Bucket.mark).Pairwise (Raises config.rate) := by
  induction times generalizing bucket with
  | nil => exact .nil
  | cons now times ih =>
    obtain ⟨hnow, hordered⟩ := List.pairwise_cons.mp hordered
    simp only [acceptedBuckets]
    cases config.incoming_cases now bucket with
    | inl h =>
      rw [if_neg (by simp [h.1])]
      exact ih hordered
    | inr h =>
      rw [if_pos h.1, List.map_cons, List.pairwise_cons]
      refine ⟨?_, ih hordered⟩
      intro m hm
      obtain ⟨b, hb, rfl⟩ := List.mem_map.mp hm
      exact raises_of_accepted (fun t ht => h.2.1.symm ▸ hnow t ht) hordered b hb

/-- A span of time holds at most one accepted request more than the burst and what drains in the span. -/
theorem accepted_in_span {bucket : Option Bucket} {times : List ℚ} (hordered : times.Pairwise (· ≤ ·)) {start span : ℚ}
    (hspan : 0 ≤ span) : (((config.acceptedTimes bucket times).filter
      fun now => start ≤ now ∧ now ≤ start + span).length : ℚ) ≤ 1 + config.burst + config.rate * span := by
  rw [acceptedTimes_eq, List.filter_map, List.length_map, ← List.length_map Bucket.mark]
  refine @LeakyBucket.length_le _ _ _ _ config.rate config.burst start span (le_of_lt config.rate_pos)
    config.burst_nonneg hspan _ ?_ ?_ ?_
  · exact List.Pairwise.sublist (List.Sublist.map _ List.filter_sublist) (pairwise_accepted hordered)
  · intro a ha
    obtain ⟨b, hb, rfl⟩ := List.mem_map.mp ha
    exact excess_of_accepted b (List.mem_filter.mp hb).1
  · intro a ha
    obtain ⟨b, hb, rfl⟩ := List.mem_map.mp ha
    exact of_decide_eq_true (List.mem_filter.mp hb).2

/-! ## Delays -/

/-- The requests a bucket accepts, and the bucket after them, are the same with and without delays. -/
theorem serveBucket_nodelay (nodelay : Bool) (bucket : Option Bucket) (times : List ℚ) :
    (serveBucket { config with nodelay } bucket times).1.map Verdict.accepted =
        (config.serveBucket bucket times).1.map Verdict.accepted ∧
      (serveBucket { config with nodelay } bucket times).2 = (config.serveBucket bucket times).2 := by
  induction times generalizing bucket with
  | nil => exact ⟨rfl, rfl⟩
  | cons now times ih =>
    have hincoming : incoming { config with nodelay } now bucket = config.incoming now bucket := rfl
    obtain ⟨hverdicts, hbucket⟩ := ih (some (config.incoming now bucket).2)
    simp only [serveBucket, List.map_cons, accepted_verdict, hincoming]
    exact ⟨by rw [hverdicts], hbucket⟩

/-- For every rate and burst, whatever a bucket holds before: a span of time holds at most one accepted request more
than the burst and what drains in the span, a rejected request leaves the bucket as it is, and delays do not decide
which requests are accepted. -/
theorem leaky_bucket_bound (config : PluginConfig) (bucket : Option Bucket) :
    (∀ times : List ℚ, times.Pairwise (· ≤ ·) → ∀ start span : ℚ, 0 ≤ span →
      (((config.acceptedTimes bucket times).filter fun now => start ≤ now ∧ now ≤ start + span).length : ℚ) ≤
        1 + config.burst + config.rate * span) ∧
    (∀ now, config.verdict (config.incoming now bucket).1 = .reject → some (config.incoming now bucket).2 = bucket) ∧
    ∀ (nodelay : Bool) (times : List ℚ),
      (serveBucket { config with nodelay } bucket times).1.map Verdict.accepted =
          (config.serveBucket bucket times).1.map Verdict.accepted ∧
        (serveBucket { config with nodelay } bucket times).2 = (config.serveBucket bucket times).2 := by
  refine ⟨fun times hordered start span hspan => accepted_in_span hordered hspan, ?_, ?_⟩
  · intro now hreject
    cases config.incoming_cases now bucket with
    | inl h => exact h.2.symm
    | inr h =>
      have haccepted := config.accepted_verdict (config.incoming now bucket).1
      rw [hreject, h.1] at haccepted
      cases haccepted
  · exact fun nodelay times => serveBucket_nodelay nodelay bucket times

theorem leaky_bucket_bound_second : [0, 0, 1].Pairwise (fun s t : ℚ => s ≤ t) ∧ (0 : ℚ) ≤ 1 ∧
    (((onePerSecond.acceptedTimes (some ⟨0, 0⟩) [0, 0, 1]).filter fun now => 0 ≤ now ∧ now ≤ 0 + 1).length : ℚ) ≤
      1 + onePerSecond.burst + onePerSecond.rate * 1 ∧
    onePerSecond.verdict (onePerSecond.incoming 0 (some ⟨0, 0⟩)).1 = .reject ∧
    some (onePerSecond.incoming 0 (some ⟨0, 0⟩)).2 = some ⟨0, 0⟩ := by
  have hordered : [0, 0, 1].Pairwise (fun s t : ℚ => s ≤ t) := by decide
  have hspan : (0 : ℚ) ≤ 1 := by decide
  have hreject : onePerSecond.verdict (onePerSecond.incoming 0 (some ⟨0, 0⟩)).1 = .reject := by
    simp [incoming, bucketIncoming, leakyBucketStep, durationSince, onePerSecond, verdict]
  obtain ⟨hbound, hkept, -⟩ := leaky_bucket_bound onePerSecond (some ⟨0, 0⟩)
  exact ⟨hordered, hspan, hbound _ hordered 0 1 hspan, hreject, hkept 0 hreject⟩

/-! ## The requests of one key among all -/

/-- The requests of a key, with their verdicts. -/
def verdictsOf (config : PluginConfig) (key : String) (rs : List TimedRequest) (verdicts : List Verdict) :
    List (ℚ × Verdict) :=
  ((rs.zip verdicts).filter fun p => config.keyOf p.1 = key).map fun p => (p.1.now, p.2)

/-- Among the requests of all keys, those of one key are served by its bucket. -/
theorem verdictsOf_serveForever (key : String) (rs : List TimedRequest) (kept : Forever) :
    config.verdictsOf key rs (config.serveForever kept rs).1 =
      ((rs.filter fun r => config.keyOf r = key).map TimedRequest.now).zip
        (config.serveBucket (kept key) ((rs.filter fun r => config.keyOf r = key).map TimedRequest.now)).1 := by
  unfold verdictsOf
  induction rs generalizing kept with
  | nil => rfl
  | cons r rs ih =>
    simp only [serveForever, List.zip_cons_cons, List.filter_cons]
    by_cases hkey : config.keyOf r = key
    · have hkept : (config.requestFilterForever kept r).2 key = some (config.incoming r.now (kept key)).2 := by
        rw [lookup_requestFilterForever, if_pos hkey.symm, hkey]
      have hfirst : (config.requestFilterForever kept r).1 = config.verdict (config.incoming r.now (kept key)).1 := by
        rw [← hkey]
        rfl
      simp only [hkey, decide_true, if_true, List.map_cons, serveBucket, List.zip_cons_cons, ih, hkept, hfirst]
    · have hkept : (config.requestFilterForever kept r).2 key = kept key := by
        rw [lookup_requestFilterForever, if_neg (Ne.symm hkey)]
      simp only [hkey, decide_false, Bool.false_eq_true, if_false, ih, hkept]

/-- In a run without overflow whose evicted buckets have all rested, a span of time holds at most one accepted
request of a key more than the burst and what drains in the span. -/
theorem accepted_of_key_in_span (hash : String → Nat) {rs : List TimedRequest}
    (hfit : Fits config hash (fun _ => {}) rs) (hrested : Rested config hash (fun _ => {}) (fun _ => none) rs)
    (hordered : rs.Pairwise fun r r' => r.now ≤ r'.now) (key : String) {start span : ℚ} (hspan : 0 ≤ span) :
    (((config.verdictsOf key rs (config.serve hash (fun _ => {}) rs).1).filter
      fun p => p.2.accepted ∧ start ≤ p.1 ∧ p.1 ≤ start + span).length : ℚ) ≤
        1 + config.burst + config.rate * span := by
  rw [serve_eq (agree_empty hash) hfit hrested, verdictsOf_serveForever]
  have hown : ((rs.filter fun r => config.keyOf r = key).map TimedRequest.now).Pairwise (· ≤ ·) :=
    List.pairwise_map.mpr (hordered.sublist List.filter_sublist)
  have hbound := @accepted_in_span config none _ hown start span hspan
  unfold acceptedTimes at hbound
  rw [List.filter_map, List.length_map, List.filter_filter] at hbound
  simpa [and_comm] using hbound

end PluginConfig

end LimitReq

end Pingsix
