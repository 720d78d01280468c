import Pingsix.ClientControl

/-!
# Exactness of body limits

A request is refused exactly if its body is longer than the smallest limit, as
long as the instances, which all add each chunk to one count, do not come over
their limits by that.
-/

namespace Pingsix.ClientControl

open HttpMessage
open BodyStream (Chunk Arrival Filter chain content)

/-- The limits of the instances that check. -/
def limits (ps : List PluginClientControl) : List Nat := (ps.map (·.maxBodySize)).filter (· ≠ 0)

def smallestLimit (ps : List PluginClientControl) : Option Nat := (limits ps).min?

/-- The declared length, if there is one, is the length of the body. -/
def Truthful (headers : HeaderMap) (a : Arrival UInt8) : Prop :=
  ∀ len, ((HeaderMap.get headers "content-length").bind (·.toStr)).bind PluginAiProxy.parseU64 = some len →
    len = a.body.length

def OverLimit (ps : List PluginClientControl) (a : Arrival UInt8) : Prop :=
  ∃ limit ∈ smallestLimit ps, limit < a.body.length

structure LimitExact (ps : List PluginClientControl) (a : Arrival UInt8) : Prop where
  refused : ∀ headers, Truthful headers a → (Refused headers ps a ↔ OverLimit ps a)
  passed : ∀ limit ∈ smallestLimit ps, (filterBody ps a).bytes.length ≤ limit
  declared : ∀ headers, Truthful headers a → requestFilter headers ps ≠ .continue →
    ∃ e, (filterBody ps a).last = .error e

/-! ## One chunk -/

/-- Each limit in turn admits the count with the chunk added once more. -/
def Fits (ls : List Nat) (count chunk : Nat) : Prop :=
  ∀ i limit, ls[i]? = some limit → min (count + (i + 1) * chunk) u64Max ≤ limit

theorem fits_cons (limit : Nat) (ls : List Nat) (count chunk : Nat) :
    Fits (limit :: ls) count chunk ↔ min (count + chunk) u64Max ≤ limit ∧ Fits ls (count + chunk) chunk := by
  have hshift : ∀ i, count + chunk + (i + 1) * chunk = count + (i + 1 + 1) * chunk := fun i => by
    rw [Nat.succ_mul (i + 1)]
    omega
  constructor
  · intro h
    refine ⟨by simpa using h 0 limit rfl, fun i l hi => ?_⟩
    rw [hshift]
    exact h (i + 1) l hi
  · rintro ⟨hhead, htail⟩ i l hi
    cases i with
    | zero =>
      cases hi
      simpa using hhead
    | succ i =>
      rw [← hshift]
      exact htail i l hi

theorem saturatingAdd_min (count n : Nat) : saturatingAdd (min count u64Max) n = min (count + n) u64Max := by
  unfold saturatingAdd
  omega

theorem limits_cons (p : PluginClientControl) (ps : List PluginClientControl) :
    limits (p :: ps) = if p.maxBodySize = 0 then limits ps else p.maxBodySize :: limits ps := by
  unfold limits
  by_cases h : p.maxBodySize = 0
  · simp [h]
  · simp [h]

theorem requestBodyFilter_cons (p : PluginClientControl) (ps : List PluginClientControl) :
    requestBodyFilter (p :: ps) = chain (p.requestBodyFilter :: ps.map (·.requestBodyFilter)) := rfl

/-- No chunk, no count. -/
theorem requestBodyFilter_none (ps : List PluginClientControl) (ctx : BodyContext) (endOfStream : Bool) :
    requestBodyFilter ps ctx none endOfStream = .ok (none, ctx) := by
  induction ps with
  | nil => rfl
  | cons p ps ih =>
    have hp : p.requestBodyFilter ctx none endOfStream = .ok (none, ctx) := by
      unfold PluginClientControl.requestBodyFilter
      split <;> rfl
    rw [requestBodyFilter_cons, BodyStream.chain_cons hp]
    exact ih

/-- A chunk passes all instances exactly if their limits admit it, and is counted once for each of them. -/
theorem requestBodyFilter_some (bytes : List UInt8) (endOfStream : Bool) :
    ∀ (ps : List PluginClientControl) (count : Nat),
      (Fits (limits ps) count bytes.length → requestBodyFilter ps ⟨min count u64Max⟩ (some bytes) endOfStream =
        .ok (some bytes, ⟨min (count + (limits ps).length * bytes.length) u64Max⟩)) ∧
      (¬Fits (limits ps) count bytes.length →
        ∃ e, requestBodyFilter ps ⟨min count u64Max⟩ (some bytes) endOfStream = .error e)
  | [], count => by
    constructor
    · intro _
      simp [limits, requestBodyFilter, chain]
    · intro h
      exact absurd (fun i limit hi => by simp [limits] at hi) h
  | p :: ps, count => by
    rw [limits_cons, requestBodyFilter_cons]
    by_cases hzero : p.maxBodySize = 0
    · have hp : p.requestBodyFilter ⟨min count u64Max⟩ (some bytes) endOfStream = .ok (some bytes, ⟨min count u64Max⟩) := by
        unfold PluginClientControl.requestBodyFilter
        rw [if_pos hzero]
      rw [if_pos hzero, BodyStream.chain_cons hp]
      exact requestBodyFilter_some bytes endOfStream ps count
    · rw [if_neg hzero, fits_cons]
      by_cases hlimit : min (count + bytes.length) u64Max ≤ p.maxBodySize
      · have hp : p.requestBodyFilter ⟨min count u64Max⟩ (some bytes) endOfStream =
            .ok (some bytes, ⟨min (count + bytes.length) u64Max⟩) := by
          unfold PluginClientControl.requestBodyFilter
          rw [if_neg hzero]
          simp only [saturatingAdd_min]
          rw [if_neg (Nat.not_lt.mpr hlimit)]
        have hlength : count + (p.maxBodySize :: limits ps).length * bytes.length =
            count + bytes.length + (limits ps).length * bytes.length := by
          rw [List.length_cons, Nat.succ_mul]
          omega
        rw [BodyStream.chain_cons hp, hlength]
        simp only [hlimit, true_and]
        exact requestBodyFilter_some bytes endOfStream ps (count + bytes.length)
      · have hp : ∃ e, p.requestBodyFilter ⟨min count u64Max⟩ (some bytes) endOfStream = .error e := by
          unfold PluginClientControl.requestBodyFilter
          rw [if_neg hzero]
          simp only [saturatingAdd_min]
          rw [if_pos (Nat.not_le.mp hlimit)]
          exact ⟨_, rfl⟩
        obtain ⟨e, hp⟩ := hp
        constructor
        · intro h
          exact absurd h.1 hlimit
        · intro _
          exact ⟨e, BodyStream.chain_cons_error hp⟩

/-! ## All chunks -/

/-- Every chunk fits the count of the chunks before it. -/
def ChunksFit (ls : List Nat) (count : Nat) (chunks : List (Chunk UInt8)) : Prop :=
  ∀ before bytes after, chunks = before ++ some bytes :: after →
    Fits ls (count + ls.length * (content before).length) bytes.length

theorem chunksFit_nil (ls : List Nat) (count : Nat) : ChunksFit ls count [] := fun before _ _ h => by
  cases before <;> cases h

theorem chunksFit_none (ls : List Nat) (count : Nat) (chunks : List (Chunk UInt8)) :
    ChunksFit ls count (none :: chunks) ↔ ChunksFit ls count chunks := by
  constructor
  · intro h before bytes after he
    exact h (none :: before) bytes after (by rw [he]; rfl)
  · intro h before bytes after he
    cases before with
    | nil => cases he
    | cons chunk before =>
      cases he
      exact h before bytes after rfl

theorem chunksFit_some (ls : List Nat) (count : Nat) (bytes : List UInt8) (chunks : List (Chunk UInt8)) :
    ChunksFit ls count (some bytes :: chunks) ↔
      Fits ls count bytes.length ∧ ChunksFit ls (count + ls.length * bytes.length) chunks := by
  have hcount : ∀ before : List (Chunk UInt8), count + ls.length * bytes.length + ls.length * (content before).length =
      count + ls.length * (content (some bytes :: before)).length := fun before => by
    rw [BodyStream.content_cons, Option.getD_some, List.length_append, Nat.mul_add]
    omega
  constructor
  · intro h
    refine ⟨by simpa [BodyStream.content_nil] using h [] bytes chunks rfl, fun before bs after he => ?_⟩
    rw [hcount]
    exact h (some bytes :: before) bs after (by rw [he]; rfl)
  · rintro ⟨hhead, htail⟩ before bs after he
    cases before with
    | nil =>
      cases he
      simpa [BodyStream.content_nil] using hhead
    | cons chunk before =>
      cases he
      rw [← hcount]
      exact htail before bs after rfl

/-- The instances let all chunks through exactly if they fit. -/
theorem runBefore_error_iff (ps : List PluginClientControl) : ∀ (chunks : List (Chunk UInt8)) (count : Nat),
    (∃ e, (BodyStream.runBefore (requestBodyFilter ps) ⟨min count u64Max⟩ chunks).2 = .error e) ↔
      ¬ChunksFit (limits ps) count chunks
  | [], count => by simp [BodyStream.runBefore, chunksFit_nil]
  | none :: chunks, count => by
    rw [BodyStream.runBefore, requestBodyFilter_none, chunksFit_none]
    exact runBefore_error_iff ps chunks count
  | some bytes :: chunks, count => by
    obtain ⟨hok, herror⟩ := requestBodyFilter_some bytes false ps count
    rw [BodyStream.runBefore, chunksFit_some]
    by_cases hfits : Fits (limits ps) count bytes.length
    · rw [hok hfits]
      simp only [hfits, true_and]
      exact runBefore_error_iff ps chunks _
    · obtain ⟨e, he⟩ := herror hfits
      rw [he]
      simp [hfits]

/-- What leaves is within every limit below the greatest number of 64 bits. -/
theorem runBefore_length_le {ps : List PluginClientControl} {limit : Nat} (hmem : limit ∈ limits ps)
    (hmax : limit < u64Max) : ∀ (chunks : List (Chunk UInt8)) (seen count : Nat), seen ≤ count → seen ≤ limit →
      seen + (content (BodyStream.runBefore (requestBodyFilter ps) ⟨min count u64Max⟩ chunks).1).length ≤ limit
  | [], seen, count, _, hlimit => by simpa [BodyStream.runBefore, content] using hlimit
  | none :: chunks, seen, count, hcount, hlimit => by
    rw [BodyStream.runBefore, requestBodyFilter_none]
    exact runBefore_length_le hmem hmax chunks seen count hcount hlimit
  | some bytes :: chunks, seen, count, hcount, hlimit => by
    obtain ⟨hok, herror⟩ := requestBodyFilter_some bytes false ps count
    rw [BodyStream.runBefore]
    by_cases hfits : Fits (limits ps) count bytes.length
    · rw [hok hfits]
      obtain ⟨i, hi⟩ := List.mem_iff_getElem?.mp hmem
      have hpositive : 0 < (limits ps).length := List.length_pos_of_mem hmem
      have hwithin := hfits i limit hi
      have honce : bytes.length ≤ (i + 1) * bytes.length := Nat.le_mul_of_pos_left _ (Nat.succ_pos i)
      have hall : bytes.length ≤ (limits ps).length * bytes.length := Nat.le_mul_of_pos_left _ hpositive
      have ih := runBefore_length_le hmem hmax chunks (seen + bytes.length)
        (count + (limits ps).length * bytes.length) (by omega) (by omega)
      simp only [BodyStream.content_cons, Option.getD_some, List.length_append]
      omega
    · obtain ⟨e, he⟩ := herror hfits
      rw [he]
      simpa [content] using hlimit

/-! ## Whole requests -/

theorem requestBodyFilter_flagless (ps : List PluginClientControl) (ctx : BodyContext) (chunk : Chunk UInt8) :
    requestBodyFilter ps ctx chunk true = requestBodyFilter ps ctx chunk false := by
  induction ps generalizing ctx chunk with
  | nil => rfl
  | cons p ps ih =>
    have hp : p.requestBodyFilter ctx chunk true = p.requestBodyFilter ctx chunk false := rfl
    rw [requestBodyFilter_cons, chain, chain, hp]
    cases p.requestBodyFilter ctx chunk false with
    | error e => rfl
    | ok next => exact ih next.2 next.1

/-- The chunks of the body fit the limits from the first one on. -/
def BodyFits (ps : List PluginClientControl) (a : Arrival UInt8) : Prop :=
  ChunksFit (limits ps) 0 (a.before ++ [a.last])

theorem filterBody_error_iff (ps : List PluginClientControl) (a : Arrival UInt8) :
    (∃ e, (filterBody ps a).last = .error e) ↔ ¬BodyFits ps a :=
  (BodyStream.run_of_flagless (requestBodyFilter_flagless ps) {} a).2.trans (runBefore_error_iff ps _ 0)

theorem filterBody_length_le {ps : List PluginClientControl} {limit : Nat} (hmem : limit ∈ limits ps)
    (hmax : limit < u64Max) (a : Arrival UInt8) : (filterBody ps a).bytes.length ≤ limit := by
  have h := runBefore_length_le hmem hmax (a.before ++ [a.last]) 0 0 (Nat.le_refl 0) (Nat.zero_le _)
  rw [Nat.zero_add] at h
  rw [filterBody, (BodyStream.run_of_flagless (requestBodyFilter_flagless ps) {} a).1]
  exact h

theorem content_last (a : Arrival UInt8) : content (a.before ++ [a.last]) = a.body := by
  simp [content, Arrival.body]

/-- All of a body that fits leaves the instances. -/
theorem runBefore_content_of_fits (ps : List PluginClientControl) : ∀ (chunks : List (Chunk UInt8)) (count : Nat),
    ChunksFit (limits ps) count chunks →
      content (BodyStream.runBefore (requestBodyFilter ps) ⟨min count u64Max⟩ chunks).1 = content chunks
  | [], _, _ => rfl
  | none :: chunks, count, h => by
    rw [BodyStream.runBefore, requestBodyFilter_none]
    exact runBefore_content_of_fits ps chunks count ((chunksFit_none _ _ _).mp h)
  | some bytes :: chunks, count, h => by
    obtain ⟨hfits, hrest⟩ := (chunksFit_some _ _ _ _).mp h
    rw [BodyStream.runBefore, (requestBodyFilter_some bytes false ps count).1 hfits]
    simp only [BodyStream.content_cons, runBefore_content_of_fits ps chunks _ hrest]

theorem filterBody_of_fits {ps : List PluginClientControl} {a : Arrival UInt8} (h : BodyFits ps a) :
    (filterBody ps a).bytes = a.body := by
  rw [filterBody, (BodyStream.run_of_flagless (requestBodyFilter_flagless ps) {} a).1,
    show ({} : BodyContext) = ⟨min 0 u64Max⟩ from rfl, runBefore_content_of_fits ps _ 0 h, content_last]

theorem overLimit_iff (ps : List PluginClientControl) (a : Arrival UInt8) :
    OverLimit ps a ↔ ∃ limit ∈ limits ps, limit < a.body.length := by
  unfold OverLimit smallestLimit
  constructor
  · rintro ⟨limit, hmin, hlt⟩
    exact ⟨limit, List.min?_mem hmin, hlt⟩
  · rintro ⟨limit, hmem, hlt⟩
    cases hmin : (limits ps).min? with
    | none => rw [List.min?_eq_none_iff.mp hmin] at hmem; cases hmem
    | some least => exact ⟨least, rfl, Nat.lt_of_le_of_lt ((List.min?_eq_some_iff.mp hmin).2 limit hmem) hlt⟩

/-- Over a limit below the greatest number of 64 bits a body does not fit. -/
theorem not_bodyFits {ps : List PluginClientControl} {a : Arrival UInt8} {limit : Nat} (hmem : limit ∈ limits ps)
    (hmax : limit < u64Max) (hover : limit < a.body.length) : ¬BodyFits ps a := by
  intro hfits
  have hpassed := filterBody_length_le hmem hmax a
  rw [filterBody_of_fits hfits] at hpassed
  omega

theorem limit_le_max {ps : List PluginClientControl} {limit : Nat} (hmem : limit ∈ limits ps) : limit ≤ u64Max := by
  obtain ⟨hmap, -⟩ := List.mem_filter.mp hmem
  obtain ⟨p, -, rfl⟩ := List.mem_map.mp hmap
  exact p.bound

/-- The request phase refuses a declared length above some limit. -/
theorem requestFilter_iff (headers : HeaderMap) (ps : List PluginClientControl) :
    requestFilter headers ps ≠ .continue ↔
      ∃ len, ((HeaderMap.get headers "content-length").bind (·.toStr)).bind PluginAiProxy.parseU64 = some len ∧
        ∃ limit ∈ limits ps, limit < len := by
  have hone : ∀ p : PluginClientControl, p.requestFilter headers ≠ .continue ↔ p.maxBodySize ≠ 0 ∧
      ∃ len, ((HeaderMap.get headers "content-length").bind (·.toStr)).bind PluginAiProxy.parseU64 = some len ∧
        p.maxBodySize < len := by
    intro p
    unfold PluginClientControl.requestFilter
    by_cases hzero : p.maxBodySize = 0
    · simp [hzero]
    · cases ((HeaderMap.get headers "content-length").bind (·.toStr)).bind PluginAiProxy.parseU64 with
      | none => simp [hzero]
      | some len => simp [hzero]
  have hfind : requestFilter headers ps ≠ .continue ↔ ∃ p ∈ ps, p.requestFilter headers ≠ .continue := by
    unfold requestFilter
    cases hf : ps.find? fun p => p.requestFilter headers ≠ .continue with
    | none =>
      have hnone := List.find?_eq_none.mp hf
      simpa using hnone
    | some p =>
      have hp : p.requestFilter headers ≠ .continue := by simpa using List.find?_some hf
      exact ⟨fun _ => ⟨p, List.mem_of_find?_eq_some hf, hp⟩, fun _ => hp⟩
  rw [hfind]
  constructor
  · rintro ⟨p, hp, hne⟩
    obtain ⟨hzero, len, hlen, hlt⟩ := (hone p).mp hne
    exact ⟨len, hlen, p.maxBodySize, by simpa [limits, hzero] using ⟨p, hp, rfl⟩, hlt⟩
  · rintro ⟨len, hlen, limit, hmem, hlt⟩
    obtain ⟨hmap, hzero⟩ := List.mem_filter.mp hmem
    obtain ⟨p, hp, rfl⟩ := List.mem_map.mp hmap
    exact ⟨p, hp, (hone p).mpr ⟨by simpa using hzero, len, hlen, hlt⟩⟩

/-- A body over some limit is over one below the greatest number of 64 bits, and any other body fits the limits with
every chunk counted once for each instance. -/
structure CountsAdmit (ps : List PluginClientControl) (a : Arrival UInt8) : Prop where
  longer : (∃ limit ∈ limits ps, limit < a.body.length) → ∃ limit ∈ limits ps, limit < a.body.length ∧ limit < u64Max
  within : (¬∃ limit ∈ limits ps, limit < a.body.length) → BodyFits ps a

/-- With one instance that checks, every body of less than 2^64 bytes is admitted or refused by its length alone. -/
theorem countsAdmit_of_single {ps : List PluginClientControl} {a : Arrival UInt8} (hone : (limits ps).length ≤ 1)
    (hlength : a.body.length ≤ u64Max) : CountsAdmit ps a where
  longer := by
    rintro ⟨limit, hmem, hlt⟩
    exact ⟨limit, hmem, hlt, Nat.lt_of_lt_of_le hlt hlength⟩
  within hnot before bytes after hsplit i limit hi := by
    have hmem : limit ∈ limits ps := List.mem_iff_getElem?.mpr ⟨i, hi⟩
    have hi0 : i = 0 := by
      have := (List.getElem?_eq_some_iff.mp hi).1
      omega
    have hk : (limits ps).length = 1 := by
      have := List.length_pos_of_mem hmem
      omega
    have hbody : a.body.length = (content before).length + bytes.length + (content after).length := by
      rw [← content_last, hsplit]
      simp [content]
      omega
    have hle : ¬limit < a.body.length := fun hlt => hnot ⟨limit, hmem, hlt⟩
    rw [hi0, hk]
    omega

/-- The instances of a request limit a body exactly if their shared count does. -/
theorem limitExact_iff (ps : List PluginClientControl) (a : Arrival UInt8) : LimitExact ps a ↔ CountsAdmit ps a := by
  have hempty : requestFilter [] ps = .continue := by
    by_contra h
    obtain ⟨len, hlen, -⟩ := (requestFilter_iff [] ps).mp h
    cases hlen
  constructor
  · intro h
    have hrefused := h.refused [] fun len hlen => by cases hlen
    unfold Refused at hrefused
    rw [hempty, filterBody_error_iff, overLimit_iff] at hrefused
    simp only [ne_eq, not_true_eq_false, false_or] at hrefused
    refine ⟨fun hover => ?_, fun hnot => not_not.mp fun hfits => hnot (hrefused.mp hfits)⟩
    obtain ⟨limit, hmem, hlt⟩ := hover
    by_contra hnone
    apply hrefused.mpr ⟨limit, hmem, hlt⟩
    intro before bytes after hsplit i l hi
    have hl : l ∈ limits ps := List.mem_iff_getElem?.mpr ⟨i, hi⟩
    have hmax := limit_le_max hmem
    have hlmax := limit_le_max hl
    by_cases hlt' : l < a.body.length
    · have : ¬l < u64Max := fun hm => hnone ⟨l, hl, hlt', hm⟩
      omega
    · have : ¬limit < u64Max := fun hm => hnone ⟨limit, hmem, hlt, hm⟩
      omega
  · intro h
    have hstream : (∃ e, (filterBody ps a).last = .error e) ↔ OverLimit ps a := by
      rw [filterBody_error_iff, overLimit_iff]
      constructor
      · intro hfits
        by_contra hnot
        exact hfits (h.within hnot)
      · intro hover
        obtain ⟨limit, hmem, hlt, hmax⟩ := h.longer hover
        exact not_bodyFits hmem hmax hlt
    have hheader : ∀ headers, Truthful headers a → requestFilter headers ps ≠ .continue → OverLimit ps a := by
      intro headers htruth hreject
      obtain ⟨len, hlen, limit, hmem, hlt⟩ := (requestFilter_iff headers ps).mp hreject
      rw [htruth len hlen] at hlt
      exact (overLimit_iff ps a).mpr ⟨limit, hmem, hlt⟩
    refine ⟨fun headers htruth => ?_, fun limit hmin => ?_, fun headers htruth hreject => ?_⟩
    · unfold Refused
      rw [hstream]
      exact or_iff_right_of_imp (hheader headers htruth)
    · have hmem : limit ∈ limits ps := List.min?_mem hmin
      have hleast := (List.min?_eq_some_iff.mp hmin).2
      by_cases hover : ∃ l ∈ limits ps, l < a.body.length
      · obtain ⟨l, hl, -, hmax⟩ := h.longer hover
        exact filterBody_length_le hmem (Nat.lt_of_le_of_lt (hleast l hl) hmax) a
      · rw [filterBody_of_fits (h.within hover)]
        exact Nat.not_lt.mp fun hlt => hover ⟨limit, hmem, hlt⟩
    · exact hstream.mpr (hheader headers htruth hreject)

/-- A global rule and the route, each with a limit of ten bytes. -/
def twoOfTen : List PluginClientControl := [{ maxBodySize := 10 }, { maxBodySize := 10 }]

/-- Six bytes are counted as twelve and refused. -/
theorem limitExact_twoOfTen : ¬∀ (ps : List PluginClientControl) (a : Arrival UInt8), LimitExact ps a := by
  intro h
  have hrefused := (h twoOfTen ⟨[some [1, 2, 3, 4, 5, 6]], none⟩).refused [] fun len hlen => by cases hlen
  obtain ⟨limit, hmin, hlt⟩ := hrefused.mp (.inr ⟨_, rfl⟩)
  cases hmin
  exact absurd hlt (by decide)

end Pingsix.ClientControl
