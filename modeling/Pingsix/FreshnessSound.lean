import Pingsix.CacheConfig
import Pingsix.CacheResponse
import Pingsix.Lib.Utf8

/-!
# Soundness of freshness

What the directives handed to Pingora say of the lifetime of a stored response,
against the precedence the settings document.
-/

namespace Pingsix

open HttpMessage

variable {υ : Type}

/-! ## What Pingora documents -/

/-- The value of a directive that has one. -/
def valueOf (cc : CacheControl) (key : DirectiveKey) : Option (List UInt8) := (cc.lookup key).join

/-- A directive without a value marks the whole response; `s-maxage` is taken over `max-age`; seconds beyond 32 bits
count as `2^31`. -/
structure Pingora.Documented (pingora : Pingora) : Prop where
  noStore (cc : CacheControl) : pingora.noStore cc = cc.containsKey .noStore
  isPrivate (cc : CacheControl) : pingora.isPrivate cc = decide (cc.lookup .privateResponse = some none)
  noCache (cc : CacheControl) : pingora.noCache cc = decide (cc.lookup .noCache = some none)
  noCacheFieldNames (cc : CacheControl) : pingora.noCacheFieldNames cc = (valueOf cc .noCache).isSome
  freshDuration (cc : CacheControl) (h : pingora.noCache cc = false) : pingora.freshDuration cc =
    match valueOf cc .sMaxAge with
    | some v => pingora.parseDeltaSeconds v
    | none => (valueOf cc .maxAge).bind pingora.parseDeltaSeconds
  decimal (n : Nat) : pingora.parseDeltaSeconds (decimalBytes n) = some (if n < 2 ^ 32 then n else 2 ^ 31)

/-! ## Copying the directives -/

def lookupIn (es : List (DirectiveKey × Option (List UInt8))) (key : DirectiveKey) : Option (Option (List UInt8)) :=
  (es.find? fun e => e.1 = key).map (·.2)

/-- The entry is copied as it is: it is no `s-maxage` that also becomes the `max-age`. -/
def Plain (respectSMaxage : Bool) (entry : DirectiveKey × Option (List UInt8)) : Prop :=
  respectSMaxage = true → entry.1 = .sMaxAge → entry.2 = none

theorem lookup_copyDirective {respect : Bool} {state : CacheControl × Bool} {entry : DirectiveKey × Option (List UInt8)}
    {key : DirectiveKey} (h : key ≠ .maxAge ∨ Plain respect entry) :
    (copyDirective respect state entry).1.lookup key = if key = entry.1 then some entry.2 else state.1.lookup key := by
  unfold copyDirective
  by_cases hs : (respect && decide (entry.1 = .sMaxAge)) = true
  · rw [if_pos hs]
    obtain ⟨hr, hk⟩ := Bool.and_eq_true_iff.mp hs
    have hkey : entry.1 = .sMaxAge := of_decide_eq_true hk
    cases hv : entry.2 with
    | none =>
      simp only [IndexMap.lookup_insert, hkey]
    | some value =>
      have hne : key ≠ .maxAge := h.elim id fun hp => by
        rw [hp hr hkey] at hv
        cases hv
      simp only [IndexMap.lookup_insert, hkey, hne, if_false]
  · rw [if_neg hs, IndexMap.lookup_insert]

theorem flag_copyDirective {respect : Bool} {state : CacheControl × Bool} {entry : DirectiveKey × Option (List UInt8)}
    (h : Plain respect entry) :
    (copyDirective respect state entry).2 = (state.2 || decide (entry.1 = .maxAge)) := by
  unfold copyDirective
  by_cases hs : (respect && decide (entry.1 = .sMaxAge)) = true
  · rw [if_pos hs]
    obtain ⟨hr, hk⟩ := Bool.and_eq_true_iff.mp hs
    have hkey : entry.1 = .sMaxAge := of_decide_eq_true hk
    simp [h hr hkey, hkey]
  · rw [if_neg hs]
    by_cases hm : entry.1 = .maxAge
    · simp [hm]
    · simp [hm]

theorem lookup_foldl_copyDirective {respect : Bool} {key : DirectiveKey} :
    ∀ {es : List (DirectiveKey × Option (List UInt8))} {state : CacheControl × Bool}, (es.map Prod.fst).Nodup →
      (key ≠ .maxAge ∨ ∀ e ∈ es, Plain respect e) →
      (es.foldl (copyDirective respect) state).1.lookup key = (lookupIn es key).or (state.1.lookup key)
  | [], _, _, _ => rfl
  | e :: es, state, hn, h => by
    obtain ⟨hnot, hrest⟩ := List.nodup_cons.mp hn
    rw [List.foldl_cons, lookup_foldl_copyDirective hrest (h.imp_right fun hp d hd => hp d (by simp [hd])),
      lookup_copyDirective (h.imp_right fun hp => hp e (by simp))]
    unfold lookupIn
    rw [List.find?_cons]
    by_cases hk : e.1 = key
    · have hnone : (es.find? fun e => e.1 = key) = none := by
        rw [List.find?_eq_none]
        intro d hd hdk
        exact hnot (List.mem_map.mpr ⟨d, hd, (of_decide_eq_true hdk).trans hk.symm⟩)
      simp [hnone, hk]
    · simp [hk, Ne.symm hk]

theorem flag_foldl_copyDirective {respect : Bool} : ∀ {es : List (DirectiveKey × Option (List UInt8))}
    {state : CacheControl × Bool}, (∀ e ∈ es, Plain respect e) →
      (es.foldl (copyDirective respect) state).2 = (state.2 || (lookupIn es .maxAge).isSome)
  | [], state, _ => by simp [lookupIn]
  | e :: es, state, h => by
    rw [List.foldl_cons, flag_foldl_copyDirective fun d hd => h d (by simp [hd]), flag_copyDirective (h e (by simp))]
    unfold lookupIn
    rw [List.find?_cons]
    by_cases hk : e.1 = .maxAge
    · simp [hk]
    · simp [hk]

/-! ## The directives handed over -/

theorem lookup_addStaleWhileRevalidate {policy : CachePolicy} {cc : CacheControl} {key : DirectiveKey}
    (h : key ≠ .staleWhileRevalidate) : (addStaleWhileRevalidate policy cc).lookup key = cc.lookup key := by
  unfold addStaleWhileRevalidate
  cases policy.staleWhileRevalidateSecs with
  | none => rfl
  | some seconds =>
    by_cases hc : cc.containsKey .staleWhileRevalidate = true
    · simp only [hc, if_true]
    · simp only [hc]
      exact (IndexMap.lookup_insert _ _ _ _).trans (if_neg h)

/-- The directives of the origin, with `s-maxage` and `max-age` dropped when the ttl is pinned. -/
def pinned (policy : CachePolicy) (control : Option CacheControl) : Option CacheControl :=
  if policy.cacheControl = some false then control.map fun cc => (cc.shiftRemove .maxAge).shiftRemove .sMaxAge
  else control

def lookupOrigin (control : Option CacheControl) (key : DirectiveKey) : Option (Option (List UInt8)) :=
  control.bind fun cc => cc.lookup key

theorem lookupOrigin_pinned {policy : CachePolicy} {control : Option CacheControl} {key : DirectiveKey} :
    lookupOrigin (pinned policy control) key =
      if policy.cacheControl = some false ∧ (key = .maxAge ∨ key = .sMaxAge) then none else lookupOrigin control key := by
  unfold pinned lookupOrigin
  by_cases hp : policy.cacheControl = some false
  · rw [if_pos hp]
    cases control with
    | none => simp
    | some cc =>
      simp only [Option.map_some, Option.bind_some, IndexMap.lookup_shiftRemove, hp, true_and]
      by_cases hs : key = .sMaxAge
      · simp [hs]
      · by_cases hm : key = .maxAge
        · simp [hm]
        · simp [hs, hm]
  · simp [hp]

/-- No `s-maxage` with a value is both in the directives and respected. -/
def NoRewrite (policy : CachePolicy) (control : Option CacheControl) : Prop :=
  policy.respectSMaxage = true → ∀ v, lookupOrigin control .sMaxAge ≠ some (some v)

/-- The loop of `ensure_max_age` over the directives, and the ttl where it has put in no `max-age`. -/
def rebuilt (policy : CachePolicy) (existing : CacheControl) : CacheControl :=
  let copied := existing.entries.foldl (copyDirective policy.respectSMaxage) (IndexMap.empty, false)
  if copied.2 then copied.1 else copied.1.insert .maxAge (some (decimalBytes policy.ttl))

theorem plain_of_noRewrite {policy : CachePolicy} {existing : CacheControl} (h : NoRewrite policy (some existing)) :
    ∀ e ∈ existing.entries, Plain policy.respectSMaxage e := by
  intro e he hr hs
  have hmem := (IndexMap.mem_entries_iff existing e.1 e.2).mp he
  cases hv : e.2 with
  | none => rfl
  | some v =>
    rw [hs, hv] at hmem
    exact absurd hmem (h hr v)

theorem lookup_rebuilt {policy : CachePolicy} {existing : CacheControl} {key : DirectiveKey}
    (h : key ≠ .maxAge ∨ NoRewrite policy (some existing)) :
    (rebuilt policy existing).lookup key =
      (existing.lookup key).or (if key = .maxAge then some (some (decimalBytes policy.ttl)) else none) := by
  have hplain := h.imp_right plain_of_noRewrite
  have hcopied := @lookup_foldl_copyDirective _ _ _ (IndexMap.empty, false) existing.nodup hplain
  have hin : ∀ k, lookupIn existing.entries k = existing.lookup k := fun _ => rfl
  rw [IndexMap.lookup_empty, Option.or_none, hin] at hcopied
  unfold rebuilt
  simp only
  by_cases hm : key = .maxAge
  · have hflag := @flag_foldl_copyDirective _ _ (IndexMap.empty, false) (hplain.resolve_left fun hne => hne hm)
    rw [Bool.false_or, hin] at hflag
    rw [hflag, if_pos hm, hm]
    rw [hm] at hcopied
    cases hsome : existing.lookup .maxAge with
    | none => simp [IndexMap.lookup_insert]
    | some v =>
      rw [hsome] at hcopied
      simp [hcopied]
  · have hins : ∀ v, ((existing.entries.foldl (copyDirective policy.respectSMaxage) (IndexMap.empty, false)).1.insert
        .maxAge v).lookup key = existing.lookup key := fun v => by
      rw [IndexMap.lookup_insert, if_neg hm, hcopied]
    rw [if_neg hm, Option.or_none]
    by_cases hf : (existing.entries.foldl (copyDirective policy.respectSMaxage) (IndexMap.empty, false)).2 = true
    · rw [if_pos hf, hcopied]
    · rw [if_neg hf, hins]

theorem ensureMaxAge_eq (policy : CachePolicy) (control : Option CacheControl) :
    ensureMaxAge policy control =
      match pinned policy control with
      | some existing =>
        if existing.containsKey .maxAge && !(policy.respectSMaxage && existing.containsKey .sMaxAge) &&
            !(policy.staleWhileRevalidateSecs.any fun _ => !existing.containsKey .staleWhileRevalidate) then existing
        else addStaleWhileRevalidate policy (rebuilt policy existing)
      | none => addStaleWhileRevalidate policy (IndexMap.empty.insert .maxAge (some (decimalBytes policy.ttl))) := rfl

/-- Every directive but `max-age` is handed over as it is; `max-age` is, too, or the ttl in its place, unless an
`s-maxage` is respected. -/
theorem lookup_ensureMaxAge {policy : CachePolicy} {control : Option CacheControl} {key : DirectiveKey}
    (hk : key ≠ .staleWhileRevalidate) (h : key ≠ .maxAge ∨ NoRewrite policy (pinned policy control)) :
    (ensureMaxAge policy control).lookup key =
      (lookupOrigin (pinned policy control) key).or
        (if key = .maxAge then some (some (decimalBytes policy.ttl)) else none) := by
  rw [ensureMaxAge_eq]
  cases hc : pinned policy control with
  | none =>
    simp only
    rw [lookup_addStaleWhileRevalidate hk, IndexMap.lookup_insert, IndexMap.lookup_empty]
    rfl
  | some existing =>
    have hlookup : lookupOrigin (some existing) key = existing.lookup key := rfl
    rw [hc] at h
    rw [hlookup]
    simp only
    by_cases hsame : (existing.containsKey .maxAge && !(policy.respectSMaxage && existing.containsKey .sMaxAge) &&
        !(policy.staleWhileRevalidateSecs.any fun _ => !existing.containsKey .staleWhileRevalidate)) = true
    · rw [if_pos hsame]
      by_cases hm : key = .maxAge
      · have hsome : (existing.lookup key).isSome := by
          rw [hm]
          exact (Bool.and_eq_true_iff.mp (Bool.and_eq_true_iff.mp hsame).1).1
        rw [Option.or_of_isSome hsome]
      · rw [if_neg hm, Option.or_none]
    · rw [if_neg hsame, lookup_addStaleWhileRevalidate hk, lookup_rebuilt h]

/-! ## Lifetimes -/

/-- The value a directive of the origin has. -/
def originValue (control : Option CacheControl) (key : DirectiveKey) : Option (List UInt8) :=
  control.bind fun cc => valueOf cc key

theorem originValue_eq (control : Option CacheControl) (key : DirectiveKey) :
    originValue control key = (lookupOrigin control key).join := by
  cases control with
  | none => rfl
  | some cc => rfl

/-- The documented precedence, in seconds; a value that states no seconds gives none. -/
def documentedLifetime (pingora : Pingora) (policy : CachePolicy) (control : Option CacheControl) : Option Nat :=
  if policy.cacheControl = some false then some policy.ttl
  else
    match if policy.respectSMaxage then originValue control .sMaxAge else none with
    | some v => pingora.parseDeltaSeconds v
    | none =>
      match originValue control .maxAge with
      | some v => pingora.parseDeltaSeconds v
      | none => some policy.ttl

/-- The origin has a `max-age` directive without a value. -/
def BareMaxAge (control : Option CacheControl) : Prop := lookupOrigin control .maxAge = some none

/-- When the directives handed over state the documented lifetime. A ttl that is used must fit 32 bits, an `s-maxage`
that is not respected must state what applies without it, and a `max-age` that decides must have a value. -/
def Settled (pingora : Pingora) (policy : CachePolicy) (control : Option CacheControl) : Prop :=
  if policy.cacheControl = some false then policy.ttl < 2 ^ 32
  else
    match originValue control .sMaxAge with
    | some v => policy.respectSMaxage = true ∨ pingora.parseDeltaSeconds v =
        match originValue control .maxAge with
        | some w => pingora.parseDeltaSeconds w
        | none => some policy.ttl
    | none => originValue control .maxAge ≠ none ∨ ¬BareMaxAge control ∧ policy.ttl < 2 ^ 32

theorem decimal_eq_iff {pingora : Pingora} (hP : pingora.Documented) (n : Nat) :
    pingora.parseDeltaSeconds (decimalBytes n) = some n ↔ n < 2 ^ 32 := by
  rw [hP.decimal, Option.some.injEq]
  by_cases h : n < 2 ^ 32
  · rw [if_pos h]
    exact ⟨fun _ => h, fun _ => rfl⟩
  · rw [if_neg h]
    exact ⟨fun he => absurd he (by omega), fun hn => absurd hn h⟩

theorem valueOf_ensureMaxAge_sMaxAge (policy : CachePolicy) (control : Option CacheControl) :
    valueOf (ensureMaxAge policy control) .sMaxAge =
      if policy.cacheControl = some false then none else originValue control .sMaxAge := by
  unfold valueOf
  rw [lookup_ensureMaxAge (by simp) (.inl (by simp)), lookupOrigin_pinned, originValue_eq]
  by_cases hp : policy.cacheControl = some false
  · simp [hp]
  · simp [hp]

theorem valueOf_ensureMaxAge_maxAge {policy : CachePolicy} {control : Option CacheControl}
    (h : NoRewrite policy (pinned policy control)) :
    valueOf (ensureMaxAge policy control) .maxAge =
      ((lookupOrigin (pinned policy control) .maxAge).or (some (some (decimalBytes policy.ttl)))).join := by
  unfold valueOf
  rw [lookup_ensureMaxAge (by simp) (.inr h), if_pos rfl]

/-- Pingora reads the documented lifetime in the directives handed over exactly when the inputs are settled. -/
theorem freshDuration_iff {pingora : Pingora} (hP : pingora.Documented) {policy : CachePolicy}
    {control : Option CacheControl} (hno : pingora.noCache (ensureMaxAge policy control) = false) :
    pingora.freshDuration (ensureMaxAge policy control) = documentedLifetime pingora policy control ↔
      Settled pingora policy control := by
  rw [hP.freshDuration _ hno, valueOf_ensureMaxAge_sMaxAge]
  unfold documentedLifetime Settled
  by_cases hp : policy.cacheControl = some false
  · have hrewrite : NoRewrite policy (pinned policy control) := fun _ v hv => by
      rw [lookupOrigin_pinned, if_pos ⟨hp, .inr rfl⟩] at hv
      cases hv
    rw [if_pos hp, if_pos hp, if_pos hp]
    simp only
    rw [valueOf_ensureMaxAge_maxAge hrewrite, lookupOrigin_pinned, if_pos ⟨hp, .inl rfl⟩]
    exact decimal_eq_iff hP policy.ttl
  · have hpinned : pinned policy control = control := if_neg hp
    rw [if_neg hp, if_neg hp, if_neg hp]
    cases hs : originValue control .sMaxAge with
    | some v =>
      simp only
      cases hr : policy.respectSMaxage with
      | true => simp
      | false =>
        simp only [Bool.false_eq_true, if_false, false_or]
    | none =>
      have hrewrite : NoRewrite policy (pinned policy control) := fun _ v hv => by
        rw [hpinned] at hv
        rw [originValue_eq, hv] at hs
        cases hs
      rw [ite_self]
      simp only
      rw [valueOf_ensureMaxAge_maxAge hrewrite, hpinned, originValue_eq]
      unfold BareMaxAge
      cases hm : lookupOrigin control .maxAge with
      | none =>
        have hd := decimal_eq_iff hP policy.ttl
        simpa using hd
      | some value =>
        cases value with
        | none => simp
        | some w => simp

theorem noCache_ensureMaxAge {pingora : Pingora} (hP : pingora.Documented) {policy : CachePolicy}
    {control : Option CacheControl} (h : originResponseUncacheable pingora control = false) :
    pingora.noCache (ensureMaxAge policy control) = false := by
  rw [hP.noCache, lookup_ensureMaxAge (by simp) (.inl (by simp)), lookupOrigin_pinned, if_neg (by simp),
    if_neg (by simp), Option.or_none]
  cases control with
  | none => simp [lookupOrigin]
  | some cc =>
    unfold originResponseUncacheable at h
    rw [Option.any_some, Bool.or_eq_false_iff, Bool.or_eq_false_iff, hP.noCache] at h
    exact h.1.2

/-! ## Storing -/

/-- The response is marked `private`, `no-store` or `no-cache`, with or without field names. -/
def Marked (cc : CacheControl) : Prop :=
  cc.containsKey .noStore = true ∨ cc.containsKey .privateResponse = true ∨ cc.containsKey .noCache = true

/-- Of the marked responses the check passes those that are `private` for some fields only. -/
theorem marked_iff {pingora : Pingora} (hP : pingora.Documented) {cc : CacheControl}
    (h : originResponseUncacheable pingora (some cc) = false) : Marked cc ↔ valueOf cc .privateResponse ≠ none := by
  unfold originResponseUncacheable at h
  rw [Option.any_some, Bool.or_eq_false_iff, Bool.or_eq_false_iff, Bool.or_eq_false_iff, hP.noStore, hP.isPrivate,
    hP.noCache, hP.noCacheFieldNames] at h
  obtain ⟨⟨⟨hstore, hprivate⟩, hcache⟩, hnames⟩ := h
  have hnone : cc.containsKey .noCache = false := by
    unfold IndexMap.containsKey
    unfold valueOf at hnames
    cases hl : cc.lookup .noCache with
    | none => rfl
    | some value =>
      rw [hl] at hcache hnames
      cases value with
      | none => simp at hcache
      | some v => simp at hnames
  unfold Marked
  rw [hstore, hnone]
  unfold valueOf IndexMap.containsKey
  cases hl : cc.lookup .privateResponse with
  | none => simp
  | some value =>
    rw [hl] at hprivate
    cases value with
    | none => simp at hprivate
    | some v => simp

/-- The response is handed over only when it is not marked, and then with its documented lifetime. -/
def FreshnessSound (pingora : Pingora) (policy : CachePolicy) (headers : HeaderMap) : RespCacheable → Prop
  | .handed control _ =>
    (∀ cc, pingora.fromRespHeaders headers = some cc → ¬Marked cc) ∧
      pingora.freshDuration control = documentedLifetime pingora policy (pingora.fromRespHeaders headers)
  | _ => True

/-- The freshness of a response is as documented exactly when it is refused, by its status, its headers and its request
or by the check of its directives, or when it is not `private` for some fields and its lifetime is settled. -/
theorem responseCacheability_sound_iff {pingora : Pingora} (hP : pingora.Documented) {ctx : ProxyContext υ}
    {settings : CacheSettings} (hs : ctx.cacheSettings = some settings) (noCacheFlag : Bool) (status : Nat)
    (headers : HeaderMap) :
    FreshnessSound pingora settings.policy headers (responseCacheability pingora ctx noCacheFlag status headers) ↔
      refusesResponse settings ctx noCacheFlag status headers = true ∨
        originResponseUncacheable pingora (pingora.fromRespHeaders headers) = true ∨
        originValue (pingora.fromRespHeaders headers) .privateResponse = none ∧
          Settled pingora settings.policy (pingora.fromRespHeaders headers) := by
  unfold responseCacheability
  rw [hs]
  simp only
  by_cases hr : refusesResponse settings ctx noCacheFlag status headers = true
  · rw [if_pos hr]
    exact ⟨fun _ => .inl hr, fun _ => trivial⟩
  · rw [if_neg hr, or_iff_right hr]
    by_cases hu : originResponseUncacheable pingora (pingora.fromRespHeaders headers) = true
    · rw [if_pos hu]
      exact ⟨fun _ => .inl hu, fun _ => trivial⟩
    · rw [if_neg hu, or_iff_right hu]
      have hu' : originResponseUncacheable pingora (pingora.fromRespHeaders headers) = false := Bool.not_eq_true _ ▸ hu
      refine and_congr ?_ (freshDuration_iff hP (noCache_ensureMaxAge hP hu'))
      cases hc : pingora.fromRespHeaders headers with
      | none => simp [originValue]
      | some cc =>
        rw [hc] at hu'
        simp [originValue, marked_iff hP hu']

/-! ## An `s-maxage` that is not respected -/

/-- Seconds in decimal, saturating as Pingora's do. -/
def readDeltaSeconds (bytes : List UInt8) : Option Nat :=
  let digits := bytes.map fun b => Char.ofNat b.toNat
  if digits ≠ [] ∧ digits.all Char.isDigit = true then
    some (if Nat.ofDigitChars 10 digits 0 < 2 ^ 32 then Nat.ofDigitChars 10 digits 0 else 2 ^ 31)
  else none

theorem readDeltaSeconds_decimalBytes (n : Nat) :
    readDeltaSeconds (decimalBytes n) = some (if n < 2 ^ 32 then n else 2 ^ 31) := by
  have hdigit : ∀ c ∈ Nat.toDigits 10 n, c.isDigit = true := fun c hc =>
    Nat.isDigit_of_mem_toDigits (by decide) (by decide) hc
  have hascii : ∀ c ∈ Nat.toDigits 10 n, 0 < c.toNat ∧ c.toNat < 0x80 := fun c hc => by
    have h := Char.isDigit_iff_toNat.mp (hdigit c hc)
    simp only [show ('0' : Char).toNat = 48 from rfl, show ('9' : Char).toNat = 57 from rfl] at h
    omega
  have hchars : (decimalBytes n).map (fun b => Char.ofNat b.toNat) = Nat.toDigits 10 n := by
    have hbytes : decimalBytes n = (Nat.toDigits 10 n).map fun c => UInt8.ofNat c.toNat := by
      unfold decimalBytes bytesOf
      rw [Nat.toString_eq_repr, Nat.toList_repr]
      exact Utf8.encode_ascii hascii
    rw [hbytes, Utf8.decode_ascii fun c hc => (hascii c hc).2]
  unfold readDeltaSeconds
  simp only [hchars]
  rw [if_pos ⟨Nat.toDigits_ne_nil, List.all_eq_true.mpr hdigit⟩, Nat.ofDigitChars_ten_toDigits]

/-- Pingora's reading of a response with these directives. -/
def readingOf (control : HeaderMap → Option CacheControl) : Pingora where
  fromRespHeaders := control
  noStore cc := cc.containsKey .noStore
  isPrivate cc := cc.lookup .privateResponse = some none
  noCache cc := cc.lookup .noCache = some none
  noCacheFieldNames cc := (valueOf cc .noCache).isSome
  parseDeltaSeconds := readDeltaSeconds
  freshDuration cc :=
    match valueOf cc .sMaxAge with
    | some v => readDeltaSeconds v
    | none => (valueOf cc .maxAge).bind readDeltaSeconds

theorem documented_readingOf (control : HeaderMap → Option CacheControl) : (readingOf control).Documented where
  noStore _ := rfl
  isPrivate _ := rfl
  noCache _ := rfl
  noCacheFieldNames _ := rfl
  freshDuration _ _ := rfl
  decimal := readDeltaSeconds_decimalBytes

def sharedTenMinutes : HeaderMap := [("cache-control", ⟨bytesOf "s-maxage=600", List.all_eq_true.mp (by decide)⟩)]

def readSharedTenMinutes (headers : HeaderMap) : Option CacheControl :=
  if headers = sharedTenMinutes then some (IndexMap.empty.insert .sMaxAge (some (bytesOf "600"))) else none

def ownTtl : CacheSettings := CacheConfig.settings { respectSMaxage := false } 1048576

def ownTtlContext : ProxyContext String := { cacheSettings := some ownTtl }

theorem responseCacheability_sound_iff_ownTtl :
    FreshnessSound (readingOf readSharedTenMinutes) ownTtl.policy sharedTenMinutes
        (responseCacheability (readingOf readSharedTenMinutes) ownTtlContext false 200 sharedTenMinutes) ↔
      refusesResponse ownTtl ownTtlContext false 200 sharedTenMinutes = true ∨
        originResponseUncacheable (readingOf readSharedTenMinutes) (readSharedTenMinutes sharedTenMinutes) = true ∨
        originValue (readSharedTenMinutes sharedTenMinutes) .privateResponse = none ∧
          Settled (readingOf readSharedTenMinutes) ownTtl.policy (readSharedTenMinutes sharedTenMinutes) :=
  responseCacheability_sound_iff (documented_readingOf _) rfl false 200 sharedTenMinutes

/-- With a ttl of 300 s and `s-maxage` not respected, the response is fresh for its `s-maxage` of 600 s. -/
theorem responseCacheability_keeps_sMaxAge :
    ¬∀ (pingora : Pingora) (ctx : ProxyContext String) (settings : CacheSettings) (noCacheFlag : Bool) (status : Nat)
      (headers : HeaderMap), pingora.Documented → ctx.cacheSettings = some settings →
      FreshnessSound pingora settings.policy headers (responseCacheability pingora ctx noCacheFlag status headers) := by
  intro h
  have hs := (h _ ownTtlContext ownTtl false 200 sharedTenMinutes (documented_readingOf readSharedTenMinutes) rfl)
  have heq : (some 600 : Option Nat) = some 300 := hs.2
  cases heq

end Pingsix
