import Pingsix.Lib.Except
import Pingsix.Retry

/-!
# Soundness of retries

The retries granted over all attempts of a request. In a build without checks
the count and the timeout are kept for every upstream; in one with checks the
first failure to connect is an overflow exactly if the upstream has retries and
a timeout that is too large in milliseconds.
-/

namespace Pingsix

/-! ## One attempt -/

theorem getRetries_lt (upstream : Upstream) : upstream.getRetries.getD 0 < 2 ^ usizeBits := by
  unfold Upstream.getRetries
  cases upstream.retries with
  | none => exact Nat.two_pow_pos _
  | some retries => exact Nat.mod_lt _ (Nat.two_pow_pos _)

theorem getRetries_le (upstream : Upstream) : upstream.getRetries.getD 0 ≤ upstream.retries.getD 0 := by
  unfold Upstream.getRetries
  cases upstream.retries with
  | none => exact Nat.le_refl 0
  | some retries => exact Nat.mod_le _ _

@[simp] theorem observePassive_tries (ctx : RetryContext) (backend : BackendId) (outcome : Option PassiveOutcome) :
    (ctx.observePassive backend outcome).tries = ctx.tries := by
  cases outcome with
  | none => rfl
  | some outcome => rfl

/-- Each kind of error is observed by one callback at most. -/
theorem connectOutcome_or_proxyOutcome (etype : ErrorType) : etype.connectOutcome = none ∨ etype.proxyOutcome = none := by
  cases etype with
  | connectTimedout | tlsHandshakeTimedout | connectRefused | connectNoRoute | connectError | tlsHandshakeFailure
  | handshakeError => exact .inr rfl
  | readTimedout | writeTimedout | readError | writeError | connectionClosed | other => exact .inl rfl

theorem errorWhileProxy_spec (ctx : RetryContext) (e : AttemptError) :
    (errorWhileProxy ctx e).1.tries = ctx.tries ∧ (errorWhileProxy ctx e).2 = e := by
  unfold errorWhileProxy
  by_cases hs : e.esource = .upstream
  · rw [if_pos hs]
    cases ctx.selected with
    | none => exact ⟨rfl, rfl⟩
    | some selected => exact ⟨observePassive_tries .., rfl⟩
  · rw [if_neg hs]
    exact ⟨rfl, rfl⟩

/-- Without retries left, a failure to connect is only observed. -/
theorem failToConnect_of_spent {arithmetic : Arithmetic} {elapsedMs : Nat} {ctx : RetryContext} {e : AttemptError}
    {selected : SelectedUpstream} (hs : ctx.selected = some selected)
    (hspent : selected.upstream.getRetries.getD 0 ≤ ctx.tries) :
    failToConnect arithmetic elapsedMs ctx e = .ok (ctx.observePassive selected.backend e.etype.connectOutcome, e) := by
  unfold failToConnect
  rw [hs]
  simp only
  cases hr : selected.upstream.getRetries with
  | none => rfl
  | some retries =>
    rw [hr, Option.getD_some] at hspent
    simp only [observePassive_tries]
    rw [if_neg fun h => Nat.not_lt.mpr hspent h.2]

/-- With retries left, one is granted within the timeout. -/
theorem failToConnect_of_left {arithmetic : Arithmetic} {elapsedMs : Nat} {ctx : RetryContext} {e : AttemptError}
    {selected : SelectedUpstream} (hs : ctx.selected = some selected)
    (hleft : ctx.tries < selected.upstream.getRetries.getD 0) :
    failToConnect arithmetic elapsedMs ctx e = (withinTimeout arithmetic selected.upstream elapsedMs).map fun within =>
      let ctx := ctx.observePassive selected.backend e.etype.connectOutcome
      if within then ({ ctx with tries := ctx.tries + 1 }, { e with retry := .decided true }) else (ctx, e) := by
  have hbound := getRetries_lt selected.upstream
  unfold failToConnect
  rw [hs]
  simp only
  cases hr : selected.upstream.getRetries with
  | none =>
    rw [hr] at hleft
    exact absurd hleft (Nat.not_lt_zero _)
  | some retries =>
    rw [hr, Option.getD_some] at hleft hbound
    simp only [observePassive_tries]
    rw [if_pos ⟨Nat.zero_lt_of_lt hleft, hleft⟩, Arithmetic.fit_of_lt (Nat.lt_of_le_of_lt hleft hbound)]
    cases withinTimeout arithmetic selected.upstream elapsedMs with
    | error failure => rfl
    | ok within =>
      cases within with
      | false => rfl
      | true => rfl

/-- The timeout is compared in a build without checks, or when it fits. -/
theorem withinTimeout_ok {arithmetic : Arithmetic} {upstream : Upstream} {elapsedMs : Nat}
    (hfit : arithmetic = .wrapping ∨ ∀ timeout ∈ upstream.retryTimeout, timeout * 1000 < 2 ^ 64) :
    ∃ within, withinTimeout arithmetic upstream elapsedMs = .ok within ∧
      (within = true → ∀ timeout ∈ upstream.retryTimeout, elapsedMs ≤ timeout * 1000) := by
  unfold withinTimeout
  cases htimeout : upstream.retryTimeout with
  | none => exact ⟨true, rfl, fun _ => nofun⟩
  | some timeout =>
    have hlimit : ∃ limit, arithmetic.fit 64 (timeout * 1000) = .ok limit ∧ limit ≤ timeout * 1000 := by
      cases hfit with
      | inl hw =>
        rw [hw]
        exact Arithmetic.fit_wrapping_le 64 _
      | inr hlt => exact ⟨_, Arithmetic.fit_of_lt (hlt timeout htimeout), Nat.le_refl _⟩
    obtain ⟨limit, hlimit, hle⟩ := hlimit
    simp only
    rw [hlimit]
    refine ⟨decide (elapsedMs ≤ limit), rfl, fun hwithin t ht => ?_⟩
    cases ht
    exact Nat.le_trans (of_decide_eq_true hwithin) hle

/-- A failure of a connection leaves the retries alone. -/
theorem attempt_connected {arithmetic : Arithmetic} {upstream : Upstream} {ctx : RetryContext} {a : Attempt}
    (h : a.connected = true) :
    ∃ ctx', attempt arithmetic upstream ctx a = .ok (ctx', a.error) ∧ ctx'.tries = ctx.tries := by
  have hspec := errorWhileProxy_spec { ctx with selected := some ⟨upstream, a.backend⟩ } a.error
  unfold attempt
  simp only
  rw [if_pos h]
  generalize errorWhileProxy { ctx with selected := some ⟨upstream, a.backend⟩ } a.error = out at hspec ⊢
  obtain ⟨ctx', e⟩ := out
  obtain ⟨hcount, rfl⟩ := hspec
  exact ⟨ctx', rfl, hcount⟩

/-- The timeout is not too large for the attempt, or the build does not check. -/
def Fits (arithmetic : Arithmetic) (upstream : Upstream) (a : Attempt) : Prop :=
  arithmetic = .wrapping ∨ (a.connected = false → 0 < upstream.getRetries.getD 0 →
    ∀ timeout ∈ upstream.retryTimeout, timeout * 1000 < 2 ^ 64)

/-- One attempt counts a retry it grants, and grants it within the timeout. -/
theorem attempt_spec {arithmetic : Arithmetic} {upstream : Upstream} {ctx : RetryContext} {a : Attempt}
    (hfit : Fits arithmetic upstream a) (htries : ctx.tries ≤ upstream.getRetries.getD 0) :
    ∃ ctx' e, attempt arithmetic upstream ctx a = .ok (ctx', e) ∧ ctx'.tries ≤ upstream.getRetries.getD 0 ∧
      ctx.tries ≤ ctx'.tries ∧ ((!a.error.retry.granted && e.retry.granted) = true → ctx'.tries = ctx.tries + 1 ∧
        ∀ timeout ∈ upstream.retryTimeout, a.elapsedMs ≤ timeout * 1000) := by
  have hsame : ∀ r : Bool, (!r && r) = true → False := by decide
  cases hconnected : a.connected with
  | true =>
    obtain ⟨ctx', hstep, hcount⟩ := @attempt_connected arithmetic upstream ctx a hconnected
    exact ⟨ctx', a.error, hstep, hcount ▸ htries, Nat.le_of_eq hcount.symm, fun hgranted => (hsame _ hgranted).elim⟩
  | false =>
    unfold attempt
    simp only
    rw [hconnected, if_neg (by decide)]
    by_cases hleft : ctx.tries < upstream.getRetries.getD 0
    · have hfit := hfit.imp id fun h => h hconnected (Nat.zero_lt_of_lt hleft)
      obtain ⟨within, hwithin, htime⟩ := @withinTimeout_ok arithmetic upstream a.elapsedMs hfit
      rw [failToConnect_of_left rfl hleft, hwithin]
      cases within with
      | true =>
        refine ⟨_, _, rfl, ?_, ?_, fun _ => ⟨?_, htime rfl⟩⟩
        · simpa using Nat.succ_le_of_lt hleft
        · simp
        · simp
      | false => exact ⟨_, _, rfl, by simpa using htries, by simp, fun hgranted => (hsame _ hgranted).elim⟩
    · rw [failToConnect_of_spent rfl (Nat.not_lt.mp hleft)]
      exact ⟨_, _, rfl, by simpa using htries, by simp, fun hgranted => (hsame _ hgranted).elim⟩

/-! ## All attempts -/

/-- No more retries than configured, each within the timeout. -/
structure WithinBudget (upstream : Upstream) (grants : List Grant) : Prop where
  count : (grants.filter (·.granted)).length ≤ upstream.retries.getD 0
  time : ∀ grant ∈ grants, grant.granted = true → ∀ timeout ∈ upstream.retryTimeout, grant.elapsedMs ≤ timeout * 1000

theorem attempts_cons {arithmetic : Arithmetic} {upstream : Upstream} {ctx ctx' : RetryContext} {a : Attempt}
    {e : AttemptError} (h : attempt arithmetic upstream ctx a = .ok (ctx', e)) (as : List Attempt) :
    attempts arithmetic upstream ctx (a :: as) =
      (attempts arithmetic upstream ctx' as).map fun run => (run.1, ⟨a.elapsedMs, !a.error.retry.granted && e.retry.granted⟩ :: run.2) := by
  rw [attempts, h]
  show (attempts arithmetic upstream ctx' as >>= _) = _
  cases attempts arithmetic upstream ctx' as with
  | error failure => rfl
  | ok run => rfl

theorem attempts_spec {arithmetic : Arithmetic} {upstream : Upstream} :
    ∀ {as : List Attempt} {ctx : RetryContext}, (∀ a ∈ as, Fits arithmetic upstream a) →
      ctx.tries ≤ upstream.getRetries.getD 0 →
      ∃ ctx' grants, attempts arithmetic upstream ctx as = .ok (ctx', grants) ∧
        ctx.tries + (grants.filter (·.granted)).length ≤ upstream.getRetries.getD 0 ∧
        ∀ grant ∈ grants, grant.granted = true → ∀ timeout ∈ upstream.retryTimeout, grant.elapsedMs ≤ timeout * 1000
  | [], ctx, _, htries => ⟨ctx, [], rfl, by simpa using htries, by simp⟩
  | a :: as, ctx, hfit, htries => by
    obtain ⟨ctx₁, e, hstep, hbound, hmono, hgranted⟩ := attempt_spec (hfit a (by simp)) htries
    obtain ⟨ctx', grants, hrun, hcount, htime⟩ := attempts_spec (fun b hb => hfit b (List.mem_cons_of_mem _ hb)) hbound
    refine ⟨ctx', ⟨a.elapsedMs, !a.error.retry.granted && e.retry.granted⟩ :: grants, ?_, ?_, ?_⟩
    · rw [attempts_cons hstep, hrun]
      rfl
    · cases hg : !a.error.retry.granted && e.retry.granted with
      | true =>
        have hone := (hgranted hg).1
        simp only [List.filter_cons, if_true, List.length_cons]
        omega
      | false =>
        simp only [List.filter_cons, Bool.false_eq_true, if_false]
        omega
    · intro grant hmem
      cases hmem with
      | head => exact fun hg => (hgranted hg).2
      | tail _ hmem => exact htime grant hmem

/-- All attempts of a request, from its first one on. -/
theorem attempts_withinBudget {arithmetic : Arithmetic} {upstream : Upstream} (passive : Option PassiveHealthState)
    {as : List Attempt} (hfit : ∀ a ∈ as, Fits arithmetic upstream a) :
    ∃ ctx grants, attempts arithmetic upstream { passive } as = .ok (ctx, grants) ∧ WithinBudget upstream grants := by
  have hzero : ({ passive } : RetryContext).tries ≤ upstream.getRetries.getD 0 := Nat.zero_le _
  obtain ⟨ctx, grants, hrun, hcount, htime⟩ := attempts_spec hfit hzero
  exact ⟨ctx, grants, hrun, Nat.le_trans (by simpa using hcount) (getRetries_le upstream), htime⟩

/-- Without checks the budget is kept for every upstream and all attempts. -/
theorem withinBudget_wrapping (upstream : Upstream) (passive : Option PassiveHealthState) (as : List Attempt) :
    ∃ ctx grants, attempts .wrapping upstream { passive } as = .ok (ctx, grants) ∧ WithinBudget upstream grants :=
  attempts_withinBudget passive fun _ _ => .inl rfl

/-- A timeout that does not fit is an overflow at the first failure to connect. -/
theorem attempts_overflow {upstream : Upstream} (hretries : 0 < upstream.getRetries.getD 0) {timeout : Nat}
    (htimeout : upstream.retryTimeout = some timeout) (hlarge : 2 ^ 64 ≤ timeout * 1000) :
    ∀ {as : List Attempt} {ctx : RetryContext}, ctx.tries = 0 → (∃ a ∈ as, a.connected = false) →
      attempts .checked upstream ctx as = .error .overflow := by
  intro as
  induction as with
  | nil =>
    rintro ctx - ⟨a, ha, -⟩
    cases ha
  | cons a as ih =>
    intro ctx htries hfail
    cases hconnected : a.connected with
    | true =>
      have hrest : ∃ a ∈ as, a.connected = false := by
        obtain ⟨b, hb, hbc⟩ := hfail
        cases hb with
        | head => rw [hconnected] at hbc; cases hbc
        | tail _ hb => exact ⟨b, hb, hbc⟩
      obtain ⟨ctx', hstep, hcount⟩ := @attempt_connected .checked upstream ctx a hconnected
      rw [attempts_cons hstep, ih (hcount.trans htries) hrest]
      rfl
    | false =>
      have hlimit : withinTimeout .checked upstream a.elapsedMs = .error .overflow := by
        unfold withinTimeout
        rw [htimeout]
        simp only
        rw [Arithmetic.fit_checked_overflow hlarge]
        rfl
      have hstep : attempt .checked upstream ctx a = .error .overflow := by
        unfold attempt
        simp only
        rw [hconnected, if_neg (by decide), failToConnect_of_left rfl (by simpa [htries] using hretries), hlimit]
        rfl
      rw [attempts, hstep]
      rfl

/-- The budget is kept over all attempts of a request, and nothing overflows. -/
def RetriesAccounted (upstream : Upstream) (passive : Option PassiveHealthState) (as : List Attempt) : Prop :=
  ∃ ctx grants, attempts .checked upstream { passive } as = .ok (ctx, grants) ∧ WithinBudget upstream grants

theorem retriesAccounted_iff (upstream : Upstream) (passive : Option PassiveHealthState) (as : List Attempt) :
    RetriesAccounted upstream passive as ↔
      ¬((∃ a ∈ as, a.connected = false) ∧ 0 < upstream.getRetries.getD 0 ∧
        ∃ timeout ∈ upstream.retryTimeout, 18446744073709551 < timeout) := by
  constructor
  · rintro ⟨ctx, grants, hrun, -⟩ ⟨hfail, hretries, timeout, htimeout, hlarge⟩
    rw [attempts_overflow hretries htimeout (by omega) rfl hfail] at hrun
    cases hrun
  · intro h
    refine attempts_withinBudget passive fun a ha => .inr fun hconnected hretries timeout htimeout => ?_
    have hsmall : ¬18446744073709551 < timeout := fun hlarge => h ⟨⟨a, ha, hconnected⟩, hretries, timeout, htimeout, hlarge⟩
    omega

/-- One retry within more seconds than fit in milliseconds. -/
def largeTimeout : Json :=
  .obj [("nodes", .obj [("127.0.0.1:80", .num (.posInt 1))]), ("retries", .num (.posInt 1)),
    ("retry_timeout", .num (.posInt 18446744073709552))]

/-- A failure to connect after 385 milliseconds. -/
def lateFailure : Attempt where
  backend := ⟨⟨.v4 [127, 0, 0, 1], 80⟩, 1⟩
  connected := false
  error := ⟨.connectRefused, .upstream, .decided false⟩
  elapsedMs := 385

/-- The upstream passes validation; the product overflows, and without checks it wraps to less than what has elapsed. -/
theorem attempts_largeTimeout :
    ∃ upstream, Upstream.fromValue largeTimeout = .ok upstream ∧ upstream.validate = [] ∧
      ¬RetriesAccounted upstream none [lateFailure] ∧
      (attempts .checked upstream {} [lateFailure]).map (·.2) = .error .overflow ∧
      (attempts .wrapping upstream {} [lateFailure]).map (·.2) = .ok [⟨385, false⟩] := by
  refine ⟨{ retries := some 1, retryTimeout := some 18446744073709552, nodes := ⟨[⟨"127.0.0.1", some 80, 1, 0⟩]⟩ },
    by decide, by decide, ?_, by decide, by decide⟩
  rintro ⟨ctx, grants, hrun, -⟩
  have herror : (attempts .checked { retries := some 1, retryTimeout := some 18446744073709552, nodes := ⟨[⟨"127.0.0.1", some 80, 1, 0⟩]⟩ }
      {} [lateFailure]).map (·.2) = .error .overflow := by decide
  rw [hrun] at herror
  cases herror

end Pingsix
