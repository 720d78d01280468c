import Pingsix.MirrorResolver

/-!
# Single flight of mirror lookups

One lookup at a time, no stranded follower, and addresses and errors that are
recent enough. An error may be older than the call when a flight ends without an
outcome of its own, since the recorded error is cleared by a success alone.
-/

namespace Pingsix.ProxyMirror

/-! ## What is promised -/

/-- At most one lookup is in flight. -/
def SingleFlight (s : MirrorResolver) : Prop :=
  ∀ i j start start' flight flight', s.callers i = .looking start flight → s.callers j = .looking start' flight' → i = j

/-- A follower that is not awake waits for a flight that has not ended. -/
def FollowersWoken (s : MirrorResolver) : Prop :=
  ∀ i start ticket flight, s.callers i = .waiting start ticket flight → ticket < s.shared.notifications ∨
    ∃ j, (s.callers j).heldFlight = some flight

/-- An address comes from a recent success. An error is returned without one, and it is the outcome of a flight that
had not ended when the call began. -/
def ResultSound (sh : Shared) (start : Nat) : Except String SocketAddr → Prop
  | .ok addr => ∃ flight at_, sh.outcomes flight = some (.ok addr, at_) ∧ at_ ≤ sh.now ∧
      sh.now - at_ < mirrorDnsCacheTtl + mirrorDnsStaleGrace
  | .error error =>
    (∀ flight addr at_, sh.outcomes flight = some (.ok addr, at_) → mirrorDnsCacheTtl + mirrorDnsStaleGrace ≤ sh.now - at_) ∧
      ∃ flight at_, start ≤ flight ∧ sh.outcomes flight = some (.error error, at_)

/-- A step that decides the result of a call decides it soundly. -/
def StepSound (s s' : MirrorResolver) : Prop :=
  ∀ i result, (s.callers i).decided = none → (s'.callers i).decided = some result →
    ResultSound s'.shared (s.callers i).start result

/-! ## The condition -/

/-- A caller that the next notification wakes. -/
def Registered (s : MirrorResolver) (j : Nat) : Prop :=
  (∃ start, s.callers j = .loading start s.shared.notifications) ∨
    ∃ start flight, s.callers j = .waiting start s.shared.notifications flight

/-- A flight that was cancelled, or was followed by another before its notification, wakes nobody while an error is
recorded; and no lookup succeeds between the two reads of a woken follower. -/
def FlightCondition (_ : List ResolverEvent) (s : MirrorResolver) : ResolverEvent → Prop
  | .notifyWaiters i => ∀ start flight result, s.callers i = .notifying start flight result →
      (result.isSome = true ∧ s.shared.flights = flight + 1) ∨ s.shared.state.lastError = none ∨ ∀ j, ¬Registered s j
  | .lastError i => ∀ start resolvedAt, s.callers i = .reading start resolvedAt →
      s.shared.state.resolvedAt = resolvedAt ∨ s.shared.state.lastError = none
  | _ => True

/-! ## The steps of a caller -/

inductive Moves (sh : Shared) : ResolverEvent → Caller → Caller → Shared → Prop
  | begins {i} : Moves sh (.begins i) .idle (.checking sh.ended) sh
  | fresh {i start addr} (h : sh.state.cachedFresh sh.now = some addr) :
      Moves sh (.cachedFresh i) (.checking start) (.returned (.ok addr)) sh
  | missed {i start} : Moves sh (.cachedFresh i) (.checking start) (.electing start) sh
  | elected {i start} (h : sh.lookupInFlight = false) : Moves sh (.compareExchange i) (.electing start)
      (.looking start sh.flights) { sh with lookupInFlight := true, flights := sh.flights + 1 }
  | follows {i start} (h : sh.lookupInFlight = true) :
      Moves sh (.compareExchange i) (.electing start) (.registering start) sh
  | resolved {i start flight addr} : Moves sh (.lookup i (.ok addr)) (.looking start flight)
      (.clearing start flight (some (.ok addr))) (sh.publish flight (.ok addr))
  | unresolved {i start flight error} : Moves sh (.lookup i (.error error)) (.looking start flight)
      (.failing start flight error) (sh.publish flight (.error error))
  | leaderReuses {i start flight error addr} (h : sh.state.staleReuse sh.now = some addr) :
      Moves sh (.staleReuse i) (.failing start flight error) (.clearing start flight (some (.ok addr))) sh
  | leaderFails {i start flight error} (h : sh.state.staleReuse sh.now = none) :
      Moves sh (.staleReuse i) (.failing start flight error) (.clearing start flight (some (.error error))) sh
  | clears {i start flight result} : Moves sh (.clearFlag i) (.clearing start flight result)
      (.notifying start flight result) { sh with lookupInFlight := false }
  | notifies {i start flight result} : Moves sh (.notifyWaiters i) (.notifying start flight result)
      (result.elim .cancelled .returned) { sh with notifications := sh.notifications + 1 }
  | registers {i start} : Moves sh (.notified i) (.registering start) (.loading start sh.notifications) sh
  | waits {i start ticket} (h : sh.lookupInFlight = true) :
      Moves sh (.loadFlag i) (.loading start ticket) (.waiting start ticket (sh.flights - 1)) sh
  | retries {i start ticket} : Moves sh (.loadFlag i) (.loading start ticket) (.checking start) sh
  | wakes {i start ticket flight} (h : ticket < sh.notifications) :
      Moves sh (.wake i) (.waiting start ticket flight) (.woken start) sh
  | reuses {i start addr} (h : sh.state.staleReuse sh.now = some addr) :
      Moves sh (.staleReuse i) (.woken start) (.returned (.ok addr)) sh
  | reads {i start} (h : sh.state.staleReuse sh.now = none) :
      Moves sh (.staleReuse i) (.woken start) (.reading start sh.state.resolvedAt) sh
  | fails {i start resolvedAt error} (h : sh.state.lastError = some error) :
      Moves sh (.lastError i) (.reading start resolvedAt) (.returned (.error error)) sh
  | rechecks {i start resolvedAt} : Moves sh (.lastError i) (.reading start resolvedAt) (.checking start) sh
  | abandons {i start flight} : Moves sh (.cancel i) (.looking start flight) (.clearing start flight none) sh
  | leaves {i start ticket flight} : Moves sh (.cancel i) (.waiting start ticket flight) .cancelled sh

theorem moves_of_step {sh sh' : Shared} {e : ResolverEvent} {c c' : Caller} (h : c.step sh e = some (c', sh')) :
    Moves sh e c c' sh' := by
  unfold Caller.step at h
  split at h
  case h_1 => cases h; exact .begins
  case h_2 =>
    split at h
    case h_1 hf => cases h; exact .fresh hf
    case h_2 => cases h; exact .missed
  case h_3 =>
    split at h
    case isTrue hf => cases h; exact .follows hf
    case isFalse hf => cases h; exact .elected (by simpa using hf)
  case h_4 outcome start flight =>
    cases outcome with
    | ok addr => cases h; exact .resolved
    | error error => cases h; exact .unresolved
  case h_5 =>
    split at h
    case h_1 hf => cases h; exact .leaderReuses hf
    case h_2 hf => cases h; exact .leaderFails hf
  case h_6 => cases h; exact .clears
  case h_7 => cases h; exact .notifies
  case h_8 => cases h; exact .registers
  case h_9 =>
    split at h
    case isTrue hf => cases h; exact .waits hf
    case isFalse => cases h; exact .retries
  case h_10 =>
    split at h
    case isTrue hf => cases h; exact .wakes hf
    case isFalse => cases h
  case h_11 =>
    split at h
    case h_1 hf => cases h; exact .reuses hf
    case h_2 hf => cases h; exact .reads hf
  case h_12 =>
    split at h
    case h_1 hf => cases h; exact .fails hf
    case h_2 => cases h; exact .rechecks
  case h_13 => cases h; exact .abandons
  case h_14 => cases h; exact .leaves
  case h_15 => cases h

/-! ## What is kept -/

/-- The recorded error is what the lookup of the flight came to. -/
def Reflects (sh : Shared) (flight : Nat) : Prop :=
  ∃ outcome at_, sh.outcomes flight = some (outcome, at_) ∧
    sh.state.lastError = match outcome with
      | .ok _ => none
      | .error error => some error

/-- The recorded error is that of a flight that had not ended when the call began. -/
def Ready (sh : Shared) (start : Nat) : Prop :=
  ∀ error, sh.state.lastError = some error → ∃ flight at_, start ≤ flight ∧ sh.outcomes flight = some (.error error, at_)

/-- The address in the state is that of the last success. -/
structure SharedInv (sh : Shared) : Prop where
  unknown : ∀ flight, sh.flights ≤ flight → sh.outcomes flight = none
  flag : sh.lookupInFlight = true → 0 < sh.flights
  known : ∀ flight addr at_, sh.outcomes flight = some (.ok addr, at_) →
    ∃ resolvedAt, sh.state.resolvedAt = some resolvedAt ∧ at_ ≤ resolvedAt
  source : ∀ resolvedAt, sh.state.resolvedAt = some resolvedAt → resolvedAt ≤ sh.now ∧
    ∃ flight addr, sh.state.addr = some addr ∧ sh.outcomes flight = some (.ok addr, resolvedAt)

def CallerInv (sh : Shared) : Caller → Prop
  | .idle | .returned _ | .cancelled => True
  | .checking start | .electing start => start ≤ sh.ended
  | .looking start flight => sh.lookupInFlight = true ∧ sh.flights = flight + 1 ∧ start ≤ flight ∧
      sh.outcomes flight = none
  | .failing start flight error => sh.lookupInFlight = true ∧ sh.flights = flight + 1 ∧ start ≤ flight ∧
      sh.state.lastError = some error ∧ ∃ at_, sh.outcomes flight = some (.error error, at_)
  | .clearing _ flight result => sh.lookupInFlight = true ∧ sh.flights = flight + 1 ∧
      (result.isSome = true → Reflects sh flight)
  | .notifying _ flight result => flight < sh.ended ∧ (result.isSome = true → sh.flights = flight + 1 → Reflects sh flight)
  | .registering start => start < sh.flights
  | .loading start ticket | .waiting start ticket _ => start < sh.flights ∧ ticket ≤ sh.notifications ∧
      (ticket < sh.notifications → Ready sh start)
  | .woken start => start < sh.flights ∧ Ready sh start
  | .reading start resolvedAt => start < sh.flights ∧ Ready sh start ∧
      ∀ at_, resolvedAt = some at_ → mirrorDnsCacheTtl + mirrorDnsStaleGrace ≤ sh.now - at_

section
variable {sh sh' : Shared} {e : ResolverEvent} {c c' d : Caller}

theorem flag_of_flagFlight {flight : Nat} (hi : CallerInv sh c) (h : c.flagFlight = some flight) :
    sh.lookupInFlight = true ∧ sh.flights = flight + 1 := by
  cases c with
  | looking | failing | clearing =>
    cases h
    exact ⟨hi.1, hi.2.1⟩
  | _ => cases h

/-! ## The state behind the mutex -/

theorem addrWithin_eq_some {state : MirrorDnsState} {limit now : Nat} {addr : SocketAddr}
    (h : state.addrWithin limit now = some addr) :
    ∃ resolvedAt, state.resolvedAt = some resolvedAt ∧ now - resolvedAt < limit ∧ state.addr = some addr := by
  unfold MirrorDnsState.addrWithin at h
  rw [Option.ite_none_right_eq_some] at h
  cases hr : state.resolvedAt with
  | none => rw [hr] at h; exact absurd h.1 (by simp)
  | some resolvedAt =>
    rw [hr] at h
    exact ⟨resolvedAt, rfl, by simpa using h.1, h.2⟩

/-- What is found within a limit is a recent success. -/
theorem SharedInv.ok_sound (hi : SharedInv sh) {limit start : Nat} (hl : limit ≤ mirrorDnsCacheTtl + mirrorDnsStaleGrace)
    {addr : SocketAddr} (h : sh.state.addrWithin limit sh.now = some addr) : ResultSound sh start (.ok addr) := by
  obtain ⟨resolvedAt, hresolved, hwithin, haddr⟩ := addrWithin_eq_some h
  obtain ⟨hnow, flight, addr', haddr', houtcome⟩ := hi.source resolvedAt hresolved
  rw [haddr] at haddr'
  cases haddr'
  exact ⟨flight, resolvedAt, houtcome, hnow, Nat.lt_of_lt_of_le hwithin hl⟩

/-- Without an address to reuse the last success is too long ago. -/
theorem SharedInv.grace_over (hi : SharedInv sh) (h : sh.state.staleReuse sh.now = none) :
    ∀ resolvedAt, sh.state.resolvedAt = some resolvedAt → mirrorDnsCacheTtl + mirrorDnsStaleGrace ≤ sh.now - resolvedAt := by
  intro resolvedAt hr
  obtain ⟨-, flight, addr, haddr, -⟩ := hi.source resolvedAt hr
  unfold MirrorDnsState.staleReuse MirrorDnsState.addrWithin at h
  rw [hr, haddr] at h
  simpa using h

/-- And so is every success. -/
theorem SharedInv.no_recent (hi : SharedInv sh)
    (h : ∀ resolvedAt, sh.state.resolvedAt = some resolvedAt → mirrorDnsCacheTtl + mirrorDnsStaleGrace ≤ sh.now - resolvedAt) :
    ∀ flight addr at_, sh.outcomes flight = some (.ok addr, at_) → mirrorDnsCacheTtl + mirrorDnsStaleGrace ≤ sh.now - at_ := by
  intro flight addr at_ ho
  obtain ⟨resolvedAt, hr, hle⟩ := hi.known flight addr at_ ho
  have hlong := h resolvedAt hr
  omega

theorem SharedInv.tick (hi : SharedInv sh) (nanos : Nat) : SharedInv { sh with now := sh.now + nanos } where
  unknown := hi.unknown
  flag := hi.flag
  known := hi.known
  source resolvedAt hr := by
    obtain ⟨hnow, hflight⟩ := hi.source resolvedAt hr
    exact ⟨Nat.le_add_right_of_le hnow, hflight⟩

theorem publish_outcomes_self (sh : Shared) (flight : Nat) (outcome : Except String SocketAddr) :
    (sh.publish flight outcome).outcomes flight = some (outcome, sh.now) := Function.update_self ..

theorem publish_outcomes_of_ne {flight f : Nat} {outcome : Except String SocketAddr} (h : f ≠ flight) :
    (sh.publish flight outcome).outcomes f = sh.outcomes f := Function.update_of_ne h ..

theorem SharedInv.unknown_publish (hi : SharedInv sh) {flight : Nat} (hflights : sh.flights = flight + 1)
    (outcome : Except String SocketAddr) :
    ∀ f, (sh.publish flight outcome).flights ≤ f → (sh.publish flight outcome).outcomes f = none := by
  intro f hf
  have hle : flight + 1 ≤ f := hflights ▸ hf
  rw [publish_outcomes_of_ne (Nat.ne_of_gt hle)]
  exact hi.unknown f hf

theorem SharedInv.moves (hi : SharedInv sh) (hc : CallerInv sh c) (hm : Moves sh e c c' sh') : SharedInv sh' := by
  cases hm with
  | elected h =>
    exact ⟨fun flight hf => hi.unknown flight (Nat.le_of_succ_le hf), fun _ => Nat.succ_pos _, hi.known, hi.source⟩
  | @resolved _ _ flight addr =>
    obtain ⟨hflag, hflights, -, hnone⟩ := hc
    refine ⟨hi.unknown_publish hflights _, hi.flag, fun f a at_ ho => ?_, fun resolvedAt hr => ?_⟩
    · by_cases hf : f = flight
      · rw [hf, publish_outcomes_self] at ho
        cases ho
        exact ⟨sh.now, rfl, Nat.le_refl _⟩
      · rw [publish_outcomes_of_ne hf] at ho
        obtain ⟨resolvedAt, hr, hle⟩ := hi.known f a at_ ho
        exact ⟨sh.now, rfl, Nat.le_trans hle (hi.source resolvedAt hr).1⟩
    · cases hr
      exact ⟨Nat.le_refl _, flight, addr, rfl, publish_outcomes_self ..⟩
  | @unresolved _ _ flight error =>
    obtain ⟨hflag, hflights, -, hnone⟩ := hc
    refine ⟨hi.unknown_publish hflights _, hi.flag, fun f a at_ ho => ?_, fun resolvedAt hr => ?_⟩
    · by_cases hf : f = flight
      · rw [hf, publish_outcomes_self] at ho
        cases ho
      · rw [publish_outcomes_of_ne hf] at ho
        exact hi.known f a at_ ho
    · obtain ⟨hnow, f, addr, haddr, ho⟩ := hi.source resolvedAt hr
      have hf : f ≠ flight := fun hf => by
        rw [hf, hnone] at ho
        cases ho
      exact ⟨hnow, f, addr, haddr, (publish_outcomes_of_ne hf).trans ho⟩
  | clears => exact ⟨hi.unknown, nofun, hi.known, hi.source⟩
  | notifies => exact ⟨hi.unknown, hi.flag, hi.known, hi.source⟩
  | _ => exact hi

/-! ## The other callers -/

/-- After a new error, a call that has seen a flight in progress is ready for the error of this flight. -/
theorem ready_publish {flight start : Nat} (hstart : start ≤ flight) (outcome : Except String SocketAddr) :
    Ready (sh.publish flight outcome) start := by
  intro error he
  cases outcome with
  | ok addr => cases he
  | error error' =>
    cases he
    exact ⟨flight, sh.now, hstart, publish_outcomes_self ..⟩

theorem CallerInv.publish {flight : Nat} (hflag : sh.lookupInFlight = true) (hflights : sh.flights = flight + 1)
    (hd : CallerInv sh d) (hu : d.flagFlight = none) (outcome : Except String SocketAddr) :
    CallerInv (sh.publish flight outcome) d := by
  have hready : ∀ {start}, start < sh.flights → Ready (sh.publish flight outcome) start := fun h => by
    rw [hflights] at h
    exact ready_publish (Nat.le_of_lt_succ h) outcome
  cases d with
  | looking | failing | clearing => cases hu
  | idle | returned | cancelled | checking | electing | registering => exact hd
  | notifying start f result =>
    refine ⟨hd.1, fun _ hf => ?_⟩
    have hlt : f < sh.flights - 1 := by
      have h := hd.1
      unfold Shared.ended at h
      rwa [hflag, if_pos rfl] at h
    have hf : sh.flights = f + 1 := hf
    omega
  | loading start ticket => exact ⟨hd.1, hd.2.1, fun _ => hready hd.1⟩
  | waiting start ticket f => exact ⟨hd.1, hd.2.1, fun _ => hready hd.1⟩
  | woken start => exact ⟨hd.1, hready hd.1⟩
  | reading start resolvedAt => exact ⟨hd.1, hready hd.1, hd.2.2⟩

/-- A step of one caller keeps what holds of another, which holds no flag when the first one does. -/
theorem CallerInv.others (hc : CallerInv sh c) (hd : CallerInv sh d)
    (hu : c.flagFlight.isSome = true → d.flagFlight = none)
    (hready : sh'.notifications ≠ sh.notifications → ∀ start ticket,
      (d = .loading start ticket ∨ ∃ flight, d = .waiting start ticket flight) → ticket = sh.notifications → Ready sh start)
    (hm : Moves sh e c c' sh') : CallerInv sh' d := by
  cases hm with
  | elected h =>
    have hended : ({ sh with lookupInFlight := true, flights := sh.flights + 1 } : Shared).ended = sh.ended := by
      simp [Shared.ended, h]
    cases d with
    | looking | failing | clearing =>
      rw [hd.1] at h
      cases h
    | idle | returned | cancelled => exact hd
    | checking | electing => exact Nat.le_trans hd (Nat.le_of_eq hended.symm)
    | registering => exact Nat.lt_succ_of_lt hd
    | notifying start f result =>
      refine ⟨Nat.lt_of_lt_of_le hd.1 (Nat.le_of_eq hended.symm), fun _ hf => ?_⟩
      have hlt := hd.1
      simp only [Shared.ended, h, Bool.false_eq_true, if_false] at hlt
      simp only at hf
      omega
    | loading | waiting => exact ⟨Nat.lt_succ_of_lt hd.1, hd.2⟩
    | woken => exact ⟨Nat.lt_succ_of_lt hd.1, hd.2⟩
    | reading => exact ⟨Nat.lt_succ_of_lt hd.1, hd.2⟩
  | resolved => exact hd.publish hc.1 hc.2.1 (hu rfl) _
  | unresolved => exact hd.publish hc.1 hc.2.1 (hu rfl) _
  | clears =>
    have hended : sh.ended ≤ ({ sh with lookupInFlight := false } : Shared).ended := by
      unfold Shared.ended
      simp only [Bool.false_eq_true, if_false]
      split
      · exact Nat.sub_le _ _
      · exact Nat.le_refl _
    have hnone := hu rfl
    cases d with
    | looking | failing | clearing => cases hnone
    | idle | returned | cancelled => exact hd
    | checking | electing => exact Nat.le_trans hd hended
    | registering => exact hd
    | notifying => exact ⟨Nat.lt_of_lt_of_le hd.1 hended, hd.2⟩
    | loading | waiting | woken | reading => exact hd
  | notifies =>
    have hready := hready (Nat.succ_ne_self _)
    cases d with
    | loading start ticket =>
      refine ⟨hd.1, Nat.le_succ_of_le hd.2.1, fun hlt => ?_⟩
      cases Nat.lt_or_eq_of_le hd.2.1 with
      | inl h => exact hd.2.2 h
      | inr h => exact hready start ticket (.inl rfl) h
    | waiting start ticket f =>
      refine ⟨hd.1, Nat.le_succ_of_le hd.2.1, fun hlt => ?_⟩
      cases Nat.lt_or_eq_of_le hd.2.1 with
      | inl h => exact hd.2.2 h
      | inr h => exact hready start ticket (.inr ⟨f, rfl⟩) h
    | _ => exact hd
  | _ => exact hd

/-! ## The caller that steps -/

theorem reflects_publish (sh : Shared) (flight : Nat) (outcome : Except String SocketAddr) :
    Reflects (sh.publish flight outcome) flight := by
  refine ⟨outcome, sh.now, publish_outcomes_self .., ?_⟩
  cases outcome with
  | ok addr => rfl
  | error error => rfl

theorem Reflects.ready {flight start : Nat} (h : Reflects sh flight) (hstart : start ≤ flight) : Ready sh start := by
  intro error he
  obtain ⟨outcome, at_, ho, hlast⟩ := h
  rw [he] at hlast
  cases outcome with
  | ok addr => cases hlast
  | error error' =>
    cases hlast
    exact ⟨flight, at_, hstart, ho⟩

theorem CallerInv.own (hs : SharedInv sh) (hc : CallerInv sh c) (hm : Moves sh e c c' sh') : CallerInv sh' c' := by
  cases hm with
  | begins => exact Nat.le_refl _
  | fresh | reuses | fails | leaves => trivial
  | missed => exact hc
  | elected h =>
    have hended : sh.ended = sh.flights := by simp [Shared.ended, h]
    exact ⟨rfl, rfl, Nat.le_trans hc (Nat.le_of_eq hended), hs.unknown _ (Nat.le_refl _)⟩
  | follows h =>
    have hlt := hs.flag h
    have hle := hc
    unfold CallerInv Shared.ended at hle
    rw [if_pos h] at hle
    show _ < _
    omega
  | resolved => exact ⟨hc.1, hc.2.1, fun _ => reflects_publish ..⟩
  | unresolved => exact ⟨hc.1, hc.2.1, hc.2.2.1, rfl, _, publish_outcomes_self ..⟩
  | leaderReuses | leaderFails =>
    obtain ⟨hflag, hflights, -, hlast, at_, ho⟩ := hc
    exact ⟨hflag, hflights, fun _ => ⟨_, at_, ho, hlast⟩⟩
  | @clears _ _ flight =>
    obtain ⟨hflag, hflights, hreflects⟩ := hc
    have hended : ({ sh with lookupInFlight := false } : Shared).ended = flight + 1 := hflights
    exact ⟨Nat.lt_of_lt_of_eq (Nat.lt_succ_self flight) hended.symm, fun hr _ => hreflects hr⟩
  | @notifies _ _ _ result =>
    cases result with
    | none => trivial
    | some result => trivial
  | registers => exact ⟨hc, Nat.le_refl _, fun h => absurd h (Nat.lt_irrefl _)⟩
  | waits => exact hc
  | retries | rechecks =>
    have hlt := hc.1
    show _ ≤ _
    unfold Shared.ended
    split
    · exact Nat.le_sub_one_of_lt hlt
    · exact Nat.le_of_lt hlt
  | wakes h => exact ⟨hc.1, hc.2.2 h⟩
  | reads h => exact ⟨hc.1, hc.2, hs.grace_over h⟩
  | abandons => exact ⟨hc.1, hc.2.1, nofun⟩

/-! ## Results -/

/-- A result that a step decides is sound, when no success came between the two reads of a follower. -/
theorem CallerInv.result (hs : SharedInv sh) (hc : CallerInv sh c)
    (hok : ∀ start resolvedAt, c = .reading start resolvedAt → sh.state.resolvedAt = resolvedAt ∨ sh.state.lastError = none)
    (hm : Moves sh e c c' sh') (hnone : c.decided = none) {result : Except String SocketAddr}
    (hd : c'.decided = some result) : ResultSound sh' c.start result := by
  cases hm with
  | fresh h =>
    cases hd
    exact hs.ok_sound (Nat.le_add_right _ _) h
  | @resolved _ _ flight addr =>
    cases hd
    refine ⟨flight, sh.now, publish_outcomes_self .., Nat.le_refl _, ?_⟩
    show sh.now - sh.now < _
    rw [Nat.sub_self]
    decide
  | leaderReuses h | reuses h =>
    cases hd
    exact hs.ok_sound (Nat.le_refl _) h
  | leaderFails h =>
    cases hd
    obtain ⟨-, -, hstart, -, at_, ho⟩ := hc
    exact ⟨hs.no_recent (hs.grace_over h), _, at_, hstart, ho⟩
  | @fails _ start resolvedAt error h =>
    cases hd
    obtain ⟨-, hready, hlong⟩ := hc
    have hsame := (hok start resolvedAt rfl).resolve_right (by rw [h]; nofun)
    rw [← hsame] at hlong
    obtain ⟨flight, at_, hstart, ho⟩ := hready error h
    exact ⟨hs.no_recent hlong, flight, at_, hstart, ho⟩
  | clears => cases hnone.symm.trans hd
  | @notifies _ _ _ r =>
    have hr : r = none := hnone
    rw [hr] at hd
    cases hd
  | _ => cases hd

/-! ## The flag and the flights -/

/-- A flight is kept until its flag is cleared. -/
theorem flagFlight_moves (hm : Moves sh e c c' sh') {flight : Nat} (h : c.flagFlight = some flight) :
    c'.flagFlight = some flight ∨ sh'.lookupInFlight = false := by
  cases hm with
  | resolved | unresolved | leaderReuses | leaderFails | abandons => exact .inl h
  | clears => exact .inr rfl
  | _ => cases h

/-- A flag is taken where it was clear. -/
theorem flagFlight_of_moves (hm : Moves sh e c c' sh') (h : c'.flagFlight.isSome = true) :
    c.flagFlight.isSome = true ∨ (sh.lookupInFlight = false ∧ c'.flagFlight = some (sh'.flights - 1)) := by
  cases hm with
  | resolved | unresolved | leaderReuses | leaderFails | abandons => exact .inl rfl
  | elected hf => exact .inr ⟨hf, rfl⟩
  | @notifies _ _ _ result =>
    cases result with
    | none => cases h
    | some result => cases h
  | _ => cases h

/-- A flight is held until its end is notified. -/
theorem heldFlight_moves (hm : Moves sh e c c' sh') {flight : Nat} (h : c.heldFlight = some flight) :
    c'.heldFlight = some flight ∨ sh'.notifications = sh.notifications + 1 := by
  cases hm with
  | resolved | unresolved | leaderReuses | leaderFails | abandons | clears => exact .inl h
  | notifies => exact .inr rfl
  | _ => cases h

theorem heldFlight_of_flagFlight {flight : Nat} (h : c.flagFlight = some flight) : c.heldFlight = some flight := by
  cases c with
  | looking | failing | clearing => exact h
  | _ => cases h

theorem notifications_moves (hm : Moves sh e c c' sh') :
    sh'.notifications = sh.notifications ∨ sh'.notifications = sh.notifications + 1 := by
  cases hm with
  | notifies => exact .inr rfl
  | _ => exact .inl rfl

/-- The flag changes by an election and by a clearing alone. -/
theorem flag_moves (hm : Moves sh e c c' sh') (h : sh'.lookupInFlight = true) :
    (sh.lookupInFlight = true ∧ sh'.flights = sh.flights) ∨ c'.flagFlight = some (sh'.flights - 1) := by
  cases hm with
  | elected => exact .inr rfl
  | clears => cases h
  | _ => exact .inl ⟨h, rfl⟩

theorem waiting_moves (hm : Moves sh e c c' sh') {start ticket flight : Nat} (h : c' = .waiting start ticket flight) :
    sh' = sh ∧ sh.lookupInFlight = true ∧ flight = sh.flights - 1 := by
  cases hm with
  | waits hf =>
    cases h
    exact ⟨rfl, hf, rfl⟩
  | @notifies _ _ _ result =>
    cases result with
    | none => cases h
    | some result => cases h
  | _ => cases h

end

/-! ## Runs -/

structure ResolverInv (s : MirrorResolver) : Prop where
  shared : SharedInv s.shared
  caller : ∀ i, CallerInv s.shared (s.callers i)
  unique : ∀ i j, (s.callers i).flagFlight.isSome = true → (s.callers j).flagFlight.isSome = true → i = j
  holder : s.shared.lookupInFlight = true → ∃ i, (s.callers i).flagFlight = some (s.shared.flights - 1)
  waiting : ∀ i start ticket flight, s.callers i = .waiting start ticket flight → ticket = s.shared.notifications →
    ∃ j, (s.callers j).heldFlight = some flight

theorem ResolverInv.init : ResolverInv {} where
  shared := ⟨fun _ _ => rfl, nofun, nofun, nofun⟩
  caller _ := trivial
  unique := nofun
  holder := nofun
  waiting := nofun

/-- What a step is: a tick, or a move of one caller. -/
theorem step_cases {s s' : MirrorResolver} {e : ResolverEvent} (h : MirrorResolver.Step s e s') :
    (∃ nanos, s' = { s with shared := { s.shared with now := s.shared.now + nanos } }) ∨
      ∃ i c' sh', e.caller = some i ∧ Moves s.shared e (s.callers i) c' sh' ∧
        s' = { shared := sh', callers := Function.update s.callers i c' } := by
  unfold MirrorResolver.Step MirrorResolver.step at h
  cases hc : e.caller with
  | none =>
    rw [hc] at h
    cases e with
    | tick nanos =>
      cases h
      exact .inl ⟨nanos, rfl⟩
    | _ => cases hc
  | some i =>
    rw [hc] at h
    obtain ⟨⟨c', sh'⟩, hstep, rfl⟩ := Option.map_eq_some_iff.mp h
    exact .inr ⟨i, c', sh', rfl, moves_of_step hstep, rfl⟩

/-- A caller that is registered when a flight is notified is ready for the error recorded then. -/
theorem ResolverInv.ready {s : MirrorResolver} (hi : ResolverInv s) {e : ResolverEvent} {i : Nat} {c' : Caller} {sh' : Shared}
    (he : e.caller = some i) {past : List ResolverEvent} (hok : FlightCondition past s e) (hm : Moves s.shared e (s.callers i) c' sh')
    (hn : sh'.notifications ≠ s.shared.notifications) {j start ticket : Nat}
    (hj : s.callers j = .loading start ticket ∨ ∃ flight, s.callers j = .waiting start ticket flight)
    (ht : ticket = s.shared.notifications) : Ready s.shared start := by
  have hstart : start < s.shared.flights := by
    have hcaller := hi.caller j
    rcases hj with hj | ⟨flight, hj⟩
    · rw [hj] at hcaller
      exact hcaller.1
    · rw [hj] at hcaller
      exact hcaller.1
  generalize hc : s.callers i = c at hm
  cases hm with
  | @notifies _ start' flight result =>
    cases he
    rcases hok start' flight result hc with ⟨hsome, hlast⟩ | hnone | hfree
    · have hcaller := hi.caller i
      rw [hc] at hcaller
      rw [hlast] at hstart
      exact (hcaller.2 hsome hlast).ready (Nat.le_of_lt_succ hstart)
    · intro error herror
      rw [hnone] at herror
      cases herror
    · refine absurd ?_ (hfree j)
      rw [ht] at hj
      rcases hj with hj | ⟨f, hj⟩
      · exact .inl ⟨start, hj⟩
      · exact .inr ⟨start, f, hj⟩
  | _ => exact absurd rfl hn

theorem CallerInv.tick {sh : Shared} {d : Caller} (hd : CallerInv sh d) (nanos : Nat) :
    CallerInv { sh with now := sh.now + nanos } d := by
  cases d with
  | reading start resolvedAt =>
    refine ⟨hd.1, hd.2.1, fun at_ h => ?_⟩
    have hlong := hd.2.2 at_ h
    show _ ≤ sh.now + nanos - at_
    omega
  | _ => exact hd

theorem ResolverInv.step {s s' : MirrorResolver} {e : ResolverEvent} (hi : ResolverInv s) {past : List ResolverEvent} (hok : FlightCondition past s e)
    (h : MirrorResolver.Step s e s') : ResolverInv s' := by
  rcases step_cases h with ⟨nanos, rfl⟩ | ⟨i, c', sh', he, hm, rfl⟩
  · exact ⟨hi.shared.tick nanos, fun i => (hi.caller i).tick nanos, hi.unique, hi.holder, hi.waiting⟩
  · have hself : Function.update s.callers i c' i = c' := Function.update_self ..
    refine ⟨hi.shared.moves (hi.caller i) hm, fun j => ?_, fun j k hj hk => ?_, fun hflag => ?_,
      fun j start ticket flight hj ht => ?_⟩
    · by_cases hij : j = i
      · subst hij
        simp only [Function.update_self]
        exact (hi.caller j).own hi.shared hm
      · simp only [Function.update_of_ne hij]
        refine (hi.caller i).others (hi.caller j) (fun hflag => ?_) (fun hn start ticket hj ht => ?_) hm
        · by_contra hne
          exact hij (hi.unique j i (Option.isSome_iff_ne_none.mpr hne) hflag)
        · exact hi.ready he hok hm hn hj ht
    · have hflagged : ∀ k, (Function.update s.callers i c' k).flagFlight.isSome = true →
          (s.callers k).flagFlight.isSome = true ∨ (k = i ∧ s.shared.lookupInFlight = false) := by
        intro k hk
        by_cases hki : k = i
        · subst hki
          rw [hself] at hk
          exact (flagFlight_of_moves hm hk).imp_right fun hclear => ⟨rfl, hclear.1⟩
        · rw [Function.update_of_ne hki] at hk
          exact .inl hk
      have hnot : s.shared.lookupInFlight = false → ∀ k, (s.callers k).flagFlight.isSome = true → False := by
        intro hclear k hk
        obtain ⟨flight, hk⟩ := Option.isSome_iff_exists.mp hk
        rw [(flag_of_flagFlight (hi.caller k) hk).1] at hclear
        cases hclear
      rcases hflagged j hj with hj' | ⟨hji, hclear⟩
      · rcases hflagged k hk with hk' | ⟨-, hclear⟩
        · exact hi.unique j k hj' hk'
        · exact (hnot hclear j hj').elim
      · rcases hflagged k hk with hk' | ⟨hki, -⟩
        · exact (hnot hclear k hk').elim
        · exact hji.trans hki.symm
    · rcases flag_moves hm hflag with ⟨hbefore, hflights⟩ | hown
      · obtain ⟨j, hj⟩ := hi.holder hbefore
        by_cases hij : j = i
        · subst hij
          refine ⟨j, ?_⟩
          simp only [hself, hflights]
          exact (flagFlight_moves hm hj).resolve_right fun hclear => by cases hclear.symm.trans hflag
        · refine ⟨j, ?_⟩
          simp only [Function.update_of_ne hij, hflights]
          exact hj
      · exact ⟨i, (congrArg Caller.flagFlight hself).trans hown⟩
    · by_cases hij : j = i
      · subst hij
        simp only [Function.update_self] at hj
        obtain ⟨rfl, hflag, rfl⟩ := waiting_moves hm hj
        obtain ⟨k, hk⟩ := hi.holder hflag
        by_cases hkj : k = j
        · subst hkj
          exact ⟨k, (congrArg Caller.heldFlight hself).trans (heldFlight_of_flagFlight
            ((flagFlight_moves hm hk).resolve_right (by rw [hflag]; nofun)))⟩
        · refine ⟨k, ?_⟩
          simp only [Function.update_of_ne hkj]
          exact heldFlight_of_flagFlight hk
      · simp only [Function.update_of_ne hij] at hj
        have hle := hi.caller j
        rw [hj] at hle
        have hsame : sh'.notifications = s.shared.notifications := by
          refine (notifications_moves hm).resolve_right fun hn => ?_
          have hticket : ticket = sh'.notifications := ht
          have hbound := hle.2.1
          omega
        obtain ⟨k, hk⟩ := hi.waiting j start ticket flight hj (ht.trans hsame)
        by_cases hki : k = i
        · subst hki
          refine ⟨k, (congrArg Caller.heldFlight hself).trans ((heldFlight_moves hm hk).resolve_right fun hn => ?_)⟩
          omega
        · refine ⟨k, ?_⟩
          simp only [Function.update_of_ne hki]
          exact hk

/-- A step after a run that met the condition decides soundly. -/
theorem ResolverInv.stepSound {s s' : MirrorResolver} {e : ResolverEvent} (hi : ResolverInv s)
    {past : List ResolverEvent} (hok : FlightCondition past s e) (h : MirrorResolver.Step s e s') : StepSound s s' := by
  intro j result hnone hd
  rcases step_cases h with ⟨nanos, rfl⟩ | ⟨i, c', sh', he, hm, rfl⟩
  · rw [hnone] at hd
    cases hd
  · by_cases hij : j = i
    · subst hij
      simp only [Function.update_self] at hd
      refine (hi.caller j).result hi.shared (fun start resolvedAt hc => ?_) hm hnone hd
      rw [hc] at hm
      cases hm with
      | fails | rechecks =>
        cases he
        exact hok start resolvedAt hc
    · simp only [Function.update_of_ne hij] at hd
      rw [hnone] at hd
      cases hd

/-- In every run that meets the condition, one lookup is in flight at most and no follower is stranded, and every step
that goes on meeting it decides soundly. -/
theorem mirror_single_flight {es : List ResolverEvent} {s : MirrorResolver}
    (r : RunMeeting MirrorResolver.Step MirrorResolver.Init FlightCondition es s) :
    SingleFlight s ∧ FollowersWoken s ∧
      ∀ e s', FlightCondition es s e → MirrorResolver.Step s e s' → StepSound s s' := by
  have hi : ResolverInv s := by
    refine @RunMeeting.invariant _ _ MirrorResolver.Step MirrorResolver.Init FlightCondition (fun _ s => ResolverInv s)
      (fun s hs => ?_) (fun _ hi hok hstep => hi.step hok hstep) es s r
    rw [hs]
    exact .init
  refine ⟨fun i j start start' flight flight' hci hcj => ?_, fun i start ticket flight hc => ?_, fun e s' hok hstep =>
    hi.stepSound hok hstep⟩
  · exact hi.unique i j (by rw [hci]; rfl) (by rw [hcj]; rfl)
  · have hcaller := hi.caller i
    rw [hc] at hcaller
    exact (Nat.lt_or_eq_of_le hcaller.2.1).imp_right (hi.waiting i start ticket flight hc)

/-- A leader whose lookup fails, and a follower. -/
def failingFlight : List ResolverEvent :=
  [.begins 0, .cachedFresh 0, .compareExchange 0, .begins 1, .cachedFresh 1, .compareExchange 1, .notified 1, .loadFlag 1,
    .lookup 0 (.error "mirror target DNS lookup failed")]

/-- The leader's error is of its own flight. -/
theorem mirror_single_flight_failing :
    ∃ s s', Run MirrorResolver.Step MirrorResolver.Init failingFlight s ∧ FollowersWoken s ∧
      MirrorResolver.Step s (.staleReuse 0) s' ∧ ResultSound s'.shared 0 (.error "mirror target DNS lookup failed") := by
  have hinit : Run MirrorResolver.Step MirrorResolver.Init [] {} := .start rfl
  have hrun : Run MirrorResolver.Step MirrorResolver.Init ([] ++ failingFlight) _ := hinit.stepAll rfl
  have hmeeting : RunMeeting MirrorResolver.Step MirrorResolver.Init FlightCondition failingFlight _ :=
    hrun.meeting (by simp [failingFlight, FlightCondition])
  obtain ⟨-, hwoken, hsound⟩ := mirror_single_flight hmeeting
  exact ⟨_, _, hrun, hwoken, rfl, hsound (.staleReuse 0) _ trivial rfl 0 _ rfl rfl⟩

/-- After a failed lookup the next leader is cancelled, with a follower that was called in between. -/
def cancelledFlight : List ResolverEvent :=
  [.begins 0, .cachedFresh 0, .compareExchange 0, .lookup 0 (.error "mirror target DNS lookup failed"), .staleReuse 0,
    .clearFlag 0, .notifyWaiters 0, .begins 1, .cachedFresh 1, .compareExchange 1, .begins 2, .cachedFresh 2,
    .compareExchange 2, .notified 2, .loadFlag 2, .cancel 1, .clearFlag 1, .notifyWaiters 1, .wake 2, .staleReuse 2]

/-- The follower is given the error of the flight that had ended before its call began. -/
theorem mirror_stale_error :
    ¬∀ (es : List ResolverEvent) (s : MirrorResolver), Run MirrorResolver.Step MirrorResolver.Init es s →
      SingleFlight s ∧ FollowersWoken s ∧ ∀ e s', MirrorResolver.Step s e s' → StepSound s s' := by
  intro h
  have hinit : Run MirrorResolver.Step MirrorResolver.Init [] {} := .start rfl
  have hrun : Run MirrorResolver.Step MirrorResolver.Init ([] ++ cancelledFlight) _ := hinit.stepAll rfl
  obtain ⟨-, flight, at_, hstart, ho⟩ := (h _ _ hrun).2.2 (.lastError 2) _ rfl 2 _ rfl rfl
  cases flight with
  | zero => exact absurd hstart (by decide)
  | succ flight =>
    have hnone : (none : Option (Except String SocketAddr × Nat)) = some (.error "mirror target DNS lookup failed", at_) := ho
    cases hnone

end Pingsix.ProxyMirror
