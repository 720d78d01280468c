import Pingsix.MirrorBody

/-!
# Fidelity of mirrored bodies

A completed mirror request carries what its own instance saw, in every run in
which no instance feeds a mirror request that another one opened.
-/

namespace Pingsix.ProxyMirror

open BodyStream (Chunk)

/-- The chunks with data that an instance saw in a run. -/
def seen (i : Nat) (es : List MirrorEvent) : List Bytes :=
  es.flatMap fun
    | .requestBodyFilter j body _ _ => if j = i then body.toList else []
    | _ => []

/-- Every completed mirror request has all chunks its instance saw, up to their end. -/
def Faithful (es : List MirrorEvent) (s : MirrorRequest) : Prop :=
  ∀ i t, s.mirrors i = some t → t.phase = .completed → t.written = seen i es ∧ s.ended i = true

/-- A further message has no effect on the mirror request. -/
def MirrorTask.Settled (t : MirrorTask) : Prop :=
  t.gaveUp = true ∨ t.phase.terminal = true ∨ mirrorQueueCapacity ≤ t.queue.length ∨ t.queue.any (·.ends) = true

/-- What an instance sends goes to the mirror request it opened, or has no effect. -/
def OwnSender (_ : List MirrorEvent) (s : MirrorRequest) : MirrorEvent → Prop
  | .requestBodyFilter i body endOfStream _ =>
    (MirrorRequest.message body endOfStream).isSome → ∀ j t, s.sender = some j → s.mirrors j = some t → j = i ∨ t.Settled
  | _ => True

/-! ## Messages through the end -/

/-- The messages a task reads at most. -/
def throughEnd : List MirrorBody → List MirrorBody
  | [] => []
  | body :: queue => if body.ends then [body] else body :: throughEnd queue

theorem throughEnd_append (queue : List MirrorBody) (body : MirrorBody) :
    throughEnd (queue ++ [body]) = if queue.any (·.ends) then throughEnd queue else queue ++ [body] := by
  induction queue with
  | nil =>
    cases he : body.ends with
    | true => simp [throughEnd, he]
    | false => simp [throughEnd, he]
  | cons b queue ih =>
    cases he : b.ends with
    | true => simp [throughEnd, he]
    | false =>
      rw [List.cons_append, throughEnd, throughEnd, ih]
      cases ha : queue.any (·.ends) with
      | true => simp [he, ha]
      | false => simp [he, ha]

theorem throughEnd_of_none {queue : List MirrorBody} (h : queue.any (·.ends) = false) : throughEnd queue = queue := by
  induction queue with
  | nil => rfl
  | cons b queue ih =>
    obtain ⟨hb, hq⟩ := Bool.or_eq_false_iff.mp (List.any_cons.symm.trans h)
    rw [throughEnd, hb, ih hq]
    rfl

/-- What the mirror request has once the task has read the queue. -/
def MirrorTask.carried (t : MirrorTask) : List Bytes := t.written ++ (throughEnd t.queue).flatMap (·.written)

/-! ## What one mirror request keeps -/

/-- What is carried is what was seen, while the sender leads here and once the end is in the queue. -/
structure TaskInv (holds : Prop) (ended : Bool) (seen : List Bytes) (t : MirrorTask) : Prop where
  completed : t.phase = .completed → t.written = seen ∧ ended = true
  ending : t.phase.terminal = false → t.queue.any (·.ends) = true → t.carried = seen ∧ ended = true
  going : t.phase.terminal = false → t.queue.any (·.ends) = false → holds → t.gaveUp = false →
    t.carried = seen ∧ ended = false
  retired : t.retired = true → t.phase.terminal = true

section
variable {holds : Prop} {ended : Bool} {seen : List Bytes} {t t' : MirrorTask}

theorem TaskInv.open : TaskInv holds false [] {} := ⟨nofun, nofun, fun _ _ _ _ => ⟨rfl, rfl⟩, nofun⟩

/-- A failed mirror request promises nothing. -/
theorem TaskInv.failed (h : t.phase = .failed) : TaskInv holds ended seen t := by
  constructor <;> simp [h, TaskPhase.terminal]

theorem TaskInv.start (hi : TaskInv holds ended seen t) {ok : Bool} (h : t.start ok = some t') :
    TaskInv holds ended seen t' := by
  unfold MirrorTask.start at h
  split at h
  case isFalse => cases h
  case isTrue hp =>
    cases h
    cases ok with
    | false => exact .failed rfl
    | true =>
      have hlive : t.phase.terminal = false := by rw [hp]; rfl
      refine ⟨nofun, fun _ => hi.ending hlive, fun _ => hi.going hlive, fun hr => ?_⟩
      rw [hi.retired hr] at hlive
      cases hlive

theorem TaskInv.receive (hi : TaskInv holds ended seen t) {ok : Bool} (h : t.receive ok = some t') :
    TaskInv holds ended seen t' := by
  unfold MirrorTask.receive at h
  cases hq : t.queue with
  | nil => rw [hq] at h; cases h
  | cons body queue =>
    rw [hq] at h
    simp only at h
    split at h
    case isFalse => cases h
    case isTrue hp =>
      cases h
      cases ok with
      | false => exact .failed rfl
      | true =>
        have hlive : t.phase.terminal = false := by rw [hp]; rfl
        have hretired : t.retired = false := by
          cases hr : t.retired with
          | false => rfl
          | true => rw [hi.retired hr] at hlive; cases hlive
        cases he : body.ends with
        | true =>
          have hcarried := hi.ending hlive (by rw [hq]; simp [he])
          unfold MirrorTask.carried at hcarried
          rw [hq, throughEnd, if_pos he] at hcarried
          refine ⟨fun _ => by simpa using hcarried, ?_, ?_, ?_⟩ <;> simp [TaskPhase.terminal]
        | false =>
          have hending := hi.ending hlive
          have hgoing := hi.going hlive
          unfold MirrorTask.carried at hending hgoing
          rw [hq, List.any_cons, he, Bool.false_or, throughEnd, he] at hending hgoing
          refine ⟨by simp, fun _ => ?_, fun _ => ?_, ?_⟩
          · simpa [MirrorTask.carried] using hending
          · simpa [MirrorTask.carried] using hgoing
          · simp [hretired]

theorem TaskInv.hangUp (_ : TaskInv holds ended seen t) (h : t.hangUp = some t') : TaskInv holds ended seen t' := by
  unfold MirrorTask.hangUp at h
  split at h
  · cases h
    exact .failed rfl
  · cases h

theorem TaskInv.cancel (_ : TaskInv holds ended seen t) (h : t.cancel = some t') : TaskInv holds ended seen t' := by
  unfold MirrorTask.cancel at h
  split at h
  · cases h
  · cases h
    exact .failed rfl

theorem TaskInv.retire (hi : TaskInv holds ended seen t) (h : t.retire = some t') : TaskInv holds ended seen t' := by
  unfold MirrorTask.retire at h
  split at h
  case isTrue ht =>
    cases h
    exact ⟨hi.completed, hi.ending, hi.going, fun _ => ht⟩
  case isFalse => cases h

/-- Without the sender nothing more is promised. -/
theorem TaskInv.release (hi : TaskInv holds ended seen t) : TaskInv False ended seen t :=
  ⟨hi.completed, hi.ending, fun _ _ h => h.elim, hi.retired⟩

/-- An instance without the sender may see more, as its body has not ended. -/
theorem TaskInv.see (hi : TaskInv holds false seen t) (hnot : ¬holds) (ended : Bool) (more : List Bytes) :
    TaskInv holds ended (seen ++ more) t :=
  ⟨fun h => absurd (hi.completed h).2 nofun, fun h ha => absurd (hi.ending h ha).2 nofun,
    fun _ _ h => absurd h hnot, hi.retired⟩

/-- A sender that has given up, or whose task has ended, promises nothing more. -/
theorem TaskInv.dead (hi : TaskInv holds false seen t) (hphase : t'.phase = t.phase) (hqueue : t'.queue = t.queue)
    (hretired : t'.retired = t.retired) (hgave : t.phase.terminal = false → t'.gaveUp = true) (ended : Bool)
    (seen' : List Bytes) : TaskInv holds ended seen' t' := by
  refine ⟨fun h => ?_, fun h ha => ?_, fun h _ _ hg => ?_, fun h => ?_⟩
  · exact absurd (hi.completed (hphase ▸ h)).2 nofun
  · exact absurd (hi.ending (hphase ▸ h) (hqueue ▸ ha)).2 nofun
  · rw [hgave (hphase ▸ h)] at hg
    cases hg
  · rw [hphase]
    exact hi.retired (hretired ▸ h)

/-- A message of its own instance is carried behind what was seen before. -/
theorem TaskInv.enqueue (hi : TaskInv holds false seen t) (hh : holds) (hgave : t.gaveUp = false)
    (hretired : t.retired = false) (body : MirrorBody) :
    TaskInv holds body.ends (seen ++ body.written) { t with queue := t.queue ++ [body] } := by
  have hnone : t.phase.terminal = false → t.queue.any (·.ends) = false := by
    intro h
    cases ha : t.queue.any (·.ends) with
    | false => rfl
    | true => exact absurd (hi.ending h ha).2 nofun
  have hcarried : t.phase.terminal = false →
      t.written ++ (throughEnd (t.queue ++ [body])).flatMap (·.written) = seen ++ body.written := by
    intro h
    have hsame := (hi.going h (hnone h) hh hgave).1
    unfold MirrorTask.carried at hsame
    rw [throughEnd_of_none (hnone h)] at hsame
    rw [throughEnd_append, hnone h, ← hsame]
    simp
  refine ⟨fun h => absurd (hi.completed h).2 nofun, fun h ha => ⟨hcarried h, ?_⟩, fun h ha _ _ => ⟨hcarried h, ?_⟩, ?_⟩
  · simpa [hnone h] using ha
  · simpa [hnone h] using ha
  · simp [hretired]

/-- What an instance sends to its own mirror request is carried there, or the sender gives up. -/
theorem TaskInv.send (hi : TaskInv holds false seen t) (hh : holds) (stale : Bool) (body : MirrorBody) :
    TaskInv holds body.ends (seen ++ body.written) (t.trySend stale body) := by
  unfold MirrorTask.trySend
  split
  case isTrue hgave => exact hi.dead rfl rfl rfl (fun _ => hgave) _ _
  case isFalse hgave =>
    split
    case isTrue hretired =>
      have hended : t.phase.terminal = false → ∀ gaveUp, gaveUp = true := fun h => by
        rw [hi.retired hretired] at h
        cases h
      cases stale with
      | true => refine hi.dead ?_ ?_ ?_ (fun _ => rfl) _ _ <;> rfl
      | false => exact hi.dead rfl rfl rfl (fun h => hended h _) _ _
    case isFalse hretired =>
      split
      case isTrue => exact hi.enqueue hh (by simpa using hgave) (by simpa using hretired) body
      case isFalse => refine hi.dead ?_ ?_ ?_ (fun _ => rfl) _ _ <;> rfl

/-- What has no effect changes nothing that is promised. -/
theorem TaskInv.sendSettled (hi : TaskInv holds ended seen t) (hs : t.Settled) (stale : Bool) (body : MirrorBody) :
    TaskInv holds ended seen (t.trySend stale body) := by
  have hgiveUp : TaskInv holds ended seen { t with gaveUp := true } :=
    ⟨hi.completed, hi.ending, fun _ _ _ => nofun, hi.retired⟩
  unfold MirrorTask.trySend
  split
  case isTrue => exact hi
  case isFalse hgave =>
    split
    case isTrue =>
      cases stale with
      | true => exact hgiveUp
      | false => exact hi
    case isFalse hretired =>
      split
      case isFalse => exact hgiveUp
      case isTrue hroom =>
        rcases hs with hs | hs | hs | hs
        · exact absurd hs hgave
        · refine ⟨hi.completed, fun h _ => ?_, fun h _ _ _ => ?_, fun _ => hs⟩ <;>
            · rw [hs] at h
              cases h
        · exact absurd hs (Nat.not_le.mpr hroom)
        · refine ⟨hi.completed, fun h _ => ?_, fun _ ha => ?_, hi.retired⟩
          · have hending := hi.ending h hs
            unfold MirrorTask.carried at hending ⊢
            rw [throughEnd_append, hs]
            exact hending
          · rw [List.any_append, hs] at ha
            cases ha

end

/-! ## Runs -/

/-- What every mirror request of a request keeps, and that nothing was seen before the body. -/
structure RequestInv (es : List MirrorEvent) (s : MirrorRequest) : Prop where
  task : ∀ i t, s.mirrors i = some t → TaskInv (s.sender = some i) (s.ended i) (seen i es) t
  fresh : s.bodyStarted = false → ∀ i, seen i es = [] ∧ s.ended i = false

theorem seen_snoc (i : Nat) (es : List MirrorEvent) (e : MirrorEvent) : seen i (es ++ [e]) = seen i es ++ seen i [e] :=
  List.flatMap_append

theorem seen_body (i j : Nat) (body : Chunk UInt8) (endOfStream stale : Bool) :
    seen i [.requestBodyFilter j body endOfStream stale] = if j = i then body.toList else [] := by
  simp [seen]

/-- An event of a task alone. -/
theorem RequestInv.ofTask {es : List MirrorEvent} {s s' : MirrorRequest} (hi : RequestInv es s) {e : MirrorEvent}
    (he : ∀ i, seen i [e] = []) {i : Nat} {f : MirrorTask → Option MirrorTask} (h : s.task i f = some s')
    (hf : ∀ {holds ended seen t t'}, TaskInv holds ended seen t → f t = some t' → TaskInv holds ended seen t') :
    RequestInv (es ++ [e]) s' := by
  unfold MirrorRequest.task at h
  obtain ⟨t, ht, h⟩ := Option.bind_eq_some_iff.mp h
  obtain ⟨t', hf', rfl⟩ := Option.map_eq_some_iff.mp h
  refine ⟨fun j u hu => ?_, fun hb j => ?_⟩
  · rw [seen_snoc, he, List.append_nil]
    unfold MirrorRequest.setMirror at hu
    by_cases hj : j = i
    · subst hj
      simp only [Function.update_self, Option.some.injEq] at hu
      subst hu
      exact hf (hi.task j t ht) hf'
    · simp only [Function.update_of_ne hj] at hu
      exact hi.task j u hu
  · rw [seen_snoc, he, List.append_nil]
    exact hi.fresh hb j

theorem message_eq_none {body : Chunk UInt8} {endOfStream : Bool} (h : MirrorRequest.message body endOfStream = none) :
    body = none ∧ endOfStream = false := by
  cases body with
  | some bytes => cases h
  | none =>
    cases endOfStream with
    | true => cases h
    | false => exact ⟨rfl, rfl⟩

theorem message_eq_some {body : Chunk UInt8} {endOfStream : Bool} {m : MirrorBody}
    (h : MirrorRequest.message body endOfStream = some m) : m.written = body.toList ∧ m.ends = endOfStream := by
  cases body with
  | some bytes =>
    cases h
    exact ⟨rfl, rfl⟩
  | none =>
    cases endOfStream with
    | true =>
      cases h
      exact ⟨rfl, rfl⟩
    | false => cases h

/-- A message reaches the mirror request that the sender leads to and no other. -/
theorem trySend_spec (s : MirrorRequest) (stale : Bool) (m : MirrorBody) :
    (s.trySend stale m).sender = s.sender ∧ (s.trySend stale m).ended = s.ended ∧
      (s.trySend stale m).bodyStarted = s.bodyStarted ∧ ∀ j u, (s.trySend stale m).mirrors j = some u →
        (s.sender ≠ some j ∧ s.mirrors j = some u) ∨
          (s.sender = some j ∧ ∃ t, s.mirrors j = some t ∧ u = t.trySend stale m) := by
  unfold MirrorRequest.trySend
  cases hsender : s.sender with
  | none => exact ⟨hsender, rfl, rfl, fun j u hu => .inl ⟨nofun, hu⟩⟩
  | some k =>
    cases hk : s.mirrors k with
    | none =>
      simp only [hk]
      refine ⟨hsender, trivial, trivial, fun j u hu => .inl ⟨fun hs => ?_, hu⟩⟩
      cases hs
      rw [hk] at hu
      cases hu
    | some t =>
      simp only [hk]
      refine ⟨hsender, rfl, rfl, fun j u hu => ?_⟩
      unfold MirrorRequest.setMirror at hu
      by_cases hj : j = k
      · subst hj
        simp only [Function.update_self, Option.some.injEq] at hu
        exact .inr ⟨rfl, t, hk, hu.symm⟩
      · simp only [Function.update_of_ne hj] at hu
        exact .inl ⟨fun hs => hj (Option.some.inj hs).symm, hu⟩

/-- A mirror request that a body call does not reach; its own instance sees more only without the sender. -/
theorem RequestInv.unreached {es : List MirrorEvent} {s : MirrorRequest} (hi : RequestInv es s) {i : Nat}
    (hended : s.ended i = false) {body : Chunk UInt8} (endOfStream stale : Bool) {j : Nat} {t : MirrorTask}
    (ht : s.mirrors j = some t) (hnot : j = i → s.sender ≠ some i) :
    TaskInv (s.sender = some j) (Function.update s.ended i endOfStream j)
      (seen j (es ++ [.requestBodyFilter i body endOfStream stale])) t := by
  have hkept := hi.task j t ht
  rw [seen_snoc, seen_body]
  by_cases hj : j = i
  · subst hj
    rw [Function.update_self, if_pos rfl]
    rw [hended] at hkept
    exact hkept.see (hnot rfl) _ _
  · rw [Function.update_of_ne hj, if_neg (Ne.symm hj), List.append_nil]
    exact hkept

/-- A chunk at one instance. -/
theorem RequestInv.body {es : List MirrorEvent} {s s' : MirrorRequest} (hi : RequestInv es s) {i : Nat}
    {body : Chunk UInt8} {endOfStream stale : Bool} (hok : OwnSender es s (.requestBodyFilter i body endOfStream stale))
    (h : s.step (.requestBodyFilter i body endOfStream stale) = some s') :
    RequestInv (es ++ [.requestBodyFilter i body endOfStream stale]) s' := by
  unfold MirrorRequest.step at h
  simp only [Option.ite_none_left_eq_some, Bool.not_eq_true] at h
  obtain ⟨hended, h⟩ := h
  cases hm : MirrorRequest.message body endOfStream with
  | none =>
    obtain ⟨rfl, rfl⟩ := message_eq_none hm
    rw [hm] at h
    cases h
    refine ⟨fun j t ht => ?_, nofun⟩
    have hsame : Function.update s.ended i false = s.ended := by rw [← hended, Function.update_eq_self]
    rw [seen_snoc, seen_body]
    simpa [hsame] using hi.task j t ht
  | some m =>
    obtain ⟨hwritten, hends⟩ := message_eq_some hm
    rw [hm] at h
    cases h
    obtain ⟨hsame, hsameEnded, hsameStarted, hmirrors⟩ := trySend_spec
      { s with bodyStarted := true, ended := Function.update s.ended i endOfStream } stale m
    refine ⟨fun j u hu => ?_, fun hb => by rw [hsameStarted] at hb; cases hb⟩
    rw [hsame, hsameEnded]
    cases hmirrors j u hu with
    | inl hunreached =>
      refine hi.unreached hended endOfStream stale hunreached.2 fun hj => ?_
      rw [← hj]
      exact hunreached.1
    | inr hreached =>
      obtain ⟨hsender, t, ht, rfl⟩ := hreached
      have hkept := hi.task j t ht
      rw [seen_snoc, seen_body]
      by_cases hij : j = i
      · subst hij
        rw [if_pos rfl, ← hwritten]
        simp only [Function.update_self, ← hends]
        rw [hended] at hkept
        exact hkept.send hsender stale m
      · rw [if_neg (Ne.symm hij), List.append_nil]
        simp only [Function.update_of_ne hij]
        have hsettled := (hok (by rw [hm]; rfl) j t hsender ht).resolve_left hij
        exact hkept.sendSettled hsettled stale m

theorem RequestInv.step {es : List MirrorEvent} {s s' : MirrorRequest} (hi : RequestInv es s) {e : MirrorEvent}
    (hok : OwnSender es s e) (h : MirrorRequest.Step s e s') : RequestInv (es ++ [e]) s' := by
  cases e with
  | requestBodyFilter i body endOfStream stale => exact hi.body hok h
  | started i ok => exact hi.ofTask (fun _ => rfl) h fun hi => hi.start
  | received i ok => exact hi.ofTask (fun _ => rfl) h fun hi => hi.receive
  | hungUp i =>
    unfold MirrorRequest.Step MirrorRequest.step at h
    simp only [Option.ite_none_left_eq_some] at h
    exact hi.ofTask (fun _ => rfl) h.2 .hangUp
  | cancelled i => exact hi.ofTask (fun _ => rfl) h .cancel
  | retired i => exact hi.ofTask (fun _ => rfl) h .retire
  | requestFilter i sampled =>
    unfold MirrorRequest.Step MirrorRequest.step at h
    simp only [Option.ite_none_left_eq_some, Option.some.injEq] at h
    obtain ⟨-, rfl⟩ := h
    refine ⟨fun j t ht => ?_, fun hb j => ?_⟩
    · rw [seen_snoc]
      simpa [seen] using hi.task j t ht
    · rw [seen_snoc]
      simpa [seen] using hi.fresh hb j
  | finished =>
    cases h
    refine ⟨fun j t ht => ?_, fun hb j => ?_⟩
    · rw [seen_snoc]
      simpa [seen] using (hi.task j t ht).release
    · rw [seen_snoc]
      simpa [seen] using hi.fresh hb j
  | upstreamRequestFilter i granted =>
    unfold MirrorRequest.Step MirrorRequest.step at h
    simp only [Option.ite_none_left_eq_some, not_or, Bool.not_eq_true] at h
    obtain ⟨⟨hstarted, hnone⟩, h⟩ := h
    have hseen : ∀ j, seen j (es ++ [.upstreamRequestFilter i granted]) = seen j es := fun j => by
      rw [seen_snoc]
      exact List.append_nil _
    split at h
    · cases h
      refine ⟨fun j t ht => ?_, fun _ j => by rw [hseen]; exact hi.fresh hstarted j⟩
      rw [hseen]
      unfold MirrorRequest.setMirror at ht ⊢
      by_cases hj : j = i
      · subst hj
        simp only [Function.update_self, Option.some.injEq] at ht
        subst ht
        obtain ⟨hnil, hended⟩ := hi.fresh hstarted j
        rw [hnil, show s.ended j = false from hended]
        exact .open
      · simp only [Function.update_of_ne hj] at ht
        have hkept := (hi.task j t ht).release
        have hfalse : (some i = some j) = False := by simp [Ne.symm hj]
        simp only [hfalse]
        exact hkept
    · cases h
      exact ⟨fun j t ht => by rw [hseen]; exact hi.task j t ht, fun hb j => by rw [hseen]; exact hi.fresh hb j⟩

/-- In every run in which no instance feeds a mirror request of another one, all completed mirror requests are whole. -/
theorem mirror_faithful {es : List MirrorEvent} {s : MirrorRequest}
    (r : RunMeeting MirrorRequest.Step MirrorRequest.Init OwnSender es s) : Faithful es s := by
  have hinv : RequestInv es s := by
    refine r.invariant (fun s hs => ?_) fun _ hi hok hstep => hi.step hok hstep
    rw [hs]
    exact ⟨nofun, fun _ _ => ⟨rfl, rfl⟩⟩
  exact fun i t ht hc => (hinv.task i t ht).completed hc

/-! ## One instance -/

/-- The event is not one of another instance of the request. -/
def Only (i : Nat) : MirrorEvent → Prop
  | .upstreamRequestFilter j _ | .requestBodyFilter j _ _ _ => j = i
  | _ => True

/-- The sender in the context comes from the upstream phase of its instance. -/
theorem sender_of_step {s s' : MirrorRequest} {e : MirrorEvent} (h : MirrorRequest.Step s e s') {j : Nat}
    (hs : s'.sender = some j) : s.sender = some j ∨ ∃ granted, e = .upstreamRequestFilter j granted := by
  have htask : ∀ {i f}, s.task i f = some s' → s'.sender = s.sender := by
    intro i f h
    unfold MirrorRequest.task at h
    obtain ⟨t, -, h⟩ := Option.bind_eq_some_iff.mp h
    obtain ⟨t', -, rfl⟩ := Option.map_eq_some_iff.mp h
    rfl
  unfold MirrorRequest.Step MirrorRequest.step at h
  cases e with
  | started | received | cancelled | retired => exact .inl (htask h ▸ hs)
  | hungUp i =>
    simp only [Option.ite_none_left_eq_some] at h
    exact .inl (htask h.2 ▸ hs)
  | finished =>
    cases h
    cases hs
  | requestFilter i sampled =>
    simp only [Option.ite_none_left_eq_some, Option.some.injEq] at h
    obtain ⟨-, rfl⟩ := h
    exact .inl hs
  | requestBodyFilter i body endOfStream stale =>
    simp only [Option.ite_none_left_eq_some] at h
    obtain ⟨-, h⟩ := h
    cases hm : MirrorRequest.message body endOfStream with
    | none =>
      rw [hm] at h
      cases h
      exact .inl hs
    | some m =>
      rw [hm] at h
      cases h
      rw [(trySend_spec _ _ _).1] at hs
      exact .inl hs
  | upstreamRequestFilter i granted =>
    simp only [Option.ite_none_left_eq_some] at h
    obtain ⟨-, h⟩ := h
    split at h
    · cases h
      cases hs
      exact .inr ⟨granted, rfl⟩
    · cases h
      exact .inl hs

/-- With one instance on the request the sender is its own. -/
theorem ownSender_of_only {i : Nat} {es : List MirrorEvent} {s : MirrorRequest}
    (r : Run MirrorRequest.Step MirrorRequest.Init es s) (h : ∀ e ∈ es, Only i e) :
    RunMeeting MirrorRequest.Step MirrorRequest.Init OwnSender es s ∧ ∀ j, s.sender = some j → j = i := by
  induction r with
  | start hs =>
    refine ⟨.start hs, fun j hj => ?_⟩
    rw [hs] at hj
    cases hj
  | @snoc es s s' e r hstep ih =>
    obtain ⟨hmeeting, hsender⟩ := ih fun e he => h e (List.mem_append_left _ he)
    have honly : Only i e := h e (List.mem_append_right _ List.mem_cons_self)
    refine ⟨.snoc hmeeting hstep ?_, fun j hj => ?_⟩
    · cases e with
      | requestBodyFilter k body endOfStream stale =>
        intro _ j t hj _
        cases honly
        exact .inl (hsender j hj)
      | _ => trivial
    · rcases sender_of_step hstep hj with hj | ⟨granted, rfl⟩
      · exact hsender j hj
      · exact honly

/-- One instance mirrors a body of one chunk. -/
def singleMirror : List MirrorEvent :=
  [.requestFilter 0 true, .upstreamRequestFilter 0 true, .requestBodyFilter 0 (some [1]) false false, .started 0 true,
    .requestBodyFilter 0 none true false, .received 0 true, .received 0 true]

/-- The mirror request is completed with the chunk. -/
theorem mirror_faithful_single :
    ∃ s t, Run MirrorRequest.Step MirrorRequest.Init singleMirror s ∧ s.mirrors 0 = some t ∧ t.phase = .completed ∧
      t.written = [[1]] := by
  have hinit : Run MirrorRequest.Step MirrorRequest.Init [] {} := .start rfl
  have hrun : Run MirrorRequest.Step MirrorRequest.Init ([] ++ singleMirror) _ := hinit.stepAll rfl
  have hmeeting := (ownSender_of_only hrun (i := 0) (by simp [singleMirror, Only])).1
  exact ⟨_, _, hrun, rfl, rfl, (mirror_faithful hmeeting 0 _ rfl rfl).1⟩

/-- A global rule and the route mirror a body of one chunk that ends without another. -/
def twoMirrors : List MirrorEvent :=
  [.requestFilter 0 true, .requestFilter 1 true, .upstreamRequestFilter 0 true, .upstreamRequestFilter 1 true,
    .requestBodyFilter 0 (some [1]) false false, .requestBodyFilter 1 (some [1]) false false,
    .requestBodyFilter 0 none true false, .requestBodyFilter 1 none true false, .started 1 true, .received 1 true,
    .received 1 true, .received 1 true]

/-- The second instance's mirror request is completed with the chunk twice. -/
theorem mirror_not_faithful :
    ¬∀ (es : List MirrorEvent) (s : MirrorRequest), Run MirrorRequest.Step MirrorRequest.Init es s → Faithful es s := by
  intro h
  have hinit : Run MirrorRequest.Step MirrorRequest.Init [] {} := .start rfl
  have hrun : Run MirrorRequest.Step MirrorRequest.Init ([] ++ twoMirrors) _ := hinit.stepAll rfl
  have hwritten := (h _ _ hrun 1 _ rfl rfl).1
  exact absurd hwritten (by decide)

end Pingsix.ProxyMirror
