import Pingsix.RequestValidation

/-!
# Validated bodies

With a body schema on some instance, nothing of a request body leaves the
instances before its end, and then all of it at once, after every instance with
a schema has checked the whole body, or nothing.
-/

namespace Pingsix.RequestValidation

open HttpMessage
open BodyStream (Chunk Arrival Filter Keeps content chain chain_cons chain_cons_error)

namespace Compiled

/-- The instance has no objection to the body. -/
def Accepts (libs : ValidationLibraries) (req : RequestHeader) (p : Compiled) (body : List UInt8) : Prop :=
  ∀ validator, p.bodyValidator = some validator → body.length ≤ p.maxReqBodySize ∧
    ∃ view, decodeBody libs body (contentType req) = some view ∧ validator.isValid view = true

/-- What is buffered and what the chunk adds. -/
def held (ctx : ValidationContext) (chunk : Chunk UInt8) : List UInt8 := ctx.bodyBuffer.getD [] ++ chunk.getD []

/-- Without a chunk to measure, the buffer is within the limit. -/
def Within (p : Compiled) (ctx : ValidationContext) (chunk : Chunk UInt8) : Prop :=
  chunk = none → (ctx.bodyBuffer.getD []).length ≤ p.maxReqBodySize

section
variable {libs : ValidationLibraries} {req : RequestHeader} {p : Compiled} {ps : List Compiled}
  {ctx ctx' : ValidationContext} {chunk out : Chunk UInt8}

theorem swallow_getD (ctx : ValidationContext) (chunk : Chunk UInt8) : (swallow ctx chunk).getD [] = held ctx chunk := by
  cases chunk with
  | none => exact (List.append_nil _).symm
  | some chunk => rfl

theorem filter_none (h : p.bodyValidator = none) (endOfStream : Bool) :
    requestBodyFilter libs req p ctx chunk endOfStream = .ok (chunk, ctx) := by
  unfold requestBodyFilter
  rw [h]

theorem filter_some {validator : Validator} (h : p.bodyValidator = some validator) (hr : ctx.requestBodyReplaced = false)
    (endOfStream : Bool) :
    requestBodyFilter libs req p ctx chunk endOfStream =
      if chunk.isSome ∧ p.maxReqBodySize < (held ctx chunk).length then .error (p.rejectedCode, "request body too large")
      else if endOfStream = false then .ok (some [], { ctx with bodyBuffer := swallow ctx chunk })
      else
        match decodeBody libs (held ctx chunk) (contentType req) with
        | none => .error (p.rejectedCode, "request body failed to decode")
        | some view =>
          if validator.isValid view then
            .ok (if held ctx chunk = [] then none else some (held ctx chunk), { ctx with bodyBuffer := none })
          else .error (p.rejectedCode, "request body failed schema validation") := by
  unfold requestBodyFilter
  cases hd : decodeBody libs (held ctx chunk) (contentType req) with
  | none => simp [h, hr, swallow_getD, hd]
  | some view => simp [h, hr, swallow_getD, hd]

theorem length_le_of_within (hw : p.Within ctx chunk) (h : ¬(chunk.isSome ∧ p.maxReqBodySize < (held ctx chunk).length)) :
    (held ctx chunk).length ≤ p.maxReqBodySize := by
  cases chunk with
  | none =>
    unfold held
    rw [Option.getD_none, List.append_nil]
    exact hw rfl
  | some chunk => exact Nat.not_lt.mp fun hlt => h ⟨rfl, hlt⟩

/-! ## One instance -/

/-- Before the end an instance with a schema keeps everything back. -/
theorem filter_before {validator : Validator} (hv : p.bodyValidator = some validator)
    (hr : ctx.requestBodyReplaced = false) (hw : p.Within ctx chunk)
    (h : requestBodyFilter libs req p ctx chunk false = .ok (out, ctx')) :
    out = some [] ∧ ctx'.requestBodyReplaced = false ∧ ctx'.bodyBuffer.getD [] = held ctx chunk ∧
      (held ctx chunk).length ≤ p.maxReqBodySize := by
  rw [filter_some hv hr] at h
  by_cases hlong : chunk.isSome ∧ p.maxReqBodySize < (held ctx chunk).length
  · rw [if_pos hlong] at h
    cases h
  · rw [if_neg hlong, if_pos rfl] at h
    obtain ⟨rfl, rfl⟩ := Prod.ext_iff.mp (Except.ok.inj h)
    exact ⟨rfl, hr, swallow_getD ctx chunk, length_le_of_within hw hlong⟩

/-- At the end it lets everything go that it accepts. -/
theorem filter_end {validator : Validator} (hv : p.bodyValidator = some validator)
    (hr : ctx.requestBodyReplaced = false) (hw : p.Within ctx chunk)
    (h : requestBodyFilter libs req p ctx chunk true = .ok (out, ctx')) :
    out.getD [] = held ctx chunk ∧ ctx'.requestBodyReplaced = false ∧ ctx'.bodyBuffer = none ∧
      Accepts libs req p (held ctx chunk) := by
  rw [filter_some hv hr] at h
  by_cases hlong : chunk.isSome ∧ p.maxReqBodySize < (held ctx chunk).length
  · rw [if_pos hlong] at h
    cases h
  · rw [if_neg hlong, if_neg (by simp)] at h
    cases hdecode : decodeBody libs (held ctx chunk) (contentType req) with
    | none =>
      rw [hdecode] at h
      cases h
    | some view =>
      rw [hdecode] at h
      by_cases hvalid : validator.isValid view = true
      · simp only [hvalid, if_true] at h
        obtain ⟨rfl, rfl⟩ := Prod.ext_iff.mp (Except.ok.inj h)
        refine ⟨?_, hr, rfl, fun validator' hv' => ?_⟩
        · by_cases hnil : held ctx chunk = []
          · rw [if_pos hnil, hnil]
            rfl
          · rw [if_neg hnil]
            rfl
        · cases hv.symm.trans hv'
          exact ⟨length_le_of_within hw hlong, view, hdecode, hvalid⟩
      · simp only [hvalid] at h
        cases h

/-! ## All instances -/

/-- Some instance has a body schema. -/
def SomeSchema (ps : List Compiled) : Prop := ∃ p ∈ ps, p.bodyValidator.isSome

/-- The instances one after another on one chunk. -/
def instances (libs : ValidationLibraries) (req : RequestHeader) (ps : List Compiled) :
    Filter ValidationContext (Nat × String) UInt8 := chain (ps.map (requestBodyFilter libs req))

theorem instances_cons_ok {endOfStream : Bool} {next : Chunk UInt8 × ValidationContext}
    (h : instances libs req (p :: ps) ctx chunk endOfStream = .ok next) :
    ∃ mid ctx₁, requestBodyFilter libs req p ctx chunk endOfStream = .ok (mid, ctx₁) ∧
      instances libs req ps ctx₁ mid endOfStream = .ok next := by
  unfold instances at h ⊢
  rw [List.map_cons] at h
  cases hp : requestBodyFilter libs req p ctx chunk endOfStream with
  | error e =>
    rw [chain_cons_error hp] at h
    cases h
  | ok first =>
    rw [chain_cons hp] at h
    exact ⟨first.1, first.2, rfl, h⟩

/-- Before the end nothing is lost, every limit is kept, and nothing leaves when some instance has a schema. -/
theorem instances_before : ∀ {ps : List Compiled} {ctx ctx' : ValidationContext} {chunk out : Chunk UInt8},
    ctx.requestBodyReplaced = false → (∀ p ∈ ps, p.bodyValidator.isSome → p.Within ctx chunk) →
    instances libs req ps ctx chunk false = .ok (out, ctx') →
    ctx'.requestBodyReplaced = false ∧ held ctx' out = held ctx chunk ∧
      (∀ p ∈ ps, p.bodyValidator.isSome → (held ctx chunk).length ≤ p.maxReqBodySize) ∧
      (SomeSchema ps ∨ chunk = some [] → out = some [])
  | [], ctx, ctx', chunk, out, hr, _, h => by
    cases h
    refine ⟨hr, rfl, by simp, fun hsome => hsome.elim (fun hsome => ?_) id⟩
    obtain ⟨p, hp, -⟩ := hsome
    cases hp
  | p :: ps, ctx, ctx', chunk, out, hr, hw, h => by
    obtain ⟨mid, ctx₁, hp, hps⟩ := instances_cons_ok h
    cases hv : p.bodyValidator with
    | none =>
      rw [filter_none hv] at hp
      cases hp
      obtain ⟨hr', hheld, hlimits, hsilent⟩ := instances_before hr (fun q hq => hw q (List.mem_cons_of_mem _ hq)) hps
      refine ⟨hr', hheld, ?_, fun hsome => hsilent (hsome.imp_left ?_)⟩
      · intro q hq hs
        cases hq with
        | head => rw [hv] at hs; cases hs
        | tail _ hq => exact hlimits q hq hs
      · rintro ⟨q, hq, hs⟩
        cases hq with
        | head => rw [hv] at hs; cases hs
        | tail _ hq => exact ⟨q, hq, hs⟩
    | some validator =>
      obtain ⟨rfl, hr₁, hbuffer, hlength⟩ := filter_before hv hr (hw p (by simp) (by rw [hv]; rfl)) hp
      have hw₁ : ∀ q ∈ ps, q.bodyValidator.isSome → q.Within ctx₁ (some []) := fun _ _ _ he => by cases he
      obtain ⟨hr', hheld, hlimits, hsilent⟩ := instances_before hr₁ hw₁ hps
      have hsame : held ctx₁ (some []) = held ctx chunk := by
        unfold held at hbuffer ⊢
        rw [hbuffer]
        exact List.append_nil _
      rw [hsame] at hheld hlimits
      refine ⟨hr', hheld, fun q hq hs => ?_, fun _ => hsilent (.inr rfl)⟩
      cases hq with
      | head => exact hlength
      | tail _ hq => exact hlimits q hq hs

/-- At the end every instance has accepted everything, and everything leaves. -/
theorem instances_end : ∀ {ps : List Compiled} {ctx ctx' : ValidationContext} {chunk out : Chunk UInt8},
    ctx.requestBodyReplaced = false → (∀ p ∈ ps, p.bodyValidator.isSome → p.Within ctx chunk) →
    instances libs req ps ctx chunk true = .ok (out, ctx') →
    held ctx' out = held ctx chunk ∧ (∀ p ∈ ps, Accepts libs req p (held ctx chunk)) ∧
      (SomeSchema ps ∨ ctx.bodyBuffer = none → ctx'.bodyBuffer = none)
  | [], ctx, ctx', chunk, out, hr, _, h => by
    cases h
    refine ⟨rfl, by simp, fun hsome => hsome.elim (fun hsome => ?_) id⟩
    obtain ⟨p, hp, -⟩ := hsome
    cases hp
  | p :: ps, ctx, ctx', chunk, out, hr, hw, h => by
    obtain ⟨mid, ctx₁, hp, hps⟩ := instances_cons_ok h
    cases hv : p.bodyValidator with
    | none =>
      rw [filter_none hv] at hp
      cases hp
      obtain ⟨hheld, haccepts, hempty⟩ := instances_end hr (fun q hq => hw q (List.mem_cons_of_mem _ hq)) hps
      refine ⟨hheld, fun q hq => ?_, fun hsome => hempty (hsome.imp_left ?_)⟩
      · cases hq with
        | head => exact fun validator hs => by rw [hv] at hs; cases hs
        | tail _ hq => exact haccepts q hq
      · rintro ⟨q, hq, hs⟩
        cases hq with
        | head => rw [hv] at hs; cases hs
        | tail _ hq => exact ⟨q, hq, hs⟩
    | some validator =>
      obtain ⟨hmid, hr₁, hbuffer, haccept⟩ := filter_end hv hr (hw p (by simp) (by rw [hv]; rfl)) hp
      have hw₁ : ∀ q ∈ ps, q.bodyValidator.isSome → q.Within ctx₁ mid := fun q _ _ _ => by
        rw [hbuffer]
        exact Nat.zero_le _
      have hsame : held ctx₁ mid = held ctx chunk := by
        rw [← hmid]
        unfold held
        rw [hbuffer]
        rfl
      obtain ⟨hheld, haccepts, hempty⟩ := instances_end hr₁ hw₁ hps
      rw [hsame] at hheld haccepts
      refine ⟨hheld, fun q hq => ?_, fun _ => hempty (.inr hbuffer)⟩
      cases hq with
      | head => exact haccept
      | tail _ hq => exact haccepts q hq

/-! ## Whole bodies -/

/-- Nothing has left; what came is buffered, within every limit. -/
def Holding (ps : List Compiled) (received sent : List UInt8) (ctx : ValidationContext) : Prop :=
  sent = [] ∧ ctx.requestBodyReplaced = false ∧ ctx.bodyBuffer.getD [] = received ∧
    ∀ p ∈ ps, p.bodyValidator.isSome → received.length ≤ p.maxReqBodySize

theorem holding_within {received sent : List UInt8} (h : Holding ps received sent ctx) (chunk : Chunk UInt8) :
    ∀ p ∈ ps, p.bodyValidator.isSome → p.Within ctx chunk := fun p hp hs _ => by
  rw [h.2.2.1]
  exact h.2.2.2 p hp hs

theorem holding_keeps (hsome : SomeSchema ps) : Keeps (instances libs req ps) (Holding ps) := by
  intro received sent ctx chunk out ctx' hi hstep
  obtain ⟨hr, hheld, hlimits, hsilent⟩ := instances_before hi.2.1 (holding_within hi chunk) hstep
  obtain ⟨rfl, -, rfl, -⟩ := hi
  cases hsilent (.inl hsome)
  unfold held at hheld
  rw [Option.getD_some, List.append_nil] at hheld
  exact ⟨rfl, hr, hheld, hlimits⟩

theorem holding_start (ps : List Compiled) : Holding ps [] [] {} := ⟨rfl, rfl, rfl, fun _ _ _ => Nat.zero_le _⟩

/-- With a schema on some instance: nothing leaves before the end, and then the request fails, or the whole body leaves
and every instance has accepted it. -/
theorem validateBody_all_or_nothing (hsome : SomeSchema ps) (a : Arrival UInt8) :
    content (validateBody libs req ps a).before = [] ∧
      ((∃ e, (validateBody libs req ps a).last = .error e) ∨
        ∃ out ctx', (validateBody libs req ps a).last = .ok (out, ctx') ∧ out.getD [] = a.body ∧
          ∀ p ∈ ps, Accepts libs req p a.body) := by
  have hkeeps : Keeps (instances libs req ps) (Holding ps) := holding_keeps hsome
  have hsilent : content (validateBody libs req ps a).before = [] :=
    hkeeps.silent (fun hi => hi.1) (holding_start ps)
  refine ⟨hsilent, ?_⟩
  cases hlast : (validateBody libs req ps a).last with
  | error e => exact .inl ⟨e, rfl⟩
  | ok next =>
    obtain ⟨out, ctx'⟩ := next
    obtain ⟨ctx, hi, hend⟩ := hkeeps.run (holding_start ps) hlast
    obtain ⟨hheld, haccepts, hempty⟩ := instances_end hi.2.1 (holding_within hi a.last) hend
    have hbody : held ctx a.last = a.body := by
      unfold held Arrival.body
      rw [hi.2.2.1]
    rw [hbody] at hheld haccepts
    refine .inr ⟨out, ctx', rfl, ?_, haccepts⟩
    rw [← hheld]
    unfold held
    rw [hempty (.inl hsome)]
    rfl

/-- Instances without a body schema leave every chunk as it came. -/
theorem instances_of_none : ∀ {ps : List Compiled}, ¬SomeSchema ps → ∀ (ctx : ValidationContext) (chunk : Chunk UInt8)
    (endOfStream : Bool), instances libs req ps ctx chunk endOfStream = .ok (chunk, ctx)
  | [], _, _, _, _ => rfl
  | p :: ps, hnone, ctx, chunk, endOfStream => by
    have hp : p.bodyValidator = none := by
      cases hv : p.bodyValidator with
      | none => rfl
      | some validator => exact absurd ⟨p, by simp, by rw [hv]; rfl⟩ hnone
    have hps : ¬SomeSchema ps := fun ⟨q, hq, hs⟩ => hnone ⟨q, List.mem_cons_of_mem _ hq, hs⟩
    have ih := instances_of_none hps ctx chunk endOfStream
    unfold instances at ih ⊢
    rw [List.map_cons, chain_cons (filter_none hp endOfStream)]
    exact ih

/-- After another plugin replaced the body, so do all instances. -/
theorem instances_of_replaced : ∀ {ps : List Compiled} {ctx : ValidationContext}, ctx.requestBodyReplaced = true →
    ∀ (chunk : Chunk UInt8) (endOfStream : Bool), instances libs req ps ctx chunk endOfStream = .ok (chunk, ctx)
  | [], _, _, _, _ => rfl
  | p :: ps, ctx, hr, chunk, endOfStream => by
    have hp : requestBodyFilter libs req p ctx chunk endOfStream = .ok (chunk, ctx) := by
      unfold requestBodyFilter
      cases p.bodyValidator with
      | none => rfl
      | some validator => exact if_pos hr
    have ih := @instances_of_replaced ps ctx hr chunk endOfStream
    unfold instances at ih ⊢
    rw [List.map_cons, chain_cons hp]
    exact ih

/-- All or nothing for instances with a body schema among them; the others have nothing to hold back. -/
theorem request_validation_all_or_nothing (libs : ValidationLibraries) (req : RequestHeader) (ps : List Compiled)
    (a : Arrival UInt8) :
    (SomeSchema ps → content (validateBody libs req ps a).before = [] ∧
      ((∃ e, (validateBody libs req ps a).last = .error e) ∧ (validateBody libs req ps a).bytes = [] ∨
        (∃ next, (validateBody libs req ps a).last = .ok next) ∧ (validateBody libs req ps a).bytes = a.body ∧
          ∀ p ∈ ps, Accepts libs req p a.body)) ∧
      (¬SomeSchema ps → validateBody libs req ps a = ⟨a.before, .ok (a.last, {})⟩) := by
  refine ⟨fun hsome => ?_, fun hnone => BodyStream.run_of_passes (instances_of_none hnone {}) a⟩
  obtain ⟨hsilent, hend⟩ := @validateBody_all_or_nothing libs req ps hsome a
  refine ⟨hsilent, hend.imp ?_ ?_⟩
  · rintro ⟨e, he⟩
    exact ⟨⟨e, he⟩, (BodyStream.Emission.bytes_of_error he).trans hsilent⟩
  · rintro ⟨out, ctx', hok, hout, haccepts⟩
    refine ⟨⟨_, hok⟩, ?_, haccepts⟩
    rw [BodyStream.Emission.bytes_of_ok hok, hsilent, hout]
    rfl

end

/-! ## A number in two chunks -/

/-- Reads the document `1`. -/
def readsOne : ValidationLibraries where
  json :=
    { fromSlice := fun bytes => if bytes.data.toList = [49] then .ok (.num (.posInt 1)) else .error (.malformed "EOF")
      toVec := fun _ => ⟨#[49]⟩
      render := fun _ => "EOF while parsing a value at line 1 column 0" }
  validatorFor _ := .error "unknown schema"
  parseForm _ := []

def headersOnly : Compiled where
  headerValidator := some ⟨fun _ => true, fun _ => none⟩
  bodyValidator := none
  maxReqBodySize := 67108864
  rejectedCode := 400
  rejectedMsg := none

/-- The body schema `{"type": "integer"}`. -/
def integersOnly : Compiled where
  headerValidator := none
  bodyValidator := some ⟨fun v => v.beq (.num (.posInt 1)), fun _ => some "not of type integer"⟩
  maxReqBodySize := 8
  rejectedCode := 400
  rejectedMsg := none

def postedRequest : RequestHeader where
  method := .post
  uri := .root
  headers := []

def postedOne : Arrival UInt8 := ⟨[none, some [49]], none⟩

theorem request_validation_all_or_nothing_integer :
    content (validateBody readsOne postedRequest [integersOnly, headersOnly, integersOnly] postedOne).before = [] ∧
      (validateBody readsOne postedRequest [integersOnly, headersOnly, integersOnly] postedOne).bytes = [49] ∧
      validateBody readsOne postedRequest [headersOnly] postedOne = ⟨postedOne.before, .ok (postedOne.last, {})⟩ := by
  have hsome : SomeSchema [integersOnly, headersOnly, integersOnly] := ⟨integersOnly, by simp, rfl⟩
  have hnone : ¬SomeSchema [headersOnly] := fun ⟨p, hp, hs⟩ => by
    cases List.mem_singleton.mp hp
    cases hs
  have hmixed := (request_validation_all_or_nothing readsOne postedRequest [integersOnly, headersOnly, integersOnly]
    postedOne).1 hsome
  refine ⟨hmixed.1, ?_, (request_validation_all_or_nothing readsOne postedRequest [headersOnly] postedOne).2 hnone⟩
  have hok : (validateBody readsOne postedRequest [integersOnly, headersOnly, integersOnly] postedOne).last =
      .ok (some [49], {}) := by decide
  refine hmixed.2.elim (fun hfails => ?_) fun hsent => hsent.2.1
  obtain ⟨⟨e, he⟩, -⟩ := hfails
  cases hok.symm.trans he

/-- An instance with a header schema only lets the first chunk through. -/
theorem headersOnly_sends_early :
    content (validateBody readsOne postedRequest [headersOnly] postedOne).before = [49] ∧ postedOne.last = none := by
  decide

end Compiled

end Pingsix.RequestValidation
