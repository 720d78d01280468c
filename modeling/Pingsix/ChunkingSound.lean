import Pingsix.ResponseRewrite

/-!
# Response bodies and their chunks

What leaves response-rewrite for a body, whatever chunks it comes in: the
filtered body when it fits the buffer. A longer body loses the rest of the chunk
that fills the buffer, and so depends on where the chunks end.
-/

namespace Pingsix.ResponseRewrite.Compiled

open BodyStream (Chunk Arrival Keeps content)

section
variable {c : Compiled} {ctx : RewriteContext} {a : Arrival UInt8}

/-- The context in which a response body starts. -/
def start (matched skip : Bool) : RewriteContext := { matched, skipBodyRewrite := skip }

theorem respond_ok (c : Compiled) (ctx : RewriteContext) (a : Arrival UInt8) :
    ∃ out ctx', (c.respond ctx a).last = .ok (out, ctx') := by
  cases h : (c.respond ctx a).last with
  | error e => exact e.elim
  | ok next => exact ⟨next.1, next.2, rfl⟩

/-- What an invariant of the calls and the last call settle about a whole body. -/
theorem respond_bytes (Inv : List UInt8 → List UInt8 → RewriteContext → Prop) {expected : List UInt8}
    (hstep : ∀ received sent ctx chunk, Inv received sent ctx →
      Inv (received ++ chunk.getD []) (sent ++ (c.processBodyChunk ctx chunk false).1.getD [])
        (c.processBodyChunk ctx chunk false).2)
    (hlast : ∀ sent ctx, Inv (content a.before) sent ctx →
      sent ++ (c.processBodyChunk ctx a.last true).1.getD [] = expected)
    (hi : Inv [] [] ctx) : (c.respond ctx a).bytes = expected := by
  obtain ⟨out, ctx', hok⟩ := respond_ok c ctx a
  have hkeeps : Keeps (ε := Empty) (fun ctx chunk endOfStream => .ok (c.processBodyChunk ctx chunk endOfStream)) Inv := by
    intro received sent ctx chunk out ctx' hi hout
    obtain ⟨rfl, rfl⟩ := Prod.ext_iff.mp (Except.ok.inj hout)
    exact hstep received sent ctx chunk hi
  obtain ⟨before, hbefore, hend⟩ := hkeeps.run hi hok
  rw [BodyStream.Emission.bytes_of_ok hok]
  have hout : (c.processBodyChunk before a.last true).1 = out := congrArg Prod.fst (Except.ok.inj hend)
  rw [← hout]
  exact hlast _ _ hbefore

/-! ## Bodies that are not filtered -/

theorem respond_of_passes (h : ∀ chunk endOfStream, c.processBodyChunk ctx chunk endOfStream = (chunk, ctx)) :
    (c.respond ctx a).bytes = a.body := by
  unfold respond
  rw [BodyStream.run_of_passes fun chunk endOfStream => congrArg Except.ok (h chunk endOfStream)]
  rfl

theorem respond_of_replacement {replacement : List UInt8} (hm : ctx.matched = true) (hs : ctx.skipBodyRewrite = false)
    (hr : c.replacementBody = some replacement) : (c.respond ctx a).bytes = replacement := by
  have hchunk : ∀ chunk endOfStream,
      c.processBodyChunk ctx chunk endOfStream = (processReplacement replacement endOfStream, ctx) := by
    intro chunk endOfStream
    unfold processBodyChunk rewritesBody
    simp [hm, hs, hr]
  refine respond_bytes (fun _ sent ctx' => sent = [] ∧ ctx' = ctx) ?_ ?_ ⟨rfl, rfl⟩
  · rintro received sent ctx' chunk ⟨rfl, rfl⟩
    rw [hchunk]
    exact ⟨rfl, rfl⟩
  · rintro sent ctx' ⟨rfl, rfl⟩
    rw [hchunk]
    rfl

/-! ## Filtered bodies -/

/-- The response is filtered: it matched, is not skipped, and there are filters instead of a replacement. -/
structure Filtering (c : Compiled) (ctx : RewriteContext) : Prop where
  matched : ctx.matched = true
  kept : ctx.skipBodyRewrite = false
  noReplacement : c.replacementBody = none
  filters : c.filters ≠ []

theorem Filtering.processBodyChunk (h : Filtering c ctx) (chunk : Chunk UInt8) (endOfStream : Bool) :
    c.processBodyChunk ctx chunk endOfStream = c.processFilters ctx chunk endOfStream := by
  unfold Compiled.processBodyChunk rewritesBody
  simp [h.matched, h.kept, h.noReplacement, h.filters]

/-- All so far is buffered, or the buffer is full and what it held has left filtered. -/
def Buffering (c : Compiled) (received sent : List UInt8) (ctx : RewriteContext) : Prop :=
  Filtering c ctx ∧
    (ctx.bodyTooLarge = false ∧ ctx.bodyBuffer.getD [] = received ∧ received.length < c.maxRespBodySize ∧ sent = [] ∨
      ctx.bodyTooLarge = true ∧ c.maxRespBodySize ≤ received.length ∧
        (received.length ≤ c.maxRespBodySize → sent = c.applyFiltersBytes received))

/-- After the buffer is full only empty chunks fit the limit. -/
theorem sent_of_full {received sent chunk : List UInt8} (hfull : c.maxRespBodySize ≤ received.length)
    (hsent : received.length ≤ c.maxRespBodySize → sent = c.applyFiltersBytes received)
    (hfits : (received ++ chunk).length ≤ c.maxRespBodySize) :
    sent ++ chunk = c.applyFiltersBytes (received ++ chunk) := by
  rw [List.length_append] at hfits
  have hnil : chunk = [] := List.eq_nil_of_length_eq_zero (by omega)
  rw [hnil, List.append_nil, List.append_nil]
  exact hsent (by omega)

theorem Buffering.step {received sent : List UInt8} (h : Buffering c received sent ctx) (chunk : Chunk UInt8) :
    Buffering c (received ++ chunk.getD []) (sent ++ (c.processBodyChunk ctx chunk false).1.getD [])
      (c.processBodyChunk ctx chunk false).2 := by
  obtain ⟨hf, hstate⟩ := h
  rw [hf.processBodyChunk]
  unfold processFilters
  cases hstate with
  | inl hopen =>
    obtain ⟨hlarge, rfl, hlt, rfl⟩ := hopen
    rw [if_neg (by simp [hlarge])]
    cases chunk with
    | none => exact ⟨hf, .inl ⟨hlarge, by simp, by simpa using hlt, rfl⟩⟩
    | some chunk =>
      simp only
      by_cases hfull : c.maxRespBodySize ≤ (ctx.bodyBuffer.getD []).length + chunk.length
      · rw [if_pos hfull]
        refine ⟨⟨hf.matched, hf.kept, hf.noReplacement, hf.filters⟩, .inr ⟨rfl, by simpa using hfull, fun hfits => ?_⟩⟩
        rw [Option.getD_some] at hfits ⊢
        rw [Option.getD_some, List.nil_append, List.take_of_length_le hfits]
      · rw [if_neg hfull, if_pos trivial]
        refine ⟨⟨hf.matched, hf.kept, hf.noReplacement, hf.filters⟩, .inl ⟨hlarge, rfl, ?_, rfl⟩⟩
        simpa using hfull
  | inr hclosed =>
    obtain ⟨hlarge, hfull, hsent⟩ := hclosed
    rw [if_pos hlarge]
    refine ⟨hf, .inr ⟨hlarge, ?_, sent_of_full hfull hsent⟩⟩
    rw [List.length_append]
    omega

theorem Buffering.last {received sent : List UInt8} (h : Buffering c received sent ctx) {chunk : Chunk UInt8}
    (hfits : (received ++ chunk.getD []).length ≤ c.maxRespBodySize) :
    sent ++ (c.processBodyChunk ctx chunk true).1.getD [] = c.applyFiltersBytes (received ++ chunk.getD []) := by
  obtain ⟨hf, hstate⟩ := h
  rw [hf.processBodyChunk]
  unfold processFilters
  cases hstate with
  | inl hopen =>
    obtain ⟨hlarge, rfl, hlt, rfl⟩ := hopen
    rw [if_neg (by simp [hlarge])]
    cases chunk with
    | none => simp
    | some chunk =>
      simp only
      by_cases hfull : c.maxRespBodySize ≤ (ctx.bodyBuffer.getD []).length + chunk.length
      · rw [if_pos hfull]
        rw [Option.getD_some] at hfits ⊢
        rw [Option.getD_some, List.nil_append, List.take_of_length_le hfits]
      · rw [if_neg hfull, if_neg (by simp)]
        rfl
  | inr hclosed =>
    obtain ⟨hlarge, hfull, hsent⟩ := hclosed
    rw [if_pos hlarge]
    exact sent_of_full hfull hsent hfits

theorem respond_of_fits (h : Filtering c ctx) (hb : ctx.bodyBuffer = none) (hl : ctx.bodyTooLarge = false)
    (hfits : a.body.length ≤ c.maxRespBodySize) : (c.respond ctx a).bytes = c.applyFiltersBytes a.body := by
  refine respond_bytes (Buffering c) (fun _ _ _ chunk hi => hi.step chunk) (fun _ _ hi => hi.last hfits) ?_
  exact ⟨h, .inl ⟨hl, by rw [hb]; rfl, c.positive, rfl⟩⟩

/-! ## Bodies that are too long -/

/-- The chunk that fills the buffer leaves cut off and filtered. -/
theorem Filtering.fills (h : Filtering c ctx) (hb : ctx.bodyBuffer = none) (hl : ctx.bodyTooLarge = false)
    {chunk : List UInt8} (hfull : c.maxRespBodySize ≤ chunk.length) (endOfStream : Bool) :
    c.processBodyChunk ctx (some chunk) endOfStream =
      (some (c.applyFiltersBytes (chunk.take c.maxRespBodySize)), { ctx with bodyTooLarge := true }) := by
  rw [h.processBodyChunk]
  unfold processFilters
  rw [if_neg (by simp [hl])]
  simp only [hb, Option.getD_none, List.length_nil, Nat.zero_add, List.nil_append]
  rw [if_pos hfull]

/-- After it chunks leave as they came. -/
theorem Filtering.passes (h : Filtering c ctx) (hl : ctx.bodyTooLarge = true) (chunk : Chunk UInt8) (endOfStream : Bool) :
    c.processBodyChunk ctx chunk endOfStream = (chunk, ctx) := by
  rw [h.processBodyChunk]
  unfold processFilters
  rw [if_pos hl]

/-- The body in one chunk, and cut where the buffer is full. -/
def whole (body : List UInt8) : Arrival UInt8 := ⟨[], some body⟩

def cutAt (n : Nat) (body : List UInt8) : Arrival UInt8 := ⟨[some (body.take n)], some (body.drop n)⟩

theorem cutAt_body (n : Nat) (body : List UInt8) : (cutAt n body).body = body := by
  unfold cutAt Arrival.body
  rw [BodyStream.content_cons, BodyStream.content_nil, List.append_nil]
  exact List.take_append_drop n body

theorem respond_whole (h : Filtering c ctx) (hb : ctx.bodyBuffer = none) (hl : ctx.bodyTooLarge = false)
    {body : List UInt8} (hlong : c.maxRespBodySize ≤ body.length) :
    (c.respond ctx (whole body)).bytes = c.applyFiltersBytes (body.take c.maxRespBodySize) := by
  have hend := h.fills hb hl hlong true
  unfold respond BodyStream.run BodyStream.Emission.bytes whole BodyStream.runBefore
  simp only [hend]
  rfl

theorem respond_cutAt (h : Filtering c ctx) (hb : ctx.bodyBuffer = none) (hl : ctx.bodyTooLarge = false)
    {body : List UInt8} (hlong : c.maxRespBodySize ≤ body.length) :
    (c.respond ctx (cutAt c.maxRespBodySize body)).bytes =
      c.applyFiltersBytes (body.take c.maxRespBodySize) ++ body.drop c.maxRespBodySize := by
  have hlen : (body.take c.maxRespBodySize).length = c.maxRespBodySize := List.length_take_of_le hlong
  have hfirst := h.fills hb hl hlen.ge false
  rw [List.take_of_length_le hlen.le] at hfirst
  have hafter : Filtering c { ctx with bodyTooLarge := true } := ⟨h.matched, h.kept, h.noReplacement, h.filters⟩
  have hend := hafter.passes rfl (some (body.drop c.maxRespBodySize)) true
  unfold respond BodyStream.run BodyStream.Emission.bytes cutAt BodyStream.runBefore
  simp only [hfirst]
  unfold BodyStream.runBefore
  simp only [hend]
  rw [BodyStream.content_cons, BodyStream.content_nil, List.append_nil]
  rfl

end

/-- What is left of the body does not depend on the chunks: no filter touches the body, or it fits the buffer. -/
def ChunksVanish (c : Compiled) (matched skip : Bool) (body : List UInt8) : Prop :=
  matched = false ∨ skip = true ∨ c.replacementBody ≠ none ∨ c.filters = [] ∨ body.length ≤ c.maxRespBodySize

theorem respond_eq_of_vanish {c : Compiled} {matched skip : Bool} {body : List UInt8}
    (h : ChunksVanish c matched skip body) {a a' : Arrival UInt8} (ha : a.body = body) (ha' : a'.body = body) :
    (c.respond (start matched skip) a).bytes = (c.respond (start matched skip) a').bytes := by
  by_cases hpass : matched = false ∨ skip = true ∨ c.rewritesBody = false
  · have hchunk : ∀ chunk endOfStream,
        c.processBodyChunk (start matched skip) chunk endOfStream = (chunk, start matched skip) := by
      intro chunk endOfStream
      unfold processBodyChunk start
      rcases hpass with rfl | rfl | hnone
      · simp
      · simp
      · simp [hnone]
    rw [respond_of_passes hchunk, respond_of_passes hchunk, ha, ha']
  · simp only [not_or, Bool.not_eq_false, Bool.not_eq_true] at hpass
    obtain ⟨hm, hs, hr⟩ := hpass
    cases hreplace : c.replacementBody with
    | some replacement => rw [respond_of_replacement hm hs hreplace, respond_of_replacement hm hs hreplace]
    | none =>
      have hfilters : c.filters ≠ [] := fun hnil => by simp [rewritesBody, hreplace, hnil] at hr
      have hfits : body.length ≤ c.maxRespBodySize := by
        rcases h with h | h | h | h | h
        · exact absurd (hm.symm.trans h) (by simp)
        · exact absurd (h.symm.trans hs) (by simp)
        · exact absurd hreplace h
        · exact absurd h hfilters
        · exact h
      have hf : Filtering c (start matched skip) := ⟨hm, hs, hreplace, hfilters⟩
      rw [respond_of_fits hf rfl rfl (by rwa [ha]), respond_of_fits hf rfl rfl (by rwa [ha']), ha, ha']

/-- Every two ways of cutting a body give the same response exactly when chunks vanish. -/
theorem chunking_independent_iff (c : Compiled) (matched skip : Bool) (body : List UInt8) :
    (∀ a a' : Arrival UInt8, a.body = body → a'.body = body →
        (c.respond (start matched skip) a).bytes = (c.respond (start matched skip) a').bytes) ↔
      ChunksVanish c matched skip body := by
  refine ⟨fun h => ?_, fun h a a' ha ha' => respond_eq_of_vanish h ha ha'⟩
  by_contra hnot
  unfold ChunksVanish at hnot
  simp only [not_or, not_not, Bool.not_eq_false, Bool.not_eq_true, Nat.not_le] at hnot
  obtain ⟨hm, hs, hreplace, hfilters, hlong⟩ := hnot
  have hf : Filtering c (start matched skip) := ⟨hm, hs, hreplace, hfilters⟩
  have heq := h (cutAt c.maxRespBodySize body) (whole body) (cutAt_body _ _) rfl
  rw [respond_cutAt hf rfl rfl hlong.le, respond_whole hf rfl rfl hlong.le] at heq
  have hdrop : body.drop c.maxRespBodySize = [] := List.append_right_eq_self.mp heq
  exact absurd (List.drop_eq_nil_iff.mp hdrop) (Nat.not_le.mpr hlong)

/-! ## A body of five bytes and a buffer of four -/

/-- The expression `a`, whose matches are single bytes. -/
def letterA : BytesRegex where
  replaceAll text replacement := text.flatMap fun b => if b = 97 then replacement.toUTF8.data.toList else [b]
  replaceFirst text replacement :=
    match text.span (· ≠ 97) with
    | (before, _ :: after) => before ++ replacement.toUTF8.data.toList ++ after
    | (before, []) => before

def smallBuffer : Compiled where
  replacementBody := none
  filters := [(letterA, "b", true)]
  maxRespBodySize := 4
  positive := by decide

def inOneChunk : Arrival UInt8 := ⟨[], some [97, 97, 97, 97, 97]⟩

def inTwoChunks : Arrival UInt8 := ⟨[some [97, 97, 97, 97]], some [97]⟩

theorem chunking_dependent :
    inOneChunk.body = inTwoChunks.body ∧
      (smallBuffer.respond (start true false) inOneChunk).bytes = [98, 98, 98, 98] ∧
      (smallBuffer.respond (start true false) inTwoChunks).bytes = [98, 98, 98, 98, 97] := by
  decide

end Pingsix.ResponseRewrite.Compiled
