import Pingsix.CachePlugin
import Pingsix.Lib.Utf8

/-!
# What the hashed texts determine

The texts that go into the digests are unambiguous: a noted credential and the
digest before it, the digests of an isolated consumer, and every value of the
credential headers.
-/

namespace Pingsix

open HttpMessage Delimited

/-! ## Texts as bytes -/

theorem bytesOf_inj {s t : String} (h : bytesOf s = bytesOf t) : s = t := String.toList_inj.mp (Utf8.encode_inj h)

theorem zero_not_mem_encode {l : List Char} (h : ∀ c ∈ l, c.toNat ≠ 0) : 0 ∉ l.flatMap String.utf8EncodeChar := by
  intro hm
  obtain ⟨c, hc, hz⟩ := List.mem_flatMap.mp hm
  exact Utf8.zero_not_mem_utf8EncodeChar (h c hc) hz

theorem zero_not_mem_bytesOf {s : String} (h : Printable s) : 0 ∉ bytesOf s :=
  zero_not_mem_encode fun _ hc => h.no_nul hc

theorem HexDigest.no_nul (digest : HexDigest) : ∀ c ∈ digest.chars, c.toNat ≠ 0 := by
  intro c hc he
  have hz : c = '\x00' := Char.toNat_inj.mp he
  have hh := digest.hex c hc
  rw [hz] at hh
  exact absurd hh (by decide)

theorem zero_not_mem_digestBytes (digest : Option HexDigest) : 0 ∉ digestBytes digest := by
  refine zero_not_mem_encode ?_
  cases digest with
  | none => simp
  | some digest => exact digest.no_nul

theorem HexDigest.ext_chars {d e : HexDigest} (h : d.chars = e.chars) : d = e := by
  cases d
  cases e
  cases h
  rfl

theorem digestBytes_inj {d e : Option HexDigest} (h : digestBytes d = digestBytes e) : d = e := by
  have hc : d.elim [] HexDigest.chars = e.elim [] HexDigest.chars := Utf8.encode_inj h
  have hne : ∀ digest : HexDigest, digest.chars ≠ [] := fun digest hn => by
    have := digest.length_eq
    simp [hn] at this
  cases d with
  | none =>
    cases e with
    | none => rfl
    | some e => exact absurd hc.symm (hne e)
  | some d =>
    cases e with
    | none => exact absurd hc (hne d)
    | some e => rw [HexDigest.ext_chars hc]

/-! ## The three texts -/

theorem noteMessage_inj {previous previous' : Option HexDigest} {credential credential' : String}
    (hc : Printable credential) (hc' : Printable credential')
    (h : noteMessage previous credential = noteMessage previous' credential') :
    previous = previous' ∧ credential = credential' := by
  have h := (List.cons.inj (List.append_cancel_left h)).2
  have hz := zero_not_mem_bytesOf hc
  have hz' := zero_not_mem_bytesOf hc'
  cases previous with
  | none =>
    cases previous' with
    | none => exact ⟨rfl, bytesOf_inj h⟩
    | some digest' =>
      simp only at h
      rw [h] at hz
      exact absurd (by simp) hz
  | some digest =>
    cases previous' with
    | none =>
      simp only at h
      rw [← h] at hz'
      exact absurd (by simp) hz'
    | some digest' =>
      obtain ⟨hd, hb⟩ := append_sep_inj (zero_not_mem_digestBytes _) (zero_not_mem_digestBytes _) h
      exact ⟨digestBytes_inj hd, bytesOf_inj hb⟩

theorem isolationMessage_inj {υ : Type} {ctx ctx' : ProxyContext υ} (h : isolationMessage ctx = isolationMessage ctx') :
    ctx.originalCredentialDigest = ctx'.originalCredentialDigest ∧
      ctx.notedCredentialDigest = ctx'.notedCredentialDigest := by
  have h := (List.cons.inj (List.append_cancel_left h)).2
  obtain ⟨ho, hn⟩ := append_sep_inj (zero_not_mem_digestBytes _) (zero_not_mem_digestBytes _) h
  exact ⟨digestBytes_inj ho, digestBytes_inj hn⟩

/-- A credential header and its values, as bytes. -/
def credentialSections (req : RequestHeader) : List (List UInt8 × List (List UInt8)) :=
  credentialHeaders.map fun name => (bytesOf name, (HeaderMap.getAll req.headers name).map (·.bytes))

theorem markedText_values (values : List HeaderValue) :
    markedText 0 1 ((values.map (·.bytes)).map (·, false)) = values.flatMap fun value => value.bytes ++ [0] := by
  simp [markedText, List.flatMap_map]

theorem credentialMessage_eq (req : RequestHeader) :
    credentialMessage req = bytesOf "pingsix-cache-consumer-isolation-v1" ++
      0 :: markedText 0 1 (sectionTokens (credentialSections req)) := by
  have part : ∀ name, credentialPart req.headers name = markedText 0 1 ((bytesOf name,
      decide ((HeaderMap.getAll req.headers name).map (·.bytes) ≠ [])) ::
        ((HeaderMap.getAll req.headers name).map (·.bytes)).map (·, false)) := by
    intro name
    unfold credentialPart HeaderMap.containsKey
    rw [← markedText_values]
    simp [markedText]
  rw [sectionTokens, markedText_flatMap, credentialSections, List.flatMap_map]
  simp only [credentialMessage, funext part]

theorem credentialSections_clean (req : RequestHeader) :
    ∀ token ∈ sectionTokens (credentialSections req), 0 ∉ token.1 ∧ 1 ∉ token.1 := by
  intro token ht
  obtain ⟨section', hs, ht⟩ := List.mem_flatMap.mp ht
  obtain ⟨name, hname, rfl⟩ := List.mem_map.mp hs
  cases List.mem_cons.mp ht with
  | inl ht =>
    have all : ∀ name ∈ credentialHeaders, 0 ∉ bytesOf name ∧ 1 ∉ bytesOf name := by decide
    rw [ht]
    exact all name hname
  | inr ht =>
    obtain ⟨bytes, hb, rfl⟩ := List.mem_map.mp ht
    obtain ⟨value, -, rfl⟩ := List.mem_map.mp hb
    exact ⟨value.zero_not_mem, fun hm => absurd (value.valid 1 hm) (by decide)⟩

/-- The values of every credential header of the request. -/
def sentCredentials (req : RequestHeader) : List (List HeaderValue) :=
  credentialHeaders.map (HeaderMap.getAll req.headers)

theorem credentialMessage_inj {req req' : RequestHeader} (h : credentialMessage req = credentialMessage req') :
    sentCredentials req = sentCredentials req' := by
  rw [credentialMessage_eq, credentialMessage_eq] at h
  have ht := markedText_inj (by decide) (credentialSections_clean req) (credentialSections_clean req')
    (List.cons.inj (List.append_cancel_left h)).2
  have hname : ∀ r : RequestHeader, (credentialSections r).map Prod.fst = credentialHeaders.map bytesOf := fun r => by
    simp [credentialSections]
  have hs := sectionTokens_inj ((hname req).trans (hname req').symm) (by rw [hname]; decide) ht
  have hb : ∀ values values' : List HeaderValue, values.map (·.bytes) = values'.map (·.bytes) → values = values' :=
    fun _ _ he => List.map_injective_iff.mpr (fun v w hvw => by cases v; cases w; cases hvw; rfl) he
  unfold credentialSections at hs
  unfold sentCredentials
  rw [List.map_inj_left] at hs ⊢
  exact fun name hm => hb _ _ (Prod.mk.inj (hs name hm)).2

end Pingsix
