import Pingsix.AdminSound
import Pingsix.EncryptionSound
import Pingsix.SecretsSound

/-!
# Secrets through the Admin API

What a read view hides, what a request commits where the client left the mask,
and what putting a read view back leaves in the store.
-/

namespace Pingsix

open Json (lookup insertMember)
open Shape (find walk Within SameBut)

variable {ext : Externals} {keyring : KeyringService}

/-! ## Documents of stored values -/

/-- Documents are read with their members in key order. -/
def JsonCodec.OrderedDocs (c : JsonCodec) : Prop := ∀ bytes v, c.fromSlice bytes = .ok v → v.Ordered

/-- The stored value holds this document, its secrets decrypted. -/
def Reads (ext : Externals) (keyring : KeyringService) (kind : ResourceKind) (value : ByteArray) (x : Json) : Prop :=
  ∃ raw, ext.json.fromSlice value = .ok raw ∧ decryptForRead ext keyring kind raw = .ok x

/-- The graph holds this document under the key. -/
def HoldsDocument (ext : Externals) (keyring : KeyringService) (g : StoredGraph) (key : ResourceKey) (x : Json) : Prop :=
  ∃ resource, g.resources.lookup key = some resource ∧ Reads ext keyring key.kind resource.value x

theorem Reads.unique {kind : ResourceKind} {value : ByteArray} {x y : Json} (hx : Reads ext keyring kind value x)
    (hy : Reads ext keyring kind value y) : x = y := by
  obtain ⟨raw, hp, hd⟩ := hx
  obtain ⟨raw', hp', hd'⟩ := hy
  rw [hp] at hp'
  cases hp'
  rw [hd] at hd'
  cases hd'
  rfl

theorem Reads.ordered (ho : ext.json.OrderedDocs) {kind : ResourceKind} {value : ByteArray} {x : Json}
    (h : Reads ext keyring kind value x) : x.Ordered := by
  obtain ⟨raw, hp, hd⟩ := h
  have hraw := ho value raw hp
  unfold decryptForRead at hd
  split at hd
  · exact Shape.walk_ordered hraw ((transformResourceSecrets_eq_ok hraw).mp hd)
  · cases hd; exact hraw

/-- A view shows the stored document, redacted. -/
theorem resourceView_eq_ok {key : ResourceKey} {resource : StoredResource} {view : ResourceView} :
    resourceView ext keyring key resource = .ok view ↔
      ∃ x, Reads ext keyring key.kind resource.value x ∧
        view = ⟨key, redact ext key.kind x, resource.createRevision, resource.modRevision⟩ := by
  unfold resourceView parseStoredResource Reads
  cases hp : ext.json.fromSlice resource.value with
  | error e => simp [bind, Except.bind]
  | ok raw =>
    cases hd : decryptForRead ext keyring key.kind raw with
    | error e => simp [hd, bind, Except.bind]
    | ok x => simp [hd, bind, Except.bind, pure, Except.pure, eq_comm]

/-! ## Noninterference of read views -/

/-- A value that is an envelope of the keyring. -/
def Sealed (ext : Externals) (keyring : KeyringService) (s : String) : Prop :=
  isCiphertext s = true ∧ ∃ t, keyring.decrypt ext.crypto s = .ok t

/-- Views of documents that differ in secrets are equal exactly when the secrets no walk reaches are. -/
theorem redact_eq_iff {kind : ResourceKind} {x y : Json} (hx : x.Ordered) (hy : y.Ordered)
    (h : SameBut (declared kind) x y) :
    redact ext kind x = redact ext kind y ↔
      ∀ q, find (reached kind) x q = none → find (declared kind) x q = find (declared kind) y q :=
  Shape.hide_eq_iff (reached_declared kind) hx h (redact_eq ext kind hx) (redact_eq ext kind hy)

/-! ## What is stored -/

/-- No other key of the keyring opens what it seals. -/
def KeyringService.Authentic (c : Crypto) (keyring : KeyringService) (nonce : ByteArray) (plaintext : String) : Prop :=
  ∀ kr, keyring.keyring = some kr → c.Authentic kr.keys kr.primary nonce plaintext.toUTF8

/-- The nonces drawn for a document: of the right size, and sealing what only the keyring opens. -/
structure GoodNonces (ext : Externals) (keyring : KeyringService) (nonces : SecretPath → ByteArray) (kind : ResourceKind)
    (doc : Json) : Prop where
  size : ∀ path, (nonces path).size = 12
  authentic : ∀ q s, find (reached kind) doc q = some s → keyring.Authentic ext.crypto (nonces q) s

/-- The document as it is stored. -/
def StoredAs (ext : Externals) (keyring : KeyringService) (nonces : SecretPath → ByteArray) (kind : ResourceKind)
    (doc stored : Json) : Prop :=
  if keyring.isEnabled then
    walk (applySecretOp ext.crypto keyring nonces .encrypt) (reached kind) [] doc = .ok stored
  else stored = doc

theorem encryptForStorage_eq_ok {nonces : SecretPath → ByteArray} {kind : ResourceKind} {doc : Json} {bytes : ByteArray}
    (hd : doc.Ordered) :
    encryptForStorage ext keyring nonces kind doc = .ok bytes ↔
      ∃ stored, StoredAs ext keyring nonces kind doc stored ∧ bytes = ext.json.toVec stored := by
  unfold encryptForStorage StoredAs
  by_cases he : keyring.isEnabled = true
  · simp only [he, if_true, Except.bind_eq_ok, Except.pure_eq_ok, transformResourceSecrets_eq_ok hd]
    exact exists_congr fun stored => and_congr_right fun _ => eq_comm
  · simp [he, bind, Except.bind, pure, Except.pure, eq_comm]

theorem decrypt_of_encrypt (hc : ext.crypto.Lawful) {nonces : SecretPath → ByteArray} {q : SecretPath} {s t : String}
    (hn : (nonces q).size = 12) (ha : keyring.Authentic ext.crypto (nonces q) s) (hs : isCiphertext s = false)
    (h : applySecretOp ext.crypto keyring nonces .encrypt q s = .ok t) : decryptLeaf ext keyring q t = .ok s := by
  obtain ⟨_ | kr⟩ := keyring
  · cases h
    simp [decryptLeaf, KeyringService.decrypt, hs]
  · exact Keyring.decrypt_encrypt hc (List.head_mem kr.nonempty) hn (ha kr rfl) hs h

/-- What is stored for a document decrypts to the document, unless a secret imitates ciphertext. -/
theorem decrypt_stored (hc : ext.crypto.Lawful) {nonces : SecretPath → ByteArray} {kind : ResourceKind}
    {doc stored : Json} (hd : doc.Ordered) (hn : GoodNonces ext keyring nonces kind doc)
    (hs : ∀ q s, find (reached kind) doc q = some s → isCiphertext s = false)
    (h : StoredAs ext keyring nonces kind doc stored) : decryptForRead ext keyring kind stored = .ok doc := by
  unfold StoredAs at h
  unfold decryptForRead
  by_cases he : keyring.isEnabled
  · rw [if_pos he] at h ⊢
    rw [transformResourceSecrets_eq_ok (Shape.walk_ordered hd h)]
    exact Shape.walk_undo hd h fun q s t hq ht =>
      decrypt_of_encrypt hc (hn.size q) (hn.authentic q s hq) (hs q s hq) ht
  · rw [if_neg he] at h ⊢
    rw [h]

/-- Every declared secret of the stored form is an envelope exactly when every secret of the document
is one already or stands, undisguised, where the walk of encryption reaches it. -/
theorem stored_sealed_iff (hc : ext.crypto.Lawful) {nonces : SecretPath → ByteArray} {kind : ResourceKind}
    {doc stored : Json} (he : keyring.isEnabled = true) (hn : GoodNonces ext keyring nonces kind doc)
    (h : StoredAs ext keyring nonces kind doc stored) :
    (∀ q t, find (declared kind) stored q = some t → Sealed ext keyring t) ↔
      ∀ q s, find (declared kind) doc q = some s →
        Sealed ext keyring s ∨ isCiphertext s = false ∧ (find (reached kind) doc q).isSome := by
  unfold StoredAs at h
  rw [if_pos he] at h
  have hsealed : ∀ q s t, find (reached kind) doc q = some s → isCiphertext s = false →
      applySecretOp ext.crypto keyring nonces .encrypt q s = .ok t → Sealed ext keyring t := by
    intro q s t hq hs ht
    refine ⟨?_, s, decrypt_of_encrypt hc (hn.size q) (hn.authentic q s hq) hs ht⟩
    obtain ⟨kr, hkr⟩ := Option.isSome_iff_exists.mp he
    have ht' : kr.encrypt ext.crypto (nonces q) s = .ok t := by
      simpa [applySecretOp, KeyringService.encrypt, hkr] using ht
    exact Keyring.isCiphertext_of_encrypt ht'
  have hkept : ∀ q s t, isCiphertext s = true → applySecretOp ext.crypto keyring nonces .encrypt q s = .ok t → t = s := by
    intro q s t hs ht
    obtain ⟨kr, hkr⟩ := Option.isSome_iff_exists.mp he
    simpa [applySecretOp, KeyringService.encrypt, Keyring.encrypt, hkr, hs, eq_comm] using ht
  constructor
  · intro hall q s hs
    cases hq : find (reached kind) doc q with
    | none =>
      have hstay := (Shape.find_walk (reached_declared kind) h q).1 hq
      exact .inl (hall q s (by rw [hstay, hs]))
    | some s' =>
      have hss : s' = s := by simpa [Shape.find_within (reached_declared kind) hq] using hs
      subst hss
      obtain ⟨t, ht, hf⟩ := (Shape.find_walk (reached_declared kind) h q).2 s' hq
      by_cases hs' : isCiphertext s' = true
      · rw [hkept q s' t hs' ht] at hf
        exact .inl (hall q s' hf)
      · exact .inr ⟨by simpa using hs', rfl⟩
  · intro hall q t ht
    cases hq : find (reached kind) doc q with
    | none =>
      have hstay := (Shape.find_walk (reached_declared kind) h q).1 hq
      rw [hstay] at ht
      cases hall q t ht with
      | inl hs => exact hs
      | inr hs => rw [hq] at hs; simp at hs
    | some s =>
      obtain ⟨t', ht', hf⟩ := (Shape.find_walk (reached_declared kind) h q).2 s hq
      rw [ht] at hf
      cases hf
      by_cases hs : isCiphertext s = true
      · rw [hkept q s t hs ht']
        cases hall q s (Shape.find_within (reached_declared kind) hq) with
        | inl hss => exact hss
        | inr hss => rw [hs] at hss; cases hss.1
      · exact hsealed q s t hq (by simpa using hs) ht'

/-! ## Restored documents -/

mutual
/-- A mask at a mark is found by the search for masks. -/
theorem containsRedactionSentinel_of_find : ∀ {v : Json} {sh : Shape} {q : SecretPath},
    find sh v q = some redacted → containsRedactionSentinel v = true
  | v, .none, q, h => by simp at h
  | .str s, .node marked ms is, q, h => by
    cases q with
    | nil =>
      cases marked with
      | true => simpa [find, containsRedactionSentinel] using h
      | false => simp [find] at h
    | cons a q => cases a <;> simp [find] at h
  | .obj ns, .node marked ms is, q, h => by
    cases q with
    | nil => simp [find] at h
    | cons a q =>
      cases a with
      | inl k =>
        simp only [find, Option.bind_eq_some_iff] at h
        obtain ⟨v, hv, hf⟩ := h
        rw [containsRedactionSentinel]
        exact membersContainSentinel_of_find (Json.mem_of_lookup hv) hf
      | inr i => simp [find] at h
  | .arr vs, .node marked ms is, q, h => by
    cases q with
    | nil => simp [find] at h
    | cons a q =>
      cases a with
      | inl k => simp [find] at h
      | inr i =>
        simp only [find, Option.bind_eq_some_iff] at h
        obtain ⟨v, hv, hf⟩ := h
        rw [containsRedactionSentinel]
        exact itemsContainSentinel_of_find (List.mem_of_getElem? hv) hf
  | .null, .node marked ms is, q, h => by
    cases q with
    | nil => simp [find] at h
    | cons a q => cases a <;> simp [find] at h
  | .bool b, .node marked ms is, q, h => by
    cases q with
    | nil => simp [find] at h
    | cons a q => cases a <;> simp [find] at h
  | .num n, .node marked ms is, q, h => by
    cases q with
    | nil => simp [find] at h
    | cons a q => cases a <;> simp [find] at h

theorem membersContainSentinel_of_find : ∀ {ns : List (String × Json)} {k : String} {v : Json} {sh : Shape}
    {q : SecretPath}, (k, v) ∈ ns → find sh v q = some redacted → membersContainSentinel ns = true
  | (l, w) :: ns, k, v, sh, q, hm, hf => by
    rw [membersContainSentinel, Bool.or_eq_true]
    cases List.mem_cons.mp hm with
    | inl he =>
      have hvw : v = w := (Prod.mk.inj he).2
      exact .inl (containsRedactionSentinel_of_find (hvw ▸ hf))
    | inr hm => exact .inr (membersContainSentinel_of_find hm hf)

theorem itemsContainSentinel_of_find : ∀ {vs : List Json} {v : Json} {sh : Shape} {q : SecretPath},
    v ∈ vs → find sh v q = some redacted → itemsContainSentinel vs = true
  | w :: vs, v, sh, q, hm, hf => by
    rw [itemsContainSentinel, Bool.or_eq_true]
    cases List.mem_cons.mp hm with
    | inl he => exact .inl (containsRedactionSentinel_of_find (he ▸ hf))
    | inr hm => exact .inr (itemsContainSentinel_of_find hm hf)
end

/-- What stands at every secret of the document a request goes on with. -/
theorem find_restoreFromStored (ho : ext.json.OrderedDocs) {g : StoredGraph} {key : ResourceKey} {body doc : Json}
    (h : restoreFromStored ext keyring g key body = .ok doc) (q : SecretPath) :
    (∀ x, HoldsDocument ext keyring g key x → find (declared key.kind) doc q =
      (find (declared key.kind) body q).map (restored (find (reached key.kind) x q))) ∧
    ((¬∃ x, HoldsDocument ext keyring g key x) → find (declared key.kind) doc q = find (declared key.kind) body q) := by
  unfold restoreFromStored at h
  by_cases hc : containsRedactionSentinel body = true
  · rw [if_pos hc] at h
    cases hl : g.resources.lookup key with
    | none =>
      rw [hl] at h
      cases h
      refine ⟨fun x hx => ?_, fun _ => rfl⟩
      obtain ⟨resource, hr, -⟩ := hx
      rw [hl] at hr
      cases hr
    | some resource =>
      rw [hl] at h
      obtain ⟨raw, hp, h⟩ := Except.bind_eq_ok.mp h
      cases hd : decryptForRead ext keyring key.kind raw with
      | error e => simp [hd] at h
      | ok existing =>
        simp only [hd, Except.pure_eq_ok] at h
        subst h
        have hreads : Reads ext keyring key.kind resource.value existing := by
          refine ⟨raw, ?_, hd⟩
          unfold parseStoredResource at hp
          split at hp
          · cases hp
          · next hv => cases hp; exact hv
        refine ⟨fun x hx => ?_, fun hn => absurd ⟨existing, resource, hl, hreads⟩ hn⟩
        obtain ⟨resource', hr', hx⟩ := hx
        rw [hl] at hr'
        cases hr'
        rw [hreads.unique hx]
        exact find_restoreWalk (reached_declared key.kind) (hx.ordered ho) (redact_eq ext key.kind (hx.ordered ho)) body q
  · rw [if_neg hc] at h
    cases h
    refine ⟨fun x _ => ?_, fun _ => rfl⟩
    cases hb : find (declared key.kind) body q with
    | none => rfl
    | some t =>
      have ht : t ≠ redacted := fun he => hc (containsRedactionSentinel_of_find (he ▸ hb))
      simp [restored, ht]

/-- A mask over a secret is committed only where the store held it, exactly when every mask of the body
stands over a stored secret the walks reach or over a stored mask. -/
theorem sentinel_restored_iff (ho : ext.json.OrderedDocs) {g : StoredGraph} {key : ResourceKey} {body doc : Json}
    (h : restoreFromStored ext keyring g key body = .ok doc) :
    (∀ q, find (declared key.kind) doc q = some redacted →
        ∃ x, HoldsDocument ext keyring g key x ∧ find (declared key.kind) x q = some redacted) ↔
      ∀ q, find (declared key.kind) body q = some redacted →
        ∃ x, HoldsDocument ext keyring g key x ∧
          ((find (reached key.kind) x q).isSome ∨ find (declared key.kind) x q = some redacted) := by
  constructor
  · intro hall q hq
    obtain ⟨hheld, hfree⟩ := find_restoreFromStored ho h q
    by_cases hx : ∃ x, HoldsDocument ext keyring g key x
    · obtain ⟨x, hx⟩ := hx
      refine ⟨x, hx, ?_⟩
      cases hr : find (reached key.kind) x q with
      | some s => exact .inl rfl
      | none =>
        have hdoc := hheld x hx
        rw [hr, map_restored_none, hq] at hdoc
        obtain ⟨x', hx', hf⟩ := hall q hdoc
        obtain ⟨r, hl, hreads⟩ := hx
        obtain ⟨r', hl', hreads'⟩ := hx'
        rw [hl] at hl'
        cases hl'
        rw [hreads.unique hreads']
        exact .inr hf
    · rw [← hfree hx] at hq
      obtain ⟨x, hx', -⟩ := hall q hq
      exact absurd ⟨x, hx'⟩ hx
  · intro hall q hq
    obtain ⟨hheld, hfree⟩ := find_restoreFromStored ho h q
    have hbody : find (declared key.kind) body q = some redacted := by
      by_cases hx : ∃ x, HoldsDocument ext keyring g key x
      · obtain ⟨x, hx⟩ := hx
        have hdoc := hheld x hx
        rw [hq] at hdoc
        obtain ⟨t, ht, hr⟩ := Option.map_eq_some_iff.mp hdoc.symm
        unfold restored at hr
        by_cases he : t = redacted
        · rw [ht, he]
        · rw [if_neg he] at hr
          exact absurd hr he
      · rw [← hfree hx, hq]
    obtain ⟨x, hx, hor⟩ := hall q hbody
    refine ⟨x, hx, ?_⟩
    cases hor with
    | inr hf => exact hf
    | inl hr =>
      obtain ⟨s, hs⟩ := Option.isSome_iff_exists.mp hr
      have hdoc := hheld x hx
      rw [hq, hbody, hs] at hdoc
      have hsr : s = redacted := by simpa [restored, eq_comm] using hdoc
      rw [Shape.find_within (reached_declared key.kind) hs, hsr]

/-! ## Requests -/

theorem normalizeBodyId_ordered {key : ResourceKey} {value body : Json} (hv : value.Ordered)
    (h : normalizeBodyId key value = .ok body) : body.Ordered := by
  unfold normalizeBodyId at h
  split at h
  · cases h; exact hv
  · split at h
    · cases h
      exact Json.ordered_insertMember trivial hv
    · cases h
      rw [Json.ordered_obj]
      simp [Json.Ordered]
    · cases h

theorem parseStoredResource_eq_ok {key : ResourceKey} {value : ByteArray} {raw : Json} :
    parseStoredResource ext key value = .ok raw ↔ ext.json.fromSlice value = .ok raw := by
  unfold parseStoredResource
  cases ext.json.fromSlice value with
  | error e => simp
  | ok v => simp

theorem restoreFromStored_ordered (ho : ext.json.OrderedDocs) {g : StoredGraph} {key : ResourceKey} {body doc : Json}
    (hb : body.Ordered) (h : restoreFromStored ext keyring g key body = .ok doc) : doc.Ordered := by
  unfold restoreFromStored at h
  split at h
  · cases hl : g.resources.lookup key with
    | none => rw [hl] at h; cases h; exact hb
    | some resource =>
      rw [hl] at h
      obtain ⟨raw, hp, h⟩ := Except.bind_eq_ok.mp h
      cases hd : decryptForRead ext keyring key.kind raw with
      | error e => simp [hd] at h
      | ok existing =>
        simp only [hd, Except.pure_eq_ok] at h
        subst h
        have hx : Reads ext keyring key.kind resource.value existing := ⟨raw, parseStoredResource_eq_ok.mp hp, hd⟩
        exact restoreWalk_ordered (hx.ordered ho) hb
  · cases h; exact hb

/-- A planned PUT stores the restored body under its key. -/
theorem planPut_stored (ho : ext.json.OrderedDocs) {nonces : SecretPath → ByteArray} {g : StoredGraph}
    {key : ResourceKey} {value : Json} {commit : GraphCommit} (hv : value.Ordered)
    (h : planPut ext keyring nonces g key value = .ok commit) : ∃ body doc stored,
      normalizeBodyId key value = .ok body ∧ restoreFromStored ext keyring g key body = .ok doc ∧ doc.Ordered ∧
        StoredAs ext keyring nonces key.kind doc stored ∧ commit.mutation = .put key (ext.json.toVec stored) := by
  obtain ⟨body, doc, bytes, hb, hr, -, he, hp⟩ := planPut_eq_ok.mp h
  have hd := restoreFromStored_ordered ho (normalizeBodyId_ordered hv hb) hr
  obtain ⟨stored, hs, rfl⟩ := (encryptForStorage_eq_ok hd).mp he
  obtain ⟨-, rfl⟩ := planPutMutation_eq_ok.mp hp
  exact ⟨body, doc, stored, hb, hr, hd, hs, rfl⟩

/-- A PUT by itself leaves the store as it was, or commits its plan. -/
theorem perform_put {s s' : InMemoryState} {request : AdminRequest} {result : Except AdminFailure Int}
    (h : request.perform ext keyring s = (s', result)) :
    (∀ e, result = .error e → s' = s) ∧ ∀ r, result = .ok r → ∃ commit,
      request.plan ext keyring s.graph = .ok commit ∧ s' = s.commitTo commit.mutation := by
  cases hp : request.plan ext keyring s.graph with
  | error e =>
    rw [AdminRequest.perform, hp] at h
    cases h
    exact ⟨fun _ _ => rfl, fun r hr => by cases hr⟩
  | ok commit =>
    rw [perform_of_plan hp] at h
    cases h
    refine ⟨fun e he => ?_, fun _ _ => ⟨commit, rfl, rfl⟩⟩
    cases he

/-! ## Main results -/

/-- The Admin views of two documents of one kind that differ in secrets only are equal exactly when the
secrets out of reach are; and an accepted PUT stores no secret in the clear exactly when every secret of
its document is an envelope already or stands, undisguised, within reach. -/
theorem secrets_covered_iff (ho : ext.json.OrderedDocs) (hc : ext.crypto.Lawful) :
    (∀ {key : ResourceKey} {r₁ r₂ : StoredResource} {x y : Json} {v₁ v₂ : ResourceView},
      Reads ext keyring key.kind r₁.value x → Reads ext keyring key.kind r₂.value y → SameBut (declared key.kind) x y →
      resourceView ext keyring key r₁ = .ok v₁ → resourceView ext keyring key r₂ = .ok v₂ →
      (v₁.value = v₂.value ↔
        ∀ q, find (reached key.kind) x q = none → find (declared key.kind) x q = find (declared key.kind) y q)) ∧
    ∀ {nonces : SecretPath → ByteArray} {g : StoredGraph} {key : ResourceKey} {value : Json} {commit : GraphCommit},
      keyring.isEnabled = true → value.Ordered → planPut ext keyring nonces g key value = .ok commit →
      ∃ body doc stored, normalizeBodyId key value = .ok body ∧
        restoreFromStored ext keyring g key body = .ok doc ∧ commit.mutation = .put key (ext.json.toVec stored) ∧
        (GoodNonces ext keyring nonces key.kind doc →
          ((∀ q t, find (declared key.kind) stored q = some t → Sealed ext keyring t) ↔
            ∀ q s, find (declared key.kind) doc q = some s →
              Sealed ext keyring s ∨ isCiphertext s = false ∧ (find (reached key.kind) doc q).isSome)) := by
  constructor
  · intro key r₁ r₂ x y v₁ v₂ hx hy hs h₁ h₂
    obtain ⟨x', hx', rfl⟩ := resourceView_eq_ok.mp h₁
    obtain ⟨y', hy', rfl⟩ := resourceView_eq_ok.mp h₂
    rw [hx'.unique hx, hy'.unique hy]
    exact redact_eq_iff (hx.ordered ho) (hy.ordered ho) hs
  · intro nonces g key value commit he hv h
    obtain ⟨body, doc, stored, hb, hr, -, hs, hm⟩ := planPut_stored ho hv h
    exact ⟨body, doc, stored, hb, hr, hm, fun hn => stored_sealed_iff hc he hn hs⟩

/-- A refused PUT leaves the store as it was; an accepted one commits a mask over a secret only where the
store held it, exactly when every mask of its body stands over a stored secret within reach or over a
stored mask. -/
theorem put_sentinel_iff (ho : ext.json.OrderedDocs) {s s' : InMemoryState} {key : ResourceKey} {value : Json}
    {nonces : SecretPath → ByteArray} {result : Except AdminFailure Int} (hv : value.Ordered)
    (h : (AdminRequest.put key value nonces).perform ext keyring s = (s', result)) :
    (∀ e, result = .error e → s' = s) ∧ ∀ r, result = .ok r → ∃ body doc stored,
      normalizeBodyId key value = .ok body ∧ restoreFromStored ext keyring s.graph key body = .ok doc ∧
        StoredAs ext keyring nonces key.kind doc stored ∧ s' = s.commitTo (.put key (ext.json.toVec stored)) ∧
        ((∀ q, find (declared key.kind) doc q = some redacted →
            ∃ x, HoldsDocument ext keyring s.graph key x ∧ find (declared key.kind) x q = some redacted) ↔
          ∀ q, find (declared key.kind) body q = some redacted →
            ∃ x, HoldsDocument ext keyring s.graph key x ∧
              ((find (reached key.kind) x q).isSome ∨ find (declared key.kind) x q = some redacted)) := by
  obtain ⟨herror, hok⟩ := perform_put h
  refine ⟨herror, fun r hr => ?_⟩
  obtain ⟨commit, hp, rfl⟩ := hok r hr
  obtain ⟨body, doc, stored, hb, hrestore, -, hs, hm⟩ := planPut_stored ho hv hp
  exact ⟨body, doc, stored, hb, hrestore, hs, by rw [hm], sentinel_restored_iff ho hrestore⟩

/-! ## A sample rule -/

/-- A global rule with basic authentication. -/
def sampleRule (password : String) : Json :=
  .obj [("id", .str "g1"),
    ("plugins", .obj [("basic-auth", .obj [("password", .str password), ("username", .str "u")])])]

def sampleRuleText (password : String) : String :=
  "\x7b\"id\":\"g1\",\"plugins\":\x7b\"basic-auth\":\x7b\"password\":\"" ++ password ++
    "\",\"username\":\"u\"\x7d\x7d\x7d"

def sampleEnvelope : String := "$pingsix-enc:v1$AAAAAAAAAAAAAAAAvZQjTygU8xcQJVFF6bmtu/kBC22CFw=="

/-- Externals that know the rule under four passwords, and the sample cipher. -/
def ruleExternals : Externals :=
  { Admin.sampleExternals (["s3cret", "0ther", sampleEnvelope, redacted].map fun p => (sampleRule p, sampleRuleText p))
    with crypto := KeyringService.sampleCrypto }

def ruleKeyring : KeyringService := ⟨some KeyringService.sampleKeyring⟩

def ruleKey : ResourceKey := ⟨.globalRule, "g1", by decide⟩

theorem sampleRule_ordered (p : String) : (sampleRule p).Ordered := by
  simp only [sampleRule, Json.Ordered, Json.MembersOrdered, List.map_cons, List.map_nil, and_true, true_and]
  exact ⟨by decide, by decide, by decide⟩

theorem ruleExternals_ordered : ruleExternals.json.OrderedDocs := by
  intro bytes v h
  simp only [ruleExternals, Admin.sampleExternals, Admin.tableCodec] at h
  split at h
  · next d hd =>
    cases h
    have hmem := List.mem_of_find?_eq_some hd
    obtain ⟨p, -, rfl⟩ := List.mem_map.mp hmem
    exact sampleRule_ordered p
  · cases h

def rulePasswordPath : SecretPath := [.inl "plugins", .inl "basic-auth", .inl "password"]

/-- The password is the only secret of the rule. -/
theorem find_sampleRule {p s : String} {q : SecretPath} (h : find (declared .globalRule) (sampleRule p) q = some s) :
    q = rulePasswordPath ∧ s = p := by
  have hmarks : Shape.marks (declared .globalRule) [] (sampleRule p) = [(rulePasswordPath, p)] := by rfl
  have hmem : ([] ++ q, s) ∈ Shape.marks (declared .globalRule) [] (sampleRule p) := Shape.mem_marks_of_find h
  rw [hmarks] at hmem
  simpa using hmem

theorem sampleRule_sameBut (p p' : String) :
    SameBut (declared .globalRule) (sampleRule p) (sampleRule p') := by
  have hw : walk (Shape.hide p') (declared .globalRule) [] (sampleRule p) =
      (.ok (sampleRule p') : Except Unit Json) := by rfl
  exact Shape.sameBut_walk (.refl _) hw

/-- A store that holds the rule, its password sealed. -/
def ruleStore : InMemoryState := InMemoryState.new.commitTo (.put ruleKey (sampleRuleText sampleEnvelope).toUTF8)

def maskedPut : AdminRequest := .put ruleKey (sampleRule redacted) fun _ => KeyringService.zeroNonce

/-- The rule is read from its envelope; it is stored sealed, masked it is restored, and without a keyring and a stored
password the mask is stored. -/
theorem rule_evaluations :
    decryptForRead ruleExternals ruleKeyring .globalRule (sampleRule sampleEnvelope) = .ok (sampleRule "s3cret") ∧
      planPut ruleExternals ruleKeyring (fun _ => KeyringService.zeroNonce) InMemoryState.new.graph ruleKey
        (sampleRule "s3cret") = .ok ⟨.put ruleKey (sampleRuleText sampleEnvelope).toUTF8, none, none⟩ ∧
      maskedPut.plan ruleExternals ruleKeyring ruleStore.graph =
        .ok ⟨.put ruleKey (sampleRuleText sampleEnvelope).toUTF8, some 1, some 1⟩ ∧
      maskedPut.plan ruleExternals .disabled InMemoryState.new.graph =
        .ok ⟨.put ruleKey (sampleRuleText redacted).toUTF8, none, none⟩ := by decide +kernel

theorem reads_envelope :
    Reads ruleExternals ruleKeyring .globalRule (sampleRuleText sampleEnvelope).toUTF8 (sampleRule "s3cret") :=
  ⟨sampleRule sampleEnvelope, by rfl, rule_evaluations.1⟩

theorem reads_plain :
    Reads ruleExternals ruleKeyring .globalRule (sampleRuleText "0ther").toUTF8 (sampleRule "0ther") :=
  ⟨sampleRule "0ther", by rfl, by rfl⟩

theorem ruleNonces_good (p : String) :
    GoodNonces ruleExternals ruleKeyring (fun _ => KeyringService.zeroNonce) .globalRule (sampleRule p) := by
  refine ⟨fun _ => by decide, fun q s _ kr hkr ciphertext _ other hother hne => ?_⟩
  cases hkr
  have heq : other = KeyringService.zeroKey := by simpa [KeyringService.sampleKeyring] using hother
  exact absurd heq hne

/-- Two rules with different passwords look the same, and the password is stored sealed. -/
theorem secrets_covered_sample :
    (∀ v₁ v₂,
      resourceView ruleExternals ruleKeyring ruleKey ⟨(sampleRuleText sampleEnvelope).toUTF8, 1, 1⟩ = .ok v₁ →
      resourceView ruleExternals ruleKeyring ruleKey ⟨(sampleRuleText "0ther").toUTF8, 2, 2⟩ = .ok v₂ →
      v₁.value = v₂.value) ∧
    ∃ stored, ruleExternals.json.toVec stored = (sampleRuleText sampleEnvelope).toUTF8 ∧
      ∀ q t, find (declared .globalRule) stored q = some t → Sealed ruleExternals ruleKeyring t := by
  have hmain := @secrets_covered_iff ruleExternals ruleKeyring ruleExternals_ordered KeyringService.sampleCrypto_lawful
  constructor
  · intro v₁ v₂ h₁ h₂
    refine (hmain.1 reads_envelope reads_plain (sampleRule_sameBut "s3cret" "0ther") h₁ h₂).mpr fun q hq => ?_
    show find (declared .globalRule) (sampleRule "s3cret") q = find (declared .globalRule) (sampleRule "0ther") q
    cases hs : find (declared .globalRule) (sampleRule "s3cret") q with
    | none => exact (((sampleRule_sameBut "s3cret" "0ther").find_eq_none (.refl _) q).mp hs).symm
    | some s =>
      obtain ⟨rfl, rfl⟩ := find_sampleRule hs
      exact absurd hq (by decide)
  · have hplan := rule_evaluations.2.1
    obtain ⟨body, doc, stored, hb, hr, hm, hiff⟩ := hmain.2 rfl (sampleRule_ordered "s3cret") hplan
    have hbody : normalizeBodyId ruleKey (sampleRule "s3cret") = .ok (sampleRule "s3cret") := by rfl
    rw [hbody] at hb
    cases hb
    have hdoc : restoreFromStored ruleExternals ruleKeyring InMemoryState.new.graph ruleKey (sampleRule "s3cret") =
        .ok (sampleRule "s3cret") := by rfl
    rw [hdoc] at hr
    cases hr
    refine ⟨stored, (StoredMutation.put.inj hm).2.symm, (hiff (ruleNonces_good "s3cret")).mpr fun q s hs => ?_⟩
    obtain ⟨rfl, rfl⟩ := find_sampleRule hs
    exact .inr (by decide)

/-- A mask over a stored password is restored. -/
theorem put_sentinel_sample : ∃ doc,
    restoreFromStored ruleExternals ruleKeyring ruleStore.graph ruleKey (sampleRule redacted) = .ok doc ∧
      ∀ q, find (declared .globalRule) doc q = some redacted →
        ∃ x, HoldsDocument ruleExternals ruleKeyring ruleStore.graph ruleKey x ∧
          find (declared .globalRule) x q = some redacted := by
  have hperform := perform_of_plan rule_evaluations.2.2.1
  obtain ⟨body, doc, stored, hb, hr, -, -, hiff⟩ :=
    (put_sentinel_iff ruleExternals_ordered (sampleRule_ordered redacted) hperform).2 _ rfl
  have hbody : normalizeBodyId ruleKey (sampleRule redacted) = .ok (sampleRule redacted) := by rfl
  rw [hbody] at hb
  cases hb
  refine ⟨doc, hr, hiff.mpr fun q hq => ?_⟩
  obtain ⟨rfl, -⟩ := find_sampleRule hq
  exact ⟨sampleRule "s3cret", ⟨_, rfl, reads_envelope⟩, .inl (by rfl)⟩

/-- The mask itself is committed as a password where there is nothing to restore. -/
theorem sentinel_committed :
    maskedPut.perform ruleExternals .disabled InMemoryState.new =
        (InMemoryState.new.commitTo (.put ruleKey (sampleRuleText redacted).toUTF8), .ok 1) ∧
      InMemoryState.new.graph.resources.lookup ruleKey = none ∧
      ruleExternals.json.fromSlice (sampleRuleText redacted).toUTF8 = .ok (sampleRule redacted) ∧
      find (declared .globalRule) (sampleRule redacted) rulePasswordPath = some redacted :=
  ⟨perform_of_plan rule_evaluations.2.2.2, rfl, by rfl, by rfl⟩

/-! ## A sample route -/

/-- A route whose traffic-split plugin declares an upstream with a client key. -/
def sampleSplitRoute (clientKey : String) : Json :=
  .obj [("id", .str "r1"),
    ("plugins", .obj [("traffic-split", .obj [("rules", .arr [.obj [("weighted_upstreams", .arr [.obj [
      ("upstream", .obj [("nodes", .obj [("127.0.0.1:443", .num (.posInt 1))]),
        ("tls", .obj [("client_cert", .str "cert"), ("client_key", .str clientKey)])]),
      ("weight", .num (.posInt 1))]])]])])]),
    ("upstream", .obj [("nodes", .obj [("127.0.0.1:80", .num (.posInt 1))])]),
    ("uri", .str "/")]

/-- The client key of a traffic-split target is shown, and stored as it is. -/
theorem split_key_leaks :
    validateResourceJson ruleExternals .route (sampleSplitRoute "key-1") = .ok () ∧
      validateResourceJson ruleExternals .route (sampleSplitRoute "key-2") = .ok () ∧
      SameBut (declared .route) (sampleSplitRoute "key-1") (sampleSplitRoute "key-2") ∧
      redact ruleExternals .route (sampleSplitRoute "key-1") ≠ redact ruleExternals .route (sampleSplitRoute "key-2") ∧
      StoredAs ruleExternals ruleKeyring (fun _ => KeyringService.zeroNonce) .route (sampleSplitRoute "key-1")
        (sampleSplitRoute "key-1") := by
  have hw : walk (Shape.hide "key-2") (declared .route) [] (sampleSplitRoute "key-1") =
      (.ok (sampleSplitRoute "key-2") : Except Unit Json) := by rfl
  exact ⟨by decide, by decide, Shape.sameBut_walk (.refl _) hw, by decide, by rfl⟩

end Pingsix
