import Pingsix.RedactionSound

/-!
# Putting a read view back

The redacted view of a stored document is as good a request as the document
itself: every mask is replaced by the secret it stands over, and only the `id`
is set to the one of the path.
-/

namespace Pingsix

open Json (lookup insertMember)
open Shape (find walk Within SameBut)

variable {ext : Externals} {keyring : KeyringService}

/-! ## The id of the path -/

/-- The document under the id of the path. -/
def withId (id : String) : Json → Json
  | .obj members => .obj (insertMember "id" (.str id) members)
  | .null => .obj [("id", .str id)]
  | v => v

theorem withId_ordered {id : String} {v : Json} (h : v.Ordered) : (withId id v).Ordered := by
  cases v with
  | obj ms => exact Json.ordered_insertMember trivial h
  | null => simp [withId, Json.ordered_obj, Json.Ordered]
  | _ => exact h

theorem normalizeBodyId_obj {key : ResourceKey} {ms : List (String × Json)} (h : (Json.obj ms).Ordered) :
    normalizeBodyId key (.obj ms) = .ok (withId key.id (.obj ms)) := by
  unfold normalizeBodyId
  split
  · next he =>
    have hl : lookup ms "id" = some (.str key.id) := by
      rw [Option.bind_eq_some_iff] at he
      obtain ⟨v, hv, hs⟩ := he
      cases v with
      | str s => cases hs; exact hv
      | _ => cases hs
    rw [Json.ordered_obj] at h
    rw [withId, Json.insertMember_self h.1 hl]
  · rfl

/-- No secret stands in the `id` of a resource. -/
theorem resourceSecrets_node (everywhere : Bool) (kind : ResourceKind) : ∃ ms is,
    resourceSecrets everywhere kind = .node false ms is ∧ ms "id" = .none := by
  cases kind <;> exact ⟨_, _, rfl, rfl⟩

theorem find_withId (everywhere : Bool) (kind : ResourceKind) (id : String) (v : Json) (q : SecretPath) :
    find (resourceSecrets everywhere kind) (withId id v) q = find (resourceSecrets everywhere kind) v q := by
  obtain ⟨ms, is, hn, hid⟩ := resourceSecrets_node everywhere kind
  rw [hn]
  cases v with
  | obj ns =>
    cases q with
    | nil => simp [withId, find]
    | cons a q =>
      cases a with
      | inr i => simp [withId, find]
      | inl k =>
        simp only [withId, find, Json.lookup_insertMember]
        by_cases hk : k = "id"
        · simp [hk, hid]
        · rw [if_neg hk]
  | null =>
    cases q with
    | nil => simp [withId, find]
    | cons a q =>
      cases a with
      | inr i => simp [withId, find]
      | inl k =>
        by_cases hk : "id" = k
        · simp [withId, find, ← hk, hid]
        · simp [withId, find, hk, lookup]
  | _ => rfl

theorem sameBut_withId {kind : ResourceKind} {x y : Json} (id : String) (h : SameBut (reached kind) x y) :
    SameBut (reached kind) (withId id x) (withId id y) := by
  obtain ⟨ms, is, hn, hid⟩ := resourceSecrets_node false kind
  rw [reached, hn] at h ⊢
  cases x with
  | obj ns =>
    cases y with
    | obj os =>
      refine ⟨Json.insertMember_keys_congr "id" (.str id) (.str id) h.1, fun k v w hv hw => ?_⟩
      rw [Json.lookup_insertMember] at hv hw
      by_cases hk : k = "id"
      · rw [if_pos hk] at hv hw
        rw [hk, hid]
        exact Option.some.inj (hv.symm.trans hw)
      · rw [if_neg hk] at hv hw
        exact h.2 k v w hv hw
    | _ => cases h
  | null => cases y with
    | null => exact SameBut.refl _ _
    | _ => cases h
  | _ => cases y with
    | obj os => cases h
    | null => cases h
    | _ => exact h

/-! ## The view against the document -/

/-- What has, at every secret, the mask or the secret of `x`, restores to the document with the secrets of `x`. -/
theorem restoreWalk_eq {kind : ResourceKind} {x x' y : Json} (hx : x.Ordered) (hx' : x'.Ordered)
    (hs : SameBut (reached kind) x' y) (hf : ∀ q, find (reached kind) x' q = find (reached kind) x q)
    (hm : ∀ q s t, find (reached kind) x q = some s → find (reached kind) y q = some t → t = redacted ∨ t = s) :
    restoreWalk (redact ext kind x) x y = x' := by
  have hwalk := redact_eq ext kind hx
  have hsame : SameBut (reached kind) x' (restoreWalk (redact ext kind x) x y) :=
    hs.trans (sameBut_restoreWalk (.refl _) hx hwalk _)
  refine (hsame.eq hx' fun q => ?_).symm
  rw [find_restoreWalk (.refl _) hx hwalk, hf]
  cases hq : find (reached kind) x q with
  | none =>
    have hy := (hs.find_eq_none (.refl _) q).mp ((hf q).trans hq)
    rw [hy, Option.map_none]
  | some s =>
    cases ht : find (reached kind) y q with
    | none =>
      have hnone := (hs.find_eq_none (.refl _) q).mpr ht
      rw [hf, hq] at hnone
      cases hnone
    | some t =>
      rw [Option.map_some]
      unfold restored
      cases hm q s t hq ht with
      | inl he => rw [if_pos he]; rfl
      | inr he =>
        by_cases hr : t = redacted
        · rw [if_pos hr]; rfl
        · rw [if_neg hr, he]

/-- The same with a client that skips the restoration of a body without masks. -/
theorem restoreFromStored_withId (ho : ext.json.OrderedDocs) {g : StoredGraph} {key : ResourceKey} {x y : Json}
    (hg : HoldsDocument ext keyring g key x) (hs : SameBut (reached key.kind) x y)
    (hm : ∀ q s t, find (reached key.kind) x q = some s → find (reached key.kind) y q = some t → t = redacted ∨ t = s) :
    restoreFromStored ext keyring g key (withId key.id y) = .ok (withId key.id x) := by
  obtain ⟨resource, hl, hreads⟩ := hg
  have hx := hreads.ordered ho
  unfold restoreFromStored
  by_cases hc : containsRedactionSentinel (withId key.id y) = true
  · obtain ⟨raw, hp, hd⟩ := hreads
    have hrestore : restoreWalk (redact ext key.kind x) x (withId key.id y) = withId key.id x := by
      refine restoreWalk_eq hx (withId_ordered hx) (sameBut_withId key.id hs) (find_withId false key.kind key.id x) ?_
      intro q s t hq ht
      rw [find_withId] at ht
      exact hm q s t hq ht
    rw [if_pos hc, hl]
    simp only [parseStoredResource_eq_ok.mpr hp, hd, restoreRedactedSecrets, hrestore, bind, Except.bind, pure,
      Except.pure]
  · rw [if_neg hc]
    have heq : withId key.id x = withId key.id y := by
      refine (sameBut_withId key.id hs).eq (withId_ordered hx) fun q => ?_
      rw [find_withId, find_withId]
      cases hq : find (reached key.kind) x q with
      | none => rw [(hs.find_eq_none (.refl _) q).mp hq]
      | some s =>
        cases ht : find (reached key.kind) y q with
        | none => rw [(hs.find_eq_none (.refl _) q).mpr ht] at hq; cases hq
        | some t =>
          cases hm q s t hq ht with
          | inl he =>
            rw [← find_withId false key.kind key.id y q, he] at ht
            exact absurd (containsRedactionSentinel_of_find ht) hc
          | inr he => rw [he]
    rw [heq]

theorem redact_sameBut (ext : Externals) (kind : ResourceKind) {x : Json} (hx : x.Ordered) :
    SameBut (reached kind) x (redact ext kind x) :=
  Shape.sameBut_walk (.refl _) (redact_eq ext kind hx)

theorem redact_marks {kind : ResourceKind} {x : Json} (hx : x.Ordered) {q : SecretPath} {s t : String}
    (hs : find (reached kind) x q = some s) (ht : find (reached kind) (redact ext kind x) q = some t) :
    t = redacted := by
  obtain ⟨u, hu, hf⟩ := (Shape.find_walk (.refl _) (redact_eq ext kind hx) q).2 s hs
  cases hu
  rw [ht] at hf
  cases hf
  rfl

/-- Restoring a redacted document gives the document back. -/
theorem restore_redact {kind : ResourceKind} {x : Json} (hx : x.Ordered) :
    restoreRedactedSecrets ext kind (redact ext kind x) x = x :=
  restoreWalk_eq hx hx (redact_sameBut ext kind hx) (fun _ => rfl) fun _ _ _ hq ht => .inl (redact_marks hx hq ht)

/-- Outside objects there is nothing to redact. -/
theorem redact_of_not_obj {kind : ResourceKind} {x : Json} (hx : x.Ordered) (hobj : ∀ ms, x ≠ .obj ms) :
    redact ext kind x = x := by
  refine ((redact_sameBut ext kind hx).eq hx fun q => ?_).symm
  have hnone : find (reached kind) x q = none := by
    cases q with
    | nil => cases x with
      | str s => cases kind <;> rfl
      | _ => cases kind <;> rfl
    | cons a q => cases a with
      | inl k => cases x with
        | obj ms => exact absurd rfl (hobj ms)
        | _ => cases kind <;> rfl
      | inr i => cases x with
        | arr vs =>
          cases kind <;>
            simp [reached, resourceSecrets, Upstream.secrets, structSecrets, find]
        | _ => cases kind <;> rfl
  rw [hnone, ((redact_sameBut ext kind hx).find_eq_none (.refl _) q).mp hnone]

/-- Putting the view back is the same request as putting the document itself. -/
theorem planPut_redact (ho : ext.json.OrderedDocs) {g : StoredGraph} {key : ResourceKey} {x : Json}
    (hg : HoldsDocument ext keyring g key x) (nonces : SecretPath → ByteArray) :
    planPut ext keyring nonces g key (redact ext key.kind x) = planPut ext keyring nonces g key x := by
  obtain ⟨resource, hl, hreads⟩ := hg
  have hx := hreads.ordered ho
  cases hobj : x with
  | obj ms =>
    rw [← hobj]
    have hview := restoreFromStored_withId ho ⟨resource, hl, hreads⟩ (redact_sameBut ext key.kind hx)
      fun q s t hq ht => .inl (redact_marks hx hq ht)
    have hself := restoreFromStored_withId ho ⟨resource, hl, hreads⟩ (SameBut.refl _ x)
      fun q s t hq ht => .inr (Option.some.inj (ht.symm.trans hq))
    have hbody : ∀ {y : Json}, y.Ordered → SameBut (reached key.kind) x y →
        normalizeBodyId key y = .ok (withId key.id y) := by
      intro y hy hs
      obtain ⟨fs, is, hn, -⟩ := resourceSecrets_node false key.kind
      rw [reached, hn, hobj] at hs
      cases y with
      | obj ns => exact normalizeBodyId_obj hy
      | _ => cases hs
    have hro := Shape.walk_ordered hx (redact_eq ext key.kind hx)
    unfold planPut
    simp only [hbody hx (SameBut.refl _ x), hbody hro (redact_sameBut ext key.kind hx), hview, hself, bind, Except.bind]
  | _ => rw [← hobj, redact_of_not_obj hx (by rw [hobj]; simp)]

theorem normalizeBodyId_eq_ok {key : ResourceKey} {x body : Json} (hx : x.Ordered)
    (h : normalizeBodyId key x = .ok body) : body = withId key.id x := by
  cases x with
  | obj ms =>
    rw [normalizeBodyId_obj hx] at h
    exact (Except.ok.inj h).symm
  | null => exact (Except.ok.inj h).symm
  | _ => cases h

/-- A document put under its own key is stored under the id of the path. -/
theorem planPut_self (ho : ext.json.OrderedDocs) {g : StoredGraph} {key : ResourceKey} {x : Json}
    (hg : HoldsDocument ext keyring g key x) {nonces : SecretPath → ByteArray} {commit : GraphCommit}
    (h : planPut ext keyring nonces g key x = .ok commit) : ∃ stored,
      StoredAs ext keyring nonces key.kind (withId key.id x) stored ∧
        commit.mutation = .put key (ext.json.toVec stored) := by
  have hx : x.Ordered := by
    obtain ⟨resource, hl, hreads⟩ := hg
    exact hreads.ordered ho
  obtain ⟨body, doc, stored, hb, hr, -, hs, hm⟩ := planPut_stored ho hx h
  have hself := restoreFromStored_withId ho hg (SameBut.refl _ x)
    fun q s t hq ht => .inr (Option.some.inj (ht.symm.trans hq))
  rw [normalizeBodyId_eq_ok hx hb, hself] at hr
  cases hr
  exact ⟨stored, hs, hm⟩

/-- Restoring inverts redaction on every document. A read view put back under its key is the same request
as the stored document itself, and what it stores decrypts to that document with the id of the path, unless a
secret imitates ciphertext. -/
theorem get_put_identity (ho : ext.json.OrderedDocs) (hc : ext.crypto.Lawful) :
    (∀ (kind : ResourceKind) (x : Json), x.Ordered → restoreRedactedSecrets ext kind (redact ext kind x) x = x) ∧
    ∀ {g : StoredGraph} {key : ResourceKey} {view : ResourceView} (nonces : SecretPath → ByteArray),
      getResource ext keyring g key = .ok (some view) →
      ∃ x, HoldsDocument ext keyring g key x ∧ restoreRedactedSecrets ext key.kind view.value x = x ∧
        planPut ext keyring nonces g key view.value = planPut ext keyring nonces g key x ∧
        ∀ commit, planPut ext keyring nonces g key view.value = .ok commit →
          GoodNonces ext keyring nonces key.kind (withId key.id x) →
          (∀ q s, find (reached key.kind) x q = some s → isCiphertext s = false) →
          ∃ stored, commit.mutation = .put key (ext.json.toVec stored) ∧
            decryptForRead ext keyring key.kind stored = .ok (withId key.id x) := by
  refine ⟨fun kind x hx => restore_redact hx, fun {g key view} nonces hv => ?_⟩
  unfold getResource at hv
  cases hl : g.resources.lookup key with
  | none => rw [hl] at hv; cases hv
  | some resource =>
    rw [hl] at hv
    obtain ⟨view', hview, he⟩ := Except.map_eq_ok.mp hv
    cases he
    obtain ⟨x, hreads, rfl⟩ := resourceView_eq_ok.mp hview
    have hg : HoldsDocument ext keyring g key x := ⟨resource, hl, hreads⟩
    have hx := hreads.ordered ho
    refine ⟨x, hg, restore_redact hx, planPut_redact ho hg nonces, fun commit hcommit hn hs => ?_⟩
    rw [planPut_redact ho hg] at hcommit
    obtain ⟨stored, hstored, hm⟩ := planPut_self ho hg hcommit
    refine ⟨stored, hm, decrypt_stored hc (withId_ordered hx) hn (fun q s hq => ?_) hstored⟩
    rw [find_withId] at hq
    exact hs q s hq

/-- The view of a rule with a sealed password puts the password back. -/
theorem get_put_identity_sample : ∃ stored,
    planPut ruleExternals ruleKeyring (fun _ => KeyringService.zeroNonce) ruleStore.graph ruleKey (sampleRule redacted) =
        .ok ⟨.put ruleKey (ruleExternals.json.toVec stored), some 1, some 1⟩ ∧
      decryptForRead ruleExternals ruleKeyring .globalRule stored = .ok (sampleRule "s3cret") := by
  have hview : resourceView ruleExternals ruleKeyring ruleKey ⟨(sampleRuleText sampleEnvelope).toUTF8, 1, 1⟩ =
      .ok ⟨ruleKey, sampleRule redacted, 1, 1⟩ :=
    resourceView_eq_ok.mpr ⟨sampleRule "s3cret", reads_envelope, by
      rw [show redact ruleExternals ruleKey.kind (sampleRule "s3cret") = sampleRule redacted by rfl]⟩
  have hget : getResource ruleExternals ruleKeyring ruleStore.graph ruleKey = .ok (some ⟨ruleKey, sampleRule redacted, 1, 1⟩) := by
    show (resourceView ruleExternals ruleKeyring ruleKey ⟨(sampleRuleText sampleEnvelope).toUTF8, 1, 1⟩).map some = _
    rw [hview]
    rfl
  have hplan : planPut ruleExternals ruleKeyring (fun _ => KeyringService.zeroNonce) ruleStore.graph ruleKey
      (sampleRule redacted) = .ok ⟨.put ruleKey (sampleRuleText sampleEnvelope).toUTF8, some 1, some 1⟩ :=
    rule_evaluations.2.2.1
  obtain ⟨x, hg, -, -, hput⟩ := (@get_put_identity ruleExternals ruleKeyring ruleExternals_ordered
    KeyringService.sampleCrypto_lawful).2 (fun _ => KeyringService.zeroNonce) hget
  obtain ⟨resource, hl, hreads⟩ := hg
  cases hl
  cases hreads.unique reads_envelope
  have hid : withId ruleKey.id (sampleRule "s3cret") = sampleRule "s3cret" := by rfl
  rw [hid] at hput
  obtain ⟨stored, hm, hd⟩ := hput _ hplan (ruleNonces_good "s3cret") fun q s hs => by
    obtain ⟨-, rfl⟩ := find_sampleRule (Shape.find_within (reached_declared .globalRule) hs)
    rfl
  refine ⟨stored, ?_, hd⟩
  rw [hplan, ← (StoredMutation.put.inj hm).2]

/-! ## A document without an id -/

def namelessUpstream : Json := .obj [("nodes", .obj [("127.0.0.1:80", .num (.posInt 1))])]

def namelessText : String := "\x7b\"nodes\":\x7b\"127.0.0.1:80\":1\x7d\x7d"

def namelessExternals : Externals := Admin.sampleExternals ((namelessUpstream, namelessText) :: Admin.sampleDocs)

def namelessStore : InMemoryState := InMemoryState.new.commitTo (.put Admin.sampleKey namelessText.toUTF8)

/-- Putting the view of a document without an id back gives it one. -/
theorem resave_sets_id :
    HoldsDocument namelessExternals .disabled namelessStore.graph Admin.sampleKey namelessUpstream ∧
      getResource namelessExternals .disabled namelessStore.graph Admin.sampleKey =
        .ok (some ⟨Admin.sampleKey, namelessUpstream, 1, 1⟩) ∧
      planPut namelessExternals .disabled (fun _ => .empty) namelessStore.graph Admin.sampleKey namelessUpstream =
        .ok ⟨.put Admin.sampleKey (namelessExternals.json.toVec Admin.sampleUpstream), some 1, some 1⟩ ∧
      Reads namelessExternals .disabled .upstream (namelessExternals.json.toVec Admin.sampleUpstream)
        Admin.sampleUpstream ∧
      Admin.sampleUpstream ≠ namelessUpstream := by
  have hreads : Reads namelessExternals .disabled .upstream namelessText.toUTF8 namelessUpstream :=
    ⟨namelessUpstream, by rfl, rfl⟩
  have hview : resourceView namelessExternals .disabled Admin.sampleKey ⟨namelessText.toUTF8, 1, 1⟩ =
      .ok ⟨Admin.sampleKey, namelessUpstream, 1, 1⟩ := resourceView_eq_ok.mpr ⟨namelessUpstream, hreads, rfl⟩
  have hget : getResource namelessExternals .disabled namelessStore.graph Admin.sampleKey =
      .ok (some ⟨Admin.sampleKey, namelessUpstream, 1, 1⟩) := by
    show (resourceView namelessExternals .disabled Admin.sampleKey ⟨namelessText.toUTF8, 1, 1⟩).map some = _
    rw [hview]
    rfl
  exact ⟨⟨_, rfl, hreads⟩, hget, by decide, ⟨Admin.sampleUpstream, by decide, rfl⟩, by decide⟩

end Pingsix
