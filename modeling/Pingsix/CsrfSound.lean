import Pingsix.CredentialSound
import Pingsix.Csrf
import Pingsix.FingerprintSound

/-!
# What a csrf token proves

A signature covers the text of `random` followed by the digits of `expires`.
The length of `random` is not checked, so the text of an issued token can be
split elsewhere, with the signature of the token unchanged. Every other token
that verifies carries a pair that was issued.
-/

namespace Pingsix

open HttpMessage

namespace Csrf

/-! ## The signed text -/

theorem bytesOf_append (s t : String) : bytesOf (s ++ t) = bytesOf s ++ bytesOf t := by
  unfold bytesOf
  rw [String.toList_append, List.flatMap_append]

theorem signedMessage_eq_iff {r s : String} {m n : Nat} :
    signedMessage r m = signedMessage s n ↔ r ++ toString m = s ++ toString n := by
  unfold signedMessage
  rw [← bytesOf_append, ← bytesOf_append]
  exact ⟨bytesOf_inj, fun h => by rw [h]⟩

/-- Where the first part has one length, its end can be told. -/
theorem signedMessage_inj {r s : String} {m n : Nat} (hlen : r.length = s.length)
    (h : signedMessage r m = signedMessage s n) : r = s ∧ m = n := by
  have happend : r.toList ++ (toString m).toList = s.toList ++ (toString n).toList := by
    rw [← String.toList_append, ← String.toList_append, signedMessage_eq_iff.mp h]
  have hlist : r.toList.length = s.toList.length := by rw [String.length_toList, String.length_toList, hlen]
  obtain ⟨hr, hm⟩ := List.append_inj happend hlist
  exact ⟨String.toList_inj.mp hr, Decimal.repr_injective (String.toList_inj.mp hm)⟩

theorem length_hexEncode (bytes : List UInt8) : (hexEncode bytes).length = 2 * bytes.length := by
  unfold hexEncode
  rw [String.length_ofList]
  induction bytes with
  | nil => rfl
  | cons b bytes ih =>
    rw [List.flatMap_cons, List.length_append, ih, List.length_cons, List.length_cons, List.length_cons, List.length_nil]
    omega

theorem Issue.length_random (i : Issue) : i.random.length = 32 := by
  unfold Issue.random
  rw [length_hexEncode, Vector.length_toList]

/-! ## Tokens that verify -/

section
variable (crypto : TokenCrypto) (plugin : PluginCsrf)

/-- The text passes as the signature of the message. -/
def Verifies (sign : String) (message : List UInt8) : Prop :=
  constantTimeEq crypto.sha sign (plugin.macText crypto message) = true

/-- The text passes for no message but those of the tokens issued. -/
def Unforged (issued : List Issue) (sign : String) : Prop :=
  ∀ message, Verifies crypto plugin sign message → ∃ i ∈ issued, message = i.message

/-- The token is within the lifetime that it claims, by a clock that can be read. -/
def Live (t : CsrfToken) (now : Option Nat) : Prop := ∃ n, now = some n ∧ t.isExpired plugin.config.expires n = false

/-- What an accepted token is to prove. -/
def Authentic (issued : List Issue) (text : String) (now : Option Nat) : Prop :=
  plugin.checkToken crypto text now = true →
    ∃ t, tokenOf crypto text = some t ∧ ∃ i ∈ issued, t.random = i.random ∧ t.expires = i.now ∧
      (0 < plugin.config.expires → ∃ n, now = some n ∧ n ≤ i.now + plugin.config.expires)

/-- The same text, with digits moved over the border of its two parts. -/
def Issue.Resplit (i : Issue) (t : CsrfToken) : Prop :=
  t.random ++ toString t.expires = i.random ++ toString i.now ∧ t.random.length ≠ 32

/-- A live token with the signature of an issued one whose text it splits elsewhere. -/
def CarriesResplit (issued : List Issue) (text : String) (now : Option Nat) : Prop :=
  ∃ t, tokenOf crypto text = some t ∧ Live plugin t now ∧
    ∃ i ∈ issued, i.Resplit t ∧ Verifies crypto plugin t.sign i.message

end

variable {crypto : TokenCrypto} {plugin : PluginCsrf} {issued : List Issue} {text : String} {now : Option Nat}

theorem checkToken_iff :
    plugin.checkToken crypto text now = true ↔
      ∃ t, tokenOf crypto text = some t ∧ Live plugin t now ∧
        Verifies crypto plugin t.sign (signedMessage t.random t.expires) := by
  unfold PluginCsrf.checkToken
  cases ht : tokenOf crypto text with
  | none => simp
  | some t =>
    cases hn : now with
    | none => simp [Live]
    | some n =>
      simp only [Bool.and_eq_true, Bool.not_eq_true']
      constructor
      · rintro ⟨hlive, hsign⟩
        exact ⟨t, rfl, ⟨n, rfl, hlive⟩, hsign⟩
      · rintro ⟨_, ⟨⟩, ⟨_, ⟨⟩, hlive⟩, hsign⟩
        exact ⟨hlive, hsign⟩

theorem Issue.Resplit.message_eq {i : Issue} {t : CsrfToken} (h : i.Resplit t) :
    signedMessage t.random t.expires = i.message := signedMessage_eq_iff.mpr h.1

/-- The lifetime of a token ends where its saturated sum does, or later. -/
theorem le_of_not_isExpired {t : CsrfToken} {ttl n : Nat} (h : t.isExpired ttl n = false) (httl : 0 < ttl) :
    n ≤ t.expires + ttl := by
  have hn : ¬(0 < ttl ∧ t.expiryTime ttl < n) := of_decide_eq_false h
  have hle : n ≤ t.expiryTime ttl := Nat.le_of_not_lt fun hlt => hn ⟨httl, hlt⟩
  exact Nat.le_trans hle (Nat.min_le_left _ _)

theorem checkToken_of_carriesResplit (h : CarriesResplit crypto plugin issued text now) :
    plugin.checkToken crypto text now = true := by
  obtain ⟨t, ht, hlive, i, -, hsplit, hsign⟩ := h
  exact checkToken_iff.mpr ⟨t, ht, hlive, hsplit.message_eq ▸ hsign⟩

/-- Tokens prove what they are to prove, but for live ones that split the text of an issued one elsewhere. -/
theorem authentic_iff (hforge : ∀ t, tokenOf crypto text = some t → Unforged crypto plugin issued t.sign) :
    Authentic crypto plugin issued text now ↔ ¬CarriesResplit crypto plugin issued text now := by
  constructor
  · intro hauthentic hresplit
    obtain ⟨t, ht, j, -, hrandom, -⟩ := hauthentic (checkToken_of_carriesResplit hresplit)
    obtain ⟨u, hu, -, i, -, hsplit, -⟩ := hresplit
    cases ht.symm.trans hu
    exact hsplit.2 (hrandom ▸ j.length_random)
  · intro hresplit haccepted
    obtain ⟨t, ht, hlive, hsign⟩ := checkToken_iff.mp haccepted
    obtain ⟨i, hi, hmessage⟩ := hforge t ht _ hsign
    by_cases hlen : t.random.length = 32
    · obtain ⟨hrandom, hexpires⟩ := signedMessage_inj (hlen.trans i.length_random.symm) hmessage
      refine ⟨t, ht, i, hi, hrandom, hexpires, fun httl => ?_⟩
      obtain ⟨n, hn, hexpired⟩ := hlive
      exact ⟨n, hn, hexpires ▸ le_of_not_isExpired hexpired httl⟩
    · have hsplit : i.Resplit t := ⟨signedMessage_eq_iff.mp hmessage, hlen⟩
      exact absurd ⟨t, ht, hlive, i, hi, hsplit, hmessage ▸ hsign⟩ hresplit

/-! ## Issued tokens -/

theorem fromValue_toValue {t : CsrfToken} (ht : t.expires < 2 ^ 64) : CsrfToken.fromValue t.toValue = .ok t := by
  have hread : De.unsigned 64 (.num (.posInt t.expires)) = .ok t.expires := if_pos ht
  have hfields : CsrfToken.fromValue t.toValue =
      (De.unsigned 64 (.num (.posInt t.expires))).bind fun expires => .ok { t with expires } := rfl
  rw [hfields, hread]
  rfl

theorem tokenOf_encode {t : CsrfToken} {bytes : ByteArray} (hparse : crypto.parse bytes = .ok t.toValue)
    (ht : t.expires < 2 ^ 64) : tokenOf crypto (Base64.encode bytes) = some t := by
  simp [tokenOf, Base64.decode_encode, hparse, fromValue_toValue ht, Except.toOption]

/-- With a JSON text that is read as it was written, an issued token passes while it lives. -/
theorem checkToken_genTokenString {i : Issue} {n : Nat}
    (hparse : ∀ t : CsrfToken, crypto.parse (crypto.write t.toValue) = .ok t.toValue) (hi : i.now < 2 ^ 64)
    (hlive : (plugin.genToken crypto i).isExpired plugin.config.expires n = false)
    (htext : plugin.genTokenString crypto i.randomBytes (some i.now) = some text) :
    plugin.checkToken crypto text (some n) = true := by
  cases htext
  exact checkToken_iff.mpr ⟨_, tokenOf_encode (hparse _) hi, ⟨n, rfl, hlive⟩, decide_eq_true rfl⟩

/-! ## Requests -/

/-- A request whose method is not safe passes with one accepted token in its header and its cookie. -/
theorem requestFilter_continue_iff {req : RequestHeader}
    (hmethod : PluginCsrf.safeMethods.contains req.method.text = false) :
    plugin.requestFilter crypto req now = .continue ↔
      ∃ text, text ≠ "" ∧ getReqHeaderValue req plugin.config.name = some text ∧
        getCookieValue req plugin.config.name = some text ∧ plugin.checkToken crypto text now = true := by
  unfold PluginCsrf.requestFilter
  rw [if_neg (by rw [hmethod]; exact Bool.false_ne_true)]
  constructor
  · intro h
    cases hheader : (getReqHeaderValue req plugin.config.name).filter (· ≠ "") with
    | none => rw [hheader] at h; cases h
    | some header =>
      obtain ⟨hvalue, hne⟩ := Option.filter_eq_some_iff.mp hheader
      cases hcookie : getCookieValue req plugin.config.name with
      | none => rw [hheader, hcookie] at h; cases h
      | some cookie =>
        rw [hheader, hcookie] at h
        dsimp only at h
        by_cases hsame : header = cookie
        · rw [if_neg (not_not_intro hsame)] at h
          by_cases hcheck : plugin.checkToken crypto cookie now = true
          · subst hsame
            exact ⟨header, of_decide_eq_true hne, hvalue, rfl, hcheck⟩
          · rw [if_neg hcheck] at h
            cases h
        · rw [if_pos hsame] at h
          cases h
  · rintro ⟨text, hne, hheader, hcookie, hcheck⟩
    have hfilter : (getReqHeaderValue req plugin.config.name).filter (· ≠ "") = some text := by
      rw [hheader, Option.filter_some, if_pos (decide_eq_true hne)]
    rw [hfilter, hcookie]
    dsimp only
    rw [if_neg (not_not_intro rfl), if_pos hcheck]

/-! ## A token with its border moved -/

def sampleDigest (text : String) (hlen : text.toList.length = 64) (hhex : text.toList.all isLowerHexDigit = true) : HexDigest :=
  ⟨text.toList, hlen, List.all_eq_true.mp hhex⟩

def zeroDigest : HexDigest :=
  sampleDigest "0000000000000000000000000000000000000000000000000000000000000000" (by decide) (by decide)

def samplePlugin : PluginCsrf := ⟨{ key := "unit-test-key" }⟩

/-- Sixteen bytes whose text ends in `1`, at a time of ten digits. -/
def sampleIssue : Issue := ⟨#v[0, 0, 0, 0, 0, 0, 0, 0, 0, 0, 0, 0, 0, 0, 0, 1], 1700000000⟩

def sampleSign : HexDigest :=
  sampleDigest "fa205b802c84923be0cebf146a4f31f979bb3dbfa682fbed738de4c960a2836e" (by decide) (by decide)

def issuedToken : CsrfToken := ⟨"00000000000000000000000000000001", 1700000000, String.ofList sampleSign.chars⟩

/-- The last digit of `random` now leads `expires`. -/
def resplitToken : CsrfToken := ⟨"0000000000000000000000000000000", 11700000000, String.ofList sampleSign.chars⟩

def tokenText (t : CsrfToken) : String :=
  s!"\x7b\"random\":\"{t.random}\",\"expires\":{t.expires},\"sign\":\"{t.sign}\"\x7d"

/-- The digests of the sample, and the two documents. -/
def sampleCrypto : TokenCrypto where
  hmac key message :=
    if key = bytesOf "unit-test-key" ∧ message = sampleIssue.message then sampleSign else zeroDigest
  sha message :=
    if message = bytesOf (String.ofList sampleSign.chars) then
      sampleDigest "d1d2ee084fab02c2c861dbe09ebbe765ccc918815fc2e3bc553c099eb93bbb4c" (by decide) (by decide)
    else zeroDigest
  parse bytes :=
    if bytes = (tokenText issuedToken).toUTF8 then .ok issuedToken.toValue
    else if bytes = (tokenText resplitToken).toUTF8 then .ok resplitToken.toValue
    else .error (.malformed "expected value at line 1 column 1")
  write v := if v = issuedToken.toValue then (tokenText issuedToken).toUTF8 else (tokenText resplitToken).toUTF8

theorem unforged_sample : Unforged sampleCrypto samplePlugin [sampleIssue] (String.ofList sampleSign.chars) := by
  intro message hsign
  by_cases hm : message = sampleIssue.message
  · exact ⟨sampleIssue, List.mem_singleton_self _, hm⟩
  · exfalso
    have hmac : samplePlugin.macText sampleCrypto message = String.ofList zeroDigest.chars := by
      simp only [PluginCsrf.macText, sampleCrypto, hm, and_false, if_false]
    have hne : bytesOf (String.ofList zeroDigest.chars) ≠ bytesOf (String.ofList sampleSign.chars) :=
      fun h => absurd (bytesOf_inj h) (by decide)
    have hdigests := of_decide_eq_true hsign
    rw [hmac] at hdigests
    simp only [secretDigest, sampleCrypto, if_neg hne, if_true] at hdigests
    exact absurd hdigests (by decide)

theorem tokenOf_issued :
    tokenOf sampleCrypto (Base64.encode (tokenText issuedToken).toUTF8) = some issuedToken := by
  have hparse : sampleCrypto.parse (tokenText issuedToken).toUTF8 = .ok issuedToken.toValue := by
    simp only [sampleCrypto, if_true]
  exact tokenOf_encode hparse (by decide)

theorem tokenOf_resplit :
    tokenOf sampleCrypto (Base64.encode (tokenText resplitToken).toUTF8) = some resplitToken := by
  have hne : (tokenText resplitToken).toUTF8 ≠ (tokenText issuedToken).toUTF8 := fun h =>
    absurd (Except.ok.inj ((Utf8.fromUtf8_toUTF8 _).symm.trans ((congrArg _ h).trans (Utf8.fromUtf8_toUTF8 _)))) (by decide)
  have hparse : sampleCrypto.parse (tokenText resplitToken).toUTF8 = .ok resplitToken.toValue := by
    simp only [sampleCrypto, hne, if_true, if_false]
  exact tokenOf_encode hparse (by decide)

theorem authentic_iff_issued :
    Authentic sampleCrypto samplePlugin [sampleIssue] (Base64.encode (tokenText issuedToken).toUTF8) (some 1700000100) ↔
      ¬CarriesResplit sampleCrypto samplePlugin [sampleIssue] (Base64.encode (tokenText issuedToken).toUTF8)
        (some 1700000100) :=
  authentic_iff fun t ht => by
    cases ht.symm.trans tokenOf_issued
    exact unforged_sample

/-- Three hours after it was issued, with a lifetime of two, the token passes under a pair that was never issued. -/
theorem not_authentic_resplit :
    (∀ t, tokenOf sampleCrypto (Base64.encode (tokenText resplitToken).toUTF8) = some t →
        Unforged sampleCrypto samplePlugin [sampleIssue] t.sign) ∧
      ¬Authentic sampleCrypto samplePlugin [sampleIssue] (Base64.encode (tokenText resplitToken).toUTF8)
        (some 1700010800) := by
  have hforge : ∀ t, tokenOf sampleCrypto (Base64.encode (tokenText resplitToken).toUTF8) = some t →
      Unforged sampleCrypto samplePlugin [sampleIssue] t.sign := fun t ht => by
    cases ht.symm.trans tokenOf_resplit
    exact unforged_sample
  refine ⟨hforge, fun hauthentic => ?_⟩
  have hsplit : sampleIssue.Resplit resplitToken := ⟨by decide, by decide⟩
  have hsign : Verifies sampleCrypto samplePlugin resplitToken.sign sampleIssue.message := by
    refine decide_eq_true (congrArg _ ?_)
    simp only [PluginCsrf.macText, sampleCrypto, samplePlugin, and_self, if_true, resplitToken]
  have hlive : Live samplePlugin resplitToken (some 1700010800) := ⟨1700010800, rfl, by decide⟩
  have haccepted := checkToken_of_carriesResplit
    ⟨resplitToken, tokenOf_resplit, hlive, sampleIssue, List.mem_singleton_self _, hsplit, hsign⟩
  obtain ⟨t, ht, i, hi, hrandom, -⟩ := hauthentic haccepted
  cases ht.symm.trans tokenOf_resplit
  exact hsplit.2 (hrandom ▸ i.length_random)

end Csrf

end Pingsix
