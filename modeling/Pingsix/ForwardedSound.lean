import Pingsix.Lib.Segments
import Pingsix.IpRestriction

/-!
# The client's address behind proxies

The address of the ip-restriction plugin against the one that all
`X-Forwarded-For` lines together name. The plugin reads the first line only.
-/

namespace Pingsix.IpRestriction

open HttpMessage

/-! ## Chains of hops -/

section
variable (isTrusted : IpAddr → Bool)

/-- The hop without trust that only trusted ones follow. -/
def RightmostUntrusted (hops : List IpAddr) (ip : IpAddr) : Prop :=
  ∃ left right, hops = left ++ ip :: right ∧ isTrusted ip = false ∧ ∀ hop ∈ right, isTrusted hop = true

/-- The rightmost untrusted hop, or the leftmost when all are trusted. -/
def ClientHop (hops : List IpAddr) (ip : IpAddr) : Prop :=
  RightmostUntrusted isTrusted hops ip ∨ (∀ hop ∈ hops, isTrusted hop = true) ∧ hops.head? = some ip

variable {isTrusted}

theorem find?_reverse_eq_some {hops : List IpAddr} {ip : IpAddr} :
    hops.reverse.find? (fun ip => !isTrusted ip) = some ip ↔ RightmostUntrusted isTrusted hops ip := by
  rw [List.find?_eq_some_iff_append]
  constructor
  · rintro ⟨hip, front, back, hrev, hfront⟩
    refine ⟨back.reverse, front.reverse, ?_, by simpa using hip, fun hop hh => ?_⟩
    · rw [List.reverse_eq_iff.mp hrev]
      simp
    · simpa using hfront hop (List.mem_reverse.mp hh)
  · rintro ⟨left, right, rfl, hip, hright⟩
    refine ⟨by simp [hip], right.reverse, left.reverse, by simp, fun hop hh => ?_⟩
    simpa using hright hop (List.mem_reverse.mp hh)

theorem find?_reverse_eq_none {hops : List IpAddr} :
    hops.reverse.find? (fun ip => !isTrusted ip) = none ↔ ∀ hop ∈ hops, isTrusted hop = true := by
  simp

theorem not_rightmost_of_trusted {hops : List IpAddr} {ip : IpAddr} (h : ∀ hop ∈ hops, isTrusted hop = true) :
    ¬RightmostUntrusted isTrusted hops ip := by
  rintro ⟨left, right, rfl, hip, -⟩
  exact Bool.false_ne_true (hip.symm.trans (h ip (by simp)))

theorem clientFromProxyChain_eq_some {hops : List IpAddr} {ip : IpAddr} :
    clientFromProxyChain hops isTrusted = some ip ↔ ClientHop isTrusted hops ip := by
  unfold clientFromProxyChain ClientHop
  cases hf : hops.reverse.find? fun ip => !isTrusted ip with
  | some hop =>
    have hhop := find?_reverse_eq_some.mp hf
    have hsome : hop = ip ↔ RightmostUntrusted isTrusted hops ip := by
      rw [← find?_reverse_eq_some, hf, Option.some.injEq]
    have hnot : ¬∀ hop ∈ hops, isTrusted hop = true := fun hall => not_rightmost_of_trusted hall hhop
    simp only [Option.some.injEq, hsome]
    exact ⟨.inl, fun h => h.resolve_right fun h => hnot h.1⟩
  | none =>
    have hall := find?_reverse_eq_none.mp hf
    exact ⟨fun h => .inr ⟨hall, h⟩, fun h => (h.resolve_left (not_rightmost_of_trusted hall)).2⟩

theorem ClientHop.unique {hops : List IpAddr} {ip ip' : IpAddr} (h : ClientHop isTrusted hops ip)
    (h' : ClientHop isTrusted hops ip') : ip = ip' :=
  Option.some.inj ((clientFromProxyChain_eq_some.mpr h).symm.trans (clientFromProxyChain_eq_some.mpr h'))

theorem exists_clientHop {hops : List IpAddr} (h : hops ≠ []) : ∃ ip, ClientHop isTrusted hops ip := by
  cases hf : hops.reverse.find? fun ip => !isTrusted ip with
  | some ip => exact ⟨ip, .inl (find?_reverse_eq_some.mp hf)⟩
  | none =>
    cases hops with
    | nil => exact absurd rfl h
    | cons hop hops => exact ⟨hop, .inr ⟨find?_reverse_eq_none.mp hf, rfl⟩⟩

theorem RightmostUntrusted.append_left {hops : List IpAddr} {ip : IpAddr} (h : RightmostUntrusted isTrusted hops ip)
    (front : List IpAddr) : RightmostUntrusted isTrusted (front ++ hops) ip := by
  obtain ⟨left, right, rfl, hip, hright⟩ := h
  exact ⟨front ++ left, right, (List.append_assoc ..).symm, hip, hright⟩

theorem RightmostUntrusted.append_right {hops more : List IpAddr} {ip : IpAddr}
    (h : RightmostUntrusted isTrusted hops ip) (hmore : ∀ hop ∈ more, isTrusted hop = true) :
    RightmostUntrusted isTrusted (hops ++ more) ip := by
  obtain ⟨left, right, rfl, hip, hright⟩ := h
  refine ⟨left, right ++ more, by simp, hip, fun hop hh => ?_⟩
  exact (List.mem_append.mp hh).elim (hright hop) (hmore hop)

/-- More hops on the right matter as soon as one of them is untrusted. -/
theorem clientHop_append {hops more : List IpAddr} (hne : hops ≠ []) {ip : IpAddr} :
    ClientHop isTrusted (hops ++ more) ip ↔
      RightmostUntrusted isTrusted more ip ∨ (∀ hop ∈ more, isTrusted hop = true) ∧ ClientHop isTrusted hops ip := by
  have hleft : ∀ {hop : IpAddr}, (∀ hop ∈ more, isTrusted hop = true) → ClientHop isTrusted hops hop →
      ClientHop isTrusted (hops ++ more) hop := by
    rintro hop hmore (h | ⟨hall, hhead⟩)
    · exact .inl (h.append_right hmore)
    · refine .inr ⟨fun hop hh => (List.mem_append.mp hh).elim (hall hop) (hmore hop), ?_⟩
      rw [List.head?_append_of_ne_nil _ hne, hhead]
  refine ⟨fun h => ?_, fun h => h.elim (fun h => .inl (h.append_left hops)) fun h => hleft h.1 h.2⟩
  cases hf : more.reverse.find? fun ip => !isTrusted ip with
  | some hop =>
    have hright := find?_reverse_eq_some.mp hf
    have hhop : ClientHop isTrusted (hops ++ more) hop := .inl (hright.append_left hops)
    rw [h.unique hhop]
    exact .inl hright
  | none =>
    have hmore := find?_reverse_eq_none.mp hf
    obtain ⟨hop, hhop⟩ : ∃ hop, ClientHop isTrusted hops hop := exists_clientHop hne
    rw [h.unique (hleft hmore hhop)]
    exact .inr ⟨hmore, hhop⟩

end

/-! ## What the lines say together -/

/-- The hops of all lines in order; none when a token is no address, as one with bytes outside ASCII is. -/
def forwardedHops (lines : List HeaderValue) : Option (List IpAddr) :=
  (lines.mapM fun line : HeaderValue => line.toStr.bind parseHops).map List.flatten

def forwardedLines (req : RequestHeader) : List HeaderValue := HeaderMap.getAll req.headers "x-forwarded-for"

def realIp (req : RequestHeader) : Option IpAddr :=
  (getReqHeaderValue req "x-real-ip").bind fun value => Discovery.parseIp (Text.trim value)

namespace PluginConfig

/-- What the configured policy makes of an illegal chain. -/
def onIllegalChain (config : PluginConfig) (peer : IpAddr) : Except ClientIpError IpAddr :=
  match config.forwardedHeaderErrorPolicy with
  | .direct => .ok peer
  | .deny => .error .invalidForwardedHeader

/-- The address the peer and all lines of the request settle. -/
def Settles (config : PluginConfig) (req : RequestHeader) (peer : IpAddr) (result : Except ClientIpError IpAddr) : Prop :=
  if config.useForwardedHeaders = true ∧ config.isTrustedProxy peer = true then
    if forwardedLines req = [] then result = .ok ((realIp req).getD peer)
    else
      match forwardedHops (forwardedLines req) with
      | none => result = config.onIllegalChain peer
      | some hops => ∃ ip, ClientHop config.isTrustedProxy hops ip ∧ result = .ok ip
  else result = .ok peer

/-- The first line alone names the hop that all lines name. -/
def FirstLineDecides (config : PluginConfig) (req : RequestHeader) (peer : IpAddr) : Prop :=
  match forwardedLines req with
  | [] => True
  | first :: rest =>
    match first.toStr with
    | none => config.forwardedHeaderErrorPolicy = .direct ∧ ∀ ip, realIp req = some ip → ip = peer
    | some text =>
      match parseHops text with
      | none => True
      | some hops =>
        match forwardedHops rest with
        | none => config.forwardedHeaderErrorPolicy = .direct ∧ ClientHop config.isTrustedProxy hops peer
        | some more =>
          (∀ hop ∈ more, config.isTrustedProxy hop = true) ∨
            ∃ ip, ClientHop config.isTrustedProxy hops ip ∧ RightmostUntrusted config.isTrustedProxy more ip

/-- The header lines are not read, or the first of them decides. -/
def Decided (config : PluginConfig) (req : RequestHeader) (peer : IpAddr) : Prop :=
  config.useForwardedHeaders = true → config.isTrustedProxy peer = true → config.FirstLineDecides req peer

/-- Requests that name the same rightmost untrusted hop and the same hops on its right. -/
def SameFromClient (config : PluginConfig) (req req' : RequestHeader) : Prop :=
  ∃ left left' ip right, forwardedHops (forwardedLines req) = some (left ++ ip :: right) ∧
    forwardedHops (forwardedLines req') = some (left' ++ ip :: right) ∧
    config.isTrustedProxy ip = false ∧ ∀ hop ∈ right, config.isTrustedProxy hop = true

end PluginConfig

/-! ## What the plugin reads -/

theorem parseHops_ne_nil {text : String} {hops : List IpAddr} (h : parseHops text = some hops) : hops ≠ [] := by
  unfold parseHops at h
  cases hs : Text.splitChars ',' text.toList with
  | nil => exact absurd hs (Text.splitChars_ne_nil ',' text.toList)
  | cons token tokens =>
    rw [hs, List.mapM_cons] at h
    obtain ⟨hop, -, h⟩ := Option.bind_eq_some_iff.mp h
    obtain ⟨rest, -, h⟩ := Option.bind_eq_some_iff.mp h
    cases h
    exact List.cons_ne_nil _ _

theorem forwardedHops_cons (first : HeaderValue) (rest : List HeaderValue) :
    forwardedHops (first :: rest) =
      (first.toStr.bind parseHops).bind fun hops => (forwardedHops rest).map (hops ++ ·) := by
  unfold forwardedHops
  rw [List.mapM_cons]
  cases first.toStr.bind parseHops with
  | none => rfl
  | some hops =>
    cases rest.mapM fun line : HeaderValue => line.toStr.bind parseHops with
    | none => rfl
    | some more => rfl

theorem getReqHeaderValue_forwarded {req : RequestHeader} :
    getReqHeaderValue req "x-forwarded-for" = (forwardedLines req).head?.bind (·.toStr) := rfl

namespace PluginConfig

section
variable {config : PluginConfig} {s : Session} {peer : IpAddr}

theorem getRealClientIp_of_direct (h : getDirectClientIp s = some peer)
    (hoff : ¬(config.useForwardedHeaders = true ∧ config.isTrustedProxy peer = true)) :
    config.getRealClientIp s = .ok peer := by
  unfold getRealClientIp
  rw [h]
  by_cases huse : config.useForwardedHeaders = true
  · rw [if_pos huse]
    exact if_neg fun htrust => hoff ⟨huse, htrust⟩
  · exact if_neg huse

/-- With a trusted peer the extracted address is used, and the policy when there is no legal chain. -/
theorem getRealClientIp_of_trusted (h : getDirectClientIp s = some peer) (huse : config.useForwardedHeaders = true)
    (htrust : config.isTrustedProxy peer = true) :
    config.getRealClientIp s =
      match config.extractForwardedIp s.reqHeader with
      | .ok ip => .ok (ip.getD peer)
      | .error () => config.onIllegalChain peer := by
  unfold getRealClientIp
  rw [if_pos huse, h]
  simp only [htrust, if_true]
  cases config.extractForwardedIp s.reqHeader with
  | error e => rfl
  | ok ip => cases ip <;> rfl

theorem extractForwardedIp_of_none {req : RequestHeader} (h : getReqHeaderValue req "x-forwarded-for" = none) :
    config.extractForwardedIp req = .ok (realIp req) := by
  unfold extractForwardedIp
  rw [h]
  rfl

theorem extractForwardedIp_of_some {req : RequestHeader} {text : String}
    (h : getReqHeaderValue req "x-forwarded-for" = some text) :
    config.extractForwardedIp req =
      match parseHops text with
      | some hops => .ok (clientFromProxyChain hops config.isTrustedProxy)
      | none => .error () := by
  cases hp : parseHops text with
  | none => simp [extractForwardedIp, h, hp]
  | some hops => simp [extractForwardedIp, h, hp]

theorem ok_eq_onIllegalChain {ip : IpAddr} :
    .ok ip = config.onIllegalChain peer ↔ config.forwardedHeaderErrorPolicy = .direct ∧ ip = peer := by
  unfold onIllegalChain
  cases config.forwardedHeaderErrorPolicy <;> simp

theorem settles_of_direct {req : RequestHeader} {result : Except ClientIpError IpAddr}
    (hoff : ¬(config.useForwardedHeaders = true ∧ config.isTrustedProxy peer = true)) :
    config.Settles req peer result ↔ result = .ok peer := by
  unfold Settles
  rw [if_neg hoff]

theorem settles_nil {req : RequestHeader} {result : Except ClientIpError IpAddr} (huse : config.useForwardedHeaders = true)
    (htrust : config.isTrustedProxy peer = true) (hl : forwardedLines req = []) :
    config.Settles req peer result ↔ result = .ok ((realIp req).getD peer) := by
  unfold Settles
  rw [if_pos ⟨huse, htrust⟩, if_pos hl]

theorem settles_cons {req : RequestHeader} {result : Except ClientIpError IpAddr} {first : HeaderValue}
    {rest : List HeaderValue} (huse : config.useForwardedHeaders = true) (htrust : config.isTrustedProxy peer = true)
    (hl : forwardedLines req = first :: rest) :
    config.Settles req peer result ↔
      match forwardedHops (first :: rest) with
      | none => result = config.onIllegalChain peer
      | some hops => ∃ ip, ClientHop config.isTrustedProxy hops ip ∧ result = .ok ip := by
  unfold Settles
  rw [if_pos ⟨huse, htrust⟩, if_neg (by rw [hl]; exact List.cons_ne_nil _ _), hl]

/-- With a trusted peer, by the first line and the others. -/
theorem settles_iff_of_trusted (h : getDirectClientIp s = some peer) (huse : config.useForwardedHeaders = true)
    (htrust : config.isTrustedProxy peer = true) :
    config.Settles s.reqHeader peer (config.getRealClientIp s) ↔ config.FirstLineDecides s.reqHeader peer := by
  have hvalue := @getReqHeaderValue_forwarded s.reqHeader
  rw [getRealClientIp_of_trusted h huse htrust]
  unfold FirstLineDecides
  cases hl : forwardedLines s.reqHeader with
  | nil =>
    rw [hl] at hvalue
    rw [extractForwardedIp_of_none hvalue, settles_nil huse htrust hl]
    simp
  | cons first rest =>
    rw [hl] at hvalue
    rw [settles_cons huse htrust hl, forwardedHops_cons]
    cases hfirst : first.toStr with
    | none =>
      have hnone : getReqHeaderValue s.reqHeader "x-forwarded-for" = none := by rw [hvalue]; exact hfirst
      rw [extractForwardedIp_of_none hnone]
      simp only [hfirst, Option.bind_none, ok_eq_onIllegalChain]
      cases realIp s.reqHeader <;> simp
    | some text =>
      have hsome : getReqHeaderValue s.reqHeader "x-forwarded-for" = some text := by rw [hvalue]; exact hfirst
      rw [extractForwardedIp_of_some hsome]
      simp only [hfirst, Option.bind_some]
      cases hparse : parseHops text with
      | none => simp
      | some hops =>
        obtain ⟨hop, hhop⟩ : ∃ hop, ClientHop config.isTrustedProxy hops hop := exists_clientHop (parseHops_ne_nil hparse)
        have hcode : clientFromProxyChain hops config.isTrustedProxy = some hop := clientFromProxyChain_eq_some.mpr hhop
        have hunique : ∀ {ip : IpAddr}, ClientHop config.isTrustedProxy hops ip ↔ hop = ip :=
          ⟨fun hip => hhop.unique hip, fun e => e ▸ hhop⟩
        cases forwardedHops rest with
        | none => simp only [hcode, Option.bind_some, Option.map_none, Option.getD_some, ok_eq_onIllegalChain, hunique]
        | some more =>
          simp only [hcode, Option.bind_some, Option.map_some, Option.getD_some, Except.ok.injEq,
            clientHop_append (parseHops_ne_nil hparse), hunique]
          constructor
          · rintro ⟨ip, hip | hip, rfl⟩
            · exact .inr ⟨hop, rfl, hip⟩
            · exact .inl hip.1
          · rintro (hmore | ⟨ip, rfl, hip⟩)
            · exact ⟨hop, .inr ⟨hmore, rfl⟩, rfl⟩
            · exact ⟨hop, .inl hip, rfl⟩

theorem settles_iff (h : getDirectClientIp s = some peer) :
    config.Settles s.reqHeader peer (config.getRealClientIp s) ↔ config.Decided s.reqHeader peer := by
  unfold Decided
  by_cases hon : config.useForwardedHeaders = true ∧ config.isTrustedProxy peer = true
  · rw [settles_iff_of_trusted h hon.1 hon.2]
    exact ⟨fun hd _ _ => hd, fun hd => hd hon.1 hon.2⟩
  · rw [settles_of_direct hon, getRealClientIp_of_direct h hon]
    exact iff_of_true rfl fun huse htrust => absurd ⟨huse, htrust⟩ hon

/-- What lies left of the rightmost untrusted hop settles nothing. -/
theorem Settles.of_chain {req : RequestHeader} {result : Except ClientIpError IpAddr} (hs : config.Settles req peer result)
    {left right : List IpAddr} {ip : IpAddr} (hhops : forwardedHops (forwardedLines req) = some (left ++ ip :: right))
    (hip : config.isTrustedProxy ip = false) (hright : ∀ hop ∈ right, config.isTrustedProxy hop = true) :
    result = if config.useForwardedHeaders = true ∧ config.isTrustedProxy peer = true then .ok ip else .ok peer := by
  by_cases hon : config.useForwardedHeaders = true ∧ config.isTrustedProxy peer = true
  · rw [if_pos hon]
    cases hl : forwardedLines req with
    | nil =>
      rw [hl] at hhops
      exact absurd (Option.some.inj hhops).symm (by simp)
    | cons first rest =>
      rw [settles_cons hon.1 hon.2 hl, ← hl, hhops] at hs
      obtain ⟨hop, hhop, rfl⟩ := hs
      rw [hhop.unique (.inl ⟨left, right, rfl, hip, hright⟩)]
  · rw [if_neg hon]
    exact (settles_of_direct hon).mp hs

theorem Settles.of_illegal {req : RequestHeader} {result : Except ClientIpError IpAddr} (hs : config.Settles req peer result)
    (huse : config.useForwardedHeaders = true) (htrust : config.isTrustedProxy peer = true)
    (hne : forwardedLines req ≠ []) (hnone : forwardedHops (forwardedLines req) = none) :
    result = config.onIllegalChain peer := by
  unfold Settles at hs
  rw [if_pos ⟨huse, htrust⟩, if_neg hne, hnone] at hs
  exact hs

/-- A single line of text decides. -/
theorem decided_of_single {req : RequestHeader} {line : HeaderValue} {text : String} (hl : forwardedLines req = [line])
    (ht : line.toStr = some text) : config.Decided req peer := by
  intro _ _
  unfold FirstLineDecides
  rw [hl]
  simp only [ht]
  cases parseHops text with
  | none => trivial
  | some hops => exact .inl fun hop hh => by cases hh

/-- The address is the one all lines settle exactly when the first of them decides; and then hops left of the client's
own change nothing. -/
theorem client_ip_settled_iff (h : getDirectClientIp s = some peer) :
    (config.Settles s.reqHeader peer (config.getRealClientIp s) ↔ config.Decided s.reqHeader peer) ∧
      ∀ s', getDirectClientIp s' = some peer → config.Decided s.reqHeader peer → config.Decided s'.reqHeader peer →
        config.SameFromClient s.reqHeader s'.reqHeader → config.getRealClientIp s = config.getRealClientIp s' := by
  refine ⟨settles_iff h, fun s' h' hd hd' ⟨left, left', ip, right, hhops, hhops', hip, hright⟩ => ?_⟩
  rw [((settles_iff h).mpr hd).of_chain hhops hip hright, ((settles_iff h').mpr hd').of_chain hhops' hip hright]

end

/-! ## Two lines, and a line that is no text -/

def loadBalancer : IpAddr := .v4 [10, 0, 0, 1]

def behindLoadBalancer : PluginConfig where
  whitelist := [⟨.v4 [203, 0, 113, 0], 24⟩]
  blacklist := []
  message := "Your IP address is not allowed"
  responseCode := 403
  trustedProxies := [⟨.v4 [10, 0, 0, 0], 8⟩]
  useForwardedHeaders := true
  forwardedHeaderErrorPolicy := .deny

def forwardedSession (headers : HeaderMap) : Session where
  reqHeader :=
    { method := .get
      uri := .root
      headers }
  clientAddr := some ⟨loadBalancer, 443⟩
  serverAddr := none
  isTls := false

/-- The client wrote the first line, the proxy before the load balancer the second. -/
def twoLines (first : HeaderValue) : Session :=
  forwardedSession [("x-forwarded-for", first), ("x-forwarded-for", .ofBytes (bytesOf "198.51.100.9") (by decide))]

def spoofed : Session := twoLines (.ofBytes (bytesOf "203.0.113.7") (by decide))

def honest : Session := twoLines (.ofBytes (bytesOf "192.0.2.1") (by decide))

/-- An `X-Forwarded-For` with a byte outside ASCII, and an `X-Real-IP`. -/
def illegalLine : Session :=
  forwardedSession [("x-forwarded-for", .ofBytes [255] (by decide)), ("x-real-ip", .ofBytes (bytesOf "203.0.113.7") (by decide))]

theorem firstLine_settles_not :
    (¬behindLoadBalancer.Settles spoofed.reqHeader loadBalancer (behindLoadBalancer.getRealClientIp spoofed)) ∧
      (behindLoadBalancer.SameFromClient spoofed.reqHeader honest.reqHeader ∧
        behindLoadBalancer.getRealClientIp spoofed ≠ behindLoadBalancer.getRealClientIp honest) ∧
      ¬behindLoadBalancer.Settles illegalLine.reqHeader loadBalancer (behindLoadBalancer.getRealClientIp illegalLine) := by
  have hspoofed : behindLoadBalancer.getRealClientIp spoofed = .ok (.v4 [203, 0, 113, 7]) := by decide
  have hhonest : behindLoadBalancer.getRealClientIp honest = .ok (.v4 [192, 0, 2, 1]) := by decide
  have hillegal : behindLoadBalancer.getRealClientIp illegalLine = .ok (.v4 [203, 0, 113, 7]) := by decide
  have hhops : forwardedHops (forwardedLines spoofed.reqHeader) =
      some ([.v4 [203, 0, 113, 7]] ++ .v4 [198, 51, 100, 9] :: []) := by decide
  have hhops' : forwardedHops (forwardedLines honest.reqHeader) =
      some ([.v4 [192, 0, 2, 1]] ++ .v4 [198, 51, 100, 9] :: []) := by decide
  have huntrusted : behindLoadBalancer.isTrustedProxy (.v4 [198, 51, 100, 9]) = false := by decide
  refine ⟨fun hs => ?_, ⟨⟨_, _, _, [], hhops, hhops', huntrusted, by simp⟩, ?_⟩, fun hs => ?_⟩
  · have h := hs.of_chain hhops huntrusted (by simp)
    rw [hspoofed] at h
    exact absurd h (by decide)
  · rw [hspoofed, hhonest]
    decide
  · have hnone : forwardedHops (forwardedLines illegalLine.reqHeader) = none := by decide
    have h := hs.of_illegal (by decide) (by decide) (by decide) hnone
    rw [hillegal] at h
    exact absurd h (by decide)

/-- All hops in one line. -/
def oneLine (line : HeaderValue) : Session := forwardedSession [("x-forwarded-for", line)]

def appended : Session := oneLine (.ofBytes (bytesOf "203.0.113.7, 198.51.100.9, 10.2.3.4") (by decide))

def appended' : Session := oneLine (.ofBytes (bytesOf "198.51.100.9,10.2.3.4") (by decide))

theorem client_ip_settled_iff_appended :
    (behindLoadBalancer.Settles appended.reqHeader loadBalancer (behindLoadBalancer.getRealClientIp appended) ↔
        behindLoadBalancer.Decided appended.reqHeader loadBalancer) ∧
      behindLoadBalancer.getRealClientIp appended = behindLoadBalancer.getRealClientIp appended' := by
  have hsettled := @client_ip_settled_iff behindLoadBalancer appended loadBalancer rfl
  refine ⟨hsettled.1, hsettled.2 appended' rfl (decided_of_single rfl rfl) (decided_of_single rfl rfl) ?_⟩
  exact ⟨[.v4 [203, 0, 113, 7]], [], .v4 [198, 51, 100, 9], [.v4 [10, 2, 3, 4]], by decide, by decide, by decide, by decide⟩

end PluginConfig

end Pingsix.IpRestriction
