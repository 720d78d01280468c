import Pingsix.FingerprintOrder
import Pingsix.Lib.NetText
import Pingsix.Lib.Segments

/-!
# Soundness of node addresses

The text of an address against what it is taken apart into, and the object form
of a node list against the array form. The host of a node that passes validation
has only characters that neither the brackets nor the port can be mistaken for.
-/

namespace Pingsix

/-! ## Hosts -/

/-- The characters of names and of address literals. -/
def HostChar (c : Char) : Prop := isHostAlnum c = true ∨ c = '-' ∨ c = '.' ∨ c = ':'

theorem HostChar.no_bracket {c : Char} (h : HostChar c) : c ≠ '[' ∧ c ≠ ']' ∧ c ≠ '\n' := by
  refine ⟨?_, ?_, ?_⟩
  all_goals
    rintro rfl
    unfold HostChar at h
    revert h
    decide

theorem hostChar_of_addressChar {c : Char} (h : Net.AddressChar c) : HostChar c := by
  cases h with
  | inl h =>
    refine .inl ?_
    unfold isHostAlnum
    rw [h, Bool.true_or, Bool.true_or]
  | inr h => exact .inr (.inr h)

theorem hostChar_of_matchesHostFqdn {host : List Char} (h : matchesHostFqdn host = true) : ∀ c ∈ host, HostChar c := by
  intro c hc
  by_cases hdot : c = '.'
  · exact .inr (.inr (.inl hdot))
  · obtain ⟨label, hlabel, hmem⟩ := Text.exists_mem_splitChars hdot hc
    have hall := List.all_eq_true.mp h label hlabel
    unfold isHostLabel at hall
    rw [Bool.and_eq_true] at hall
    have hchar := List.all_eq_true.mp hall.2 c hmem
    rw [Bool.or_eq_true] at hchar
    exact hchar.imp id fun he => .inl (by simpa using he)

/-- A host without brackets that passes validation. -/
structure BareHost (host : List Char) : Prop where
  nonempty : host ≠ []
  chars : ∀ c ∈ host, HostChar c
  valid : validateNodeHost (String.ofList host) = .ok ()

theorem BareHost.not_bracketed {host : List Char} (h : ∀ c ∈ host, HostChar c) : bracketed host = none := by
  unfold bracketed
  refine if_neg fun hb => ?_
  cases host with
  | nil => cases hb.1
  | cons c cs => exact (h c (by simp)).no_bracket.1 (Option.some.inj hb.1)

theorem bracketed_eq_some {host bare : List Char} : bracketed host = some bare ↔ host = '[' :: (bare ++ [']']) ∧ bare ≠ [] := by
  unfold bracketed
  constructor
  · intro h
    split at h
    · rename_i hb
      obtain ⟨hhead, hlast, hlen⟩ := hb
      cases h
      cases host with
      | nil => cases hhead
      | cons c cs =>
        cases hhead
        have hne : cs ≠ [] := fun he => by
          rw [he] at hlen
          simp at hlen
        rw [List.getLast?_cons_of_ne_nil hne] at hlast
        have hsplit : cs.dropLast ++ [']'] = cs := List.dropLast_append_getLast? ']' hlast
        refine ⟨by rw [List.drop_one, List.tail_cons, hsplit], fun he => ?_⟩
        rw [List.drop_one, List.tail_cons] at he
        rw [← hsplit, he] at hlen
        simp at hlen
    · cases h
  · rintro ⟨rfl, hne⟩
    have hpos : 0 < bare.length := List.length_pos_iff.mpr hne
    rw [if_pos]
    · simp
    · refine ⟨rfl, by simp [List.getLast?_cons], ?_⟩
      simp
      omega

/-- What stands in the brackets of a host that passes validation, or all of it, is a host without brackets. -/
theorem bareHost_of_valid {host : String} (h : validateNodeHost host = .ok ()) :
    BareHost ((bracketed host.toList).getD host.toList) := by
  have hliteral : ∀ {bare : List Char}, ((Net.parseIpv4 bare).isSome ∨ (Net.parseIpv6 bare).isSome) →
      bare ≠ [] → BareHost bare := by
    intro bare hb hne
    have hchars : ∀ c ∈ bare, HostChar c := fun c hc => hostChar_of_addressChar
      (hb.elim (Net.addressChar_of_parseIpv4 · c hc) (Net.addressChar_of_parseIpv6 · c hc))
    refine ⟨hne, hchars, ?_⟩
    unfold validateNodeHost
    simp only
    rw [String.toList_ofList, if_neg hne, BareHost.not_bracketed hchars, Option.getD_none, if_pos hb, if_neg]
    rintro ⟨hhead, -⟩
    cases bare with
    | nil => exact hne rfl
    | cons c cs => exact (hchars c (by simp)).no_bracket.1 (Option.some.inj hhead)
  unfold validateNodeHost at h
  simp only at h
  by_cases hne : host.toList = []
  · rw [if_pos hne] at h
    cases h
  rw [if_neg hne] at h
  by_cases hopen : host.toList.head? = some '[' ∧ bracketed host.toList = none
  · rw [if_pos hopen] at h
    cases h
  rw [if_neg hopen] at h
  by_cases hip : (Net.parseIpv4 ((bracketed host.toList).getD host.toList)).isSome ∨
      (Net.parseIpv6 ((bracketed host.toList).getD host.toList)).isSome
  · refine hliteral hip ?_
    cases hb : bracketed host.toList with
    | none => exact hne
    | some bare => exact (bracketed_eq_some.mp hb).2
  · rw [if_neg hip] at h
    by_cases hshape : isIpv4Shaped ((bracketed host.toList).getD host.toList) = true
    · rw [if_pos hshape] at h
      cases h
    rw [if_neg hshape] at h
    by_cases hfqdn : matchesHostFqdn host.toList = true
    · have hchars := hostChar_of_matchesHostFqdn hfqdn
      have hnone := BareHost.not_bracketed hchars
      rw [hnone, Option.getD_none] at hip hshape ⊢
      refine ⟨hne, hchars, ?_⟩
      unfold validateNodeHost
      simp only
      rw [String.toList_ofList, if_neg hne, if_neg hopen, hnone, Option.getD_none, if_neg hip, if_neg hshape, if_pos hfqdn]
    · rw [if_neg hfqdn] at h
      cases h

/-! ## The texts of an address -/

/-- What is written of a port: nothing, or a colon and digits. -/
inductive PortText : Option Nat → List Char → Prop
  | omitted : PortText none []
  | digits (port : Nat) (ds : List Char) : ds ≠ [] → ds.all Char.isDigit = true → Net.digitsValue 10 ds = port →
      PortText (some port) (':' :: ds)

/-- The texts of an address: the host, unless it has a colon, or the host with or without its brackets in brackets. -/
def AddressText (host : String) (port : Option Nat) (addr : String) : Prop :=
  ∃ suffix, PortText port suffix ∧
    ((addr.toList = host.toList ++ suffix ∧ ':' ∉ host.toList) ∨
      ∃ inner, (inner = host.toList ∨ bracketed host.toList = some inner) ∧ addr.toList = '[' :: (inner ++ ']' :: suffix))

/-- The port that a text of a port stands for, as digits. -/
theorem PortText.suffix {port : Option Nat} {suffix : List Char} (h : PortText port suffix) :
    ∃ ds, portSuffix suffix = some ds ∧ ds.map (Net.digitsValue 10) = port := by
  cases h with
  | omitted => exact ⟨none, rfl, rfl⟩
  | digits port ds hne hall hvalue =>
    refine ⟨some ds, ?_, congrArg some hvalue⟩
    show (if ds ≠ [] ∧ ds.all Char.isDigit then some (some ds) else none) = _
    rw [if_pos ⟨hne, hall⟩]

theorem portText_of_suffix {suffix : List Char} {ds : Option (List Char)} (h : portSuffix suffix = some ds) :
    PortText (ds.map (Net.digitsValue 10)) suffix := by
  unfold portSuffix at h
  split at h
  · cases h
    exact .omitted
  · split at h
    · rename_i hds
      cases h
      exact .digits _ _ hds.1 hds.2 rfl
    · cases h
  · cases h

theorem captureBracketed_skip {rest : List Char} : ∀ {bare acc : List Char}, (∀ c ∈ bare, HostChar c) →
    captureBracketed acc (bare ++ rest) = captureBracketed (bare.reverse ++ acc) rest
  | [], _, _ => rfl
  | c :: bare, acc, h => by
    obtain ⟨-, hclose, hline⟩ := (h c (by simp)).no_bracket
    rw [List.cons_append, captureBracketed, if_neg fun he => hclose he.1]
    simp only
    rw [if_neg hline, captureBracketed_skip fun c hc => h c (List.mem_cons_of_mem _ hc), List.reverse_cons,
      List.append_assoc, List.singleton_append]

theorem captureBracketed_close {acc suffix : List Char} {port : Option (List Char)} (hacc : acc ≠ [])
    (hport : portSuffix suffix = some port) : captureBracketed acc (']' :: suffix) = some (acc.reverse, port) := by
  rw [captureBracketed, if_pos ⟨rfl, hacc⟩, hport]

theorem captureBracketed_eq_some : ∀ {cs acc host : List Char} {port : Option (List Char)},
    captureBracketed acc cs = some (host, port) →
      ∃ suffix, acc.reverse ++ cs = host ++ ']' :: suffix ∧ portSuffix suffix = some port
  | [], acc, host, port, h => by cases h
  | c :: cs, acc, host, port, h => by
    have hnext : (if c = '\n' then none else captureBracketed (c :: acc) cs) = some (host, port) →
        ∃ suffix, acc.reverse ++ c :: cs = host ++ ']' :: suffix ∧ portSuffix suffix = some port := by
      intro h
      split at h
      · cases h
      · obtain ⟨suffix, he, hs⟩ := captureBracketed_eq_some h
        rw [List.reverse_cons, List.append_assoc, List.singleton_append] at he
        exact ⟨suffix, he, hs⟩
    rw [captureBracketed] at h
    by_cases hclose : c = ']' ∧ acc ≠ []
    · rw [if_pos hclose] at h
      cases hsuffix : portSuffix cs with
      | none =>
        rw [hsuffix] at h
        exact hnext h
      | some read =>
        rw [hsuffix] at h
        cases h
        exact ⟨cs, by rw [hclose.1], hsuffix⟩
    · rw [if_neg hclose] at h
      exact hnext h

/-- A bare host in brackets is taken out of them. -/
theorem captureHostPort_bracketed {bare suffix : List Char} {port : Option (List Char)} (hb : BareHost bare)
    (hport : portSuffix suffix = some port) : captureHostPort ('[' :: (bare ++ ']' :: suffix)) = some (bare, port) := by
  have hcapture : captureBracketed [] (bare ++ ']' :: suffix) = some (bare, port) := by
    rw [captureBracketed_skip hb.chars, captureBracketed_close (by simpa using hb.nonempty) hport]
    simp
  unfold captureHostPort
  simp only
  rw [hcapture]
  rfl

/-- A host in brackets inside brackets keeps one pair of them. -/
theorem captureHostPort_twice {bare suffix : List Char} {port : Option (List Char)} (hb : BareHost bare)
    (hport : portSuffix suffix = some port) :
    captureHostPort ('[' :: ('[' :: (bare ++ [']']) ++ ']' :: suffix)) = some ('[' :: (bare ++ [']']), port) := by
  have hcapture : captureBracketed [] ('[' :: (bare ++ [']']) ++ ']' :: suffix) = some ('[' :: (bare ++ [']']), port) := by
    have hsplit : '[' :: (bare ++ [']']) ++ ']' :: suffix = '[' :: (bare ++ ']' :: ']' :: suffix) := by simp
    rw [hsplit, captureBracketed, if_neg (by decide)]
    simp only
    rw [if_neg (by decide), captureBracketed_skip hb.chars, captureBracketed]
    have hstop : portSuffix (']' :: suffix) = none := rfl
    rw [hstop, ite_self]
    simp only
    rw [if_neg (by decide), captureBracketed_close (by simp) hport]
    simp
  unfold captureHostPort
  simp only
  rw [hcapture]
  rfl

/-- A bare host without a colon is all that stands before the port. -/
theorem captureHostPort_plain {bare suffix : List Char} {port : Option (List Char)} (hb : BareHost bare) (hc : ':' ∉ bare)
    (hport : portSuffix suffix = some port) : captureHostPort (bare ++ suffix) = some (bare, port) := by
  have hkeep : ∀ c ∈ bare, decide (c ≠ ':') = true := fun c hm => by simpa using fun e : c = ':' => hc (e ▸ hm)
  have htake : (bare ++ suffix).takeWhile (· ≠ ':') = bare := by
    rw [List.takeWhile_append_of_pos hkeep]
    unfold portSuffix at hport
    split at hport
    · simp
    · simp
    · cases hport
  have hplain : (if bare = [] then none else (portSuffix ((bare ++ suffix).drop bare.length)).map (bare, ·)) =
      some (bare, port) := by
    rw [if_neg hb.nonempty, List.drop_left, hport]
    rfl
  unfold captureHostPort
  simp only
  rw [htake, hplain]
  cases hbare : bare with
  | nil => exact absurd hbare hb.nonempty
  | cons c cs =>
    rw [List.cons_append]
    have hopen : c ≠ '[' := (hb.chars c (by simp [hbare])).no_bracket.1
    split
    · rename_i he
      cases he
      exact absurd rfl hopen
    · rfl

theorem splitHostPort_of_capture {addr : String} {host : List Char} {ds : Option (List Char)} {port : Option Nat}
    (hcapture : captureHostPort addr.toList = some (host, ds)) (hvalid : validateNodeHost (String.ofList host) = .ok ())
    (hds : ds.map (Net.digitsValue 10) = port) (hport : ∀ p ∈ port, p ≠ 0 ∧ p < 65536) :
    splitHostPort addr = .ok (String.ofList host, port) := by
  unfold splitHostPort
  rw [hcapture]
  simp only
  rw [hvalid]
  cases ds with
  | none =>
    cases hds
    rfl
  | some ds =>
    cases hds
    obtain ⟨hzero, hlt⟩ := hport _ rfl
    show (if 65536 ≤ Net.digitsValue 10 ds ∨ Net.digitsValue 10 ds = 0 then _ else _) = _
    rw [if_neg (fun h => h.elim (Nat.not_le.mpr hlt) hzero)]
    rfl

theorem stripIpv6Brackets_eq (host : String) :
    stripIpv6Brackets host = String.ofList ((bracketed host.toList).getD host.toList) := by
  unfold stripIpv6Brackets
  cases bracketed host.toList with
  | none => rw [Option.getD_none, String.ofList_toList]
  | some bare => rfl

theorem stripIpv6Brackets_strip {host : String} (h : validateNodeHost host = .ok ()) :
    stripIpv6Brackets (stripIpv6Brackets host) = stripIpv6Brackets host := by
  rw [stripIpv6Brackets_eq host, stripIpv6Brackets_eq (String.ofList _), String.toList_ofList,
    BareHost.not_bracketed (bareHost_of_valid h).chars, Option.getD_none]

/-- Every text of an address is taken apart into its host, with or without brackets, and its port. -/
theorem splitHostPort_of_text {host addr : String} {port : Option Nat} (hvalid : validateNodeHost host = .ok ())
    (hport : ∀ p ∈ port, p ≠ 0 ∧ p < 65536) (h : AddressText host port addr) :
    ∃ read, (read = host ∨ read = stripIpv6Brackets host) ∧ splitHostPort addr = .ok (read, port) := by
  obtain ⟨suffix, hsuffix, htext⟩ := h
  obtain ⟨ds, hds, hvalue⟩ := hsuffix.suffix
  have hbare := bareHost_of_valid hvalid
  have hstrip := stripIpv6Brackets_eq host
  have hhost : String.ofList host.toList = host := String.ofList_toList
  cases hb : bracketed host.toList with
  | none =>
    rw [hb, Option.getD_none] at hbare
    have hcapture : captureHostPort addr.toList = some (host.toList, ds) := by
      cases htext with
      | inl hplain =>
        rw [hplain.1]
        exact captureHostPort_plain hbare hplain.2 hds
      | inr hinner =>
        obtain ⟨inner, hinner, haddr⟩ := hinner
        rw [haddr]
        cases hinner with
        | inl he => rw [he]; exact captureHostPort_bracketed hbare hds
        | inr he => rw [hb] at he; cases he
    have hsplit := splitHostPort_of_capture hcapture hbare.valid hvalue hport
    rw [hhost] at hsplit
    exact ⟨host, .inl rfl, hsplit⟩
  | some bare =>
    rw [hb, Option.getD_some] at hbare hstrip
    have hlist := (bracketed_eq_some.mp hb).1
    have honce : addr.toList = '[' :: (bare ++ ']' :: suffix) → splitHostPort addr = .ok (stripIpv6Brackets host, port) := by
      intro haddr
      rw [hstrip]
      exact splitHostPort_of_capture (haddr ▸ captureHostPort_bracketed hbare hds) hbare.valid hvalue hport
    cases htext with
    | inl hplain => exact ⟨_, .inr rfl, honce (by rw [hplain.1, hlist]; simp)⟩
    | inr hinner =>
      obtain ⟨inner, hinner, haddr⟩ := hinner
      cases hinner with
      | inl he =>
        have hcapture : captureHostPort addr.toList = some (host.toList, ds) := by
          rw [haddr, he, hlist]
          exact captureHostPort_twice hbare hds
        have hsplit := splitHostPort_of_capture hcapture (by rwa [hhost]) hvalue hport
        rw [hhost] at hsplit
        exact ⟨host, .inl rfl, hsplit⟩
      | inr he =>
        rw [hb] at he
        cases he
        exact ⟨_, .inr rfl, honce haddr⟩

/-- What is taken apart is a text of the address read. -/
theorem text_of_splitHostPort {addr host : String} {port : Option Nat} (h : splitHostPort addr = .ok (host, port)) :
    validateNodeHost host = .ok () ∧ (∀ p ∈ port, p ≠ 0 ∧ p < 65536) ∧ AddressText host port addr := by
  unfold splitHostPort at h
  cases hcapture : captureHostPort addr.toList with
  | none =>
    rw [hcapture] at h
    cases h
  | some captured =>
    obtain ⟨cs, ds⟩ := captured
    rw [hcapture] at h
    obtain ⟨hvalid, h⟩ := Except.bind_unit_eq_ok.mp h
    have hread : host = String.ofList cs ∧ port = ds.map (Net.digitsValue 10) ∧ ∀ p ∈ port, p ≠ 0 ∧ p < 65536 := by
      cases ds with
      | none =>
        cases h
        exact ⟨rfl, rfl, nofun⟩
      | some ds =>
        simp only at h
        split at h
        · cases h
        · rename_i hrange
          cases h
          refine ⟨rfl, rfl, fun p hp => ?_⟩
          cases hp
          exact ⟨fun hz => hrange (.inr hz), Nat.not_le.mp fun hl => hrange (.inl hl)⟩
    obtain ⟨rfl, rfl, hport⟩ := hread
    refine ⟨hvalid, hport, ?_⟩
    have hplain : (if addr.toList.takeWhile (· ≠ ':') = [] then none
        else (portSuffix (addr.toList.drop (addr.toList.takeWhile (· ≠ ':')).length)).map
          (addr.toList.takeWhile (· ≠ ':'), ·)) = some (cs, ds) →
        AddressText (String.ofList cs) (ds.map (Net.digitsValue 10)) addr := by
      intro h
      split at h
      · cases h
      · obtain ⟨ds', hds, he⟩ := Option.map_eq_some_iff.mp h
        cases he
        refine ⟨_, portText_of_suffix hds, .inl ?_⟩
        rw [String.toList_ofList]
        refine ⟨(List.prefix_iff_eq_append.mp (List.takeWhile_prefix _)).symm, fun hm => ?_⟩
        simpa using List.mem_takeWhile_imp hm
    unfold captureHostPort at hcapture
    simp only at hcapture
    split at hcapture
    · rename_i rest haddr
      cases hinner : captureBracketed [] rest with
      | none =>
        rw [hinner] at hcapture
        exact hplain hcapture
      | some captured =>
        rw [hinner] at hcapture
        cases hcapture
        obtain ⟨suffix, hrest, hsuffix⟩ := captureBracketed_eq_some hinner
        rw [List.reverse_nil, List.nil_append] at hrest
        refine ⟨suffix, portText_of_suffix hsuffix, .inr ⟨cs, .inl String.toList_ofList.symm, ?_⟩⟩
        rw [haddr, hrest]
    · exact hplain hcapture

/-! ## The text of a node -/

theorem bareHost_toList {node : Node} : node.bareHost.toList = (bracketed node.host.toList).getD node.host.toList := by
  unfold Node.bareHost
  rw [stripIpv6Brackets_eq, String.toList_ofList]

theorem portText_toString (port : Nat) : PortText (some port) (':' :: (toString port).toList) := by
  have hdigits : (toString port).toList = Nat.toDigits 10 port := Nat.toList_repr
  rw [hdigits]
  exact .digits port _ Nat.toDigits_ne_nil
    (List.all_eq_true.mpr fun c hc => Nat.isDigit_of_mem_toDigits (by decide) (by decide) hc) (Net.digitsValue_toDigits port)

/-- The text of a node is one of its address. -/
theorem addressText_addrKey (node : Node) : AddressText node.bareHost node.port node.addrKey := by
  have hsuffix : ∃ suffix, PortText node.port suffix ∧ node.addrKey.toList =
      (if Text.containsChar node.bareHost ':' then "[" ++ node.bareHost ++ "]" else node.bareHost).toList ++ suffix := by
    unfold Node.addrKey Node.writeAddr
    cases node.port with
    | none => exact ⟨[], .omitted, by simp⟩
    | some port => exact ⟨':' :: (toString port).toList, portText_toString port, by simp [String.toList_append]⟩
  obtain ⟨suffix, hsuffix, htext⟩ := hsuffix
  refine ⟨suffix, hsuffix, ?_⟩
  by_cases hcolon : Text.containsChar node.bareHost ':' = true
  · rw [if_pos hcolon] at htext
    exact .inr ⟨_, .inl rfl, by rw [htext]; simp [String.toList_append]⟩
  · rw [if_neg hcolon] at htext
    exact .inl ⟨htext, fun hm => hcolon (by unfold Text.containsChar; simpa using hm)⟩

/-- The text of a node is taken apart into its bare host and its port. -/
theorem splitHostPort_addrKey {node : Node} (hvalid : validateNodeHost node.host = .ok ())
    (hport : ∀ p ∈ node.port, p ≠ 0 ∧ p < 65536) : splitHostPort node.addrKey = .ok (node.bareHost, node.port) := by
  have hbare : validateNodeHost node.bareHost = .ok () := by
    have hb := (bareHost_of_valid hvalid).valid
    rwa [← bareHost_toList, String.ofList_toList] at hb
  obtain ⟨read, hread, hsplit⟩ := splitHostPort_of_text hbare hport (addressText_addrKey node)
  have hstrip : stripIpv6Brackets node.bareHost = node.bareHost := stripIpv6Brackets_strip hvalid
  rw [hstrip, or_self] at hread
  rw [hsplit, hread]

/-! ## The object form -/

/-- What was read of ports and weights is in range. -/
structure Node.InRange (node : Node) : Prop where
  port : ∀ p ∈ node.port, p ≠ 0 ∧ p < 65536
  weight : node.weight < 2 ^ 32

theorem unsigned_eq_ok {bits n : Nat} {value : Json} : De.unsigned bits value = .ok n ↔ value = .num (.posInt n) ∧ n < 2 ^ bits := by
  unfold De.unsigned
  split
  · rename_i m
    by_cases hm : m < 2 ^ bits
    · rw [if_pos hm]
      constructor
      · intro h
        cases h
        exact ⟨rfl, hm⟩
      · rintro ⟨h, -⟩
        cases h
        rfl
    · rw [if_neg hm]
      refine ⟨nofun, ?_⟩
      rintro ⟨h, hlt⟩
      cases h
      exact absurd hlt hm
  · exact ⟨nofun, fun h => by cases h.1⟩
  · rename_i hpos _
    exact ⟨nofun, fun h => absurd h.1 (hpos n)⟩

theorem deserializePort_range {value : Json} {port : Option Nat} (h : Node.deserializePort value = .ok port) :
    ∀ p ∈ port, p < 65536 := by
  obtain ⟨read, hread, h⟩ := Except.bind_eq_ok.mp h
  have he : read = port := by
    split at h
    · cases h
    · cases h
      rfl
  intro p hp
  cases hp
  cases he
  unfold De.option at hread
  split at hread
  · cases hread
  · obtain ⟨n, hn, he⟩ := Except.map_eq_ok.mp hread
    cases he
    exact (unsigned_eq_ok.mp hn).2

theorem node_fromValue_inRange {value : Json} {node : Node} (h : Node.fromValue value = .ok node) : node.InRange := by
  have hzero := node_fromValue_port h
  obtain ⟨src, -, h⟩ := Except.bind_eq_ok.mp h
  obtain ⟨host, -, h⟩ := Except.bind_eq_ok.mp h
  obtain ⟨port, hport, h⟩ := Except.bind_eq_ok.mp h
  obtain ⟨weight, hweight, h⟩ := Except.bind_eq_ok.mp h
  obtain ⟨priority, -, h⟩ := Except.bind_eq_ok.mp h
  cases h
  refine ⟨fun p hp => ⟨fun hz => hzero (by rw [← hz]; exact hp), ?_⟩, ?_⟩
  · cases field_default_eq_ok hport with
    | inl he => rw [he] at hp; cases hp
    | inr hread => exact deserializePort_range hread.choose_spec p hp
  · cases field_default_eq_ok hweight with
    | inl he => rw [he]; exact show (1 : Nat) < 2 ^ 32 by decide
    | inr hread => exact (unsigned_eq_ok.mp hread.choose_spec).2

/-- Members with different keys are all in the map. -/
theorem map_of_members {members : List (String × Json)} {entries : List (Sigma fun _ : String => Nat)}
    (hkeys : (members.map (·.1)).Nodup)
    (hread : List.Forall₂ (fun member e => member.1 = e.1 ∧ De.unsigned 32 member.2 = .ok e.2) members entries) :
    ∃ map, De.map (De.unsigned 32) (.obj members) = .ok map ∧ map.entries.Perm entries := by
  have hfold : ∀ (b : HashMap String Nat), (∀ member ∈ members, member.1 ∉ b) →
      ∃ map, members.foldlM (fun (m : HashMap String Nat) kv => do return AList.insert kv.1 (← De.unsigned 32 kv.2) m) b =
        Except.ok map ∧ map.entries.Perm (entries ++ b.entries) := by
    induction hread with
    | nil => exact fun b _ => ⟨b, rfl, .refl _⟩
    | @cons member e members entries hfirst _ ih =>
      intro b hb
      rw [List.map_cons, List.nodup_cons] at hkeys
      obtain ⟨map, hmap, hperm⟩ := ih hkeys.2 (AList.insert member.1 e.2 b) fun m hm h => by
        rw [AList.mem_insert] at h
        exact h.elim (fun he => hkeys.1 (List.mem_map.mpr ⟨m, hm, he⟩)) (hb m (List.mem_cons_of_mem _ hm))
      refine ⟨map, ?_, ?_⟩
      · rw [List.foldlM_cons, hfirst.2]
        exact hmap
      · rw [AList.entries_insert_of_notMem (hb member (by simp)), hfirst.1] at hperm
        exact hperm.trans List.perm_middle
  obtain ⟨map, hmap, hperm⟩ := hfold ∅ fun member _ => AList.notMem_empty member.1
  exact ⟨map, hmap, by simpa using hperm⟩

theorem fromStr_eq_ok {addr : String} {node : Node} : Node.fromStr addr = .ok node ↔
    splitHostPort addr = .ok (node.host, node.port) ∧ node.weight = Node.defaultWeight ∧ node.priority = 0 := by
  unfold Node.fromStr
  constructor
  · intro h
    obtain ⟨⟨host, port⟩, hsplit, he⟩ := Except.bind_eq_ok.mp h
    cases he
    exact ⟨hsplit, rfl, rfl⟩
  · rintro ⟨hsplit, hweight, hpriority⟩
    rw [hsplit]
    obtain ⟨host, port, weight, priority⟩ := node
    cases hweight
    cases hpriority
    rfl

/-- When every address parses, the nodes read are there in their order. -/
theorem tryFrom_of_forall {map : HashMap String Nat} (h : ∀ e ∈ map.entries, ∃ node, Node.fromStr e.1 = .ok node) :
    Nodes.tryFrom map = .ok ⟨sortedNodes (readMembers map.entries)⟩ := by
  unfold Nodes.tryFrom
  simp only
  rw [if_pos]
  · rfl
  · rw [List.filterMap_map, List.filterMap_eq_nil_iff]
    intro e he
    obtain ⟨node, hnode⟩ := h e he
    rw [Function.comp_apply, hnode]
    rfl

theorem forall_of_tryFrom {map : HashMap String Nat} {nodes : Nodes} (h : Nodes.tryFrom map = .ok nodes) :
    ∀ e ∈ map.entries, ∃ node, Node.fromStr e.1 = .ok node := by
  unfold Nodes.tryFrom at h
  simp only at h
  split at h
  · rename_i hnone
    rw [List.filterMap_map, List.filterMap_eq_nil_iff] at hnone
    intro e he
    have herror := hnone e he
    cases hparsed : Node.fromStr e.1 with
    | ok node => exact ⟨node, rfl⟩
    | error code =>
      rw [Function.comp_apply, hparsed] at herror
      cases herror
  · cases h

theorem forall₂_readMembers {entries : List (Sigma fun _ : String => Nat)}
    (h : ∀ e ∈ entries, ∃ node, Node.fromStr e.1 = .ok node) :
    List.Forall₂ (fun e node => ∃ parsed, Node.fromStr e.1 = .ok parsed ∧ node = { parsed with weight := e.2 }) entries
      (readMembers entries) := by
  induction entries with
  | nil => exact .nil
  | cons e entries ih =>
    obtain ⟨parsed, hparsed⟩ := h e (by simp)
    unfold readMembers
    rw [List.map_cons, hparsed]
    exact .cons ⟨parsed, hparsed, rfl⟩ (ih fun e he => h e (List.mem_cons_of_mem _ he))

/-- The array form of a node of the default priority. -/
def Node.toItem (node : Node) : Json :=
  .obj (("host", .str node.host) :: node.port.toList.map (fun port => ("port", .num (.posInt port))) ++
    [("weight", .num (.posInt node.weight))])

theorem fromValue_toItem {node : Node} (h : node.InRange) (hpriority : node.priority = 0) :
    Node.fromValue node.toItem = .ok node := by
  obtain ⟨host, port, weight, priority⟩ := node
  cases hpriority
  obtain ⟨hport, hweight⟩ := h
  have hread : De.unsigned 32 (.num (.posInt weight)) = .ok weight := unsigned_eq_ok.mpr ⟨rfl, hweight⟩
  cases port with
  | none =>
    show (do
      let weight ← De.unsigned 32 (.num (.posInt weight))
      return (⟨host, none, weight, 0⟩ : Node)) = _
    rw [hread]
    rfl
  | some port =>
    obtain ⟨hzero, hlt⟩ := hport port rfl
    have hp : Node.deserializePort (.num (.posInt port)) = .ok (some port) := by
      have hn : De.unsigned 16 (.num (.posInt port)) = .ok port := unsigned_eq_ok.mpr ⟨rfl, hlt⟩
      unfold Node.deserializePort De.option
      simp only
      rw [hn]
      show (if some port = some 0 then _ else _) = _
      rw [if_neg fun he => hzero (Option.some.inj he)]
      rfl
    show (do
      let port ← Node.deserializePort (.num (.posInt port))
      let weight ← De.unsigned 32 (.num (.posInt weight))
      return (⟨host, port, weight, 0⟩ : Node)) = _
    rw [hp, hread]
    rfl

/-- The member of the object form spells the address and the weight of a node of the default priority. -/
structure Node.Spelled (node : Node) (member : String × Json) : Prop where
  priority : node.priority = 0
  address : AddressText node.host node.port member.1
  weight : member.2 = .num (.posInt node.weight)

theorem validateNodeHost_of_validate {nodes : Nodes} (h : nodes.validate = []) :
    ∀ node ∈ nodes.nodes, validateNodeHost node.host = .ok () := by
  unfold Nodes.validate at h
  split at h
  · cases h
  · intro node hn
    have hnone := List.filterMap_eq_nil_iff.mp (List.append_eq_nil_iff.mp h).2 node hn
    cases hv : validateNodeHost node.host with
    | ok u => rfl
    | error code =>
      rw [hv] at hnone
      cases hnone

/-- The object form of an array form has its nodes, but for brackets around hosts. -/
theorem objectForm_of_arrayForm {list : List Node} {members : List (String × Json)}
    (hrange : ∀ node ∈ list, node.InRange) (hvalid : ∀ node ∈ list, validateNodeHost node.host = .ok ())
    (hspelled : List.Forall₂ Node.Spelled list members) (hkeys : (members.map (·.1)).Nodup) :
    ∃ nodes read, Nodes.fromValue (.obj members) = .ok nodes ∧ nodes.nodes.Perm read ∧
      List.Forall₂ Node.Respelled list read := by
  have hentries : ∃ entries : List (Sigma fun _ : String => Nat),
      List.Forall₂ (fun member e => member.1 = e.1 ∧ De.unsigned 32 member.2 = .ok e.2) members entries ∧
      List.Forall₂ Node.Written list entries := by
    clear hkeys
    induction hspelled with
    | nil => exact ⟨[], .nil, .nil⟩
    | @cons node member list members hfirst _ ih =>
      obtain ⟨entries, hmembers, hwritten⟩ := ih (fun node hn => hrange node (List.mem_cons_of_mem _ hn))
        fun node hn => hvalid node (List.mem_cons_of_mem _ hn)
      have hnode := hrange node (by simp)
      have hv := hvalid node (by simp)
      obtain ⟨read, hread, hsplit⟩ := splitHostPort_of_text hv hnode.port hfirst.address
      have hbare : stripIpv6Brackets read = node.bareHost := by
        cases hread with
        | inl he => rw [he]; rfl
        | inr he => rw [he]; exact stripIpv6Brackets_strip hv
      refine ⟨⟨member.1, node.weight⟩ :: entries, .cons ⟨rfl, ?_⟩ hmembers, .cons ?_ hwritten⟩
      · rw [hfirst.weight]
        exact unsigned_eq_ok.mpr ⟨rfl, hnode.weight⟩
      · exact ⟨hfirst.priority, rfl, ⟨read, node.port, Node.defaultWeight, 0⟩, fromStr_eq_ok.mpr ⟨hsplit, rfl, rfl⟩, hbare, rfl⟩
  obtain ⟨entries, hmembers, hwritten⟩ := hentries
  obtain ⟨map, hmap, hperm⟩ := map_of_members hkeys hmembers
  have hparse : ∀ e ∈ map.entries, ∃ node, Node.fromStr e.1 = .ok node := by
    intro e he
    have he := hperm.mem_iff.mp he
    clear hmembers hperm hrange hvalid hspelled
    induction hwritten with
    | nil => cases he
    | cons hfirst _ ih =>
      cases he with
      | head =>
        obtain ⟨-, -, parsed, hparsed, -⟩ := hfirst
        exact ⟨parsed, hparsed⟩
      | tail _ he => exact ih he
  refine ⟨⟨sortedNodes (readMembers map.entries)⟩, readMembers entries, ?_, ?_, respelled_of_members hwritten⟩
  · unfold Nodes.fromValue
    simp only
    apply Except.bind_eq_ok.mpr
    refine ⟨map, hmap, ?_⟩
    rw [tryFrom_of_forall hparse]
    rfl
  · exact (sortedNodes_perm _).trans (readMembers_perm hperm)

/-- What a map of weights holds was in range. -/
theorem map_weights {members : List (String × Json)} {map : HashMap String Nat}
    (h : De.map (De.unsigned 32) (.obj members) = .ok map) : ∀ e ∈ map.entries, e.2 < 2 ^ 32 := by
  have hfold : ∀ {members : List (String × Json)} {b map : HashMap String Nat}, (∀ e ∈ b.entries, e.2 < 2 ^ 32) →
      members.foldlM (fun (m : HashMap String Nat) kv => do return AList.insert kv.1 (← De.unsigned 32 kv.2) m) b =
        Except.ok map → ∀ e ∈ map.entries, e.2 < 2 ^ 32 := by
    intro members
    induction members with
    | nil =>
      intro b map hb h
      cases h
      exact hb
    | cons member members ih =>
      intro b map hb h
      obtain ⟨c, hc, h⟩ := Except.foldlM_cons_eq_ok.mp h
      obtain ⟨weight, hweight, hc⟩ := Except.bind_eq_ok.mp hc
      cases hc
      refine ih (fun e he => ?_) h
      rw [AList.entries_insert] at he
      cases he with
      | head => exact (unsigned_eq_ok.mp hweight).2
      | tail _ he => exact hb e ((List.kerase_sublist member.1 b.entries).subset he)
  exact hfold (by simp) h

/-- The array form of the nodes of an object form has its nodes. -/
theorem arrayForm_of_objectForm {members : List (String × Json)} {nodes : Nodes}
    (h : Nodes.fromValue (.obj members) = .ok nodes) :
    ∃ map list, De.map (De.unsigned 32) (.obj members) = .ok map ∧
      List.Forall₂ (fun e node => node.Spelled (e.1, .num (.posInt e.2))) map.entries list ∧
      (∀ node ∈ list, validateNodeHost node.host = .ok ()) ∧
      Nodes.fromValue (.arr (list.map Node.toItem)) = .ok ⟨list⟩ ∧ nodes.nodes.Perm list := by
  unfold Nodes.fromValue at h
  obtain ⟨map, hmap, h⟩ := Except.bind_eq_ok.mp h
  cases hread : Nodes.tryFrom map with
  | error errors => simp [hread] at h
  | ok read =>
    simp only [hread] at h
    cases h
    have hread₂ := forall₂_readMembers (forall_of_tryFrom hread)
    have hweights := map_weights hmap
    have hnode : ∀ {e : Sigma fun _ : String => Nat} {node : Node}, e.2 < 2 ^ 32 →
        (∃ parsed, Node.fromStr e.1 = .ok parsed ∧ node = { parsed with weight := e.2 }) →
        node.Spelled (e.1, .num (.posInt e.2)) ∧ validateNodeHost node.host = .ok () ∧
          Node.fromValue node.toItem = .ok node := by
      rintro e node hweight ⟨parsed, hparsed, rfl⟩
      obtain ⟨hsplit, -, hpriority⟩ := fromStr_eq_ok.mp hparsed
      obtain ⟨hvalid, hport, htext⟩ := text_of_splitHostPort hsplit
      exact ⟨⟨hpriority, htext, rfl⟩, hvalid, fromValue_toItem ⟨hport, hweight⟩ hpriority⟩
    have hall : List.Forall₂ (fun e node => node.Spelled (e.1, .num (.posInt e.2))) map.entries (readMembers map.entries) ∧
        ∀ node ∈ readMembers map.entries, validateNodeHost node.host = .ok () ∧ Node.fromValue node.toItem = .ok node := by
      generalize readMembers map.entries = list at hread₂
      generalize map.entries = entries at hread₂ hweights
      induction hread₂ with
      | nil => exact ⟨.nil, by simp⟩
      | cons hfirst _ ih =>
        obtain ⟨hspelled, hrest⟩ := ih fun e he => hweights e (List.mem_cons_of_mem _ he)
        obtain ⟨hs, hv⟩ := hnode (hweights _ List.mem_cons_self) hfirst
        exact ⟨.cons hs hspelled, List.forall_mem_cons.mpr ⟨hv, hrest⟩⟩
    refine ⟨map, readMembers map.entries, hmap, hall.1, fun node hn => (hall.2 node hn).1, ?_, perm_of_tryFrom hread⟩
    unfold Nodes.fromValue
    rw [Except.map_eq_ok]
    refine ⟨readMembers map.entries, Except.mapM_eq_ok.mpr ?_, rfl⟩
    rw [List.forall₂_map_left_iff]
    exact List.forall₂_same.mpr fun node hn => (hall.2 node hn).2

/-! ## Both forms -/

theorem nodes_fromValue_inRange {value : Json} {nodes : Nodes} (h : Nodes.fromValue value = .ok nodes) :
    ∀ node ∈ nodes.nodes, node.InRange := by
  cases value with
  | arr items =>
    obtain ⟨list, hlist, rfl⟩ := Except.map_eq_ok.mp h
    intro node hn
    obtain ⟨item, -, hitem⟩ := (Except.mem_mapM hlist).mp hn
    exact node_fromValue_inRange hitem
  | obj members =>
    obtain ⟨map, list, -, -, -, hlist, hperm⟩ := arrayForm_of_objectForm h
    obtain ⟨list', hlist, he⟩ := Except.map_eq_ok.mp hlist
    cases he
    intro node hn
    obtain ⟨item, -, hitem⟩ := (Except.mem_mapM hlist).mp (hperm.mem_iff.mp hn)
    exact node_fromValue_inRange hitem
  | null => cases h
  | bool b => cases h
  | num n => cases h
  | str s => cases h

/--
The text of every node with an accepted host parses back to its bare host and port. The object form of an array
form parses to its nodes, and every object form parses to the nodes of an array form that it spells.
-/
theorem nodeAddress_roundTrip :
    (∀ value nodes, Nodes.fromValue value = .ok nodes → ∀ node ∈ nodes.nodes, validateNodeHost node.host = .ok () →
      ∃ parsed, Node.fromStr node.addrKey = .ok parsed ∧ parsed.host = node.bareHost ∧ parsed.bareHost = node.bareHost ∧
        parsed.port = node.port) ∧
    (∀ items list members, Nodes.fromValue (.arr items) = .ok list → list.validate = [] →
      List.Forall₂ Node.Spelled list.nodes members → (members.map (·.1)).Nodup →
      ∃ nodes read, Nodes.fromValue (.obj members) = .ok nodes ∧ nodes.nodes.Perm read ∧
        List.Forall₂ Node.Respelled list.nodes read) ∧
    ∀ members nodes, Nodes.fromValue (.obj members) = .ok nodes →
      ∃ map list, De.map (De.unsigned 32) (.obj members) = .ok map ∧
        List.Forall₂ (fun e node => node.Spelled (e.1, .num (.posInt e.2))) map.entries list ∧
        (∀ node ∈ list, validateNodeHost node.host = .ok ()) ∧
        Nodes.fromValue (.arr (list.map Node.toItem)) = .ok ⟨list⟩ ∧ nodes.nodes.Perm list := by
  refine ⟨?_, ?_, fun members nodes h => arrayForm_of_objectForm h⟩
  · intro value nodes h node hn hvalid
    have hsplit := splitHostPort_addrKey hvalid (nodes_fromValue_inRange h node hn).port
    exact ⟨⟨node.bareHost, node.port, Node.defaultWeight, 0⟩, fromStr_eq_ok.mpr ⟨hsplit, rfl, rfl⟩, rfl,
      stripIpv6Brackets_strip hvalid, rfl⟩
  · intro items list members h hvalid hspelled hkeys
    exact objectForm_of_arrayForm (nodes_fromValue_inRange h) (validateNodeHost_of_validate hvalid) hspelled hkeys

theorem nodeAddress_roundTrip_ipv6 :
    Nodes.fromValue (.arr [.obj [("host", .str "[::1]"), ("port", .num (.posInt 8080))]]) =
      .ok ⟨[⟨"[::1]", some 8080, 1, 0⟩]⟩ ∧
    (⟨"[::1]", some 8080, 1, 0⟩ : Node).addrKey = "[::1]:8080" ∧
    ∃ parsed, Node.fromStr (⟨"[::1]", some 8080, 1, 0⟩ : Node).addrKey = .ok parsed ∧ parsed.host = "::1" ∧
      parsed.bareHost = "::1" ∧ parsed.port = some 8080 := by
  have hread : Nodes.fromValue (.arr [.obj [("host", .str "[::1]"), ("port", .num (.posInt 8080))]]) =
      .ok ⟨[⟨"[::1]", some 8080, 1, 0⟩]⟩ := by decide
  exact ⟨hread, by decide, nodeAddress_roundTrip.1 _ _ hread _ (by simp) (by decide)⟩

end Pingsix
