import Mathlib.Algebra.Order.BigOperators.Group.List
import Pingsix.Template

/-!
# Soundness of template rendering

A template is a sequence of tokens: characters, dollars and placeholders in
their spellings. The scanner reads the tokens one after another, and what it
renders for a placeholder depends on its name and not on its spelling.
-/

namespace Pingsix

/-- What the scanner reads in one round. -/
inductive TemplateToken where
  | char (c : Char)
  | escapedDollar
  | dollar
  | plain (name : List Char)
  | braced (name : List Char)
  | unclosed (name : List Char)
  deriving DecidableEq

namespace TemplateToken

def text : TemplateToken → List Char
  | .char c => [c]
  | .escapedDollar => ['\\', '$']
  | .dollar => ['$']
  | .plain name => '$' :: name
  | .braced name => '$' :: '\x7b' :: (name ++ ['\x7d'])
  | .unclosed name => '$' :: '\x7b' :: name

/-- The name to resolve, empty for text. -/
def name : TemplateToken → List Char
  | .plain name | .braced name | .unclosed name => name
  | _ => []

/-- Whether the scanner reads the token when the character `next` follows it. -/
def Fits (options : TemplateOptions) (next : Option Char) : TemplateToken → Prop
  | .char c => c ≠ '$' ∧ (options.escapeDollar = true → c = '\\' → next ≠ some '$')
  | .escapedDollar => options.escapeDollar = true
  | .dollar => ∀ c ∈ next, c ≠ '\x7b' ∧ isNameChar c = false
  | .plain name => name ≠ [] ∧ (∀ c ∈ name, isNameChar c = true) ∧ ∀ c ∈ next, isNameChar c = false
  | .braced name => '\x7d' ∉ name
  | .unclosed name => '\x7d' ∉ name ∧ next = none

def render (resolve : ResolveVar) (token : TemplateToken) : List Char × Nat :=
  match token with
  | .char c => ([c], 0)
  | .escapedDollar | .dollar => (['$'], 0)
  | .plain name | .braced name | .unclosed name =>
    if name.isEmpty then (['$'], 0)
    else
      let value := (resolve (String.ofList name)).toList
      (value, if value.isEmpty then 0 else 1)

end TemplateToken

open TemplateToken

def textOf (tokens : List TemplateToken) : List Char := tokens.flatMap text

def renderTokens (resolve : ResolveVar) (tokens : List TemplateToken) : List Char × Nat :=
  (tokens.flatMap fun t => (t.render resolve).1, (tokens.map fun t => (t.render resolve).2).sum)

/-- Every token fits what follows it. -/
def Scans (options : TemplateOptions) : List TemplateToken → Prop
  | [] => True
  | t :: ts => t.Fits options (textOf ts).head? ∧ Scans options ts

def tokenize (options : TemplateOptions) : Nat → List Char → List TemplateToken
  | 0, _ | _ + 1, [] => []
  | fuel + 1, ch :: cs =>
    if options.escapeDollar && ch == '\\' then
      match cs with
      | '$' :: cs => .escapedDollar :: tokenize options fuel cs
      | cs => .char '\\' :: tokenize options fuel cs
    else if ch ≠ '$' then .char ch :: tokenize options fuel cs
    else
      match cs with
      | '\x7b' :: cs =>
        if '\x7d' ∈ cs then
          .braced (cs.takeWhile (· ≠ '\x7d')) :: tokenize options fuel ((cs.dropWhile (· ≠ '\x7d')).drop 1)
        else [.unclosed cs]
      | cs =>
        if cs.takeWhile isNameChar = [] then .dollar :: tokenize options fuel cs
        else .plain (cs.takeWhile isNameChar) :: tokenize options fuel (cs.dropWhile isNameChar)

def tokensOf (options : TemplateOptions) (template : String) : List TemplateToken :=
  tokenize options template.toList.length template.toList

theorem textOf_cons (t : TemplateToken) (ts : List TemplateToken) : textOf (t :: ts) = t.text ++ textOf ts :=
  List.flatMap_cons

theorem textOf_append (ts us : List TemplateToken) : textOf (ts ++ us) = textOf ts ++ textOf us :=
  List.flatMap_append

theorem renderTokens_cons (resolve : ResolveVar) (t : TemplateToken) (ts : List TemplateToken) :
    renderTokens resolve (t :: ts) =
      ((t.render resolve).1 ++ (renderTokens resolve ts).1, (t.render resolve).2 + (renderTokens resolve ts).2) := by
  simp [renderTokens]

/-! ## Rendering tokens -/

theorem render_congr {resolve resolve' : ResolveVar} {t : TemplateToken}
    (h : resolve (String.ofList t.name) = resolve' (String.ofList t.name)) : t.render resolve = t.render resolve' := by
  cases t with
  | char | escapedDollar | dollar => rfl
  | plain name | braced name | unclosed name =>
    simp only [TemplateToken.name] at h
    simp only [render, h]

theorem render_of_name {resolve : ResolveVar} {t : TemplateToken} (h : t.name ≠ []) :
    (t.render resolve).1 = (resolve (String.ofList t.name)).toList := by
  cases t with
  | char | escapedDollar | dollar => exact absurd rfl h
  | plain name | braced name | unclosed name =>
    have hne : ¬name.isEmpty = true := fun e => h (List.isEmpty_iff.mp e)
    unfold render
    simp only [hne]
    rfl

theorem placeholder_braced {name rest : List Char} (h : '\x7d' ∉ name) :
    placeholder ('\x7b' :: (name ++ '\x7d' :: rest)) = (name, rest) := by
  have hall : ∀ c ∈ name, decide (c ≠ '\x7d') = true := fun c hc => by
    rw [decide_eq_true_eq]
    exact fun e => h (e ▸ hc)
  show ((name ++ '\x7d' :: rest).takeWhile (· ≠ '\x7d'), ((name ++ '\x7d' :: rest).dropWhile (· ≠ '\x7d')).drop 1) = _
  rw [List.takeWhile_append_of_pos hall, List.dropWhile_append_of_pos hall]
  simp

theorem placeholder_unclosed {name : List Char} (h : '\x7d' ∉ name) : placeholder ('\x7b' :: name) = (name, []) := by
  have hall : ∀ c ∈ name, decide (c ≠ '\x7d') = true := fun c hc => by
    rw [decide_eq_true_eq]
    exact fun e => h (e ▸ hc)
  show (name.takeWhile (· ≠ '\x7d'), (name.dropWhile (· ≠ '\x7d')).drop 1) = _
  rw [List.takeWhile_eq_self_iff.mpr hall, List.dropWhile_eq_nil_iff.mpr hall]
  rfl

theorem placeholder_plain {name rest : List Char} (hname : ∀ c ∈ name, isNameChar c = true)
    (hrest : ∀ c ∈ rest.head?, isNameChar c = false) (hbrace : (name ++ rest).head? ≠ some '\x7b') :
    placeholder (name ++ rest) = (name, rest) := by
  have htake : rest.takeWhile isNameChar = [] ∧ rest.dropWhile isNameChar = rest := by
    cases rest with
    | nil => exact ⟨rfl, rfl⟩
    | cons c rest =>
      have hc := hrest c rfl
      simp [hc]
  unfold placeholder
  split
  · rename_i cs h
    rw [h] at hbrace
    exact absurd rfl hbrace
  · rw [List.takeWhile_append_of_pos hname, List.dropWhile_append_of_pos hname, htake.1, htake.2, List.append_nil]

/-- The round of the scanner that starts at a dollar. -/
theorem renderChars_dollar {options : TemplateOptions} {resolve : ResolveVar} {fuel : Nat} {cs name rest : List Char}
    (h : placeholder cs = (name, rest)) :
    renderChars options resolve (fuel + 1) ('$' :: cs) =
      (((TemplateToken.braced name).render resolve).1 ++ (renderChars options resolve fuel rest).1,
        ((TemplateToken.braced name).render resolve).2 + (renderChars options resolve fuel rest).2) := by
  have hesc : ¬(options.escapeDollar && '$' == '\\') = true := by simp
  conv_lhs => unfold renderChars
  rw [if_neg hesc, if_neg (by simp), h]
  unfold TemplateToken.render
  by_cases hn : name.isEmpty = true
  · simp only [hn, if_true, List.cons_append, List.nil_append, Nat.zero_add]
  · simp only [hn]
    by_cases hv : (resolve (String.ofList name)).toList.isEmpty = true
    · simp [hv]
    · simp [hv, Nat.add_comm]

theorem renderChars_textOf {options : TemplateOptions} {resolve : ResolveVar} :
    ∀ {ts : List TemplateToken} {fuel : Nat}, Scans options ts → (textOf ts).length ≤ fuel →
      renderChars options resolve fuel (textOf ts) = renderTokens resolve ts
  | [], fuel, _, _ => by cases fuel <;> rfl
  | t :: ts, fuel, hs, hf => by
    obtain ⟨hfit, hrest⟩ := hs
    rw [textOf_cons, List.length_append] at hf
    have hpos : 0 < t.text.length := by cases t <;> simp [text]
    obtain ⟨n, rfl⟩ : ∃ n, fuel = n + 1 := ⟨fuel - 1, by omega⟩
    have ih := @renderChars_textOf _ resolve _ n hrest (by omega)
    rw [textOf_cons, renderTokens_cons, ← ih]
    cases t with
    | char c =>
      obtain ⟨hc, hesc⟩ := hfit
      show renderChars options resolve (n + 1) (c :: textOf ts) = _
      conv_lhs => unfold renderChars
      by_cases he : (options.escapeDollar && c == '\\') = true
      · have he' := Bool.and_eq_true_iff.mp he
        have hslash : c = '\\' := eq_of_beq he'.2
        rw [if_pos he]
        split
        · rename_i cs hcs
          exact absurd (by rw [hcs]; rfl) (hesc he'.1 hslash)
        · simp [render, hslash]
      · rw [if_neg he, if_pos hc]
        simp [render]
    | escapedDollar =>
      have hon : options.escapeDollar = true := hfit
      show renderChars options resolve (n + 1) ('\\' :: '$' :: textOf ts) = _
      conv_lhs => unfold renderChars
      simp [render, hon]
    | dollar =>
      have hp : placeholder ([] ++ textOf ts) = ([], textOf ts) :=
        placeholder_plain (by simp) (fun c hc => (hfit c hc).2) fun h => (hfit _ h).1 rfl
      exact renderChars_dollar hp
    | plain name =>
      obtain ⟨hne, hname, hnext⟩ := hfit
      have hp : placeholder (name ++ textOf ts) = (name, textOf ts) := by
        refine placeholder_plain hname hnext ?_
        cases name with
        | nil => exact absurd rfl hne
        | cons c name =>
          intro h
          rw [List.cons_append, List.head?_cons, Option.some.injEq] at h
          have := hname c (by simp)
          rw [h] at this
          exact absurd this (by decide)
      exact renderChars_dollar hp
    | braced name =>
      have ht : (TemplateToken.braced name).text ++ textOf ts = '$' :: '\x7b' :: (name ++ '\x7d' :: textOf ts) := by
        simp [text]
      rw [ht]
      exact renderChars_dollar (placeholder_braced hfit)
    | unclosed name =>
      have hnil : textOf ts = [] := List.head?_eq_none_iff.mp hfit.2
      rw [hnil]
      have ht : (TemplateToken.unclosed name).text ++ [] = '$' :: '\x7b' :: name := by simp [text]
      rw [ht]
      exact renderChars_dollar (placeholder_unclosed hfit.1)

/-! ## The tokens of a template -/

theorem not_mem_takeWhile_ne {c : Char} {cs : List Char} : c ∉ cs.takeWhile (· ≠ c) := fun h => by
  have := List.mem_takeWhile_imp h
  simp at this

theorem head?_dropWhile {p : Char → Bool} {cs : List Char} : ∀ c ∈ (cs.dropWhile p).head?, p c = false := fun c hc => by
  cases hd : cs.dropWhile p with
  | nil =>
    rw [hd] at hc
    cases hc
  | cons d rest =>
    have hnot := List.head_dropWhile_not p (l := cs) (by simp [hd])
    simp only [hd, List.head_cons] at hnot
    rw [hd, List.head?_cons, Option.mem_def, Option.some.injEq] at hc
    rw [← hc]
    exact hnot

theorem takeWhile_append_closing {cs : List Char} (h : '\x7d' ∈ cs) :
    cs.takeWhile (· ≠ '\x7d') ++ '\x7d' :: (cs.dropWhile (· ≠ '\x7d')).drop 1 = cs := by
  have hd : ∃ rest, cs.dropWhile (· ≠ '\x7d') = '\x7d' :: rest := by
    cases hdrop : cs.dropWhile (· ≠ '\x7d') with
    | nil =>
      have := List.dropWhile_eq_nil_iff.mp hdrop _ h
      simp at this
    | cons c rest =>
      have hc := @head?_dropWhile (· ≠ '\x7d') cs c (by rw [hdrop]; rfl)
      rw [decide_eq_false_iff_not, not_not] at hc
      exact ⟨rest, by rw [hc]⟩
  obtain ⟨rest, hd⟩ := hd
  conv_rhs => rw [← List.takeWhile_append_dropWhile (p := (· ≠ '\x7d')) (l := cs)]
  rw [hd, List.drop_succ_cons, List.drop_zero]

theorem length_dropWhile_le (p : Char → Bool) (cs : List Char) : (cs.dropWhile p).length ≤ cs.length :=
  (List.dropWhile_sublist p).length_le

/-- The tokens spell the template, and each fits what follows it. -/
theorem tokenize_spec {options : TemplateOptions} : ∀ {fuel : Nat} {cs : List Char}, cs.length ≤ fuel →
    textOf (tokenize options fuel cs) = cs ∧ Scans options (tokenize options fuel cs)
  | 0, cs, hf => by
    rw [List.length_eq_zero_iff.mp (Nat.le_zero.mp hf)]
    exact ⟨rfl, trivial⟩
  | fuel + 1, [], _ => ⟨rfl, trivial⟩
  | fuel + 1, ch :: cs, hf => by
    have step : ∀ {t : TemplateToken} {rest : List Char}, rest.length ≤ fuel → t.text ++ rest = ch :: cs →
        t.Fits options rest.head? →
        textOf (t :: tokenize options fuel rest) = ch :: cs ∧ Scans options (t :: tokenize options fuel rest) := by
      intro t rest hlen htext hfit
      obtain ⟨ht, hs⟩ := @tokenize_spec options _ _ hlen
      rw [textOf_cons, ht]
      refine ⟨htext, ?_, hs⟩
      rw [ht]
      exact hfit
    have hcs : cs.length ≤ fuel := Nat.le_of_succ_le_succ hf
    unfold tokenize
    by_cases he : (options.escapeDollar && ch == '\\') = true
    · have he' := Bool.and_eq_true_iff.mp he
      have hslash : ch = '\\' := eq_of_beq he'.2
      rw [if_pos he]
      split
      · rename_i cs
        exact step (by simp at hcs; omega) (by rw [hslash]; rfl) he'.1
      · rename_i cs hne
        refine step hcs (by rw [hslash]; rfl) ⟨by decide, fun _ _ h => ?_⟩
        obtain ⟨rest, rfl⟩ := List.head?_eq_some_iff.mp h
        exact hne rest rfl
    · rw [if_neg he]
      by_cases hd : ch ≠ '$'
      · rw [if_pos hd]
        refine step hcs rfl ⟨hd, fun hon hslash => absurd ?_ he⟩
        rw [hon, hslash]
        rfl
      · rw [if_neg hd]
        have hdollar : ch = '$' := not_not.mp hd
        split
        · rename_i cs
          by_cases hclose : '\x7d' ∈ cs
          · rw [if_pos hclose]
            refine step ?_ ?_ not_mem_takeWhile_ne
            · have h1 := length_dropWhile_le (· ≠ '\x7d') cs
              rw [List.length_cons] at hcs
              rw [List.length_drop]
              omega
            · have h := takeWhile_append_closing hclose
              simp only [text, List.cons_append, List.append_assoc, List.nil_append, hdollar, h]
          · rw [if_neg hclose]
            exact ⟨by simp [textOf, text, hdollar], ⟨hclose, rfl⟩, trivial⟩
        · rename_i hne
          by_cases hn : cs.takeWhile isNameChar = []
          · rw [if_pos hn]
            refine step hcs (by rw [hdollar]; rfl) fun c hc => ?_
            obtain ⟨rest, rfl⟩ := List.head?_eq_some_iff.mp (Option.mem_def.mp hc)
            refine ⟨fun e => hne rest (by rw [e]), ?_⟩
            rw [List.takeWhile_cons] at hn
            by_cases hc : isNameChar c = true
            · rw [if_pos hc] at hn
              cases hn
            · exact Bool.not_eq_true _ ▸ hc
          · rw [if_neg hn]
            refine step ((length_dropWhile_le _ _).trans hcs) ?_ ⟨hn, fun c hc => List.mem_takeWhile_imp hc, head?_dropWhile⟩
            simp only [text, List.cons_append, List.takeWhile_append_dropWhile, hdollar]

theorem textOf_tokensOf (options : TemplateOptions) (template : String) :
    textOf (tokensOf options template) = template.toList := (tokenize_spec (Nat.le_refl _)).1

theorem scans_tokensOf (options : TemplateOptions) (template : String) : Scans options (tokensOf options template) :=
  (tokenize_spec (Nat.le_refl _)).2

/-- Rendering a text whose tokens are known. -/
theorem renderTemplateWithCount_textOf {options : TemplateOptions} {resolve : ResolveVar} {ts : List TemplateToken}
    (h : Scans options ts) :
    renderTemplateWithCount (String.ofList (textOf ts)) options resolve =
      (String.ofList (renderTokens resolve ts).1, (renderTokens resolve ts).2) := by
  unfold renderTemplateWithCount
  rw [String.toList_ofList, renderChars_textOf h (Nat.le_refl _)]

theorem renderTemplateWithCount_eq (template : String) (options : TemplateOptions) (resolve : ResolveVar) :
    renderTemplateWithCount template options resolve =
      (String.ofList (renderTokens resolve (tokensOf options template)).1,
        (renderTokens resolve (tokensOf options template)).2) := by
  conv_lhs => rw [← String.ofList_toList (s := template), ← textOf_tokensOf options template]
  exact renderTemplateWithCount_textOf (scans_tokensOf options template)

/-! ## Changing a placeholder's spelling -/

theorem scans_append_cons {options : TemplateOptions} {t : TemplateToken} {us : List TemplateToken} :
    ∀ {ts : List TemplateToken}, Scans options (ts ++ t :: us) → t.Fits options (textOf us).head? ∧ Scans options us
  | [], h => h
  | _ :: _, h => scans_append_cons h.2

theorem scans_replace {options : TemplateOptions} {t t' : TemplateToken} {us : List TemplateToken}
    (hhead : t.text.head? = t'.text.head?) (hfit : t'.Fits options (textOf us).head?) :
    ∀ {ts : List TemplateToken}, Scans options (ts ++ t :: us) → Scans options (ts ++ t' :: us)
  | [], h => ⟨hfit, h.2⟩
  | s :: ts, h => by
    have hsame : (textOf (ts ++ t :: us)).head? = (textOf (ts ++ t' :: us)).head? := by
      rw [textOf_append, textOf_append, textOf_cons, textOf_cons, List.head?_append, List.head?_append,
        List.head?_append, List.head?_append, hhead]
    exact ⟨hsame ▸ h.1, scans_replace hhead hfit h.2⟩

/-- The template with the token `t'` where it has `t`. -/
theorem renderTemplateWithCount_replace {options : TemplateOptions} {resolve : ResolveVar} {template : String}
    {ts us : List TemplateToken} {t t' : TemplateToken} (htokens : tokensOf options template = ts ++ t :: us)
    (hhead : t.text.head? = t'.text.head?) (hfit : t'.Fits options (textOf us).head?)
    (hrender : t.render resolve = t'.render resolve) :
    renderTemplateWithCount (String.ofList (textOf (ts ++ t' :: us))) options resolve =
      renderTemplateWithCount template options resolve := by
  have hscans : Scans options (ts ++ t :: us) := htokens ▸ scans_tokensOf options template
  have hsame : renderTokens resolve (ts ++ t :: us) = renderTokens resolve (ts ++ t' :: us) := by
    simp only [renderTokens, List.flatMap_append, List.flatMap_cons, List.map_append, List.map_cons, hrender]
  rw [renderTemplateWithCount_textOf (scans_replace hhead hfit hscans), renderTemplateWithCount_eq, htokens, hsame]

/-! ## Escaped dollars -/

/-- `s.replace('$', "\\$")` -/
def escapeDollars (s : String) : String :=
  String.ofList (s.toList.flatMap fun c => if c = '$' then ['\\', '$'] else [c])

def escapedTokens (cs : List Char) : List TemplateToken := cs.map fun c => if c = '$' then .escapedDollar else .char c

theorem textOf_escapedTokens (cs : List Char) :
    textOf (escapedTokens cs) = cs.flatMap fun c => if c = '$' then ['\\', '$'] else [c] := by
  unfold textOf escapedTokens
  rw [List.flatMap_map]
  congr 1
  funext c
  by_cases h : c = '$'
  · rw [if_pos h, if_pos h]
    rfl
  · rw [if_neg h, if_neg h]
    rfl

theorem scans_escapedTokens : ∀ cs : List Char, Scans { escapeDollar := true } (escapedTokens cs)
  | [] => trivial
  | c :: cs => by
    have ih := scans_escapedTokens cs
    have hhead : (textOf (escapedTokens cs)).head? ≠ some '$' := by
      rw [textOf_escapedTokens]
      cases cs with
      | nil => simp
      | cons d cs =>
        by_cases hd : d = '$'
        · simp [hd]
        · simp [hd]
    show Scans _ ((if c = '$' then .escapedDollar else .char c) :: escapedTokens cs)
    by_cases h : c = '$'
    · rw [if_pos h]
      exact ⟨rfl, ih⟩
    · rw [if_neg h]
      exact ⟨⟨h, fun _ _ => hhead⟩, ih⟩

theorem renderTokens_escapedTokens (resolve : ResolveVar) : ∀ cs : List Char,
    renderTokens resolve (escapedTokens cs) = (cs, 0)
  | [] => rfl
  | c :: cs => by
    show renderTokens resolve ((if c = '$' then .escapedDollar else .char c) :: escapedTokens cs) = _
    rw [renderTokens_cons, renderTokens_escapedTokens resolve cs]
    by_cases h : c = '$'
    · rw [if_pos h, h]
      rfl
    · rw [if_neg h]
      rfl

theorem renderTemplateWithCount_escapeDollars (s : String) (resolve : ResolveVar) :
    renderTemplateWithCount (escapeDollars s) { escapeDollar := true } resolve = (s, 0) := by
  unfold escapeDollars
  rw [← textOf_escapedTokens, renderTemplateWithCount_textOf (scans_escapedTokens s.toList),
    renderTokens_escapedTokens, String.ofList_toList]

/-! ## The two laws -/

theorem closing_not_mem {name : List Char} (h : ∀ c ∈ name, isNameChar c = true) : '\x7d' ∉ name := fun hc =>
  absurd (h _ hc) (by decide)

/-- Escaped dollars stand for themselves, and `$name` and `${name}` are one placeholder. -/
theorem renderTemplateWithCount_laws (options : TemplateOptions) (resolve : ResolveVar) :
    (∀ s, renderTemplateWithCount (escapeDollars s) { escapeDollar := true } resolve = (s, 0)) ∧
      ∀ (template : String) (ts us : List TemplateToken) (name : List Char),
        (tokensOf options template = ts ++ .plain name :: us →
          renderTemplateWithCount (String.ofList (textOf ts ++ (braced name).text ++ textOf us)) options resolve =
            renderTemplateWithCount template options resolve) ∧
        (tokensOf options template = ts ++ .braced name :: us → name ≠ [] → (∀ c ∈ name, isNameChar c = true) →
          (∀ c ∈ (textOf us).head?, isNameChar c = false) →
          renderTemplateWithCount (String.ofList (textOf ts ++ (plain name).text ++ textOf us)) options resolve =
            renderTemplateWithCount template options resolve) := by
  have htext : ∀ (ts us : List TemplateToken) (t : TemplateToken),
      textOf ts ++ t.text ++ textOf us = textOf (ts ++ t :: us) := fun ts us t => by
    rw [textOf_append, textOf_cons, List.append_assoc]
  refine ⟨fun s => renderTemplateWithCount_escapeDollars s resolve, fun template ts us name => ⟨fun h => ?_, ?_⟩⟩
  · have hfit := (scans_append_cons (h ▸ scans_tokensOf options template)).1
    rw [htext]
    exact renderTemplateWithCount_replace h rfl (closing_not_mem hfit.2.1) rfl
  · intro h hne hname hnext
    rw [htext]
    exact renderTemplateWithCount_replace h rfl ⟨hne, hname, hnext⟩ rfl

/-- A placeholder in both spellings, after an escaped dollar and a bare one. -/
theorem renderTemplateWithCount_laws_uri :
    let options : TemplateOptions := { escapeDollar := true }
    let resolve : ResolveVar := fun name => if name = "uri" then "/a" else ""
    renderTemplateWithCount "\\$$$\x7buri\x7d-" options resolve = ("$$/a-", 1) ∧
      renderTemplateWithCount "\\$$$uri-" options resolve =
        renderTemplateWithCount "\\$$$\x7buri\x7d-" options resolve ∧
      renderTemplateWithCount "\\$$$\x7buri\x7d-" options resolve =
        renderTemplateWithCount "\\$$$uri-" options resolve :=
  ⟨by decide,
    ((renderTemplateWithCount_laws _ _).2 "\\$$$\x7buri\x7d-" [.escapedDollar, .dollar] [.char '-'] ['u', 'r', 'i']).2
      (by decide) (by decide) (List.all_eq_true.mp (by decide)) (fun c hc => by cases hc; rfl),
    ((renderTemplateWithCount_laws _ _).2 "\\$$$uri-" [.escapedDollar, .dollar] [.char '-'] ['u', 'r', 'i']).1
      (by decide)⟩

end Pingsix
