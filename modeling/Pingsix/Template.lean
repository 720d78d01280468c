import Pingsix.Lib.Text

/-!
# Variable templates

The `$name` and `${name}` templates of the limiter keys and of the cache key,
rendered with the variables a request resolves.
-/

namespace Pingsix

/-- The value of each variable in one request; a variable it does not have is empty. -/
abbrev ResolveVar := String → String

def isNameChar (c : Char) : Bool := c.isAlphanum || c == '_'

/-- The name after a `$`, and the text after it. -/
def placeholder : List Char → List Char × List Char
  | '{' :: cs => (cs.takeWhile (· ≠ '}'), (cs.dropWhile (· ≠ '}')).drop 1)
  | cs => (cs.takeWhile isNameChar, cs.dropWhile isNameChar)

structure TemplateOptions where
  escapeDollar : Bool := false

/-- The loop of `render_template_with_count` for at most `fuel` characters. -/
def renderChars (options : TemplateOptions) (resolve : ResolveVar) : Nat → List Char → List Char × Nat
  | 0, _ | _ + 1, [] => ([], 0)
  | fuel + 1, ch :: cs =>
    if options.escapeDollar && ch == '\\' then
      match cs with
      | '$' :: cs =>
        let rest := renderChars options resolve fuel cs
        ('$' :: rest.1, rest.2)
      | cs =>
        let rest := renderChars options resolve fuel cs
        ('\\' :: rest.1, rest.2)
    else if ch ≠ '$' then
      let rest := renderChars options resolve fuel cs
      (ch :: rest.1, rest.2)
    else
      let name := (placeholder cs).1
      let rest := renderChars options resolve fuel (placeholder cs).2
      if name.isEmpty then ('$' :: rest.1, rest.2)
      else
        let value := (resolve (String.ofList name)).toList
        (value ++ rest.1, if value.isEmpty then rest.2 else rest.2 + 1)

/-- The rendered text and how many placeholders resolved to something. -/
def renderTemplateWithCount (template : String) (options : TemplateOptions) (resolve : ResolveVar) : String × Nat :=
  let rendered := renderChars options resolve template.toList.length template.toList
  (String.ofList rendered.1, rendered.2)

def renderTemplate (template : String) (options : TemplateOptions) (resolve : ResolveVar) : String :=
  (renderTemplateWithCount template options resolve).1

def renderApisixTemplate (template : String) (resolve : ResolveVar) : String := renderTemplate template {} resolve

/-- The key of a limiter; `remote_addr` when nothing of it is available. -/
def apisixKey (resolve : ResolveVar) (key : String) (varCombination : Bool) : String :=
  if varCombination then
    let rendered := renderTemplateWithCount key {} resolve
    if 0 < rendered.2 then rendered.1 else resolve "remote_addr"
  else
    let value := resolve (Text.trimStartMatches key '$')
    if value = "" then resolve "remote_addr" else value

end Pingsix
