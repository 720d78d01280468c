/-!
# Errors

The error kinds the modelled code raises, with the texts it builds.
-/

namespace Pingsix

/-- A field error of the `validator` crate: where it was raised and its code. -/
structure FieldError where
  path : String
  code : String
  deriving DecidableEq, Repr

inductive ProxyError where
  | configuration (msg : String)
  | plugin (msg : String)
  | internal (msg : String)
  | pingora (msg : String)
  | validation (msg : String)
  | validationStructured (errors : List FieldError)
  | serialization (msg : String)
  | etcd (msg : String)
  | withCause (message cause : String)
  deriving DecidableEq, Repr

namespace ProxyError

def display : ProxyError → String
  | configuration msg => s!"Configuration error: {msg}"
  | plugin msg => s!"Plugin execution error: {msg}"
  | internal msg => s!"Internal error: {msg}"
  | pingora msg => s!"Pingora error: {msg}"
  | validation msg => s!"Validation error: {msg}"
  | validationStructured errors =>
    "Validation error: " ++ String.intercalate ", " (errors.map fun e => s!"{e.path}: {e.code}")
  | serialization msg => s!"Serialization error: {msg}"
  | etcd msg => s!"Etcd error: {msg}"
  | withCause message cause => s!"{message}: {cause}"

def serializationError (message cause : String) : ProxyError :=
  .withCause s!"Serialization error: {message}" cause

def validationError (message : String) : ProxyError := .validation message

end ProxyError

abbrev ProxyResult (α : Type) := Except ProxyError α

instance decidableEqExcept {ε α : Type} [DecidableEq ε] [DecidableEq α] : DecidableEq (Except ε α)
  | .error e, .error e' => if h : e = e' then isTrue (h ▸ rfl) else isFalse fun he => h (Except.error.inj he)
  | .ok a, .ok a' => if h : a = a' then isTrue (h ▸ rfl) else isFalse fun he => h (Except.ok.inj he)
  | .error _, .ok _ => isFalse nofun
  | .ok _, .error _ => isFalse nofun

end Pingsix
