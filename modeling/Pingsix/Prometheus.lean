import Pingsix.Lib.AnchoredScan
import Pingsix.Lib.Map

/-!
# Path labels of metrics

The prometheus plugin's labels for request paths: three substitutions one after
another, a limit on the segments, one on the length and one on the number of
labels. The class of decimal digits is that of the regular expressions.
-/

namespace Pingsix.Prometheus

open AnchoredScan

/-- The decimal digits of all scripts; those below 128 are the ASCII ones. -/
structure DigitClass where
  isDigit : Char → Bool
  ascii : ∀ c : Char, c.toNat < 128 → isDigit c = c.isDigit

def isHexDigit (c : Char) : Bool := c.isDigit || ('a' ≤ c && c ≤ 'f') || ('A' ≤ c && c ≤ 'F')

/-! ## The patterns -/

/-- `/\d+` behind the slash. -/
def numericIdRegex (digits : DigitClass) : Pattern Char := atLeast 1 digits.isDigit

/-- The classes of `[0-9a-fA-F]{8}-[0-9a-fA-F]{4}-[0-9a-fA-F]{4}-[0-9a-fA-F]{4}-[0-9a-fA-F]{12}`. -/
def uuidClasses : List (Char → Bool) :=
  [fun c => decide (c = '-')].intercalate ([8, 4, 4, 4, 12].map fun n => List.replicate n isHexDigit)

def uuidRegex : Pattern Char := inTurn uuidClasses

/-- `/[0-9a-fA-F]{32,}` behind the slash. -/
def hashRegex : Pattern Char := atLeast 32 isHexDigit

def idText : List Char := "\x7bid\x7d".toList

def uuidText : List Char := "\x7buuid\x7d".toList

def hashText : List Char := "\x7bhash\x7d".toList

/-- The three substitutions, each on the text that the one before it left. -/
def replaceIds (digits : DigitClass) (path : List Char) : List Char :=
  let path := replaceAll '/' (numericIdRegex digits) idText path
  let path := replaceAll '/' uuidRegex uuidText path
  replaceAll '/' hashRegex hashText path

/-! ## The limits -/

/-- The slashes counted up to the eighth, and where the seventh stands. -/
def countSegments : (index count : Nat) → Option Nat → List Char → Nat × Option Nat
  | _, count, truncateAt, [] => (count, truncateAt)
  | index, count, truncateAt, c :: cs =>
    if c = '/' then
      if count + 1 = 7 then countSegments (index + 1) (count + 1) (some index) cs
      else if count + 1 = 8 then (count + 1, truncateAt)
      else countSegments (index + 1) (count + 1) truncateAt cs
    else countSegments (index + 1) count truncateAt cs

def limitSegments (path : List Char) : List Char :=
  match countSegments 0 0 none path with
  | (count, some index) => if 8 ≤ count then path.take index ++ "/...".toList else path
  | (_, none) => path

structure PrometheusConfig where
  maxLabelLength : Nat
  maxUniquePaths : Nat
  deriving DecidableEq, Repr

/-- The byte index of each character. -/
def charIndices : Nat → List Char → List Nat
  | _, [] => []
  | index, c :: cs => index :: charIndices (index + c.utf8Size) cs

/-- The characters before a byte index. -/
def takeBytes : Nat → List Char → List Char
  | _, [] => []
  | bytes, c :: cs => if c.utf8Size ≤ bytes then c :: takeBytes (bytes - c.utf8Size) cs else []

def limitLength (config : PrometheusConfig) (path : List Char) : List Char :=
  if config.maxLabelLength < (path.map (·.utf8Size)).sum then
    let truncateAt := (((charIndices 0 path).takeWhile (· ≤ config.maxLabelLength - 3)).getLast?).getD 0
    takeBytes truncateAt path ++ "...".toList
  else path

abbrev SeenPaths := HashMap (List Char) Unit

/-- The label of a path, which is recorded while there is room. -/
def limitPathLabel (config : PrometheusConfig) (seenPaths : SeenPaths) (path : List Char) : List Char × SeenPaths :=
  let normalized := limitLength config path
  if seenPaths.containsKey normalized then (normalized, seenPaths)
  else if config.maxUniquePaths ≤ seenPaths.entries.length then ("/...".toList, seenPaths)
  else (normalized, seenPaths.insert normalized ())

def normalizePath (digits : DigitClass) (config : PrometheusConfig) (seenPaths : SeenPaths) (path : List Char) :
    List Char × SeenPaths :=
  limitPathLabel config seenPaths (limitSegments (replaceIds digits path))

/-- What labels of other paths, from requests or templates, have recorded afterwards. -/
def recordAll (config : PrometheusConfig) (seenPaths : SeenPaths) (paths : List (List Char)) : SeenPaths :=
  paths.foldl (fun seenPaths path => (limitPathLabel config seenPaths path).2) seenPaths

end Pingsix.Prometheus
