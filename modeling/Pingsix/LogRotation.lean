import Pingsix.Lib.MachineInt
import Pingsix.Lib.Map
import Pingsix.Lib.Text
import Pingsix.Lib.Utf8

/-!
# Log rotation

`rotate_log_file` on the directory of the log file, a map from names to contents.
Every operation may fail with an error of its own, which then leaves the directory
as it was; which ones do is a parameter.
-/

namespace Pingsix.Logging

/-- A file name: text or, where it is not UTF-8, bytes. -/
inductive OsString where
  | text (s : String)
  | bytes (raw : ByteArray) (illFormed : String.fromUTF8? raw = none)
  deriving DecidableEq

def OsString.toStr : OsString → Option String
  | text s => some s
  | bytes .. => none

/-- The files of a directory, in the order in which they are listed. -/
abbrev Directory (α : Type) := HashMap OsString α

/-- The path of a log file, as `Path` splits it. -/
structure LogPath where
  parent : Option String
  fileName : Option String

inductive IoError where
  | notFound
  | invalidInput
  | other
  deriving DecidableEq, Repr

/-- An entry is named by the number of entries that are left. -/
inductive Operation where
  | readDir
  | nextEntry (left : Nat)
  | removeFile (name : OsString)
  | rename (source : String)
  deriving DecidableEq

abbrev Faults := Operation → Bool

abbrev Outcome (α : Type) := Except IoError Unit × Directory α

variable {α : Type}

def removeFile (faults : Faults) (name : OsString) (dir : Directory α) : Outcome α :=
  if faults (.removeFile name) then (.error .other, dir)
  else if dir.containsKey name then (.ok (), dir.erase name)
  else (.error .notFound, dir)

def rename (faults : Faults) (source target : String) (dir : Directory α) : Outcome α :=
  if faults (.rename source) then (.error .other, dir)
  else
    match dir.lookup (.text source) with
    | some contents => (.ok (), (dir.erase (.text source)).insert (.text target) contents)
    | none => (.error .notFound, dir)

def backup (name : String) (index : Nat) : String := name ++ "." ++ toString index

/-- A backup retained by an earlier, larger setting. -/
def isStale (name : String) (maxBackups : UInt32) (file : OsString) : Bool :=
  match file.toStr.bind (Text.stripPrefix · (name ++ ".")) with
  | some suffix => (Decimal.parse 32 suffix).any fun index => maxBackups.toNat < index
  | none => false

def removeStale (faults : Faults) (name : String) (maxBackups : UInt32) : List OsString → Directory α → Outcome α
  | [], dir => if faults (.nextEntry 0) then (.error .other, dir) else (.ok (), dir)
  | entry :: rest, dir =>
    if faults (.nextEntry (rest.length + 1)) then (.error .other, dir)
    else if isStale name maxBackups entry then
      match removeFile faults entry dir with
      | (.ok (), dir) => removeStale faults name maxBackups rest dir
      | failed => failed
    else removeStale faults name maxBackups rest dir

/-- From the index down; a backup that is missing is passed over. -/
def shiftBackups (faults : Faults) (name : String) : (index : Nat) → Directory α → Outcome α
  | 0, dir => (.ok (), dir)
  | index + 1, dir =>
    match rename faults (backup name (index + 1)) (backup name (index + 2)) dir with
    | (.ok (), dir) | (.error .notFound, dir) => shiftBackups faults name index dir
    | failed => failed

/-- The directory of a bare name is the empty path, which cannot be read. -/
def rotateLogFile (faults : Faults) (path : LogPath) (maxBackups : UInt32) (dir : Directory α) : Outcome α :=
  match path.fileName with
  | none => (.error .invalidInput, dir)
  | some name =>
    if faults .readDir then (.error .other, dir)
    else if path.parent.getD "." = "" then (.error .notFound, dir)
    else
      match removeStale faults name maxBackups dir.keys dir with
      | (.ok (), dir) =>
        if maxBackups = 0 then
          match removeFile faults (.text name) dir with
          | (.error .notFound, dir) => (.ok (), dir)
          | outcome => outcome
        else
          match shiftBackups faults name (maxBackups.toNat - 1) dir with
          | (.ok (), dir) => rename faults name (backup name 1) dir
          | failed => failed
      | failed => failed

end Pingsix.Logging
