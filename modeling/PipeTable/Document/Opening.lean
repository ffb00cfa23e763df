import PipeTable.Decimal.Rounding
import PipeTable.Storage.Basic

/-! # Opening documents

A document is a file of text of moderate size. What else a path may lead to is refused with the
name of the file; a zero byte near the start of a file marks it as no text.
-/

namespace PipeTable

inductive OpenError where
  | notFound (name : Text)
  | denied (name : Text)
  | directory (name : Text)
  | binary (name : Text)
  | tooLarge (name : Text) (size : Nat)
  | other (name : Text) (cause : FileError)
deriving DecidableEq

def megabyte : Nat := 1024 * 1024

namespace OpenError

def message : OpenError → String
  | notFound name => s!"file not found: {String.ofList name}"
  | denied name => s!"permission denied: {String.ofList name}"
  | directory name => s!"cannot open directory: {String.ofList name}"
  | binary name => s!"cannot open binary file: {String.ofList name}"
  | tooLarge name size =>
    String.ofList name ++ s!" is too large ({Decimal.onePlace size megabyte} MB, max 50 MB)"
  | other name e => s!"error opening {String.ofList name}: " ++ e.message

/-- The message with that of the failed operation behind it, if one failed. -/
def fullMessage (e : OpenError) : String :=
  match e with
  | other _ cause => e.message ++ ": " ++ cause.message
  | _ => e.message

end OpenError

namespace Document

/-- The name of a file in messages, empty for a path that ends in no name. -/
def displayName (p : Path) : Text := (Path.fileName p).getD []

def maxSize : Nat := 50 * megabyte

/-- A zero byte among the first bytes of a file tells that it is no text. -/
def probeLength : Nat := 8192

variable {m : Type → Type} [Monad m] [Storage m]

/-- Check that a path leads to a file of moderate size. -/
def check (p : Path) : m (Except OpenError Unit) := do
  let name := displayName p
  match ← Storage.status p with
  | .error .notFound => return .error (.notFound name)
  | .error .denied => return .error (.denied name)
  | .error e => return .error (.other name e)
  | .ok s =>
    if s.isDirectory then return .error (.directory name)
    else if maxSize < s.size then return .error (.tooLarge name s.size)
    else return .ok ()

/-- The file starts like a binary one. A file that cannot be read does not. -/
def looksBinary (p : Path) : m Bool := do
  match ← Storage.readStart p probeLength with
  | .ok bytes => return bytes.contains 0
  | .error _ => return false

def read (p : Path) : m (Except OpenError String) := do
  match ← check p with
  | .error e => return .error e
  | .ok () =>
    if ← looksBinary p then return .error (.binary (displayName p))
    else
      match ← Storage.readText p with
      | .error e => return .error (.other (displayName p) e)
      | .ok s => return .ok s

end Document

end PipeTable
