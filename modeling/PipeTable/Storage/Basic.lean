import PipeTable.Storage.Path

/-! # Storage

What the program asks of a file system, and the failures it tells apart. Directories are
created from the outside in: a path whose parent is missing waits for its parent.
-/

namespace PipeTable

inductive FileError where
  | notFound
  | denied
  | alreadyExists
  | notDirectory
  | isDirectory
  | nameTooLong
  | nulInName
  | notText
  | noRoot
  | other (message : String)
deriving DecidableEq

namespace FileError

def message : FileError → String
  | notFound => "No such file or directory (os error 2)"
  | denied => "Permission denied (os error 13)"
  | alreadyExists => "File exists (os error 17)"
  | notDirectory => "Not a directory (os error 20)"
  | isDirectory => "Is a directory (os error 21)"
  | nameTooLong => "File name too long (os error 36)"
  | nulInName => "file name contained an unexpected NUL byte"
  | notText => "stream did not contain valid UTF-8"
  | noRoot => "failed to create whole tree"
  | other message => message

end FileError

structure FileStatus where
  isDirectory : Bool
  size : Nat
deriving DecidableEq

/-- Files and directories, reached by path. -/
class Storage (m : Type → Type) where
  status : Path → m (Except FileError FileStatus)
  /-- The first bytes of a file, as many as asked for if there are so many. -/
  readStart : Path → Nat → m (Except FileError (List UInt8))
  readText : Path → m (Except FileError String)
  writeText : Path → String → m (Except FileError Unit)
  makeDirectory : Path → m (Except FileError Unit)

namespace Storage

variable {m : Type → Type} [Monad m] [Storage m]

def isDirectory (p : Path) : m Bool := do
  match ← status p with
  | .ok s => return s.isDirectory
  | .error _ => return false

def isPresent (p : Path) : m Bool := do
  return (← status p).isOk

/-- An error does not matter where a directory already is. -/
def unlessDirectory (p : Path) (e : FileError) : m (Except FileError Unit) := do
  if ← isDirectory p then return .ok () else return .error e

/-- Create the first directory of a list, after the others if it needs them. -/
def createFirst : List Path → m (Except FileError Unit)
  | [] => return .error .noRoot
  | p :: parents => do
    if p.isEmpty then return .ok ()
    match ← makeDirectory p with
    | .ok () => return .ok ()
    | .error .notFound =>
      match ← createFirst parents with
      | .error e => return .error e
      | .ok () =>
        match ← makeDirectory p with
        | .ok () => return .ok ()
        | .error e => unlessDirectory p e
    | .error e => unlessDirectory p e

/-- Create a directory and all directories that it lies in, as far as they are missing. -/
def createDirectories (p : Path) : m (Except FileError Unit) :=
  createFirst (Path.withParents p)

end Storage

end PipeTable
