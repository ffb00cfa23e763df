import PipeTable.Program.Run

/-! # Command line

The file system of the machine as storage, and the run of the program on it. Everything that is
decided is decided in `Program.run`.
-/

namespace PipeTable.Machine

open System (FilePath)

/-- The number that the operating system gives an error. -/
def errorNumber : IO.Error → UInt32
  | .alreadyExists _ n _ | .otherError n _ | .resourceBusy n _ | .resourceVanished n _
  | .unsupportedOperation n _ | .hardwareFault n _ | .unsatisfiedConstraints n _
  | .illegalOperation n _ | .protocolError n _ | .timeExpired n _ | .interrupted _ n _
  | .noFileOrDirectory _ n _ | .invalidArgument _ n _ | .permissionDenied _ n _
  | .resourceExhausted _ n _ | .inappropriateType _ n _ | .noSuchThing _ n _ => n
  | .unexpectedEof | .userError _ => 0

/-- Some operations give the number with its sign changed. -/
def fileError (e : IO.Error) : FileError :=
  let n := errorNumber e
  match (if n.toNat < Nat.pow 2 31 then n else -n).toNat with
  | 2 => .notFound
  | 13 => .denied
  | 17 => .alreadyExists
  | 20 => .notDirectory
  | 21 => .isDirectory
  | 36 => .nameTooLong
  | _ => .other (toString e)

def attempt {α : Type} (action : IO α) : IO (Except FileError α) := do
  match ← action.toBaseIO with
  | .ok x => return .ok x
  | .error e => return .error (fileError e)

def status (p : FilePath) : IO FileStatus := do
  let found ← p.metadata
  let isDirectory := match found.type with
    | .dir => true
    | _ => false
  return ⟨isDirectory, found.byteSize.toNat⟩

def readStart (p : FilePath) (n : Nat) : IO (List UInt8) := do
  let handle ← IO.FS.Handle.mk p .read
  return (← handle.read n.toUSize).toList

instance : Storage IO where
  status p := attempt (status (String.ofList p))
  readStart p n := attempt (readStart (String.ofList p) n)
  readText p := do
    match ← attempt (IO.FS.readBinFile (String.ofList p)) with
    | .error e => return .error e
    | .ok bytes => return (String.fromUTF8? bytes).elim (.error .notText) .ok
  writeText p s := attempt (IO.FS.writeBinFile (String.ofList p) s.toUTF8)
  makeDirectory p := attempt (IO.FS.createDir (String.ofList p))

/-- The places that the environment variables give; an empty home is none. -/
def environment : IO Environment := do
  let home := (← IO.getEnv "HOME").filter fun s => !s.isEmpty
  return ⟨(← IO.getEnv "XDG_CONFIG_HOME").map String.toList, home.map String.toList⟩

end PipeTable.Machine

def main (args : List String) : IO UInt32 := do
  let environment ← PipeTable.Machine.environment
  let outcome : PipeTable.Outcome ← PipeTable.Program.run environment (args.map String.toList)
  IO.print outcome.output
  match outcome.complaint with
  | some complaint => IO.eprintln ("Error: " ++ complaint)
  | none => if outcome.status = 2 then IO.eprint PipeTable.Program.usageText
  return outcome.status.toUInt32
