import PipeTable.CommandLine.Invocation
import PipeTable.Config.Store
import PipeTable.Document.Formatting
import PipeTable.Document.Opening

/-! # The program

One run: arguments and environment in, exit status and texts out, with at most one document
written on the way. A document is written only if that was asked for, and what would be printed
without that is what is written with it.
-/

namespace PipeTable

/-- What a run leaves: its exit status, the text on standard output, and what it complains of. -/
structure Outcome where
  status : Nat
  output : String := ""
  complaint : Option String := none
deriving DecidableEq

namespace Outcome

def printed (s : String) : Outcome := ⟨0, s, none⟩

def failed (complaint : String) : Outcome := ⟨1, "", some complaint⟩

/-- There is no place to go. -/
def nowhere : Outcome := ⟨1, "", none⟩

end Outcome

namespace Program

open CommandLine (Action Invocation Move UsageError)

variable {m : Type → Type} [Monad m] [Storage m]

def versionText : String := "tablemode 0.1.0\n"

def usageText : String :=
  "Align and navigate plain-text tables\n\nUsage: tablemode [OPTIONS] <COMMAND>\n"

/-- Help and the version are answers, everything else is a misuse. -/
def usageOutcome : UsageError → Outcome
  | .version => .printed versionText
  | .help => .printed usageText
  | _ => ⟨2, "", none⟩

/-- Write a document to its file, or hand it to standard output. -/
def deliver (file : Path) (inPlace : Bool) (s : Text) : m Outcome := do
  let s := String.ofList s
  if inPlace then
    match ← Storage.writeText file s with
    | .ok () => return .printed ""
    | .error e =>
      return .failed (s!"Failed to write {String.ofList file}: " ++ e.message)
  else return .printed s

/-- A document after an edit, with its final line feed if it had one. -/
def editedText (s : Text) (e : Replacement) : Except Fault Text := do
  return Text.joinDocument (← e.apply (Text.lines s)) (Text.endsWithNewline s)

/-- The complaint about a fault in the tables themselves. -/
def faultOutcome (f : Fault) : Outcome := ⟨101, "", f.message⟩

/-- Realign the table of one line, counted from one. -/
def format (d : Dialect) (file : Path) (line : Nat) (inPlace : Bool) (s : Text) : m Outcome := do
  match Command.run .format {} d (Text.lines s) (Position.ofOneBased line 1) with
  | .error f => return faultOutcome f
  | .ok none =>
    return .failed s!"line {line} of {String.ofList file} is not inside a table"
  | .ok (some e) =>
    match editedText s e with
    | .error f => return faultOutcome f
    | .ok result => deliver file inPlace result

def formatAll (d : Dialect) (file : Path) (inPlace : Bool) (s : Text) : m Outcome := do
  match formatDocument d s with
  | .error f => return faultOutcome f
  | .ok result => deliver file inPlace result

def moveCommand : Move → Command
  | .nextCell => .nextCell
  | .previousCell => .previousCell
  | .nextRow => .nextRow

/-- Tell where a move leads, and write the document that it leaves if that is asked for. -/
def move (c : Config) (d : Dialect) (mv : Move) (file : Path) (p : Position) (inPlace : Bool)
    (s : Text) : m Outcome := do
  match (moveCommand mv).run c.commandOptions d (Text.lines s) p with
  | .error f => return faultOutcome f
  | .ok none => return .nowhere
  | .ok (some e) =>
    match e.cursor with
    | none => return .nowhere
    | some cursor =>
      let answer := Outcome.printed (cursor.display ++ "\n")
      if inPlace then
        match editedText s e with
        | .error f => return faultOutcome f
        | .ok result =>
          let written ← deliver file true result
          return if written.status = 0 then answer else written
      else return answer

/-- Open a document and work on its text. -/
def withDocument (file : Path) (work : Text → m Outcome) : m Outcome := do
  match ← Document.read file with
  | .error e => return .failed e.fullMessage
  | .ok s => work s.toList

def act (c : Config) (d : Dialect) : Action → m Outcome
  | .format file line inPlace => withDocument file (format d file line inPlace)
  | .formatAll file inPlace => withDocument file (formatAll d file inPlace)
  | .create rows cols => return .printed (String.ofList (createTable rows cols d []) ++ "\n")
  | .move mv file line column inPlace =>
    withDocument file (move c d mv file (Position.ofOneBased line column) inPlace)

/-- The settings of a run. A file that the user names has to be readable. -/
def settings (e : Environment) (i : Invocation) : m (Except String Config) := do
  match i.config with
  | none => return .ok (← Config.load e)
  | some p =>
    match ← Config.loadFrom p with
    | .ok c => return .ok c
    | .error err =>
      return .error
        (s!"Failed to load config {String.ofList p}: " ++ err.message ++ ": " ++ err.cause)

/-- One run of the program. The log directory is made first; without one the run goes on. -/
def run (e : Environment) (args : List Text) : m Outcome := do
  match CommandLine.parse args with
  | .error u => return usageOutcome u
  | .ok i =>
    let _ ← e.openLogDirectory
    match ← settings e i with
    | .error complaint => return .failed complaint
    | .ok c => act c (i.dialectFor c) i.action

end Program

end PipeTable
