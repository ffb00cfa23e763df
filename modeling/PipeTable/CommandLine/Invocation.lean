import PipeTable.CommandLine.Scan
import PipeTable.Config.Basic
import PipeTable.Document.Position

/-! # Invocations

What the arguments of the program ask for: one action, with the document that it works on, and
the settings that apply to every action. Options that apply to every action may stand before or
behind its name, and behind it they count more.
-/

namespace PipeTable.CommandLine

inductive Move where
  | nextCell
  | previousCell
  | nextRow
deriving DecidableEq

/-- Lines and columns are counted from one here. -/
inductive Action where
  | format (file : Path) (line : Nat) (inPlace : Bool)
  | formatAll (file : Path) (inPlace : Bool)
  | create (rows cols : Nat)
  | move (move : Move) (file : Path) (line column : Nat) (inPlace : Bool)
deriving DecidableEq

structure Invocation where
  dialect : Option Dialect
  config : Option Path
  verbosity : Nat
  action : Action
deriving DecidableEq

namespace Action

/-- The document that an action works on. -/
def file? : Action → Option Path
  | format file _ _ | formatAll file _ | move _ file _ _ _ => some file
  | create _ _ => none

def inPlace : Action → Bool
  | format _ _ b | formatAll _ b | move _ _ _ _ b => b
  | create _ _ => false

end Action

namespace Invocation

/-- The dialect of the document: the one that is asked for, else the one its name tells, else the
configured one. -/
def dialectFor (i : Invocation) (c : Config) : Dialect :=
  (i.dialect.or ((i.action.file?.bind Path.extension).bind Dialect.ofExtension?)).getD c.dialect

end Invocation

inductive Subcommand where
  | format
  | formatAll
  | create
  | move (move : Move)
deriving DecidableEq

namespace Subcommand

def all : List Subcommand :=
  [format, formatAll, create, move .nextCell, move .previousCell, move .nextRow]

def name : Subcommand → String
  | format => "format"
  | formatAll => "format-all"
  | create => "create"
  | move .nextCell => "next-cell"
  | move .previousCell => "prev-cell"
  | move .nextRow => "next-row"

def ofName? (name : Text) : Option Subcommand :=
  all.find? fun s => s.name.toList = name

/-- The options that every level knows. -/
def sharedOptions : List Opt := [.dialect, .config, .verbose, .help]

def level : Subcommand → Level
  | format => ⟨.line :: .inPlace :: sharedOptions, true, []⟩
  | formatAll => ⟨.inPlace :: sharedOptions, true, []⟩
  | create => ⟨.rows :: .cols :: sharedOptions, false, []⟩
  | move _ => ⟨.line :: .column :: .inPlace :: sharedOptions, true, []⟩

def required {α : Type} : Option α → Except UsageError α
  | some x => .ok x
  | none => .error .missingArgument

/-- The action that a subcommand with these settings stands for. -/
def action (sub : Subcommand) (s : Settings) : Except UsageError Action := do
  match sub with
  | format => return .format (← required s.file) (← required s.line) s.inPlace
  | formatAll => return .formatAll (← required s.file) s.inPlace
  | create => return .create (s.rows.getD 2) (s.cols.getD 2)
  | move m => return .move m (← required s.file) (← required s.line) (s.column.getD 1) s.inPlace

end Subcommand

def helpName : Text := "help".toList

def topLevel : Level :=
  ⟨.version :: Subcommand.sharedOptions, false,
    helpName :: Subcommand.all.map fun s => s.name.toList⟩

/-- `help` explains the program or one of its subcommands, which have none of their own. -/
def helpFor (topics : List Text) : UsageError :=
  match topics with
  | [] => .help
  | [topic] => if topLevel.subcommands.contains topic then .help else .unknownSubcommand
  | _ => .unknownSubcommand

/-- Read arguments with no subcommand among them. -/
def withoutSubcommand (p : Progress) : Except UsageError Invocation := do
  let p ← p.settle
  throw (if p.settings = {} then .nothingGiven else .missingSubcommand)

/-- Read the arguments of the program. Those of the subcommand are looked at before the last
value in front of it. -/
def parse (args : List Text) : Except UsageError Invocation := do
  let (outer, found) ← Progress.run topLevel args {}
  match found with
  | none => withoutSubcommand outer
  | some (name, rest) =>
    match Subcommand.ofName? name with
    | none => throw (helpFor rest)
    | some sub =>
      let (inner, _) ← Progress.run sub.level rest {}
      let inner ← inner.settle
      let action ← sub.action inner.settings
      let outer ← outer.settle
      return {
        dialect := inner.settings.dialect.or outer.settings.dialect
        config := inner.settings.config.or outer.settings.config
        verbosity := (inner.settings.verbosity.or outer.settings.verbosity).getD 0
        action }

end PipeTable.CommandLine
