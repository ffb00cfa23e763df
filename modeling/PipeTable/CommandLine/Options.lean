import PipeTable.Dialect
import PipeTable.Storage.Path

/-! # Options of the command line

The options that exist, their spellings, and the settings that they leave. An option is given at
most once, except the counted one, whose count stops at 255.
-/

namespace PipeTable.CommandLine

/-- Why arguments do not say what to do. The first three ask for help or the version, or say
nothing at all. -/
inductive UsageError where
  | help
  | version
  | nothingGiven
  | missingSubcommand
  | unknownSubcommand
  | unknownArgument
  | repeatedOption
  | unwantedValue
  | missingValue
  | badValue
  | missingArgument
deriving DecidableEq

inductive Opt where
  | dialect
  | config
  | verbose
  | help
  | version
  | line
  | column
  | rows
  | cols
  | inPlace
deriving DecidableEq

namespace Opt

def long : Opt → String
  | dialect => "dialect"
  | config => "config"
  | verbose => "verbose"
  | help => "help"
  | version => "version"
  | line => "line"
  | column => "column"
  | rows => "rows"
  | cols => "cols"
  | inPlace => "in-place"

def short : Opt → Option Char
  | dialect => some 'd'
  | verbose => some 'v'
  | help => some 'h'
  | version => some 'V'
  | inPlace => some 'i'
  | config | line | column | rows | cols => none

def takesValue : Opt → Bool
  | dialect | config | line | column | rows | cols => true
  | verbose | help | version | inPlace => false

def ofLong? (options : List Opt) (name : Text) : Option Opt :=
  options.find? fun o => o.long.toList = name

def ofShort? (options : List Opt) (c : Char) : Option Opt :=
  options.find? fun o => o.short = some c

end Opt

structure Settings where
  dialect : Option Dialect := none
  config : Option Path := none
  verbosity : Option Nat := none
  line : Option Nat := none
  column : Option Nat := none
  rows : Option Nat := none
  cols : Option Nat := none
  inPlace : Bool := false
  file : Option Path := none
deriving DecidableEq

/-- The largest number that an option takes. -/
def maxNumber : Nat := Nat.pow 2 64 - 1

def maxVerbosity : Nat := 255

/-- A number in decimal digits, perhaps behind a plus. -/
def number? (s : Text) : Option Nat :=
  let digits := if s.head? == some '+' then s.tail else s
  if digits.isEmpty || !digits.all Char.isDigit then none
  else
    let n := digits.foldl (fun n c => 10 * n + (c.toNat - '0'.toNat)) 0
    if n ≤ maxNumber then some n else none

/-- Store the value of an option that has none yet. -/
def store {α : Type} (old : Option α) (value : Except UsageError α) :
    Except UsageError (Option α) :=
  match old with
  | some _ => .error .repeatedOption
  | none => value.map some

def numberValue (s : Text) : Except UsageError Nat :=
  (number? s).elim (.error .badValue) .ok

/-- Paths in arguments are not empty. -/
def pathValue (s : Text) : Except UsageError Path :=
  if s.isEmpty then .error .missingValue else .ok s

def dialectValue (s : Text) : Except UsageError Dialect :=
  (Dialect.ofName? s).elim (.error .badValue) .ok

namespace Settings

def give (s : Settings) (o : Opt) (value : Text) : Except UsageError Settings := do
  match o with
  | .dialect => return { s with dialect := ← store s.dialect (dialectValue value) }
  | .config => return { s with config := ← store s.config (pathValue value) }
  | .line => return { s with line := ← store s.line (numberValue value) }
  | .column => return { s with column := ← store s.column (numberValue value) }
  | .rows => return { s with rows := ← store s.rows (numberValue value) }
  | .cols => return { s with cols := ← store s.cols (numberValue value) }
  | .verbose | .help | .version | .inPlace => throw .unwantedValue

def switch (s : Settings) (o : Opt) : Except UsageError Settings :=
  match o with
  | .verbose => .ok { s with verbosity := some (min maxVerbosity (s.verbosity.getD 0 + 1)) }
  | .inPlace => if s.inPlace then .error .repeatedOption else .ok { s with inPlace := true }
  | .help => .error .help
  | .version => .error .version
  | .dialect | .config | .line | .column | .rows | .cols => .error .missingValue

end Settings

end PipeTable.CommandLine
