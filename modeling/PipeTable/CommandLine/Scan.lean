import PipeTable.CommandLine.Options

/-! # Going through arguments

Arguments are read from left to right. An option in an argument of its own waits for its value,
and a value is only looked at when the next option or file is met or the arguments end; so a
later argument that nobody knows is reported before an earlier bad value. Behind `--` every
argument is a file.
-/

namespace PipeTable.CommandLine

/-- What may stand among some arguments. -/
structure Level where
  options : List Opt
  takesFile : Bool
  subcommands : List Text

/-- An option or a file whose value was not looked at yet; an option may still lack it. -/
inductive Pending where
  | option (o : Opt) (value : Option Text)
  | file (value : Text)

structure Progress where
  settings : Settings := {}
  pending : Option Pending := none
  hasFile : Bool := false
  onlyFiles : Bool := false

namespace Progress

def settle (p : Progress) : Except UsageError Progress := do
  match p.pending with
  | none => return p
  | some (.option o value) =>
    match value with
    | none => throw .missingValue
    | some v => return { p with settings := ← p.settings.give o v, pending := none }
  | some (.file v) =>
    return { p with settings := { p.settings with file := some (← pathValue v) }, pending := none }

/-- The option that waits for its value. -/
def waiting? (p : Progress) : Option Opt :=
  match p.pending with
  | some (.option o none) => some o
  | _ => none

/-- An option with its value in the same argument, if it has one there. -/
def meet (p : Progress) (o : Opt) (value : Option Text) : Except UsageError Progress := do
  if o.takesValue then
    let p ← p.settle
    match value with
    | some v => return { p with settings := ← p.settings.give o v }
    | none => return { p with pending := some (.option o none) }
  else if value.isSome then throw .unwantedValue
  else
    let p ← p.settle
    return { p with settings := ← p.settings.switch o }

/-- An argument that starts with two dashes. -/
def long (p : Progress) (level : Level) (arg : Text) : Except UsageError Progress :=
  let name := arg.takeWhile (· != '=')
  let value := if name.length < arg.length then some (arg.drop (name.length + 1)) else none
  match Opt.ofLong? level.options name with
  | some o => p.meet o value
  | none => .error .unknownArgument

/-- The letters behind one dash. What follows the letter of an option that takes a value is the
value, perhaps behind an equals sign. -/
def short (level : Level) : Text → Progress → Except UsageError Progress
  | [], p => .ok p
  | c :: rest, p =>
    match Opt.ofShort? level.options c with
    | none => .error .unknownArgument
    | some o =>
      if o.takesValue then
        match rest with
        | [] => p.meet o none
        | '=' :: value => p.meet o (some value)
        | value => p.meet o (some value)
      else do short level rest (← p.meet o none)

/-- An argument that is neither an option nor the value of one. -/
def file (p : Progress) (level : Level) (arg : Text) : Except UsageError Progress := do
  if level.takesFile && !p.hasFile then
    let p ← p.settle
    return { p with pending := some (.file arg), hasFile := true }
  else if level.subcommands.isEmpty || (p.onlyFiles && level.subcommands.contains arg) then
    throw .unknownArgument
  else throw .unknownSubcommand

def step (p : Progress) (level : Level) (arg : Text) : Except UsageError Progress :=
  if p.onlyFiles then p.file level arg
  else
    match arg with
    | ['-', '-'] => .ok { p with onlyFiles := true }
    | '-' :: '-' :: name => p.long level name
    | '-' :: c :: letters => short level (c :: letters) p
    | _ =>
      match p.waiting? with
      | some o => .ok { p with pending := some (.option o (some arg)) }
      | none => p.file level arg

/-- The argument names a subcommand. -/
def isSubcommand (p : Progress) (level : Level) (arg : Text) : Bool :=
  !p.onlyFiles && p.waiting?.isNone && level.subcommands.contains arg

def run (level : Level) :
    List Text → Progress → Except UsageError (Progress × Option (Text × List Text))
  | [], p => .ok (p, none)
  | arg :: rest, p =>
    if p.isSubcommand level arg then .ok (p, some (arg, rest))
    else do run level rest (← p.step level arg)

end Progress

end PipeTable.CommandLine
