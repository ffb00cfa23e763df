import PipeTable.Config.Reader
import PipeTable.Storage.Basic

/-! # Where configurations are kept

The program has a directory of its own below the user's configuration directory. Its settings
and its logs are there; a missing or unreadable file of settings means the usual settings, except
where the user names the file.
-/

namespace PipeTable

/-- The places that the user's environment gives. -/
structure Environment where
  configHome : Option Path
  home : Option Path
deriving DecidableEq

namespace Environment

def programName : Text := "tablemode".toList

/-- The program's directory: below the configuration directory if that is an absolute path, else
below the home directory. -/
def programDirectory (e : Environment) : Option Path :=
  let base :=
    match e.configHome.filter Path.isAbsolute with
    | some base => some base
    | none => e.home.map fun home => Path.join home ".config".toList
  base.map fun base => Path.join base programName

def configFile (e : Environment) : Option Path :=
  e.programDirectory.map fun dir => Path.join dir "config.yaml".toList

def logDirectory (e : Environment) : Option Path :=
  e.programDirectory.map fun dir => Path.join dir "logs".toList

end Environment

inductive ConfigError where
  | read (path : Path) (cause : FileError)
  | parse (path : Path) (cause : ConfigFault)
  | write (path : Path) (cause : FileError)
deriving DecidableEq

namespace ConfigError

def cause : ConfigError → String
  | read _ e | write _ e => e.message
  | parse _ e => e.message

def message : ConfigError → String
  | read p e => s!"failed to read config at {String.ofList p}: " ++ e.message
  | parse p e => s!"failed to parse config at {String.ofList p}: " ++ e.message
  | write p e => s!"failed to write config at {String.ofList p}: " ++ e.message

end ConfigError

/-- Why there is no log directory: no place for it is known, or it cannot be made. -/
inductive LogError where
  | noPlace
  | notMade (path : Path) (cause : FileError)
deriving DecidableEq

def LogError.message : LogError → String
  | noPlace => "no home or config directory"
  | notMade p cause => s!"cannot create {String.ofList p}: " ++ cause.message

namespace Config

variable {m : Type → Type} [Monad m] [Storage m]

def loadFrom (p : Path) : m (Except ConfigError Config) := do
  match ← Storage.readText p with
  | .error e => return .error (.read p e)
  | .ok s =>
    match parse s.toList with
    | .error e => return .error (.parse p e)
    | .ok c => return .ok c

/-- The settings of the user, the usual ones if they cannot be had. -/
def load (e : Environment) : m Config := do
  match e.configFile with
  | none => return {}
  | some p =>
    if ← Storage.isPresent p then
      match ← loadFrom p with
      | .ok c => return c
      | .error _ => return {}
    else return {}

def makeDirectoryOf (p : Path) : m (Except ConfigError Unit) := do
  match Path.parent p with
  | none => return .ok ()
  | some dir =>
    match ← Storage.createDirectories dir with
    | .ok () => return .ok ()
    | .error e => return .error (.write dir e)

/-- Write settings to a file, in a directory that is made if it is missing. -/
def saveTo (c : Config) (p : Path) : m (Except ConfigError Unit) := do
  match ← makeDirectoryOf p with
  | .error e => return .error e
  | .ok () =>
    match ← Storage.writeText p c.print with
    | .ok () => return .ok ()
    | .error e => return .error (.write p e)

end Config

/-- The log directory, made if it is missing. -/
def Environment.openLogDirectory {m : Type → Type} [Monad m] [Storage m] (e : Environment) :
    m (Except LogError Path) := do
  match e.logDirectory with
  | none => return .error .noPlace
  | some p =>
    match ← Storage.createDirectories p with
    | .ok () => return .ok p
    | .error cause => return .error (.notMade p cause)

end PipeTable
