import PipeTable.Command.Run
import PipeTable.Yaml.Scalar

/-! # Configuration

The settings that a file can hold: the dialect of documents whose name does not tell it, and
whether moves past the end of a table append a row. They are written as two lines of YAML.
-/

namespace PipeTable

structure Config where
  dialect : Dialect := .markdown
  autoAddRow : Bool := true
deriving DecidableEq

namespace Config

def commandOptions (c : Config) : CommandOptions := ⟨c.autoAddRow⟩

def dialectField : String := "dialect"

def autoAddRowField : String := "auto_add_row"

def booleanText : Bool → String
  | true => "true"
  | false => "false"

def print (c : Config) : String :=
  s!"{dialectField}: {c.dialect.name}\n{autoAddRowField}: {booleanText c.autoAddRow}\n"

end Config

/-- What is wrong with a value of the file. -/
inductive ValueFault where
  | unknownVariant (name : String)
  | invalidType (found expected : String)
  | invalidValue (found expected : String)
  | duplicateField (name : String)
deriving DecidableEq

def ValueFault.message : ValueFault → String
  | unknownVariant name => s!"unknown variant `{name}`, expected `markdown` or `org`"
  | invalidType found expected => s!"invalid type: {found}, expected {expected}"
  | invalidValue found expected => s!"invalid value: {found}, expected {expected}"
  | duplicateField name => s!"duplicate field `{name}`"

/-- What is wrong with the text of a file. A fault of a value comes with the field that holds it,
if it is the fault of a field, and with its place. -/
inductive ConfigFault where
  | value (fault : ValueFault) (field : Option String) (place : Yaml.Mark)
  | malformed (fault : Yaml.SyntaxFault)
  | unknownAnchor (place : Yaml.Mark)
  | cutShort
  | severalDocuments
deriving DecidableEq

def ConfigFault.message : ConfigFault → String
  | value fault none place => fault.message ++ place.display
  | value fault (some field) place => field ++ ": " ++ fault.message ++ place.display
  | malformed fault => fault.message
  | unknownAnchor place => "unknown anchor" ++ place.display
  | cutShort => "EOF while parsing a value"
  | severalDocuments =>
    "deserializing from YAML containing more than one document is not supported"

end PipeTable
