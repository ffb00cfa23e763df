import PipeTable.Text.Blank

/-! # Dialects

The two written forms of a table. They differ in the lines that count as separator rows, in
what such a line says about alignment, and in how a separator row is written.
-/

namespace PipeTable

inductive Dialect where
  | markdown
  | org
deriving DecidableEq

namespace Dialect

def name : Dialect → String
  | markdown => "markdown"
  | org => "org"

/-- The dialect that a name stands for, in any case; `md` is short for `markdown`. -/
def ofName? (name : Text) : Option Dialect :=
  let name := Text.lowerAscii name
  if name ∈ ["markdown".toList, "md".toList] then some markdown
  else if name = "org".toList then some org
  else none

/-- The dialect of files with the extension `ext`, in any case. -/
def ofExtension? (ext : Text) : Option Dialect :=
  let ext := Text.lowerAscii ext
  if ext ∈ ["md".toList, "markdown".toList, "mdown".toList, "mkd".toList] then some markdown
  else if ext = "org".toList then some org
  else none

/-- What is said of a name that stands for no dialect. -/
def unknownMessage (name : String) : String :=
  s!"unknown table dialect '{name}' (expected 'markdown' or 'org')"

end Dialect

end PipeTable
