import PipeTable.Document.Region
import PipeTable.Document.Position

/-! # Replacements

The outcome of an edit: the lines of a region give way to the lines of a text, and the cursor
may get a new place. All other lines of the document stay as they are.
-/

namespace PipeTable

structure Replacement where
  region : Region
  text : Text
  cursor : Option Position
deriving DecidableEq

namespace Replacement

/-- The document with the region replaced. Kept are the lines before its start and those after
its end, also when it ends before it starts. -/
def apply (e : Replacement) (doc : List Text) : Except Fault (List Text) :=
  if e.region.startLine ≤ doc.length ∧ e.region.endLine + 1 ≤ doc.length then
    .ok (doc.take e.region.startLine ++ Text.lines e.text ++ doc.drop (e.region.endLine + 1))
  else .error .noSuchLines

end Replacement

end PipeTable
