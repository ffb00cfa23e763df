import PipeTable.Command.Run

/-! # Formatting documents

Formatting a document realigns each of its tables where it stands. Tables are replaced from
the last to the first, so the regions above keep their line numbers.
-/

namespace PipeTable

/-- Put the realigned table of one region of `doc` into `formatted`, where the lines up to the
end of the region are still those of `doc`. -/
def formatRegion (d : Dialect) (doc : List Text) (r : Region) (formatted : List Text) :
    Except Fault (List Text) := do
  match ← Command.run .format {} d doc ⟨r.startLine, 0⟩ with
  | none => return formatted
  | some e => e.apply formatted

/-- The lines of a document with all its tables realigned. -/
def formatLines (d : Dialect) (doc : List Text) : Except Fault (List Text) :=
  (Region.findAll doc).foldrM (formatRegion d doc) doc

/-- A text with all its tables realigned. It keeps its final line feed or the lack of one. -/
def formatDocument (d : Dialect) (s : Text) : Except Fault Text := do
  return Text.joinDocument (← formatLines d (Text.lines s)) (Text.endsWithNewline s)

end PipeTable
