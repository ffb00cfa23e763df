import PipeTable.Table.Reader

/-! # Table regions

A document is a list of lines, and its tables are the maximal runs of table lines. The run
around one line is found by looking outwards from it, all runs by one pass over the document.
-/

namespace PipeTable

/-- The lines from `startLine` to `endLine`, both included. -/
structure Region where
  startLine : Nat
  endLine : Nat
deriving DecidableEq

namespace Region

def lineCount (r : Region) : Nat := r.endLine + 1 - r.startLine

def contains (r : Region) (line : Nat) : Bool :=
  r.startLine ≤ line && line ≤ r.endLine

/-- The lines of a region; the document has to have all of them. -/
def linesOf (r : Region) (doc : List Text) : Except Fault (List Text) :=
  if r.endLine < doc.length ∧ r.startLine ≤ r.endLine + 1 then
    .ok ((doc.drop r.startLine).take r.lineCount)
  else .error .noSuchLines

def textOf (r : Region) (doc : List Text) : Except Fault Text := do
  return Text.joinLines (← r.linesOf doc)

/-- The number of table lines that a list of lines starts with. -/
def runLength (ls : List Text) : Nat :=
  (ls.takeWhile isTableLine).length

/-- The region around a table line, as far as table lines go in both directions. -/
def locate (doc : List Text) (line : Nat) : Option Region :=
  match doc[line]? with
  | none => none
  | some l =>
    if isTableLine l then
      some ⟨line - runLength (doc.take line).reverse, line + runLength (doc.drop (line + 1))⟩
    else none

/-- Put line `n` in front of the regions of the lines that follow it. -/
def prependLine (n : Nat) : List Region → List Region
  | [] => [⟨n, n⟩]
  | r :: rs => if r.startLine = n + 1 then ⟨n, r.endLine⟩ :: rs else ⟨n, n⟩ :: r :: rs

/-- The regions of the lines from line `n` on. -/
def regionsFrom (n : Nat) : List Text → List Region
  | [] => []
  | l :: ls =>
    if isTableLine l then prependLine n (regionsFrom (n + 1) ls) else regionsFrom (n + 1) ls

/-- All regions of a document, top to bottom. -/
def findAll (doc : List Text) : List Region :=
  regionsFrom 0 doc

end Region

end PipeTable
