import PipeTable.Text.Blank

/-! # Places in a YAML text

A cursor is the text that is still ahead and the place reached so far. Lines end at a carriage
return, a line feed, both together, or one of three Unicode line ends; a line end that is part
of a value is a line feed unless it is a line or paragraph separator.
-/

namespace PipeTable.Yaml

/-- Line, column and number of characters before a place, all counted from zero. -/
structure Mark where
  line : Nat := 0
  column : Nat := 0
  offset : Nat := 0
deriving DecidableEq

namespace Mark

def right (m : Mark) (n : Nat) : Mark :=
  { m with column := m.column + n, offset := m.offset + n }

/-- The start of the next line, behind a line end of `n` characters. -/
def down (m : Mark) (n : Nat) : Mark :=
  { line := m.line + 1, column := 0, offset := m.offset + n }

def isOrigin (m : Mark) : Bool := m.line == 0 && m.column == 0

/-- The place in words, counted from one; the start of the text is not worth mentioning. -/
def display (m : Mark) : String :=
  if m.isOrigin then "" else s!" at line {m.line + 1} column {m.column + 1}"

end Mark

/-- What is wrong with a text, where, and what was being read there. -/
structure SyntaxFault where
  problem : String
  place : Mark
  context : Option (String × Mark) := none
deriving DecidableEq

namespace SyntaxFault

def message (f : SyntaxFault) : String :=
  let problem := f.problem ++ f.place.display
  match f.context with
  | none => problem
  | some (what, m) =>
    let samePlace := m.line == f.place.line && m.column == f.place.column
    problem ++ ", " ++ what ++ if samePlace then "" else m.display

end SyntaxFault

def isBreak (c : Char) : Bool :=
  c == '\n' || c == '\r' || c == '\u0085' || c == '\u2028' || c == '\u2029'

def isGap (c : Char) : Bool := c == ' ' || c == '\t'

/-- Letters and digits of names. -/
def isNameChar (c : Char) : Bool := c.isAlphanum || c == '_' || c == '-'

/-- A line end as a value has it. -/
def breakChar (c : Char) : Char :=
  if c == '\u2028' || c == '\u2029' then c else '\n'

def admittedRanges : CodeRanges :=
  [(0x09, 0x0A), (0x0D, 0x0D), (0x20, 0x7E), (0x85, 0x85), (0xA0, 0xD7FF), (0xE000, 0xFEFE),
   (0xFF00, 0xFFFD), (0x10000, 0x10FFFF)]

/-- Control characters and the byte order mark have no place inside a text. -/
def isAdmitted (c : Char) : Bool := admittedRanges.contains c

structure Cursor where
  rest : Text
  mark : Mark := {}

namespace Cursor

def peek? (c : Cursor) (n : Nat) : Option Char := c.rest[n]?

def isAt (c : Cursor) (ch : Char) : Bool := c.rest.head? == some ch

/-- The character `n` places ahead is a blank, a line end, or past the end of the text. -/
def isOpen (c : Cursor) (n : Nat) : Bool :=
  (c.peek? n).all fun ch => isGap ch || isBreak ch

def atBreak (c : Cursor) : Bool := c.rest.head?.any isBreak

def atEnd (c : Cursor) : Bool := c.rest.isEmpty

def advance (c : Cursor) (n : Nat) : Cursor := ⟨c.rest.drop n, c.mark.right n⟩

/-- Go on behind the characters of a line that satisfy `p`. -/
def skipWhile (c : Cursor) (p : Char → Bool) : Cursor :=
  c.advance (c.rest.takeWhile p).length

def takeWhile (c : Cursor) (p : Char → Bool) : Text × Cursor :=
  (c.rest.takeWhile p, c.skipWhile p)

def takeBreak (c : Cursor) : Text × Cursor :=
  match c.rest with
  | '\r' :: '\n' :: rest => (['\n'], ⟨rest, c.mark.down 2⟩)
  | ch :: rest => if isBreak ch then ([breakChar ch], ⟨rest, c.mark.down 1⟩) else ([], c)
  | [] => ([], c)

/-- Three dashes or three dots alone at the start of a line. -/
def isAtMarker (c : Cursor) (ch : Char) : Bool :=
  c.mark.column == 0 && (List.replicate 3 ch).isPrefixOf c.rest && c.isOpen 3

def isAtDocumentMarker (c : Cursor) : Bool := c.isAtMarker '-' || c.isAtMarker '.'

end Cursor

end PipeTable.Yaml
