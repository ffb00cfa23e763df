/-! # Positions

A position is a line and a character of a document, both counted from zero. People read and
write positions counted from one. The numbers of lines are words of 64 bits: behind the last one
they begin again with 0.
-/

namespace PipeTable

def lineLimit : Nat := UInt64.size

/-- The line that is `count` lines below `line`. -/
def lineAfter (line count : Nat) : Nat := (line + count) % lineLimit

theorem lineAfter_lineAfter (line i j : Nat) :
    lineAfter (lineAfter line i) j = lineAfter line (i + j) := by
  rw [lineAfter, lineAfter, lineAfter, Nat.mod_add_mod, Nat.add_assoc]

theorem lineAfter_of_lt {line count : Nat} (h : line + count < lineLimit) :
    lineAfter line count = line + count := Nat.mod_eq_of_lt h

structure Position where
  line : Nat
  character : Nat
deriving DecidableEq

/-- A place in a table, both parts counted from zero. -/
structure CellAddress where
  row : Nat
  col : Nat
deriving DecidableEq

namespace Position

/-- The position that line and column counted from one stand for; zero counts as one. -/
def ofOneBased (line column : Nat) : Position :=
  ⟨line - 1, column - 1⟩

/-- The position counted from one, as `line:column`. -/
def display (p : Position) : String :=
  s!"{p.line + 1}:{p.character + 1}"

end Position

end PipeTable
