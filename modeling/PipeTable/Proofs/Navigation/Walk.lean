import PipeTable.Proofs.Navigation.Moves

/-! # Walks over the cells

A move made again and again from where it led is a walk. Over the cells of a table a walk
forwards goes through the cells to the end of the table and a walk backwards through those to its
start, each once and past all separator rows. It may start anywhere: a first step from outside
the cells ends in some cell, and from there on each step is one to the neighbour.
-/

namespace PipeTable

/-- The walk from `p` goes through the positions `ps` one after the other and leads no further. -/
def WalksThrough (move : Position → Option Position) (p : Position) (ps : List Position) : Prop :=
  ∀ n, walk move n p = ps.take n

section Walk

variable {move : Position → Option Position} {p q : Position} {ps : List Position}

theorem WalksThrough.cons (hq : move p = some q) (h : WalksThrough move q ps) :
    WalksThrough move p (q :: ps) := by
  intro n
  cases n with
  | zero => rfl
  | succ n =>
    rw [walk, hq, List.take_succ_cons]
    exact congrArg (q :: ·) (h n)

end Walk

/-- The first position comes before the second one in the document. -/
def Position.Before (p q : Position) : Prop :=
  p.line < q.line ∨ p.line = q.line ∧ p.character < q.character

namespace CellMap

variable {place : Nat → Nat} {m : CellMap} {k : Nat} {p q : Position} {s : Stop}

/-- Where the cursor goes in the cells, one after the other. -/
def positions (m : CellMap) : List Position := m.cells.map Stop.position

end CellMap

end PipeTable
