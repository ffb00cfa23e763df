import PipeTable.Proofs.Navigation.Moves
import PipeTable.Proofs.Table.Invariant

/-! # Stops tile the rows

A table has its stops for every list of texts, also for texts that have nothing to do with it.
The bars that a text shows, its end and the bars that are only estimated give spans that leave
no gap and do not overlap. So a position has one stop at most, and the position of a data cell
leads back to the cell.
-/

namespace PipeTable

namespace Stop

end Stop

namespace CellMap

variable {place : Nat → Nat} {t : Table} {lines : List Text} {m : CellMap} {i j : Nat}
  {p : Position} {s u : Stop}

/-- The cells of a row share their bars: one begins behind the bar that closes the other. -/
theorem cellStart_eq_close_add_one (hs : s ∈ (placed place t lines).cells)
    (hu : u ∈ (placed place t lines).cells) (hrow : u.row = s.row) (hcol : u.col = s.col + 1) :
    u.span.cellStart = s.span.close + 1 := by
  obtain ⟨cells, hr, -⟩ := exists_data_of_mem_cells hs
  have hr' : t.rows[u.row]? = some (.data cells) := by rw [hrow, hr]
  have hspan := Stop.getElem?_rowSpans_of_mem (mem_cells.1 hs).1 hr
  have hspan' := Stop.getElem?_rowSpans_of_mem (mem_cells.1 hu).1 hr'
  rw [hrow, hcol] at hspan'
  obtain ⟨_, hspan⟩ := List.getElem?_eq_some_iff.1 hspan
  obtain ⟨hlt, hspan'⟩ := List.getElem?_eq_some_iff.1 hspan'
  rw [← hspan, ← hspan']
  exact (Stop.isChain_rowSpans cells).getElem s.col hlt

end CellMap

end PipeTable
