import PipeTable.Proofs.Command.Anchor
import PipeTable.Proofs.Command.ColumnEdits
import PipeTable.Proofs.Command.RowEdits

/-! # What commands write

The table that a command writes is the one in focus with blanks in it, with its rows rearranged or
with its columns rearranged. Each of these leaves a well-formed table with rows, and cells that
can be told apart in their lines, even where the table does not come back from its text.
-/

namespace PipeTable

open Text

/-- The tables that some command may write in the place of `t`. -/
inductive Edited (t u : Table) : Prop
  | blanks (h : t.BlankEdit u)
  | rows {row : Nat} {command : Command} (h : RowEdit t row command u)
  | columns {col : Nat} {command : Command} (h : ColumnEdit t col command u)

namespace Edited

variable {t u : Table} {d : Dialect}

theorem wellFormed (h : Edited t u) (ht : t.WellFormed) : u.WellFormed := by
  cases h with
  | blanks h => exact h.wellFormed ht
  | rows h => exact h.wellFormed ht
  | columns h => exact h.wellFormed ht

theorem rows_ne_nil (h : Edited t u) (ht : t.WellFormed) (hrows : t.rows ≠ []) : u.rows ≠ [] := by
  cases h with
  | blanks h => exact h.rows_ne_nil (ht.columned hrows) hrows
  | rows h => exact h.rows_ne_nil
  | columns h =>
    have hlen : u.rows.length = t.rows.length := by
      simpa [Table.kinds] using congrArg List.length h.kinds_eq
    rw [← List.length_pos_iff] at hrows ⊢
    rwa [hlen]

theorem startLine_eq (h : Edited t u) (hne : t.columns ≠ []) : u.startLine = t.startLine := by
  cases h with
  | blanks h => exact h.startLine_eq hne
  | rows h =>
    obtain ⟨rows, rfl, -⟩ := h.exists_rearrangement
    rfl
  | columns h =>
    obtain ⟨columns, g, rfl, -⟩ := h.exists_rearrangement
    rfl

theorem cellTexts (h : Edited t u) (hne : t.columns ≠ []) (ht : t.Legible d) :
    ∀ cells, Row.data cells ∈ u.rows → ∀ v ∈ cells, CellText v := by
  cases h with
  | blanks h => exact (h.legible hne ht).cellTexts
  | rows h => exact fun cells hcells => ht.cellTexts cells (h.mem_rows hcells)
  | columns h => exact h.cellTexts ht.toRowsLegible

end Edited

namespace Focus

variable {f : Focus} {u : Table}

/-- The written table stands on lines of its own and can be cut into its cells there, whether or
not it comes back when it is read. -/
structure Tidy (f : Focus) : Prop extends Regular f where
  cellTexts : ∀ cells, Row.data cells ∈ f.table.rows → ∀ v ∈ cells, CellText v
  newline : '\n' ∉ f.indent

theorem Tidy.printable (h : f.Tidy) : f.Printable :=
  ⟨h.rows_ne_nil, h.newline, Table.newline_not_mem_cells h.cellTexts⟩

theorem Regular.edited (h : f.Regular) (hu : Edited f.table u) : (f.withTable u).Regular where
  wellFormed := hu.wellFormed h.wellFormed
  rows_ne_nil := hu.rows_ne_nil h.wellFormed h.rows_ne_nil
  startLine := (hu.startLine_eq h.columns_ne_nil).trans h.startLine

theorem Sound.edited (h : f.Sound) (hu : Edited f.table u) : (f.withTable u).Tidy where
  toRegular := h.regular.edited hu
  cellTexts := hu.cellTexts h.columns_ne_nil h.legible
  newline := h.newline

end Focus

end PipeTable
