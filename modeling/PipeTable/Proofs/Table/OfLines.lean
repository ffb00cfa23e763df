import Mathlib.Data.List.Induction
import PipeTable.Proofs.Table.Reading
import PipeTable.Proofs.Table.RoundTrip

/-! # The table of a list of lines

Reading goes line by line: columns come with the first line that needs them, a separator aligns
the columns there are by then, and rows read before are filled up behind. What comes out can be
said of the lines as a whole. The longest data line gives the number of columns, and of all the
separators that have anything to tell about a column the last one decides.
-/

namespace PipeTable.Table

open Text

def dataLines (d : Dialect) (ls : List Text) : List Text :=
  ls.filter fun l => !d.isSeparator l

/-- The largest number of cells of a data line. -/
def mostCells (d : Dialect) (ls : List Text) : Nat :=
  ((dataLines d ls).map fun l => (splitCells l).length).foldr max 0

/-- Where there are lines there is a column, even if they are all separators. -/
def columnsOf (d : Dialect) (ls : List Text) : Nat :=
  if ls = [] then 0 else max 1 (mostCells d ls)

/-- The row that a line is read as in a table of `n` columns. -/
def rowOf (d : Dialect) (n : Nat) (line : Text) : Row :=
  if d.isSeparator line then .separator
  else .data (splitCells line ++ List.replicate (n - (splitCells line).length) [])

/-- The display width of the widest cell `j` of a data line. A separator asks for three at
least. -/
def widthOf (d : Dialect) (ls : List Text) (j : Nat) : Nat :=
  max (((dataLines d ls).map fun l => displayWidth ((splitCells l).getD j [])).foldr max 0)
    (if ls.any d.isSeparator then 3 else 0)

/-- What a line tells of the alignment of column `j`, below the lines `before`. A separator aligns
the columns that there are by then: those of the data lines before it, the first one in any case. -/
def toldAlignment (before : List Text) (line : Text) (j : Nat) : Option Alignment :=
  if Dialect.markdown.isSeparator line ∧ j < max 1 (mostCells .markdown before) then
    (splitCells line)[j]?.bind cellAlignment
  else none

/-- What the lines tell of the alignment of column `j`, in order. -/
def toldAlignments (ls : List Text) (j : Nat) : List Alignment :=
  (List.range ls.length).filterMap fun i =>
    ls[i]?.bind fun line => toldAlignment (ls.take i) line j

/-- The alignment of column `j`, the last one that the lines tell. Rules in Org tell none. -/
def alignmentOf : Dialect → List Text → Nat → Alignment
  | .markdown, ls, j => (toldAlignments ls j).getLast?.getD .left
  | .org, _, _ => .left

/-- The table that the lines make. -/
def ofLines (d : Dialect) (ls : List Text) : Table where
  columns := (List.range (columnsOf d ls)).map fun j => ⟨alignmentOf d ls j, widthOf d ls j⟩
  rows := ls.map (rowOf d (columnsOf d ls))
  startLine := 0

variable {t : Table} {d : Dialect} {line : Text}

theorem mostCells_concat (d : Dialect) (ls : List Text) (line : Text) :
    mostCells d (ls ++ [line]) =
      max (mostCells d ls) (if d.isSeparator line then 0 else (splitCells line).length) := by
  by_cases hsep : d.isSeparator line
  · simp [mostCells, dataLines, hsep]
  · have hfold (ns : List Nat) (n : Nat) : (ns ++ [n]).foldr max 0 = max (ns.foldr max 0) n := by
      rw [List.foldr_append, List.foldr_cons, List.foldr_nil, Nat.max_comm n 0]
      exact List.foldr_assoc
    have hdata : [line].filter (fun l => !d.isSeparator l) = [line] := by simp [hsep]
    rw [mostCells, mostCells, dataLines, dataLines, List.filter_append, hdata, List.map_append,
      List.map_singleton, hfold, if_neg hsep]

theorem max_columnsOf_one (d : Dialect) (ls : List Text) :
    max (columnsOf d ls) 1 = max 1 (mostCells d ls) := by
  unfold columnsOf
  split
  · next hls => rw [hls]; rfl
  · omega

theorem columnsOf_concat (d : Dialect) (ls : List Text) (line : Text) :
    columnsOf d (ls ++ [line]) =
      max (columnsOf d ls) (if d.isSeparator line then 1 else (splitCells line).length) := by
  have hpos : 0 < (splitCells line).length := List.length_pos_iff.2 (splitCells_ne_nil line)
  have hone := max_columnsOf_one d ls
  rw [columnsOf, if_neg (List.concat_ne_nil _ _), mostCells_concat]
  split <;> omega

theorem toldAlignments_concat (ls : List Text) (line : Text) (j : Nat) :
    toldAlignments (ls ++ [line]) j =
      toldAlignments ls j ++ (toldAlignment ls line j).toList := by
  have hbefore : ((List.range ls.length).filterMap fun i =>
      (ls ++ [line])[i]?.bind fun l => toldAlignment ((ls ++ [line]).take i) l j) =
        toldAlignments ls j := by
    refine List.filterMap_congr fun i hi => ?_
    have hi := List.mem_range.1 hi
    rw [List.getElem?_append_left hi, List.take_append_of_le_length (Nat.le_of_lt hi)]
  rw [toldAlignments, List.length_append, List.length_singleton, List.range_succ,
    List.filterMap_append, hbefore]
  cases htold : toldAlignment ls line j <;> simp [htold]

/-- A later line has the last word on a column. -/
theorem alignmentOf_concat (ls : List Text) (line : Text) (j : Nat) :
    alignmentOf .markdown (ls ++ [line]) j =
      (toldAlignment ls line j).getD (alignmentOf .markdown ls j) := by
  rw [alignmentOf, alignmentOf, toldAlignments_concat]
  cases toldAlignment ls line j <;> simp

theorem alignmentOf_concat_data (ls : List Text) (hdata : ¬ d.isSeparator line) (j : Nat) :
    alignmentOf d (ls ++ [line]) j = alignmentOf d ls j := by
  cases d with
  | markdown =>
    rw [alignmentOf_concat, toldAlignment, if_neg fun h => hdata h.1]
    rfl
  | org => rfl

theorem colCount_addLine (t : Table) (d : Dialect) (line : Text) :
    (t.addLine d line).colCount =
      max t.colCount (if d.isSeparator line then 1 else (splitCells line).length) := by
  unfold addLine
  split
  · rw [← max_length_rowValues_nil, ← colCount_addRow t .separator]
    cases d with
    | markdown => exact colCount_alignAs _ _
    | org => rfl
  · rw [colCount_addRow, rowValues_of_ne_nil (splitCells_ne_nil line)]

theorem colCount_addLines (d : Dialect) (ls : List Text) :
    (ls.foldl (addLine d) empty).colCount = columnsOf d ls := by
  induction ls using List.reverseRecOn with
  | nil => rfl
  | append_singleton ls line ih => rw [List.foldl_concat, colCount_addLine, ih, columnsOf_concat]

/-- The alignment of column `j`; a column that is still to come will start out as left-aligned. -/
def alignmentAt (t : Table) (j : Nat) : Alignment := t.alignments.getD j .left

theorem alignmentAt_addRow (t : Table) (kind : RowKind) (values : List Text) (j : Nat) :
    (t.addRow kind values).alignmentAt j = t.alignmentAt j := by
  rw [alignmentAt, alignments_addRow, getD_append_replicate]
  rfl

theorem alignmentAt_alignAs (t : Table) (cells : List Text) (j : Nat) :
    (t.alignAs cells).alignmentAt j =
      if j < t.colCount then (cells[j]?.bind cellAlignment).getD (t.alignmentAt j)
      else t.alignmentAt j := by
  rw [alignmentAt, alignmentAt, alignments_alignAs, ← length_alignments,
    List.getD_eq_getElem?_getD, List.getD_eq_getElem?_getD, List.getElem?_mapIdx]
  by_cases hj : j < t.alignments.length
  · rw [if_pos hj, List.getElem?_eq_getElem hj]
    rfl
  · rw [if_neg hj, List.getElem?_eq_none (Nat.not_lt.1 hj)]
    rfl

theorem alignmentAt_addSeparator {ls : List Text} {j : Nat} (hsep : d.isSeparator line)
    (hcount : t.colCount = columnsOf d ls) (halign : t.alignmentAt j = alignmentOf d ls j) :
    (t.addSeparator d line).alignmentAt j = alignmentOf d (ls ++ [line]) j := by
  cases d with
  | markdown =>
    have hcols : (t.addRow .separator []).colCount = max 1 (mostCells .markdown ls) := by
      rw [colCount_addRow, max_length_rowValues_nil, hcount, max_columnsOf_one]
    rw [addSeparator, alignmentAt_alignAs, alignmentAt_addRow, halign, hcols, alignmentOf_concat,
      toldAlignment]
    by_cases hj : j < max 1 (mostCells .markdown ls)
    · rw [if_pos hj, if_pos ⟨hsep, hj⟩]
    · rw [if_neg hj, if_neg fun h => hj h.2]
      rfl
  | org =>
    rw [addSeparator, alignmentAt_addRow, halign]
    rfl

/-- At any time the columns are aligned as the lines so far tell. -/
theorem alignmentAt_addLines (d : Dialect) (ls : List Text) (j : Nat) :
    (ls.foldl (addLine d) empty).alignmentAt j = alignmentOf d ls j := by
  -- what a separator tells depends on the lines before it, so the last line is taken off
  induction ls using List.reverseRecOn with
  | nil => cases d <;> rfl
  | append_singleton ls line ih =>
    rw [List.foldl_concat, addLine]
    split
    · next hsep => exact alignmentAt_addSeparator hsep (colCount_addLines d ls) ih
    · next hdata => rw [alignmentAt_addRow, ih, alignmentOf_concat_data ls hdata]

theorem alignments_addLines (d : Dialect) (ls : List Text) :
    (ls.foldl (addLine d) empty).alignments =
      (List.range (columnsOf d ls)).map (alignmentOf d ls) := by
  rw [← colCount_addLines, ← length_alignments]
  apply List.ext_getElem
  · simp
  · intro j hj _
    rw [List.getElem_map, List.getElem_range, ← alignmentAt_addLines, alignmentAt,
      List.getD_eq_getElem _ _ hj]

theorem ReadAs.eq_rowOf {r : Row} {n : Nat} (h : ReadAs d line r)
    (hlen : ∀ cells, r = .data cells → cells.length = n) : r = rowOf d n line := by
  cases h with
  | separator hsep => rw [rowOf, if_pos hsep]
  | data hsep m =>
    have hfill := hlen _ rfl
    rw [List.length_append, List.length_replicate] at hfill
    rw [rowOf, if_neg (Bool.eq_false_iff.1 hsep), ← hfill, Nat.add_sub_cancel_left]

theorem eq_map_rowOf {n : Nat} {ls : List Text} {rows : List Row}
    (h : List.Forall₂ (ReadAs d) ls rows)
    (hrect : ∀ cells, Row.data cells ∈ rows → cells.length = n) :
    rows = ls.map (rowOf d n) := by
  induction h with
  | nil => rfl
  | cons hr _ ih =>
    obtain rfl := hr.eq_rowOf fun cells hcells => hrect cells (hcells ▸ List.mem_cons_self)
    rw [List.map_cons, ← ih fun cells hcells => hrect cells (List.mem_cons_of_mem _ hcells)]

theorem rows_addLines (d : Dialect) (ls : List Text) :
    (ls.foldl (addLine d) empty).rows = ls.map (rowOf d (columnsOf d ls)) := by
  have hempty : List.Forall₂ (ReadAs d) [] empty.rows := .nil
  rw [← colCount_addLines]
  exact eq_map_rowOf (readAs_addLines hempty ls) (wellFormed_empty.addLines d ls).rectangular

theorem cellWidth_rowOf (d : Dialect) (n : Nat) (line : Text) (j : Nat) :
    (rowOf d n line).cellWidth j =
      if d.isSeparator line then 0 else displayWidth ((splitCells line).getD j []) := by
  have hnil : displayWidth [] = 0 := rfl
  unfold rowOf
  split
  · rfl
  · rw [← getD_append_replicate, List.getD_eq_getElem?_getD, Row.cellWidth, Row.cells]
    cases (splitCells line ++ _)[j]? <;> simp [hnil]

theorem contentWidth_map_rowOf (d : Dialect) (n : Nat) (ls : List Text) (j : Nat) :
    contentWidth (ls.map (rowOf d n)) j =
      ((dataLines d ls).map fun l => displayWidth ((splitCells l).getD j [])).foldr max 0 := by
  induction ls with
  | nil => rfl
  | cons line ls ih =>
    rw [List.map_cons, contentWidth_cons, cellWidth_rowOf, ih]
    by_cases hsep : d.isSeparator line <;> simp [dataLines, hsep]

theorem any_isSeparator_map_rowOf (d : Dialect) (n : Nat) (ls : List Text) :
    (ls.map (rowOf d n)).any Row.isSeparator = ls.any d.isSeparator := by
  rw [List.any_map]
  congr 1
  funext line
  by_cases hsep : d.isSeparator line <;> simp [rowOf, hsep, Row.isSeparator]

theorem refit_addLines (d : Dialect) (ls : List Text) :
    (ls.foldl (addLine d) empty).refit = ofLines d ls := by
  rw [refit_eq, rows_addLines, alignments_addLines, startLine_addLines, ofLines, mk.injEq]
  refine ⟨?_, rfl, rfl⟩
  apply List.ext_getElem
  · simp
  · intro j _ _
    simp only [List.getElem_mapIdx, List.getElem_map, List.getElem_range, contentWidth_map_rowOf,
      any_isSeparator_map_rowOf, widthOf]

/-- Reading a text makes the table of its trimmed lines that start with a bar. -/
theorem parse_eq_ofLines (d : Dialect) {s : Text} (hs : s ≠ []) :
    parse d s = some (ofLines d (((lines s).map trim).filter fun l => l.head? = some '|')) := by
  have hlines : (((lines s).map trim).filter fun l => l.head? = some '|') = tableLines s := by
    refine List.filter_congr fun l _ => ?_
    rw [Bool.eq_iff_iff]
    simp [startsWithBar, bar]
  rw [hlines, parse_of_ne_nil hs, refit_addLines]

/-- A separator comes first and aligns the only column there is, prose is skipped, a data line is
still open, and the last separator takes the first column back without a word on the others. -/
theorem parse_eq_ofLines_ragged :
    ∃ ls, parse .markdown "  |:-:|--:|\nprose\n|a\n| b | 日本 |x|\n|-|:---:|\n|--:|".toList =
        some (ofLines .markdown ls) ∧
      ls = ["|:-:|--:|".toList, "|a".toList, "| b | 日本 |x|".toList, "|-|:---:|".toList,
        "|--:|".toList] ∧
      ofLines .markdown ls =
        { columns := [⟨.right, 3⟩, ⟨.center, 4⟩, ⟨.left, 3⟩]
          rows := [.separator, .data [['a'], [], []], .data [['b'], "日本".toList, ['x']],
            .separator, .separator]
          startLine := 0 } :=
  ⟨_, parse_eq_ofLines .markdown (List.cons_ne_nil _ _), by decide +kernel, by decide +kernel⟩

end PipeTable.Table
