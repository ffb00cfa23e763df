import PipeTable.Proofs.Command.Totality
import PipeTable.Proofs.Navigation.Tiling

/-! # Cursors outside the cells

The cells of a data row stand side by side, so a position on its line that no stop holds is left
of the first cell or right of the last one. Either way it belongs to the first cell of the row:
there is no cell to the right of it but the first one, or no cell at all. Left of the cells this
one is also the nearest. Right of them the nearest one is the last, so it is the first one only
where the row has no other. Commands work on the cell that the cursor belongs to, near or far.
-/

namespace PipeTable

/-- How far a character is from the cell, and 0 inside. -/
def Stop.distance (s : Stop) (character : Nat) : Nat :=
  if character < s.span.cellStart then s.span.cellStart - character else character - s.span.close

namespace CellMap

def Outside (m : CellMap) (p : Position) : Prop := ∀ s ∈ m.stops, s.isAt p = false

/-- No cell on the line of the position is closer to it. -/
structure IsNearest (m : CellMap) (p : Position) (s : Stop) : Prop where
  mem : s ∈ m.cells
  line : s.line = p.line
  least : ∀ u ∈ m.cells, u.line = p.line → s.distance p.character ≤ u.distance p.character

variable {t : Table} {lines : List Text} {m : CellMap} {place : Nat → Nat}
  {row : Nat} {p : Position}
  {s u first last : Stop}

theorem Outside.stopAt_eq_none (h : m.Outside p) : m.stopAt p = none :=
  List.find?_eq_none.2 fun s hs => by simp [h s hs]

theorem Outside.close_lt (h : m.Outside p) (hs : s ∈ m.cells) (hline : s.line = p.line)
    (hle : s.span.cellStart ≤ p.character) : s.span.close < p.character := by
  by_contra hclose
  have hat : s.isAt p = true := Stop.isAt_iff.2 ⟨hline, hle, Nat.le_of_not_lt hclose⟩
  rw [h s (mem_cells.1 hs).1] at hat
  cases hat

/-- The cell stands in column 0 of the line of the position. -/
structure IsFirst (m : CellMap) (p : Position) (s : Stop) : Prop where
  mem : s ∈ m.cells
  line : s.line = p.line
  col : s.col = 0

theorem Ordered.eq_or_close_lt (h : m.Ordered place) (hfirst : m.IsFirst p first)
    (hu : u ∈ m.cells) (hline : u.line = p.line) :
    u = first ∨ 0 < u.col ∧ first.span.close < u.span.cellStart := by
  have hmem := (mem_cells.1 hfirst.mem).1
  have hmem' := (mem_cells.1 hu).1
  have hrow := (h.row_eq_iff hmem hmem').1 (hfirst.line.trans hline.symm)
  have hcol := hfirst.col
  rcases h.eq_or_before hmem' hmem with heq | hbefore | hbefore
  · exact .inl heq
  · rcases hbefore with hlt | ⟨-, hlt, -⟩ <;> omega
  · rcases hbefore with hlt | ⟨-, hlt, hspan⟩
    · omega
    · exact .inr ⟨by omega, hspan⟩

theorem Ordered.head?_cellsOnLine (h : m.Ordered place) (hfirst : m.IsFirst p first) :
    (m.cellsOnLine p.line).head? = some first := by
  have hmem : first ∈ m.cellsOnLine p.line := mem_cellsOnLine.2 ⟨hfirst.mem, hfirst.line⟩
  have hpair : (m.cellsOnLine p.line).Pairwise Stop.Before := h.before.filter _
  obtain ⟨head, others, hall⟩ := List.exists_cons_of_ne_nil (List.ne_nil_of_mem hmem)
  rw [hall, List.pairwise_cons] at hpair
  rw [hall, List.mem_cons] at hmem
  rw [hall, List.head?_cons]
  rcases hmem with rfl | hmem
  · rfl
  · have hhead : head ∈ m.cellsOnLine p.line := hall ▸ List.mem_cons_self
    obtain ⟨hhead, hline⟩ := mem_cellsOnLine.1 hhead
    have hrow := (h.row_eq_iff (mem_cells.1 hhead).1 (mem_cells.1 hfirst.mem).1).1
      (hline.trans hfirst.line.symm)
    have hcol := hfirst.col
    rcases hpair.1 first hmem with hlt | ⟨-, hlt, -⟩ <;> omega

theorem Ordered.nearest_eq_first (h : m.Ordered place) (hfirst : m.IsFirst p first)
    (hside : p.character < first.span.cellStart ∨
      ∀ u ∈ m.cells, u.line = p.line → u.span.close < p.character) :
    m.nearest p = some first := by
  have hhead := h.head?_cellsOnLine hfirst
  rw [nearest]
  rcases hside with hlt | hgt
  · obtain ⟨others, hall⟩ := List.head?_eq_some_iff.1 hhead
    have hbounds := h.bounds first (mem_cells.1 hfirst.mem).1
    rw [hall, List.find?_cons_of_pos (by simp only [decide_eq_true_eq]; omega)]
    rfl
  · have hnone : (m.cellsOnLine p.line).find? (fun s => p.character < s.span.start) = none := by
      rw [List.find?_eq_none]
      intro u hu
      obtain ⟨hu, hline⟩ := mem_cellsOnLine.1 hu
      have hclose := hgt u hu hline
      have hbounds := h.bounds u (mem_cells.1 hu).1
      simp only [decide_eq_true_eq]
      omega
    rw [hnone, Option.none_or, hhead]

section OnRow

variable (h : (placed place t lines).Ordered place) (hline : p.line = place row) {cells : List Text}
  (hr : t.rows[row]? = some (.data cells))

include h hline hr

theorem Ordered.exists_cell_of_line {col : Nat} (hcol : col < t.colCount) :
    ∃ s ∈ (placed place t lines).cells, s.line = p.line ∧ s.address = ⟨row, col⟩ := by
  have ha : ⟨row, col⟩ ∈ t.cellAddresses := Table.mem_cellAddresses.2 ⟨⟨cells, hr⟩, hcol⟩
  obtain ⟨s, hs, hsa⟩ := exists_of_mem_cellAddresses ha place lines
  have hrow : s.row = row := congrArg CellAddress.row hsa
  exact ⟨s, hs, by rw [h.line s (mem_cells.1 hs).1, hrow, hline], hsa⟩

/-- Who is not left of the first cell and in no cell is right of every cell: by induction on the
column, since each cell begins right behind the bar that closes the one before. -/
theorem Ordered.close_lt_of_outside (hout : (placed place t lines).Outside p)
    (hfirst : (placed place t lines).IsFirst p first) (hle : first.span.cellStart ≤ p.character) :
    ∀ u ∈ (placed place t lines).cells, u.line = p.line → u.span.close < p.character := by
  suffices hcol : ∀ (col : Nat) (u : Stop), u ∈ (placed place t lines).cells →
      u.line = p.line → u.col = col → u.span.close < p.character from
    fun u hu huline => hcol u.col u hu huline rfl
  intro col
  induction col with
  | zero =>
    intro u hu huline hcol
    rcases h.eq_or_close_lt hfirst hu huline with rfl | ⟨hpos, -⟩
    · exact hout.close_lt hu huline hle
    · omega
  | succ col ih =>
    intro u hu huline hcol
    obtain ⟨_, -, hlt⟩ := exists_data_of_mem_cells hu
    obtain ⟨s, hs, hsline, hsa⟩ := h.exists_cell_of_line hline hr (Nat.lt_of_succ_lt (hcol ▸ hlt))
    have hscol : s.col = col := congrArg CellAddress.col hsa
    have hbehind := ih s hs hsline hscol
    have hrow := (h.row_eq_iff (mem_cells.1 hu).1 (mem_cells.1 hs).1).1 (huline.trans hsline.symm)
    have hadjoining := cellStart_eq_close_add_one hs hu hrow (by omega)
    exact hout.close_lt hu huline (by omega)

end OnRow

theorem Ordered.isNearest_first (h : m.Ordered place) (hfirst : m.IsFirst p first)
    (hlt : p.character < first.span.cellStart) : m.IsNearest p first where
  mem := hfirst.mem
  line := hfirst.line
  least u hu hline := by
    have hbounds := h.bounds first (mem_cells.1 hfirst.mem).1
    rcases h.eq_or_close_lt hfirst hu hline with rfl | ⟨-, hspan⟩
    · exact Nat.le_refl _
    · unfold Stop.distance
      split <;> split <;> omega

theorem Ordered.isNearest_first_iff (h : m.Ordered place) (hfirst : m.IsFirst p first)
    (hright : ∀ u ∈ m.cells, u.line = p.line → u.span.close < p.character) :
    m.IsNearest p first ↔ ∀ u ∈ m.cells, u.line = p.line → u = first := by
  have hdistance : ∀ u ∈ m.cells, u.line = p.line →
      u.distance p.character = p.character - u.span.close := by
    intro u hu hline
    have hbounds := h.bounds u (mem_cells.1 hu).1
    have hclose := hright u hu hline
    exact if_neg (by omega)
  constructor
  · intro hnear u hu hline
    rcases h.eq_or_close_lt hfirst hu hline with heq | ⟨-, hspan⟩
    · exact heq
    · have hleast := hnear.least u hu hline
      rw [hdistance u hu hline, hdistance first hfirst.mem hfirst.line] at hleast
      have hbounds := h.bounds u (mem_cells.1 hu).1
      have hclose := hright u hu hline
      omega
  · intro honly
    exact ⟨hfirst.mem, hfirst.line, fun u hu hline => by rw [honly u hu hline]⟩

/-- What a position outside the cells of row `row` belongs to: `first` and `last` are the cells at
the ends of the row. -/
structure Falls (m : CellMap) (cols row : Nat) (p : Position) (first last : Stop) : Prop where
  atStart : first ∈ m.cells ∧ first.address = ⟨row, 0⟩
  atEnd : last ∈ m.cells ∧ last.address = ⟨row, cols - 1⟩
  beside : p.character < first.span.cellStart ∨ last.span.close < p.character
  cellAt : m.stopAt p = none ∧ m.cellAt p = some ⟨row, 0⟩
  isNearest_iff : m.IsNearest p first ↔ p.character < first.span.cellStart ∨ cols = 1

theorem Ordered.exists_falls (h : (placed place t lines).Ordered place)
    (hline : p.line = place row) {cells : List Text} (hr : t.rows[row]? = some (.data cells))
    (hcols : 0 < t.colCount) (hout : (placed place t lines).Outside p) :
    ∃ first last, (placed place t lines).Falls t.colCount row p first last := by
  obtain ⟨first, hfirst, hfline, hfa⟩ := h.exists_cell_of_line hline hr hcols
  obtain ⟨last, hlast, hlline, hla⟩ :=
    h.exists_cell_of_line hline hr (Nat.sub_lt hcols Nat.one_pos)
  have hisFirst : (placed place t lines).IsFirst p first :=
    ⟨hfirst, hfline, congrArg CellAddress.col hfa⟩
  have hcellAt (hnear : (placed place t lines).nearest p = some first) :
      (placed place t lines).cellAt p = some ⟨row, 0⟩ := by
    rw [cellAt, hout.stopAt_eq_none, Option.none_or, hnear, ← hfa]
    exact if_neg (by simp [(mem_cells.1 hfirst).2])
  rcases Nat.lt_or_ge p.character first.span.cellStart with hlt | hge
  · exact ⟨first, last, ⟨hfirst, hfa⟩, ⟨hlast, hla⟩, .inl hlt,
      ⟨hout.stopAt_eq_none, hcellAt (h.nearest_eq_first hisFirst (.inl hlt))⟩,
      iff_of_true (h.isNearest_first hisFirst hlt) (.inl hlt)⟩
  · have hright := h.close_lt_of_outside hline hr hout hisFirst hge
    refine ⟨first, last, ⟨hfirst, hfa⟩, ⟨hlast, hla⟩, .inr (hright last hlast hlline),
      ⟨hout.stopAt_eq_none, hcellAt (h.nearest_eq_first hisFirst (.inr hright))⟩, ?_⟩
    rw [h.isNearest_first_iff hisFirst hright, or_iff_right (Nat.not_lt.2 hge)]
    constructor
    · intro honly
      have hcol : t.colCount - 1 = 0 := by
        have hsame := honly last hlast hlline ▸ hla
        exact (CellAddress.mk.inj (hsame.symm.trans hfa)).2
      omega
    · intro hone u hu huline
      obtain ⟨_, -, hlt⟩ := exists_data_of_mem_cells hu
      rcases h.eq_or_close_lt hisFirst hu huline with heq | ⟨hpos, -⟩
      · exact heq
      · omega

end CellMap

namespace Focus

variable {d : Dialect} {doc : List Text} {f : Focus} {p : Position} {row : Nat}
  {first last : Stop} {cells : List Text}

theorem reachable_of_load {line : Nat} (h : load d doc line = .ok (some f)) :
    f.table.Reachable := by
  obtain ⟨region, lines, t, -, -, ht, rfl⟩ := load_eq_ok_some_iff.1 h
  exact .startLine (.parse ht) region.startLine

theorem Regular.run_of_falls (h : f.Regular) (hload : load d doc p.line = .ok (some f))
    (hline : p.line = f.table.startLine + row) (hr : f.table.rows[row]? = some (.data cells))
    (hfalls : f.liveCells.Falls f.table.colCount row p first last) (command : Command)
    (options : CommandOptions) :
    command.run options d doc p =
      f.perform p (some (.beside ⟨row, 0⟩)) command options := by
  have hrow : f.rowAt p = .ok row := rowAt_of_line (h.startLine ▸ hline)
  apply Command.run_of_load hload
  unfold anchorAt
  rw [hrow]
  simp [bind, Except.bind, pure, Except.pure, hr, Row.isSeparator, hfalls.cellAt]

end Focus

/-- A cursor on the line of a data row but in none of its cells stands left of the first cell or
right of the last one, and belongs to the first cell of the row: to the nearest one if it stands on
the left or if the row has no other. Commands work on this cell, so one that clears a cell empties
it, and one that deletes a column takes the first column. -/
theorem cellAt_of_outside {t : Table} (ht : t.Reachable) {lines : List Text} {p : Position}
    {row : Nat} {cells : List Text} (hr : t.rows[row]? = some (.data cells)) :
    (t.rowCount ≤ lineLimit → p.line = lineAfter t.startLine row →
      (CellMap.ofTable t lines).Outside p →
      ∃ first last, (CellMap.ofTable t lines).Falls t.colCount row p first last) ∧
    (p.line = t.startLine + row → (CellMap.inDocument t lines).Outside p →
      ∃ first last, (CellMap.inDocument t lines).Falls t.colCount row p first last ∧
      ∀ (d : Dialect) (doc : List Text) (f : Focus), Focus.load d doc p.line = .ok (some f) →
        f.table = t → f.lines = lines →
        (∀ (command : Command) (options : CommandOptions), command.run options d doc p =
          f.perform p (some (.beside ⟨row, 0⟩)) command options) ∧
        (∀ options : CommandOptions, ∃ u, t.setCell row 0 [] = .ok u ∧
          Command.clearCell.run options d doc p =
            .ok (some ((f.withTable u).replaceAt ⟨row, 0⟩))) ∧
        (1 < t.colCount → ∀ options : CommandOptions, ∃ u, t.removeColumn 0 = .ok (some u) ∧
          Command.deleteColumn.run options d doc p =
            .ok (some ((f.withTable u).replaceAt ⟨row, 0⟩)))) := by
  have hwf := ht.wellFormed
  have hcols : 0 < t.colCount :=
    List.length_pos_iff.2 (hwf.columned (List.ne_nil_of_mem (List.mem_of_getElem? hr)))
  have hmem : ⟨row, 0⟩ ∈ t.cellAddresses := Table.mem_cellAddresses.2 ⟨⟨cells, hr⟩, hcols⟩
  refine ⟨fun hrows hline hout =>
    (CellMap.ordered_ofTable hrows lines).exists_falls hline hr hcols hout, fun hline hout => ?_⟩
  obtain ⟨first, last, hfalls⟩ :=
    (CellMap.ordered_inDocument t lines).exists_falls hline hr hcols hout
  refine ⟨first, last, hfalls, ?_⟩
  rintro d doc f hload rfl rfl
  have hrun := (Focus.regular_of_load hload).run_of_falls hload hline hr hfalls
  refine ⟨hrun, fun options => ?_, fun hone options => ?_⟩
  · obtain ⟨u, hu⟩ := hwf.exists_setCell hmem []
    have hclear : f.clearCell (some (.beside ⟨row, 0⟩)) =
        .ok (some ((f.withTable u).replaceAt ⟨row, 0⟩)) :=
      Focus.clearCell_eq_ok_some_iff.2 ⟨⟨row, 0⟩, u, rfl, hu, rfl⟩
    exact ⟨u, hu, (hrun .clearCell options).trans hclear⟩
  · obtain ⟨u, hu⟩ := hwf.exists_removeColumn hcols (by omega)
    have hdelete : f.deleteColumn (some (.beside ⟨row, 0⟩)) =
        .ok (some ((f.withTable u).replaceAt ⟨row, 0⟩)) := by
      refine Focus.deleteColumn_eq_ok_some_iff.2 ⟨⟨row, 0⟩, u, rfl, hu, ?_⟩
      rw [Nat.zero_min]
    exact ⟨u, hu, (hrun .deleteColumn options).trans hdelete⟩

/-- Behind an unfinished row of two cells the first column is deleted. -/
theorem cellAt_of_outside_unfinished :
    ∃ f u, Focus.load .org ["x".toList, "  |ab|c".toList] 1 = .ok (some f) ∧
      f.liveCells.Outside ⟨1, 9⟩ ∧ u.rows = [.data ["c".toList]] ∧
      Command.deleteColumn.run {} .org ["x".toList, "  |ab|c".toList] ⟨1, 9⟩ =
        .ok (some ((f.withTable u).replaceAt ⟨0, 0⟩)) := by
  obtain ⟨f, hload, hr, hline, hcols, hout, hremoved⟩ :
      ∃ f, Focus.load .org ["x".toList, "  |ab|c".toList] 1 = .ok (some f) ∧
        f.table.rows[0]? = some (.data ["ab".toList, "c".toList]) ∧
        1 = f.table.startLine + 0 ∧ 1 < f.table.colCount ∧ f.liveCells.Outside ⟨1, 9⟩ ∧
        ∃ u, f.table.removeColumn 0 = .ok (some u) ∧ u.rows = [.data ["c".toList]] :=
    ⟨_, rfl, rfl, rfl, by decide, by unfold CellMap.Outside; decide, _, rfl, rfl⟩
  obtain ⟨v, hv, hrows⟩ := hremoved
  obtain ⟨first, last, -, hcommands⟩ :=
    (cellAt_of_outside (Focus.reachable_of_load hload) hr).2 hline hout
  obtain ⟨-, -, hdelete⟩ := hcommands .org _ f hload rfl rfl
  obtain ⟨u, hu, hrun⟩ := hdelete hcols {}
  obtain rfl := Option.some.inj (Except.ok.inj (hu.symm.trans hv))
  exact ⟨f, u, hload, hout, hrows, hrun⟩

/-- In a row of two cells the end of the line is next to the second one, but belongs to the
first. -/
theorem cellAt_behind_row :
    ∃ t, Table.parse .markdown "| a | b |".toList = some t ∧ t.Reachable ∧
      t.rows[0]? = some (.data ["a".toList, "b".toList]) ∧
      (CellMap.inDocument t ["| a | b |".toList]).Outside ⟨0, 9⟩ ∧
      ¬ (∃ s, (CellMap.inDocument t ["| a | b |".toList]).IsNearest ⟨0, 9⟩ s ∧
        (CellMap.inDocument t ["| a | b |".toList]).cellAt ⟨0, 9⟩ = some s.address) ∧
      ∃ e, Command.clearCell.run {} .markdown ["| a | b |".toList] ⟨0, 9⟩ = .ok (some e) ∧
        e.text = "|  | b |".toList := by
  obtain ⟨t, ht, hr, hout, hcloser⟩ :
      ∃ t, Table.parse .markdown "| a | b |".toList = some t ∧
        t.rows[0]? = some (.data ["a".toList, "b".toList]) ∧
        (CellMap.inDocument t ["| a | b |".toList]).Outside ⟨0, 9⟩ ∧
        ∀ s ∈ (CellMap.inDocument t ["| a | b |".toList]).cells,
          (CellMap.inDocument t ["| a | b |".toList]).cellAt ⟨0, 9⟩ = some s.address →
          ∃ u ∈ (CellMap.inDocument t ["| a | b |".toList]).cells, u.line = 0 ∧
            u.distance 9 < s.distance 9 :=
    ⟨_, rfl, rfl, by unfold CellMap.Outside; decide, by decide⟩
  refine ⟨t, ht, .parse ht, hr, hout, ?_, _, rfl, rfl⟩
  rintro ⟨s, hnear, hcell⟩
  obtain ⟨u, hu, hline, hlt⟩ := hcloser s hnear.mem hcell
  exact Nat.not_le_of_lt hlt (hnear.least u hu hline)

end PipeTable
