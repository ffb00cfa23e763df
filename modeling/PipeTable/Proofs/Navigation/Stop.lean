import PipeTable.Navigation.Moves
import PipeTable.Proofs.Navigation.Span
import PipeTable.Proofs.Table.WellFormed

/-! # The stops of a table

The stops of a table, whatever the lines they are taken from, come row by row and, in a row,
column by column, and no two of them share a position or an address. Their data cells are all
the cells that the table has.
-/

namespace PipeTable

/-- The addresses of the cells in a row of a table with `cols` columns. -/
def Row.addresses (cols row : Nat) : Row → List CellAddress
  | .data _ => (List.range cols).map fun col => ⟨row, col⟩
  | .separator => []

def Table.IsDataRow (t : Table) (row : Nat) : Prop :=
  ∃ cells, t.rows[row]? = some (.data cells)

theorem Table.separator_or_isDataRow {t : Table} {i : Nat} (h : i < t.rowCount) :
    t.rows[i]? = some .separator ∨ t.IsDataRow i := by
  have hr : t.rows[i]? = some t.rows[i] := List.getElem?_eq_getElem h
  cases hrow : t.rows[i] with
  | separator => exact .inl (hrow ▸ hr)
  | data cells => exact .inr ⟨cells, hrow ▸ hr⟩

/-- The addresses of all data cells of a table, row by row. -/
def Table.cellAddresses (t : Table) : List CellAddress :=
  (t.rows.mapIdx fun i r => r.addresses t.colCount i).flatten

theorem Table.mem_cellAddresses {t : Table} {a : CellAddress} :
    a ∈ t.cellAddresses ↔ (∃ cells, t.rows[a.row]? = some (.data cells)) ∧ a.col < t.colCount := by
  simp only [cellAddresses, List.mem_flatten, List.mem_mapIdx]
  constructor
  · rintro ⟨_, ⟨i, hi, rfl⟩, ha⟩
    cases hr : t.rows[i] with
    | separator => simp [hr, Row.addresses] at ha
    | data cells =>
      rw [hr, Row.addresses, List.mem_map] at ha
      obtain ⟨j, hj, rfl⟩ := ha
      exact ⟨⟨cells, hr ▸ List.getElem?_eq_getElem hi⟩, List.mem_range.1 hj⟩
  · rintro ⟨⟨cells, hr⟩, hcol⟩
    obtain ⟨hrow, hr⟩ := List.getElem?_eq_some_iff.1 hr
    refine ⟨_, ⟨a.row, hrow, rfl⟩, ?_⟩
    rw [hr, Row.addresses]
    exact List.mem_map.2 ⟨a.col, List.mem_range.2 hcol, rfl⟩

namespace Stop

section Row

variable {t : Table} {line i : Nat} {text : Option Text} {s : Stop}

/-- The spans of a data row. -/
def rowSpans (t : Table) (text : Option Text) (cells : List Text) : List Span :=
  Span.spans (text.getD []) (Span.bars (text.getD [])) 0
    (t.columns.mapIdx fun j c => writtenSize c (cells.getD j []))

theorem ofRow_data (cells : List Text) :
    ofRow t line i text (.data cells) = (rowSpans t text cells).mapIdx (ofSpan line i) := rfl

theorem length_rowSpans (cells : List Text) : (rowSpans t text cells).length = t.colCount := by
  rw [rowSpans, Span.length_spans, List.length_mapIdx, Table.colCount]

theorem rowSpans_ordered (cells : List Text) :
    (∀ s ∈ rowSpans t text cells, s.cellStart ≤ s.start ∧ s.start ≤ s.close) ∧
      (rowSpans t text cells).Pairwise fun s u => s.close < u.cellStart := by
  have hbars : ∀ b ∈ Span.bars (text.getD []), b < (text.getD []).length := by
    intro b hb
    have := (Span.bounds_of_mem_barsFrom hb).2
    omega
  obtain ⟨hbounds, hpair⟩ := Span.spans_ordered (Span.pairwise_barsFrom 0 (text.getD [])) hbars 0
    (t.columns.mapIdx fun j c => writtenSize c (cells.getD j []))
  exact ⟨fun s hs => (hbounds s hs).2, hpair⟩

theorem isChain_rowSpans (cells : List Text) :
    (rowSpans t text cells).IsChain fun s u => u.cellStart = s.close + 1 :=
  Span.isChain_spans _ _ _

/-- The first stop stands before the second one: in a row further up, or further left. -/
def Before (s u : Stop) : Prop :=
  s.row < u.row ∨ s.row = u.row ∧ s.col < u.col ∧ s.span.close < u.span.cellStart

theorem pairwise_ofRow (r : Row) : (ofRow t line i text r).Pairwise Before := by
  cases r with
  | separator => exact List.pairwise_singleton _ _
  | data cells =>
    rw [ofRow_data, List.pairwise_iff_getElem]
    intro j k hj hk hjk
    rw [List.length_mapIdx] at hj hk
    rw [List.getElem_mapIdx, List.getElem_mapIdx]
    exact .inr ⟨rfl, hjk, List.pairwise_iff_getElem.1 (rowSpans_ordered cells).2 j k hj hk hjk⟩

theorem eq_of_mem_ofRow {r : Row} (h : s ∈ ofRow t line i text r) :
    s.row = i ∧ s.line = line ∧ s.isSeparator = r.isSeparator ∧
      s.prev = none ∧ s.next = none := by
  cases r with
  | separator =>
    rw [List.mem_singleton.1 h]
    exact ⟨rfl, rfl, rfl, rfl, rfl⟩
  | data cells =>
    rw [ofRow_data] at h
    obtain ⟨j, hj, rfl⟩ := List.mem_mapIdx.1 h
    exact ⟨rfl, rfl, rfl, rfl, rfl⟩

theorem bounds_of_mem_ofRow {r : Row} (h : s ∈ ofRow t line i text r) :
    s.span.cellStart ≤ s.span.start ∧ s.span.start ≤ s.span.close := by
  cases r with
  | separator =>
    rw [List.mem_singleton.1 h]
    exact ⟨Nat.le_refl 0, Nat.zero_le 1⟩
  | data cells =>
    rw [ofRow_data] at h
    obtain ⟨j, hj, rfl⟩ := List.mem_mapIdx.1 h
    exact (rowSpans_ordered cells).1 _ (List.getElem_mem hj)

theorem map_address_ofRow (r : Row) :
    ((ofRow t line i text r).filter fun s => !s.isSeparator).map address =
      r.addresses t.colCount i := by
  cases r with
  | separator => rfl
  | data cells =>
    have hall : ((ofRow t line i text (.data cells)).filter fun s => !s.isSeparator) =
        ofRow t line i text (.data cells) := by
      rw [List.filter_eq_self]
      intro s hs
      rw [(eq_of_mem_ofRow hs).2.2.1]
      rfl
    rw [hall, ofRow_data]
    apply List.ext_getElem
    · simp [Row.addresses, length_rowSpans]
    · intro j _ _
      simp [Row.addresses, ofSpan, address]

end Row

section Table

variable {place : Nat → Nat} {t : Table} {lines : List Text} {s : Stop}

/-- The stop without its neighbours. -/
def core (s : Stop) : Stop := { s with prev := none, next := none }

theorem map_core_linked (stops : List Stop) : (linked stops).map core = stops.map core := by
  apply List.ext_getElem <;> simp [linked, core]

theorem map_core_ofTable (place : Nat → Nat) (t : Table) (lines : List Text) :
    (ofTable place t lines).map core =
      (t.rows.mapIdx fun i r => ofRow t (place i) i lines[i]? r).flatten := by
  rw [ofTable, map_core_linked]
  conv_rhs => rw [← List.map_id (List.flatten _)]
  apply List.map_congr_left
  intro s hs
  obtain ⟨_, hrow, hs⟩ := List.mem_flatten.1 hs
  obtain ⟨i, hi, rfl⟩ := List.mem_mapIdx.1 hrow
  obtain ⟨-, -, -, hprev, hnext⟩ := eq_of_mem_ofRow hs
  cases s with
  | mk line row col span isSeparator prev next =>
    obtain rfl : prev = none := hprev
    obtain rfl : next = none := hnext
    rfl

theorem exists_row_of_mem (h : s ∈ ofTable place t lines) :
    ∃ r, t.rows[s.row]? = some r ∧ s.core ∈ ofRow t (place s.row) s.row lines[s.row]? r := by
  have hcore : s.core ∈ (ofTable place t lines).map core := List.mem_map_of_mem h
  rw [map_core_ofTable] at hcore
  obtain ⟨_, hrow, hcore⟩ := List.mem_flatten.1 hcore
  obtain ⟨i, hi, rfl⟩ := List.mem_mapIdx.1 hrow
  obtain rfl : s.row = i := (eq_of_mem_ofRow hcore).1
  exact ⟨_, List.getElem?_eq_getElem hi, hcore⟩

theorem getElem?_rowSpans_of_mem (h : s ∈ ofTable place t lines) {cells : List Text}
    (hr : t.rows[s.row]? = some (.data cells)) :
    (rowSpans t lines[s.row]? cells)[s.col]? = some s.span := by
  obtain ⟨r, hr', hcore⟩ := exists_row_of_mem h
  obtain rfl : r = .data cells := Option.some.inj (hr'.symm.trans hr)
  rw [ofRow_data] at hcore
  obtain ⟨j, hj, hcore⟩ := List.mem_mapIdx.1 hcore
  obtain rfl : j = s.col := congrArg Stop.col hcore
  rw [List.getElem?_eq_getElem hj]
  exact congrArg some (congrArg Stop.span hcore)

theorem isSeparator_eq_of_mem (h : s ∈ ofTable place t lines) {r : Row}
    (hr : t.rows[s.row]? = some r) : s.isSeparator = r.isSeparator := by
  obtain ⟨r', hr', hcore⟩ := exists_row_of_mem h
  obtain rfl : r = r' := Option.some.inj (hr.symm.trans hr')
  exact (eq_of_mem_ofRow hcore).2.2.1

theorem exists_of_separator {row : Nat} (hr : t.rows[row]? = some .separator)
    (place : Nat → Nat) (lines : List Text) :
    ∃ s ∈ ofTable place t lines, s.row = row ∧ s.isSeparator = true := by
  obtain ⟨hlt, hr⟩ := List.getElem?_eq_some_iff.1 hr
  have hcore : placeholder (place row) row ∈ (ofTable place t lines).map core := by
    rw [map_core_ofTable, List.mem_flatten]
    refine ⟨_, List.mem_mapIdx.2 ⟨row, hlt, rfl⟩, ?_⟩
    rw [hr]
    exact List.mem_singleton.2 rfl
  obtain ⟨s, hs, hplace⟩ := List.mem_map.1 hcore
  exact ⟨s, hs, congrArg Stop.row hplace, congrArg Stop.isSeparator hplace⟩

theorem pairwise_ofTable (place : Nat → Nat) (t : Table) (lines : List Text) :
    (ofTable place t lines).Pairwise Before := by
  have hcore : ((ofTable place t lines).map core).Pairwise Before := by
    rw [map_core_ofTable, List.pairwise_flatten]
    constructor
    · intro l hl
      obtain ⟨i, hi, rfl⟩ := List.mem_mapIdx.1 hl
      exact pairwise_ofRow _
    · rw [List.pairwise_iff_getElem]
      intro i j hi hj hij s hs u hu
      rw [List.getElem_mapIdx] at hs hu
      left
      rwa [(eq_of_mem_ofRow hs).1, (eq_of_mem_ofRow hu).1]
  exact (List.pairwise_map (f := core)).1 hcore

theorem map_address_ofTable (place : Nat → Nat) (t : Table) (lines : List Text) :
    ((ofTable place t lines).filter fun s => !s.isSeparator).map address = t.cellAddresses := by
  have hcore : ((ofTable place t lines).filter fun s => !s.isSeparator).map address =
      (((ofTable place t lines).map core).filter fun s => !s.isSeparator).map address := by
    rw [List.filter_map, List.map_map]
    rfl
  rw [hcore, map_core_ofTable, List.filter_flatten, List.map_flatten, Table.cellAddresses]
  refine congrArg List.flatten (List.ext_getElem (by simp) fun i _ _ => ?_)
  simp only [List.getElem_map, List.getElem_mapIdx]
  exact map_address_ofRow _

end Table

end Stop

namespace CellMap

def cells (m : CellMap) : List Stop := m.stops.filter fun s => !s.isSeparator

/-- The stops stand in order, row `i` on line `place i` and no other row there, they hold the
starts of their contents, and a row has either data cells or a placeholder. -/
structure Ordered (place : Nat → Nat) (m : CellMap) : Prop where
  before : m.stops.Pairwise Stop.Before
  line : ∀ s ∈ m.stops, s.line = place s.row
  apart : ∀ s ∈ m.stops, ∀ u ∈ m.stops, s.line = u.line → s.row = u.row
  bounds : ∀ s ∈ m.stops, s.span.cellStart ≤ s.span.start ∧ s.span.start ≤ s.span.close
  kind : ∀ s ∈ m.stops, ∀ u ∈ m.stops, s.row = u.row → s.isSeparator = u.isSeparator

/-- Row `i` stands on line `place i`, the next one on the line `below`, and the first `bound` rows
stand on lines of their own. -/
structure Numbering (bound : Nat) (place below : Nat → Nat) : Prop where
  apart : ∀ i < bound, ∀ j < bound, place i = place j → i = j
  below_place : ∀ i, below (place i) = place (i + 1)

theorem Numbering.mono {place below : Nat → Nat} {bound count : Nat}
    (h : Numbering bound place below) (hle : count ≤ bound) : Numbering count place below where
  apart i hi j hj := h.apart i (Nat.lt_of_lt_of_le hi hle) j (Nat.lt_of_lt_of_le hj hle)
  below_place := h.below_place

theorem numbering_add (start bound : Nat) : Numbering bound (start + ·) (· + 1) where
  apart _ _ _ _ := Nat.add_left_cancel
  below_place _ := rfl

theorem numbering_lineAfter (start : Nat) :
    Numbering lineLimit (lineAfter start) (lineAfter · 1) where
  apart i hi j hj h := by
    unfold lineAfter lineLimit UInt64.size at *
    omega
  below_place i := lineAfter_lineAfter start i 1

theorem line_of_mem_placed {place : Nat → Nat} {t : Table} {lines : List Text} {s : Stop}
    (hs : s ∈ (placed place t lines).stops) : s.line = place s.row ∧ s.row < t.rowCount := by
  obtain ⟨r, hr, hcore⟩ := Stop.exists_row_of_mem hs
  exact ⟨(Stop.eq_of_mem_ofRow hcore).2.1, (List.getElem?_eq_some_iff.1 hr).1⟩

theorem Numbering.ordered_placed {place below : Nat → Nat} {t : Table} {bound : Nat}
    (h : Numbering bound place below) (hcount : t.rowCount ≤ bound) (lines : List Text) :
    (placed place t lines).Ordered place where
  before := Stop.pairwise_ofTable place t lines
  line s hs := (line_of_mem_placed hs).1
  apart s hs u hu hline := by
    obtain ⟨hplace, hlt⟩ := line_of_mem_placed hs
    obtain ⟨hplace', hlt'⟩ := line_of_mem_placed hu
    exact h.apart _ (Nat.lt_of_lt_of_le hlt hcount) _ (Nat.lt_of_lt_of_le hlt' hcount)
      (hplace.symm.trans (hline.trans hplace'))
  bounds s hs := by
    obtain ⟨r, -, hcore⟩ := Stop.exists_row_of_mem hs
    have hbounds := Stop.bounds_of_mem_ofRow hcore
    exact hbounds
  kind s hs u hu hrow := by
    obtain ⟨r, hr, -⟩ := Stop.exists_row_of_mem hs
    rw [Stop.isSeparator_eq_of_mem hs hr, Stop.isSeparator_eq_of_mem hu (hrow ▸ hr)]

theorem ordered_inDocument (t : Table) (lines : List Text) :
    (inDocument t lines).Ordered (t.startLine + ·) :=
  (numbering_add t.startLine t.rowCount).ordered_placed (Nat.le_refl _) lines

theorem ordered_ofTable {t : Table} (h : t.rowCount ≤ lineLimit) (lines : List Text) :
    (ofTable t lines).Ordered (lineAfter t.startLine) :=
  (numbering_lineAfter t.startLine).ordered_placed h lines

section Placed

variable {place : Nat → Nat} {t : Table} {lines : List Text} {s : Stop} {a : CellAddress}

theorem map_address_cells (place : Nat → Nat) (t : Table) (lines : List Text) :
    (placed place t lines).cells.map Stop.address = t.cellAddresses :=
  Stop.map_address_ofTable place t lines

theorem length_cells (place : Nat → Nat) (t : Table) (lines : List Text) :
    (placed place t lines).cells.length = t.cellAddresses.length := by
  rw [← map_address_cells place t lines, List.length_map]

theorem getElem?_cellAddresses {k : Nat} (h : (placed place t lines).cells[k]? = some s) :
    t.cellAddresses[k]? = some s.address := by
  rw [← map_address_cells place t lines, List.getElem?_map, h]
  rfl

theorem mem_cells {m : CellMap} {s : Stop} :
    s ∈ m.cells ↔ s ∈ m.stops ∧ s.isSeparator = false := by
  rw [cells, List.mem_filter, Bool.not_eq_true']

theorem address_mem_of_mem_cells (h : s ∈ (placed place t lines).cells) :
    s.address ∈ t.cellAddresses := by
  rw [← map_address_cells place t lines]
  exact List.mem_map_of_mem h

theorem exists_data_of_mem_cells (h : s ∈ (placed place t lines).cells) :
    ∃ cells, t.rows[s.row]? = some (.data cells) ∧ s.col < t.colCount := by
  obtain ⟨⟨cells, hr⟩, hcol⟩ := Table.mem_cellAddresses.1 (address_mem_of_mem_cells h)
  exact ⟨cells, hr, hcol⟩

theorem exists_of_mem_cellAddresses (h : a ∈ t.cellAddresses) (place : Nat → Nat)
    (lines : List Text) : ∃ s ∈ (placed place t lines).cells, s.address = a := by
  rw [← map_address_cells place t lines] at h
  exact List.mem_map.1 h

theorem exists_cell_inDocument (h : a ∈ t.cellAddresses) (lines : List Text) :
    ∃ s ∈ (inDocument t lines).cells, s.address = a :=
  exists_of_mem_cellAddresses h _ lines

theorem exists_cell_of_isDataRow {row : Nat} (ht : t.Shaped) (hrow : t.IsDataRow row)
    (place : Nat → Nat) (lines : List Text) :
    ∃ s ∈ (placed place t lines).cells, s.row = row := by
  obtain ⟨cells, hcells⟩ := hrow
  have hne := ht.columned (List.ne_nil_of_mem (List.mem_of_getElem? hcells))
  have hfirst : ⟨row, 0⟩ ∈ t.cellAddresses :=
    Table.mem_cellAddresses.2 ⟨⟨cells, hcells⟩, List.length_pos_iff.2 hne⟩
  obtain ⟨s, hs, haddress⟩ := exists_of_mem_cellAddresses hfirst place lines
  exact ⟨s, hs, congrArg CellAddress.row haddress⟩

end Placed

section Fits

variable {t : Table} {lines : List Text} {s u : Stop} (h : t.startLine + t.rowCount ≤ lineLimit)

include h

theorem lineAfter_eq_add {i : Nat} (hi : i < t.rowCount) :
    lineAfter t.startLine i = t.startLine + i :=
  lineAfter_of_lt (Nat.lt_of_lt_of_le (Nat.add_lt_add_left hi _) h)

theorem ofTable_eq_inDocument (lines : List Text) : ofTable t lines = inDocument t lines := by
  have hrows : (t.rows.mapIdx fun i r => Stop.ofRow t (lineAfter t.startLine i) i lines[i]? r) =
      t.rows.mapIdx fun i r => Stop.ofRow t (t.startLine + i) i lines[i]? r := by
    refine List.ext_getElem (by simp) fun i hi _ => ?_
    rw [List.length_mapIdx] at hi
    rw [List.getElem_mapIdx, List.getElem_mapIdx, lineAfter_eq_add h hi]
  rw [ofTable, inDocument, placed, placed, Stop.ofTable, Stop.ofTable, hrows]

end Fits

end CellMap

end PipeTable
