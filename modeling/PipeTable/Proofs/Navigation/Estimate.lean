import Mathlib.Data.List.GetD
import PipeTable.Proofs.Navigation.Written

/-! # Estimated stops

Where the line of a row is not known, its cells are taken to be as long as they are when the row
is written. In the written table the bars stand just there, all of them moved to the right by the
indentation. So the stops that are estimated from a table alone and those that are found in its
written lines tell the same, whatever characters the cells are made of: the width of a column
covers all its cells and the padding is what a cell lacks of this width.
-/

namespace PipeTable

open Text

namespace Span

def shift (n : Nat) (s : Span) : Span := ⟨n + s.cellStart, n + s.start, n + s.close⟩

theorem barPlace_eq_add (pre : Text) (ps : List Text) (j : Nat) :
    barPlace pre ps j = pre.length + barPlace [] ps j := by
  rw [barPlace, barPlace, List.length_nil, Nat.zero_add]

theorem between_nil {opening closing : Nat} (h : opening + 1 < closing) :
    between [] opening closing = ⟨opening + 1, opening + 2, closing⟩ := by
  rw [between, List.drop_nil, mk.injEq]
  exact ⟨rfl, Nat.min_eq_left h, rfl⟩

theorem spans_nil {ps : List Text} (hps : ∀ p ∈ ps, p ≠ []) (opening : Nat) :
    spans [] [] opening (ps.map List.length) =
      (List.range ps.length).map fun j =>
        ⟨opening + barPlace [] ps j + 1, opening + barPlace [] ps j + 2,
          opening + barPlace [] ps (j + 1)⟩ := by
  induction ps generalizing opening with
  | nil => rfl
  | cons p ps ih =>
    obtain ⟨hp, hps⟩ := List.forall_mem_cons.1 hps
    have hpos : 0 < p.length := List.length_pos_iff.2 hp
    have hplace (j : Nat) : opening + barPlace [] (p :: ps) (j + 1) =
        opening + p.length + 1 + barPlace [] ps j := by
      simp only [barPlace, List.take_succ_cons, closedCells_cons, List.length_append,
        List.length_cons, List.length_nil]
      omega
    have hfirst : barPlace [] (p :: ps) 0 = 0 := rfl
    rw [List.map_cons, spans, List.length_cons, List.range_succ_eq_map, List.map_cons,
      List.map_map, hplace, hfirst]
    refine congrArg₂ _ ?_ ?_
    · exact between_nil (by simp; omega)
    · rw [List.tail_nil, ih hps]
      refine List.map_congr_left fun j _ => ?_
      simp only [Function.comp_apply, Nat.succ_eq_add_one, hplace]
      rfl

end Span

section Row

variable {t : Table} {d : Dialect} {indent : Text} {cells : List Text} {i n : Nat}

theorem Table.WellFormed.writtenSizes_eq (ht : t.WellFormed) (hlen : cells.length = t.colCount) :
    (t.columns.mapIdx fun j c => Stop.writtenSize c (cells.getD j [])) =
      (t.renderWidths.zipWith paddedCell cells).map List.length := by
  rw [ht.renderWidths_eq]
  apply List.ext_getElem
  · simp [hlen, colCount]
  · intro j hj _
    rw [List.length_mapIdx] at hj
    have hcell : j < cells.length := hlen.symm ▸ hj
    simp only [List.getElem_mapIdx, List.getElem_map, List.getElem_zipWith,
      List.getD_eq_getElem cells [] hcell, Stop.writtenSize, length_paddedCell]

theorem Stop.rowSpans_none (ht : t.WellFormed) (hlen : cells.length = t.colCount) :
    rowSpans t none cells =
      (List.range t.colCount).map fun j =>
        ⟨t.barOffset [] cells j + 1, t.barOffset [] cells j + 2,
          t.barOffset [] cells (j + 1)⟩ := by
  have hne : ∀ p ∈ t.renderWidths.zipWith paddedCell cells, p ≠ [] := by
    intro p hp
    obtain ⟨w, -, v, -, rfl⟩ := exists_of_mem_zipWith hp
    exact List.cons_ne_nil _ _
  have hspans := Span.spans_nil hne 0
  simp only [Nat.zero_add, Table.length_paddedCells hlen] at hspans
  rw [rowSpans, ht.writtenSizes_eq hlen]
  exact hspans

theorem Stop.rowSpans_written_eq (ht : t.WellFormed) (hlen : cells.length = t.colCount)
    (hindent : bar ∉ indent) (hcells : ∀ v ∈ cells, bar ∉ v) :
    rowSpans t (some (indent ++ t.rowText d (.data cells))) cells =
      (rowSpans t none cells).map (Span.shift indent.length) := by
  rw [rowSpans_written hindent hcells hlen, rowSpans_none ht hlen, List.map_map]
  refine List.map_congr_left fun j _ => ?_
  simp only [Table.barOffset, Function.comp_apply, Span.shift, Span.barPlace_eq_add indent,
    Nat.add_assoc]

namespace Stop

/-- The stop of a data cell with `n` more characters in front of it; a placeholder stays. -/
def shift (n : Nat) (s : Stop) : Stop :=
  if s.isSeparator then s else { s with span := s.span.shift n }

theorem shift_ofSpan (line row col : Nat) (span : Span) :
    (ofSpan line row col span).shift n = ofSpan line row col (span.shift n) := rfl

@[simp] theorem shift_zero (s : Stop) : s.shift 0 = s := by
  unfold shift
  split
  · rfl
  · simp [Span.shift]

theorem linked_map_shift (n : Nat) (stops : List Stop) :
    linked (stops.map (shift n)) = (linked stops).map (shift n) := by
  apply List.ext_getElem
  · simp [linked]
  · intro i _ _
    simp only [linked, shift, List.getElem_mapIdx, List.getElem_map, List.length_map]
    split <;> rfl

theorem ofSpans_map_shift (line row n : Nat) (spans : List Span) :
    (spans.map (Span.shift n)).mapIdx (ofSpan line row) =
      (spans.mapIdx (ofSpan line row)).map (shift n) := by
  apply List.ext_getElem
  · simp
  · intro j _ _
    simp only [List.getElem_mapIdx, List.getElem_map, shift_ofSpan]

theorem ofRow_written (ht : t.WellFormed) {line : Nat} {r : Row} (hr : r ∈ t.rows) (hindent : bar ∉ indent)
    (hcells : ∀ v ∈ r.cells, bar ∉ v) :
    ofRow t line i (some (indent ++ t.rowText d r)) r =
      (ofRow t line i none r).map (shift indent.length) := by
  cases r with
  | separator => rfl
  | data cells =>
    rw [ofRow_data, ofRow_data, rowSpans_written_eq ht (ht.rectangular cells hr) hindent hcells,
      ofSpans_map_shift]

end Stop

end Row

namespace CellMap

variable {place : Nat → Nat} {t : Table} {indent : Text}

theorem stops_written {d : Dialect} (ht : t.Reachable)
    (hplain : ∀ r ∈ t.rows, ∀ v ∈ r.cells, bar ∉ v ∧ '\n' ∉ v)
    (hbar : bar ∉ indent) (hline : '\n' ∉ indent) :
    (placed place t (lines (t.render d indent))).stops =
      (placed place t []).stops.map (Stop.shift indent.length) := by
  have hrows :
      (t.rows.mapIdx fun i r => Stop.ofRow t (place i) i (t.renderLines d indent)[i]? r) =
      (t.rows.mapIdx fun i r => Stop.ofRow t (place i) i none r).map
        (List.map (Stop.shift indent.length)) := by
    apply List.ext_getElem
    · simp
    · intro i hi _
      rw [List.length_mapIdx] at hi
      have hr : t.rows[i] ∈ t.rows := List.getElem_mem hi
      simp only [List.getElem_mapIdx, List.getElem_map, Table.renderLines, List.getElem?_map,
        List.getElem?_eq_getElem hi, Option.map_some]
      exact Stop.ofRow_written ht.wellFormed hr hbar fun v hv => (hplain _ hr v hv).1
  rw [Table.lines_render hline fun r hr v hv => (hplain r hr v hv).2]
  simp only [placed, Stop.ofTable, List.getElem?_nil]
  rw [hrows, ← List.map_flatten, Stop.linked_map_shift]

/-- The stops in the written lines of a table whose cells hold no marks of the layout are those
estimated from the table, each data cell moved to the right by the indentation; without
indentation there is no difference at all. This holds on whatever lines the rows stand. -/
theorem ofTable_lines_render (ht : t.Reachable) (place : Nat → Nat)
    (hcells : ∀ cells, .data cells ∈ t.rows → ∀ v ∈ cells, '|' ∉ v ∧ '\n' ∉ v) (d : Dialect)
    (indent : Text) (hbar : '|' ∉ indent) (hline : '\n' ∉ indent) :
    (placed place t (lines (t.render d indent))).stops =
        (placed place t []).stops.map (Stop.shift indent.length) ∧
      placed place t (lines (t.render d [])) = placed place t [] := by
  have hplain : ∀ r ∈ t.rows, ∀ v ∈ r.cells, bar ∉ v ∧ '\n' ∉ v := by
    intro r hr
    cases r with
    | data cells => exact hcells cells hr
    | separator => exact fun v hv => absurd hv List.not_mem_nil
  refine ⟨stops_written ht hplain hbar hline, ?_⟩
  have hstops : (placed place t (lines (t.render d []))).stops = _ :=
    stops_written ht hplain List.not_mem_nil List.not_mem_nil
  rw [List.length_nil, List.map_congr_left fun s _ => Stop.shift_zero s, List.map_id'] at hstops
  exact congrArg mk hstops

/-- A table with wide characters, quoted in prose. In the first row the bars stand closer together
than in the last one. -/
theorem ofTable_lines_render_wide :
    ∃ t, t.Reachable ∧ t.startLine = 4 ∧
      t.rows = [.data ["日本".toList, []], .separator, .data ["abc".toList, "d".toList]] ∧
      (ofTable t (lines (t.render .markdown ['>', ' ']))).stops =
        (ofTable t []).stops.map (Stop.shift 2) ∧
      ofTable t (lines (t.render .markdown [])) = ofTable t [] ∧
      (ofTable t []).stops.map Stop.span =
        [⟨1, 2, 5⟩, ⟨6, 7, 11⟩, ⟨0, 0, 1⟩, ⟨1, 2, 7⟩, ⟨8, 9, 13⟩] := by
  have ht : Table.Reachable _ := .startLine
    (.parse (d := .markdown) (s := "|日本\n|:-:|\n|abc|d".toList) rfl) 4
  have hcells : ∀ r ∈ [Row.data ["日本".toList, []], .separator,
      .data ["abc".toList, "d".toList]], ∀ v ∈ r.cells, '|' ∉ v ∧ '\n' ∉ v := by decide
  have hrender := ofTable_lines_render ht (lineAfter 4) (fun _ => hcells _) .markdown ['>', ' ']
    (by decide) (by decide)
  exact ⟨_, ht, rfl, rfl, hrender.1, hrender.2, by decide +kernel⟩

end CellMap

end PipeTable
