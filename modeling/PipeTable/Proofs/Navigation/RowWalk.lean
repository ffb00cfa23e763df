import PipeTable.Proofs.Navigation.Walk
import PipeTable.Proofs.Table.Invariant

/-! # Walks down the rows

A move to the next row leads to the first data row below, and there to some cell; which one is a
matter of the texts of the rows, but that there is one is not. So a walk down the rows comes to
each data row below the place where it begins, in order and once, and ends behind the last one.
It has to begin on the line before the table or further down: from above, the next line is not
one of the table, and the move leads nowhere. All this is counted in rows first, from the row on
the line below, and then in lines as far as they have numbers.
-/

namespace PipeTable

namespace Table

variable {t : Table} {line row k i : Nat} {rows : List Nat}

def dataRowsFrom (t : Table) (k : Nat) : List Nat :=
  (List.range t.rowCount).filter fun i => k ≤ i && (t.rows[i]?).any fun r => !r.isSeparator

theorem mem_dataRowsFrom : i ∈ t.dataRowsFrom k ↔ t.IsDataRow i ∧ k ≤ i := by
  rw [dataRowsFrom, List.mem_filter, List.mem_range, Bool.and_eq_true, decide_eq_true_eq]
  constructor
  · rintro ⟨hi, hle, hdata⟩
    rcases separator_or_isDataRow hi with hrule | hrow
    · simp [hrule, Row.isSeparator] at hdata
    · exact ⟨hrow, hle⟩
  · rintro ⟨⟨cells, hr⟩, hle⟩
    exact ⟨(List.getElem?_eq_some_iff.1 hr).1, hle, by simp [hr, Row.isSeparator]⟩

theorem pairwise_dataRowsFrom (t : Table) (k : Nat) : (t.dataRowsFrom k).Pairwise (· < ·) :=
  List.pairwise_lt_range.filter _

theorem le_of_dataRowsFrom (h : t.dataRowsFrom k = row :: rows) (hi : t.IsDataRow i)
    (hle : k ≤ i) : row ≤ i := by
  have hmem : i ∈ row :: rows := h ▸ mem_dataRowsFrom.2 ⟨hi, hle⟩
  have hpair := h ▸ pairwise_dataRowsFrom t k
  rcases List.mem_cons.1 hmem with rfl | hmem
  · exact Nat.le_refl i
  · exact Nat.le_of_lt ((List.pairwise_cons.1 hpair).1 i hmem)

theorem separator_of_dataRowsFrom (h : t.dataRowsFrom k = row :: rows) (hle : k ≤ i)
    (hi : i < row) : t.rows[i]? = some .separator := by
  obtain ⟨⟨cells, hr⟩, -⟩ := mem_dataRowsFrom.1 (h ▸ List.mem_cons_self)
  have hlt : row < t.rowCount := (List.getElem?_eq_some_iff.1 hr).1
  refine (separator_or_isDataRow (Nat.lt_trans hi hlt)).resolve_right fun hdata => ?_
  exact Nat.not_le_of_lt hi (le_of_dataRowsFrom h hdata hle)

theorem dataRowsFrom_eq_nil_iff :
    t.dataRowsFrom (line + 1 - t.startLine) = [] ↔
      ∀ row, line < t.startLine + row → ¬ t.IsDataRow row := by
  rw [List.eq_nil_iff_forall_not_mem]
  refine forall_congr' fun row => ?_
  rw [mem_dataRowsFrom]
  exact ⟨fun h hline hrow => h ⟨hrow, by omega⟩, fun h hrow => h (by omega) hrow.1⟩

end Table

namespace CellMap

variable {t : Table} {lines : List Text} {p q : Position} {row k bound : Nat} {rows : List Nat}
  {place below : Nat → Nat}

section Down

variable (hnumbers : Numbering bound place below) (hcount : t.rowCount < bound)

include hnumbers hcount

theorem exists_nextRowBy_of_cons (ht : t.Shaped) (hp : below p.line = place k)
    (hrows : t.dataRowsFrom k = row :: rows) (lines : List Text) :
    ∃ col q, (placed place t lines).positionOf ⟨row, col⟩ = some q ∧
      (placed place t lines).nextRowBy below p = some q := by
  obtain ⟨hdata, hle⟩ := Table.mem_dataRowsFrom.1 (hrows ▸ List.mem_cons_self)
  obtain ⟨cells, hr⟩ := id hdata
  have hlt : row < t.rowCount := (List.getElem?_eq_some_iff.1 hr).1
  have hordered : (placed place t lines).Ordered place :=
    hnumbers.ordered_placed (Nat.le_of_lt hcount) lines
  obtain ⟨s, hs, hlast⟩ := hordered.exists_nextRowFrom p.character
    (hnumbers.mono (Nat.le_trans hlt (Nat.le_of_lt hcount))) (hasLeft_stops _ _ _ _) hle
    (fun i hi hlt => Stop.exists_of_separator (Table.separator_of_dataRowsFrom hrows hi hlt) _ _)
    (exists_cell_of_isDataRow ht hdata place lines)
  obtain ⟨hcell, hrow⟩ := List.mem_filter.1 hlast.mem
  have hposition := hordered.positionOf_eq hcell
  rw [Stop.address, beq_iff_eq.1 hrow] at hposition
  exact ⟨s.col, s.position, hposition, (congrArg _ hp).trans hs⟩

theorem nextRowBy_eq_none_of_nil (hk : k < bound) (hp : below p.line = place k)
    (hrows : t.dataRowsFrom k = []) (lines : List Text) :
    (placed place t lines).nextRowBy below p = none := by
  have hend {i : Nat} (hi : t.rowCount ≤ i) (hlt : i < bound) :
      ∀ s ∈ (placed place t lines).stops, s.line ≠ place i := by
    intro s hs hline
    obtain ⟨hplace, hrow⟩ := line_of_mem_placed hs
    have hsame := hnumbers.apart s.row (Nat.lt_trans hrow hcount) i hlt (hplace.symm.trans hline)
    omega
  have hskip : ∀ i, k ≤ i → i < t.rowCount →
      ∃ s ∈ (placed place t lines).stops, s.row = i ∧ s.isSeparator = true := by
    intro i hi hlt
    refine Stop.exists_of_separator ?_ _ _
    refine (Table.separator_or_isDataRow hlt).resolve_right fun hdata => ?_
    have hmem := Table.mem_dataRowsFrom.2 ⟨hdata, hi⟩
    rw [hrows] at hmem
    cases hmem
  rw [nextRowBy, hp]
  rcases Nat.le_total k t.rowCount with hle | hle
  · exact (hnumbers.ordered_placed (Nat.le_of_lt hcount) lines).nextRowFrom_eq_none
      (hnumbers.mono hcount) (hasLeft_stops _ _ _ _) hle hskip (hend (Nat.le_refl _) hcount)
  · apply nextRowFrom_nil
    rw [List.filter_eq_nil_iff]
    exact fun s hs => by simpa using hend hle hk s hs

theorem nextRowBy_eq_none_iff (ht : t.Shaped) (hk : k < bound) (hp : below p.line = place k)
    (lines : List Text) :
    (placed place t lines).nextRowBy below p = none ↔ t.dataRowsFrom k = [] := by
  refine ⟨fun hnone => ?_, fun hrows =>
    nextRowBy_eq_none_of_nil hnumbers hcount hk hp hrows lines⟩
  cases hrows : t.dataRowsFrom k with
  | nil => rfl
  | cons row rows =>
    obtain ⟨col, q, -, hnext⟩ := exists_nextRowBy_of_cons hnumbers hcount ht hp hrows lines
    cases hnone.symm.trans hnext

end Down

theorem nextRowInDocument_eq_none_iff (ht : t.Shaped) (hline : t.startLine ≤ p.line + 1)
    (lines : List Text) :
    (inDocument t lines).nextRowInDocument p = none ↔
      ∀ row, p.line < t.startLine + row → ¬ t.IsDataRow row := by
  rw [← Table.dataRowsFrom_eq_nil_iff]
  exact nextRowBy_eq_none_iff (numbering_add t.startLine (p.line + t.rowCount + 2)) (by omega) ht
    (by omega) (Nat.add_sub_cancel' hline).symm lines

/-- If the line below each row has a number, and so does the line below the position, a document
holds the same cells and a move leads to the same place. -/
theorem nextRow_ofTable_eq_inDocument (hfits : t.startLine + t.rowCount < lineLimit)
    (hp : p.line + 1 < lineLimit) (lines : List Text) :
    (ofTable t lines).nextRow p = (inDocument t lines).nextRowInDocument p := by
  have hbelow : ∀ s ∈ (inDocument t lines).stops, lineAfter s.line 1 = s.line + 1 := by
    intro s hs
    obtain ⟨hline, hrow⟩ := line_of_mem_placed hs
    exact lineAfter_of_lt (by omega)
  rw [ofTable_eq_inDocument (Nat.le_of_lt hfits), nextRow, nextRowInDocument, nextRowBy,
    nextRowBy, lineAfter_of_lt hp]
  exact nextRowFrom_congr hbelow

section Fits

variable (hfits : t.startLine + t.rowCount ≤ lineLimit) (hp : p.line + 1 < lineLimit)

include hfits hp

end Fits

end CellMap

end PipeTable
