import Mathlib.Algebra.GroupWithZero.Nat
import PipeTable.Proofs.Navigation.Written

/-! # Columns that line up

All three ways of writing a row put a piece for each column behind the opening bar, two display
cells wider than the column, and a mark of one display cell behind each piece: a bar, or a
crossing inside a rule of Org. The widths of the pieces do not depend on the row, so the marks
stand below each other, whatever characters the cells are made of.
-/

namespace PipeTable

open Text

/-- The mark stands in the line behind a text of `offset` display cells. -/
def MarkAt (line : Text) (mark : Char) (offset : Nat) : Prop :=
  ∃ before after, line = before ++ mark :: after ∧ displayWidth before = offset

/-- Pieces of text, each with the mark behind it. -/
def marked (ps : List (Text × Char)) : Text := (ps.map fun p => p.1 ++ [p.2]).flatten

theorem marked_cons (p : Text × Char) (ps : List (Text × Char)) :
    marked (p :: ps) = p.1 ++ p.2 :: marked ps := by
  simp [marked]

theorem closedCells_eq_marked (ps : List Text) : closedCells ps = marked (ps.map (·, bar)) := by
  simp [closedCells, marked, Function.comp_def]

theorem intercalate_eq_marked {ps : List Text} (hne : ps ≠ []) (sep last : Char) :
    [sep].intercalate ps ++ [last] =
      marked (ps.zip (List.replicate (ps.length - 1) sep ++ [last])) := by
  induction ps with
  | nil => exact absurd rfl hne
  | cons p ps ih =>
    cases ps with
    | nil => simp [marked, List.intercalate]
    | cons q qs =>
      calc [sep].intercalate (p :: q :: qs) ++ [last]
          = p ++ sep :: ([sep].intercalate (q :: qs) ++ [last]) := by
            simp [List.intercalate_cons_cons]
        _ = p ++ sep :: marked ((q :: qs).zip (List.replicate qs.length sep ++ [last])) :=
            congrArg (p ++ sep :: ·) (ih (List.cons_ne_nil q qs))
        _ = _ := (marked_cons (p, sep) _).symm

/-- A piece with room for `width` display cells and a space on either side, and its mark. -/
structure Slot (width : Nat) (p : Text × Char) : Prop where
  piece : displayWidth p.1 = width + 2
  mark : charWidth p.2 = 1

/-- The display cells of the first `k` slots. -/
def slotOffset (widths : List Nat) (k : Nat) : Nat := ((widths.take k).map (· + 3)).sum

theorem slotOffset_cons_succ (w : Nat) (ws : List Nat) (k : Nat) :
    slotOffset (w :: ws) (k + 1) = w + 3 + slotOffset ws k := by
  simp [slotOffset]

theorem displayWidth_marked {ws : List Nat} {ps : List (Text × Char)}
    (h : List.Forall₂ Slot ws ps) : displayWidth (marked ps) = slotOffset ws ws.length := by
  induction h with
  | nil => rfl
  | cons hp _ ih =>
    rw [marked_cons, displayWidth_append, displayWidth_cons, hp.piece, hp.mark, ih,
      List.length_cons, slotOffset_cons_succ]
    omega

/-- Behind an opening bar, the mark of slot `k` ends the first `k + 1` slots. -/
theorem markAt_marked {ws : List Nat} {ps : List (Text × Char)} (h : List.Forall₂ Slot ws ps)
    {first : Char} (hfirst : charWidth first = 1) {k : Nat} {p : Text × Char}
    (hp : ps[k]? = some p) : MarkAt (first :: marked ps) p.2 (slotOffset ws (k + 1)) := by
  induction h generalizing k first with
  | nil => cases hp
  | @cons w q ws ps hq _ ih =>
    rw [marked_cons]
    cases k with
    | zero =>
      obtain rfl : q = p := by simpa using hp
      refine ⟨first :: q.1, marked ps, rfl, ?_⟩
      rw [displayWidth_cons, hfirst, hq.piece, slotOffset_cons_succ]
      simp [slotOffset]
      omega
    | succ k =>
      obtain ⟨before, after, hline, hwidth⟩ := ih hq.mark (by simpa using hp)
      refine ⟨first :: q.1 ++ before, after, by simp [hline], ?_⟩
      rw [displayWidth_append, displayWidth_cons, hfirst, hq.piece, hwidth, slotOffset_cons_succ]
      omega

theorem MarkAt.append_left {line : Text} {mark : Char} {offset : Nat}
    (h : MarkAt line mark offset) (s : Text) :
    MarkAt (s ++ line) mark (displayWidth s + offset) := by
  obtain ⟨before, after, rfl, rfl⟩ := h
  exact ⟨s ++ before, after, by simp, displayWidth_append s before⟩

namespace Table

variable {t : Table} {d : Dialect} {r : Row}

/-- The mark at boundary `k` of a row over `count` columns: inside a rule of Org a crossing, a bar
everywhere else. -/
def boundaryMark (d : Dialect) (r : Row) (count k : Nat) : Char :=
  if d = .org ∧ r = .separator ∧ 0 < k ∧ k < count then '+' else '|'

/-- The display cells in front of boundary `k`, the indentation apart. -/
def boundaryOffset (t : Table) (k : Nat) : Nat :=
  ((t.columns.take k).map fun c => c.width + 3).sum

theorem boundaryOffset_eq (t : Table) (k : Nat) :
    t.boundaryOffset k = slotOffset (t.columns.map Column.width) k := by
  simp [boundaryOffset, slotOffset, List.map_take, Function.comp_def]

theorem displayWidth_paddedCell {width : Nat} {value : Text} (h : displayWidth value ≤ width) :
    displayWidth (paddedCell width value) = width + 2 := by
  have hspace : charWidth ' ' = 1 := by decide
  simp only [paddedCell, List.cons_append, displayWidth_cons, displayWidth_append,
    displayWidth_pad, displayWidth_nil, hspace]
  omega

theorem displayWidth_ruleCell (c : Column) {width : Nat} (h : 3 ≤ width) :
    displayWidth (ruleCell c width) = width + 2 := by
  have hspace : charWidth ' ' = 1 := by decide
  have hdash : charWidth '-' = 1 := by decide
  have hmarks : charWidth c.alignment.marks.1 = 1 ∧ charWidth c.alignment.marks.2 = 1 := by
    cases c.alignment <;> decide
  simp only [ruleCell, List.cons_append, displayWidth_cons, displayWidth_append,
    displayWidth_replicate, displayWidth_nil, hspace, hdash, hmarks]
  omega

theorem forall₂_slot_closed {ws : List Nat} {ps : List Text}
    (h : List.Forall₂ (fun w p => displayWidth p = w + 2) ws ps) :
    List.Forall₂ Slot ws (ps.map (·, bar)) := by
  rw [List.forall₂_map_right_iff]
  exact h.imp fun w p hp => ⟨hp, show charWidth bar = 1 by decide⟩

theorem WellFormed.displayWidth_le (ht : t.WellFormed) {cells : List Text}
    (hr : Row.data cells ∈ t.rows) {j : Nat} {c : Column} {v : Text}
    (hc : t.columns[j]? = some c) (hv : cells[j]? = some v) : displayWidth v ≤ c.width := by
  have hle := cellWidth_le_contentWidth hr j
  rw [Row.cellWidth, Row.cells, hv, Option.elim_some] at hle
  rw [ht.fitted j c hc]
  exact Nat.le_trans hle (Nat.le_max_left _ _)

/-- What stands behind the opening bar of a row: a slot for each column, its mark the one of the
boundary on the right. -/
structure SlotsOf (t : Table) (d : Dialect) (r : Row) (ps : List (Text × Char)) : Prop where
  text : t.rowText d r = bar :: marked ps
  slots : List.Forall₂ Slot (t.columns.map Column.width) ps
  marks : ∀ k p, ps[k]? = some p → p.2 = boundaryMark d r t.colCount (k + 1)

theorem snd_of_getElem?_closed {ps : List Text} {k : Nat} {p : Text × Char}
    (hp : (ps.map (·, bar))[k]? = some p) : p.2 = '|' := by
  rw [List.getElem?_map] at hp
  obtain ⟨q, -, rfl⟩ := Option.map_eq_some_iff.1 hp
  rfl

theorem WellFormed.slotsOf_data (ht : t.WellFormed) {cells : List Text}
    (hr : Row.data cells ∈ t.rows) (d : Dialect) :
    t.SlotsOf d (.data cells)
      (((t.columns.map Column.width).zipWith paddedCell cells).map (·, bar)) where
  text := by rw [rowText_data, ht.renderWidths_eq, closedCells_eq_marked]
  slots := by
    apply forall₂_slot_closed
    rw [List.forall₂_iff_get]
    refine ⟨by simp [ht.rectangular cells hr, colCount], fun j hj hj' => ?_⟩
    rw [List.length_map] at hj
    have hcell : j < cells.length := (ht.rectangular cells hr).symm ▸ hj
    have hwidth := ht.displayWidth_le hr (List.getElem?_eq_getElem hj)
      (List.getElem?_eq_getElem hcell)
    simpa using displayWidth_paddedCell hwidth
  marks k p hp := by simp [snd_of_getElem?_closed hp, boundaryMark]

theorem WellFormed.three_le_width (ht : t.WellFormed) (hr : Row.separator ∈ t.rows) {w : Nat}
    (hw : w ∈ t.columns.map Column.width) : 3 ≤ w := by
  rw [← ht.renderWidths_eq] at hw
  exact three_le_of_mem_renderWidths hr hw

theorem WellFormed.slotsOf_rule_markdown (ht : t.WellFormed) (hr : Row.separator ∈ t.rows) :
    t.SlotsOf .markdown .separator
      ((t.columns.zipWith ruleCell (t.columns.map Column.width)).map (·, bar)) where
  text := by rw [rowText_separator_markdown, ht.renderWidths_eq, closedCells_eq_marked]
  slots := by
    apply forall₂_slot_closed
    rw [List.forall₂_iff_get]
    refine ⟨by simp, fun j hj hj' => ?_⟩
    simpa using displayWidth_ruleCell _ (ht.three_le_width hr (List.getElem_mem hj))
  marks k p hp := by simp [snd_of_getElem?_closed hp, boundaryMark]

/-- The marks of a rule in Org: a crossing at each boundary between two columns, then a bar. -/
theorem eq_of_getElem?_crossings {n k : Nat} {m : Char}
    (h : (List.replicate (n - 1) '+' ++ [bar])[k]? = some m) :
    m = if k + 1 < n then '+' else '|' := by
  rw [List.getElem?_append, List.length_replicate] at h
  split at h
  · next hk =>
    rw [List.getElem?_replicate_of_lt hk, Option.some.injEq] at h
    rw [if_pos (by omega), h]
  · next hk =>
    rw [List.getElem?_singleton] at h
    split at h
    · rw [if_neg (by omega), ← Option.some.inj h]
      rfl
    · cases h

theorem WellFormed.slotsOf_rule_org (ht : t.WellFormed) (hr : Row.separator ∈ t.rows) :
    t.SlotsOf .org .separator
      (((t.columns.map Column.width).map fun w => List.replicate (w + 2) '-').zip
        (List.replicate (t.colCount - 1) '+' ++ [bar])) where
  text := by
    have hne : t.columns.map Column.width ≠ [] := by
      simpa using ht.columned (List.ne_nil_of_mem hr)
    rw [rowText_separator_org, ht.renderWidths_eq, if_neg (by simpa using hne),
      intercalate_eq_marked (by simpa using hne)]
    simp [colCount]
  slots := by
    have hpos : 0 < t.columns.length := List.length_pos_iff.2 (ht.columned (List.ne_nil_of_mem hr))
    rw [List.forall₂_iff_get]
    refine ⟨by simp [colCount]; omega, fun j hj hj' => ⟨?_, ?_⟩⟩
    · have hdash : charWidth '-' = 1 := by decide
      simp [displayWidth_replicate, hdash]
    · obtain ⟨-, hmark⟩ := List.getElem?_zip_eq_some.1 (List.getElem?_eq_getElem hj')
      rw [List.get_eq_getElem, eq_of_getElem?_crossings hmark]
      split <;> decide
  marks k p hp := by
    obtain ⟨-, hmark⟩ := List.getElem?_zip_eq_some.1 hp
    rw [eq_of_getElem?_crossings hmark]
    simp [boundaryMark]

theorem WellFormed.exists_slotsOf (ht : t.WellFormed) (hr : r ∈ t.rows) (d : Dialect) :
    ∃ ps, t.SlotsOf d r ps := by
  cases r with
  | data cells => exact ⟨_, ht.slotsOf_data hr d⟩
  | separator =>
    cases d with
    | markdown => exact ⟨_, ht.slotsOf_rule_markdown hr⟩
    | org => exact ⟨_, ht.slotsOf_rule_org hr⟩

/-- A line that a row is written as: it is as wide as the indentation, the columns and what stands
around them, and has its mark at each boundary. -/
structure LinesUp (t : Table) (d : Dialect) (indent : Text) (r : Row) (line : Text) : Prop where
  width : displayWidth line =
    displayWidth indent + 1 + (t.columns.map fun c => c.width + 3).sum
  boundaries : ∀ k ≤ t.colCount,
    MarkAt line (boundaryMark d r t.colCount k) (displayWidth indent + t.boundaryOffset k)

theorem SlotsOf.linesUp {ps : List (Text × Char)} (h : t.SlotsOf d r ps) (indent : Text) :
    t.LinesUp d indent r (indent ++ t.rowText d r) where
  width := by
    have hbar : charWidth bar = 1 := by decide
    have hall := t.boundaryOffset_eq t.colCount
    rw [boundaryOffset, colCount, List.take_length] at hall
    rw [h.text, displayWidth_append, displayWidth_cons, hbar, displayWidth_marked h.slots, hall,
      List.length_map, Nat.add_assoc]
  boundaries k hk := by
    apply MarkAt.append_left
    rw [h.text, boundaryOffset_eq]
    cases k with
    | zero => exact ⟨[], marked ps, by simp [boundaryMark, bar], rfl⟩
    | succ k =>
      have hlen : k < ps.length := by
        rw [← h.slots.length_eq, List.length_map]
        exact hk
      have hmark := markAt_marked h.slots (show charWidth bar = 1 by decide)
        (List.getElem?_eq_getElem hlen)
      rwa [h.marks k _ (List.getElem?_eq_getElem hlen)] at hmark

/-- A written table has one line for each row, and all its lines are equally wide and have their
marks at the same places. -/
theorem lines_render_lineUp (ht : Reachable t) (d : Dialect) {indent : Text}
    (hcells : ∀ r ∈ t.rows, ∀ v ∈ r.cells, '\n' ∉ v) (hindent : '\n' ∉ indent) :
    (lines (t.render d indent)).length = t.rowCount ∧
      List.Forall₂ (t.LinesUp d indent) t.rows (lines (t.render d indent)) := by
  rw [lines_render hindent hcells, renderLines]
  refine ⟨List.length_map _, ?_⟩
  rw [List.forall₂_map_right_iff, List.forall₂_same]
  intro r hr
  obtain ⟨ps, hps⟩ := ht.wellFormed.exists_slotsOf hr d
  exact hps.linesUp indent

/-- Wide characters in a cell and in the indentation: the crossing of the rule stands below the
inner bar of the header, behind eight display cells. -/
theorem lines_render_lineUp_wide :
    ∃ t, (withSize 1 2).setCell 0 1 "日本".toList = .ok t ∧
      lines (t.render .org ['\u3000']) =
        ["\u3000|     | 日本 |".toList, "\u3000|-----+------|".toList] ∧
      List.Forall₂ (t.LinesUp .org ['\u3000']) t.rows (lines (t.render .org ['\u3000'])) ∧
      displayWidth ['\u3000'] + t.boundaryOffset 1 = 8 := by
  have ht : Reachable _ := .setCell (.withSize 1 2)
    (show (withSize 1 2).setCell 0 1 "日本".toList = .ok _ from rfl)
  exact ⟨_, rfl, by decide +kernel,
    (lines_render_lineUp ht .org (by decide +kernel) (by decide +kernel)).2, by decide +kernel⟩

end Table

end PipeTable
