import PipeTable.Proofs.Command.Writing

/-! # Walking from cell to cell

A walk over the cells of a table presses keys for the next and the previous cell, each on the
document and the cursor that the one before has left. Behind the text there is a counter: the
cells are numbered row by row, the previous cell stops at the first one, and the next cell
stops at the last one or appends a row there. One key does what the counter says because the
text it writes is read as the same table again, with the cursor in the cell it was put into; by
induction so do all keys.
-/

namespace PipeTable

inductive CellKey where
  | next (autoAddRow : Bool)
  | previous
deriving DecidableEq

namespace CellKey

def command : CellKey → Command
  | next _ => .nextCell
  | previous => .previousCell

def options : CellKey → CommandOptions
  | next autoAddRow => ⟨autoAddRow⟩
  | previous => {}

end CellKey

structure Session where
  doc : List Text
  cursor : Position

namespace Session

/-- Carry out the command of a key and apply its edit, or `none` if there is no edit or it takes
the cursor out of the table. -/
def press (d : Dialect) (s : Session) (key : CellKey) : Except Fault (Option Session) := do
  match ← key.command.run key.options d s.doc s.cursor with
  | none => return none
  | some e =>
    match e.cursor with
    | none => return none
    | some q => return some ⟨← e.apply s.doc, q⟩

def run (d : Dialect) (s : Session) : List CellKey → Except Fault (Option Session)
  | [] => return some s
  | key :: keys => do
    match ← s.press d key with
    | none => return none
    | some s => s.run d keys

end Session

/-- The cells of a table, the current one of them, and the rows appended so far. -/
structure CellWalk where
  count : Nat
  index : Nat
  added : Nat
deriving DecidableEq

/-- What a key does in a table of `cols` columns. -/
def CellWalk.step (cols : Nat) (w : CellWalk) : CellKey → CellWalk
  | .previous => { w with index := w.index - 1 }
  | .next autoAddRow =>
    if w.index + 1 < w.count then { w with index := w.index + 1 }
    else if autoAddRow then ⟨w.count + cols, w.count, w.added + 1⟩
    else w

theorem CellWalk.step_added (cols count index added : Nat) (key : CellKey) :
    CellWalk.step cols ⟨count, index, added⟩ key =
      let w := CellWalk.step cols ⟨count, index, 0⟩ key
      ⟨w.count, w.index, added + w.added⟩ := by
  cases key with
  | previous => rfl
  | next autoAddRow =>
    simp only [step]
    split
    · rfl
    · split <;> rfl

theorem CellWalk.count_step {w : CellWalk} {count cols : Nat} (h : w.count = count + w.added * cols)
    (key : CellKey) :
    (w.step cols key).count = count + (w.step cols key).added * cols := by
  cases key with
  | previous => exact h
  | next autoAddRow =>
    simp only [step]
    split
    · exact h
    · split
      · simp only [h, Nat.succ_mul, Nat.add_assoc]
      · exact h

namespace CellMap

variable {place : Nat → Nat} {m : CellMap} {k : Nat} {s : Stop}

theorem Ordered.previousCell_or (h : m.Ordered place) (hk : m.cells[k]? = some s) :
    (m.previousCell s.position).or (some s.position) = m.cells[k - 1]?.map Stop.position := by
  have hmem := (mem_cells.1 (List.mem_of_getElem? hk)).1
  rw [h.previousCell_eq hk (h.isAt_position hmem)]
  cases k with
  | zero => simp [hk]
  | succ k =>
    have hlt : k < m.cells.length := Nat.lt_of_succ_lt (List.getElem?_eq_some_iff.1 hk).1
    simp [hlt]

theorem Ordered.nextCell_or (h : m.Ordered place) (hk : m.cells[k]? = some s) :
    (m.nextCell s.position).or (some s.position) =
      m.cells[if k + 1 < m.cells.length then k + 1 else k]?.map Stop.position := by
  have hmem := (mem_cells.1 (List.mem_of_getElem? hk)).1
  rw [h.nextCell_eq hk (h.isAt_position hmem)]
  split
  · next hlt => simp [hlt]
  · next hlt => simp [hlt, hk]

end CellMap

namespace Focus

variable {f : Focus} {pre rest : List Text} {p : Position} {a : CellAddress} {k : Nat}

/-- The table with empty rows appended. -/
def grown (f : Focus) (n : Nat) : Focus := f.withTable (f.table.addRows .data [] n)

theorem Sound.grown (h : f.Sound) (n : Nat) : (f.grown n).Sound := by
  induction n generalizing f with
  | zero => exact h
  | succ n ih => exact ih (h.blankEdit .appendRow)

theorem Between.grown (h : f.Between pre rest) (n : Nat) : (f.grown n).Between pre rest :=
  h.withTable _

theorem Sound.replace_cell (h : f.Sound) (hk : k < f.table.cellAddresses.length) :
    ∃ a, f.table.cellAddresses[k]? = some a ∧
      f.replace (f.writtenCells.cells[k]?.map Stop.position) = f.replaceAt a := by
  obtain ⟨s, hs, ha⟩ := exists_cell (List.getElem?_eq_getElem hk)
  refine ⟨_, List.getElem?_eq_getElem hk, ?_⟩
  rw [hs, ← ha, replaceAt, h.cursorFor_eq (List.mem_of_getElem? hs)]
  rfl

theorem length_cells (f : Focus) : f.writtenCells.cells.length = f.table.cellAddresses.length :=
  CellMap.length_cells _ f.table _

section Inside

variable (h : f.Sound) (hk : f.table.cellAddresses[k]? = some a)

include h hk

theorem Sound.exists_previousCell : ∃ b, f.table.cellAddresses[k - 1]? = some b ∧
    f.previousCell (some (.inside a)) = some (f.replaceAt b) := by
  obtain ⟨s, hs, rfl⟩ := exists_cell hk
  have hordered := h.ordered_writtenCells
  have hposition := hordered.positionOf_eq (List.mem_of_getElem? hs)
  have hlt := (List.getElem?_eq_some_iff.1 hk).1
  obtain ⟨b, hb, hreplace⟩ := h.replace_cell (Nat.lt_of_le_of_lt (Nat.sub_le k 1) hlt)
  rw [← hordered.previousCell_or hs] at hreplace
  exact ⟨b, hb, by simp only [previousCell, hposition, Option.map_some, hreplace]⟩

theorem Sound.nextCell_inside (options : CommandOptions) :
    ∃ b, f.table.cellAddresses[if k + 1 < f.table.cellAddresses.length then k + 1 else k]? =
        some b ∧
      f.nextCell (some (.inside a)) options =
        some (if k + 1 = f.table.cellAddresses.length ∧ options.autoAddRow then f.appendRow 0
          else f.replaceAt b) := by
  obtain ⟨s, hs, rfl⟩ := exists_cell hk
  have hmem := List.mem_of_getElem? hs
  have hordered := h.ordered_writtenCells
  have hposition := hordered.positionOf_eq hmem
  have hlast := hordered.isLastCell_eq hs (hordered.isAt_position (CellMap.mem_cells.1 hmem).1)
  have hmove := hordered.nextCell_or hs
  rw [length_cells] at hlast hmove
  have hlt := (List.getElem?_eq_some_iff.1 hk).1
  obtain ⟨b, hb, hreplace⟩ := h.replace_cell (k := if k + 1 < f.table.cellAddresses.length
    then k + 1 else k) (by split <;> assumption)
  rw [← hmove] at hreplace
  refine ⟨b, hb, ?_⟩
  simp only [nextCell, hposition, Option.map_some, hlast, hreplace, Bool.and_eq_true,
    decide_eq_true_eq]

theorem Sound.exists_perform_key (p : Position) (key : CellKey) :
    let w := CellWalk.step f.table.colCount ⟨f.table.cellAddresses.length, k, 0⟩ key
    ∃ b, (f.grown w.added).table.cellAddresses[w.index]? = some b ∧
      f.perform p (some (.inside a)) key.command key.options =
        .ok (some ((f.grown w.added).replaceAt b)) := by
  cases key with
  | previous =>
    obtain ⟨b, hb, hperform⟩ := h.exists_previousCell hk
    exact ⟨b, hb, congrArg Except.ok hperform⟩
  | next autoAddRow =>
    have hlt := (List.getElem?_eq_some_iff.1 hk).1
    obtain ⟨b, hb, hperform⟩ := h.nextCell_inside hk ⟨autoAddRow⟩
    simp only [CellWalk.step]
    by_cases hnext : k + 1 < f.table.cellAddresses.length
    · rw [if_pos hnext] at hb ⊢
      rw [if_neg fun hlast => absurd hlast.1 (Nat.ne_of_lt hnext)] at hperform
      exact ⟨b, hb, congrArg Except.ok hperform⟩
    · rw [if_neg hnext] at hb ⊢
      cases autoAddRow with
      | false =>
        rw [if_neg fun hlast => Bool.false_ne_true hlast.2] at hperform
        exact ⟨b, hb, congrArg Except.ok hperform⟩
      | true =>
        -- the first cell of the appended row comes right after the last one
        have hcol : 0 < f.table.colCount := List.length_pos_iff.2 h.columns_ne_nil
        rw [if_pos ⟨by omega, rfl⟩] at hperform
        exact ⟨_, Table.getElem?_cellAddresses_addRow_blank h.columns_ne_nil hcol,
          congrArg Except.ok hperform⟩

end Inside

/-- A key writes the table that the counter tells and puts the cursor into the cell it tells. -/
theorem Between.exists_press (hb : f.Between pre rest) (h : f.Sound)
    (hload : load f.dialect (pre ++ (f.lines ++ rest)) p.line = .ok (some f))
    (hanchor : f.anchorAt p = .ok (some (.inside a))) (hk : f.table.cellAddresses[k]? = some a)
    (key : CellKey) :
    let w := CellWalk.step f.table.colCount ⟨f.table.cellAddresses.length, k, 0⟩ key
    ∃ b, (f.grown w.added).table.cellAddresses[w.index]? = some b ∧
      Session.press f.dialect ⟨pre ++ (f.lines ++ rest), p⟩ key =
        .ok (some ⟨pre ++ ((f.grown w.added).written.lines ++ rest),
          (f.grown w.added).cursorFor b⟩) := by
  intro w
  obtain ⟨b, hcell, hperform⟩ := h.exists_perform_key hk p key
  refine ⟨b, hcell, ?_⟩
  have hrun := Command.run_eq_ok_some_iff.2 ⟨f, _, hload, hanchor, hperform⟩
  have happly := (hb.grown w.added).apply_replace (h.grown w.added)
    (some ((f.grown w.added).cursorFor b))
  refine Table.bind_eq_ok_iff.2 ⟨_, hrun, ?_⟩
  exact Table.bind_eq_ok_iff.2 ⟨_, happly, rfl⟩

/-- The session has the table of `f` with the appended rows of the walk in it, and the cursor is
where it goes for the current cell of the walk. -/
structure Standing (f : Focus) (pre rest : List Text) (w : CellWalk) (s : Session) : Prop where
  count : w.count = f.table.cellAddresses.length + w.added * f.table.colCount
  cell : ∃ a, (f.grown w.added).table.cellAddresses[w.index]? = some a ∧
    s = ⟨pre ++ ((f.grown w.added).written.lines ++ rest), (f.grown w.added).cursorFor a⟩

variable {w : CellWalk} {s : Session}

theorem colCount_grown (hne : f.table.columns ≠ []) (n : Nat) :
    (f.grown n).table.colCount = f.table.colCount := by
  rw [grown, withTable, Table.addRows_blank hne]
  rfl

theorem table_grown_written (f : Focus) (m n : Nat) :
    ((f.grown m).written.grown n).table = (f.grown (m + n)).table :=
  Table.addRows_addRows _ _ m n _

theorem Sound.indent_grown_written (h : f.Sound) (m n : Nat) :
    ((f.grown m).written.grown n).indent = (f.grown (m + n)).indent :=
  (h.grown m).indent_written

theorem Sound.lines_grown_written (h : f.Sound) (m n : Nat) :
    ((f.grown m).written.grown n).written.lines = (f.grown (m + n)).written.lines := by
  have hlines (g : Focus) : g.written.lines = g.table.renderLines g.dialect g.indent := rfl
  rw [hlines, hlines, table_grown_written, h.indent_grown_written]
  rfl

theorem Sound.cursorFor_grown_written (h : f.Sound) (m n : Nat) (a : CellAddress) :
    ((f.grown m).written.grown n).cursorFor a = (f.grown (m + n)).cursorFor a := by
  have hdialect : ((f.grown m).written.grown n).dialect = (f.grown (m + n)).dialect := rfl
  have hstart : ((f.grown m).written.grown n).region.startLine =
      (f.grown (m + n)).region.startLine := rfl
  exact cursorFor_congr (table_grown_written f m n) hdialect (h.indent_grown_written m n) hstart a

/-- A key takes a session that stands under a walk to one that stands under the next step. -/
theorem Standing.exists_press (hw : f.Standing pre rest w s) (hb : f.Between pre rest)
    (h : f.Sound) (key : CellKey) :
    ∃ s', s.press f.dialect key = .ok (some s') ∧
      f.Standing pre rest (w.step f.table.colCount key) s' := by
  obtain ⟨a, ha, rfl⟩ := hw.cell
  have hg := h.grown w.added
  have hgb := hb.grown w.added
  have hmem := List.mem_of_getElem? ha
  have hload := hgb.load_cursorFor hg hmem
  obtain ⟨b, hcell, hpress⟩ := (hgb.written hg).exists_press hg.written hload
    (hg.anchorAt_cursorFor hmem) ha key
  have hcols : (f.grown w.added).written.table.colCount = f.table.colCount :=
    colCount_grown h.columns_ne_nil w.added
  have hcount : (f.grown w.added).written.table.cellAddresses.length = w.count := by
    rw [hw.count]
    exact Table.length_cellAddresses_addRows_blank h.columns_ne_nil w.added
  rw [hcols, hcount, table_grown_written] at hcell
  rw [hcols, hcount, h.lines_grown_written, h.cursorFor_grown_written] at hpress
  have hstep := CellWalk.step_added f.table.colCount w.count w.index w.added key
  refine ⟨_, hpress, ⟨CellWalk.count_step hw.count key, b, ?_, ?_⟩⟩
  · rw [hstep]
    exact hcell
  · rw [hstep]

theorem Standing.exists_run (hw : f.Standing pre rest w s) (hb : f.Between pre rest)
    (h : f.Sound) (keys : List CellKey) :
    ∃ s', s.run f.dialect keys = .ok (some s') ∧
      f.Standing pre rest (keys.foldl (CellWalk.step f.table.colCount) w) s' := by
  induction keys generalizing w s with
  | nil => exact ⟨s, rfl, hw⟩
  | cons key keys ih =>
    obtain ⟨s', hpress, hw'⟩ := hw.exists_press hb h key
    obtain ⟨t, hrun, ht⟩ := ih hw'
    exact ⟨t, Table.bind_eq_ok_iff.2 ⟨_, hpress, hrun⟩, ht⟩

theorem Between.exists_run (hb : f.Between pre rest) (h : f.Sound)
    (hload : load f.dialect (pre ++ (f.lines ++ rest)) p.line = .ok (some f))
    (hanchor : f.anchorAt p = .ok (some (.inside a))) (hk : f.table.cellAddresses[k]? = some a)
    {keys : List CellKey} (hkeys : keys ≠ []) :
    ∃ s, Session.run f.dialect ⟨pre ++ (f.lines ++ rest), p⟩ keys = .ok (some s) ∧
      f.Standing pre rest
        (keys.foldl (CellWalk.step f.table.colCount) ⟨f.table.cellAddresses.length, k, 0⟩) s := by
  obtain ⟨key, keys, rfl⟩ := List.exists_cons_of_ne_nil hkeys
  obtain ⟨b, hcell, hpress⟩ := hb.exists_press h hload hanchor hk key
  have hcount : f.table.cellAddresses.length =
      f.table.cellAddresses.length + 0 * f.table.colCount := by omega
  have hfirst : f.Standing pre rest
      (CellWalk.step f.table.colCount ⟨f.table.cellAddresses.length, k, 0⟩ key) _ :=
    ⟨CellWalk.count_step hcount key, b, hcell, rfl⟩
  obtain ⟨s, hrun, hs⟩ := hfirst.exists_run hb h keys
  exact ⟨s, Table.bind_eq_ok_iff.2 ⟨_, hpress, hrun⟩, hs⟩

/-- The table that is read from the cursor of a session under a walk has the cells that the walk
counts, and the cursor is where the content of the current one starts. -/
theorem Standing.exists_load (hw : f.Standing pre rest w s) (hb : f.Between pre rest)
    (h : f.Sound) :
    ∃ g stop, load f.dialect s.doc s.cursor.line = .ok (some g) ∧
      s.doc = pre ++ (g.lines ++ rest) ∧
      g.lines = Text.lines f.render ++ List.replicate w.added
        (f.indent ++ f.table.rowText f.dialect (Table.blankRow f.table.colCount .data)) ∧
      g.region.startLine = f.region.startLine ∧
      g.liveCells.cells.length = w.count ∧ g.liveCells.cells[w.index]? = some stop ∧
      IsContentStart g.region.startLine g.lines stop.address s.cursor := by
  obtain ⟨a, ha, rfl⟩ := hw.cell
  have hg := h.grown w.added
  have hmem := List.mem_of_getElem? ha
  have hlines : (f.grown w.added).written.lines = Text.lines f.render ++ List.replicate w.added
      (f.indent ++ f.table.rowText f.dialect (Table.blankRow f.table.colCount .data)) := by
    rw [h.lines_render]
    exact Table.renderLines_addRows_blank h.columns_ne_nil w.added f.dialect f.indent
  have hcells : (f.grown w.added).written.liveCells.cells.length = w.count := by
    rw [← hg.writtenCells_eq, length_cells, hw.count]
    exact Table.length_cellAddresses_addRows_blank h.columns_ne_nil w.added
  obtain ⟨stop, hstop, rfl⟩ := exists_cell ha
  rw [hg.writtenCells_eq] at hstop
  have hcontent := hg.isContentStart_cursorFor hmem
  rw [hg.lines_render] at hcontent
  exact ⟨(f.grown w.added).written, stop, (hb.grown w.added).load_cursorFor hg hmem, rfl, hlines,
    rfl, hcells, hstop, hcontent⟩

end Focus

/-- Keys for the next and the previous cell are a walk over the cells, as soon as the cursor is
in one of them. After at least one key the lines of the table are those that formatting writes
and one empty row for each that the walk has appended, the cells of the table read from these
lines are as many as the walk counts, and the cursor is where the content of its current cell
starts. -/
theorem cellWalk_run {d : Dialect} {doc : List Text} {p : Position} {f : Focus} {k : Nat} {s : Stop}
    {keys : List CellKey} (hdoc : ∀ l ∈ doc, '\n' ∉ l)
    (hload : Focus.load d doc p.line = .ok (some f)) (hs : f.liveCells.cells[k]? = some s)
    (hp : s.isAt p = true) (hkeys : keys ≠ []) :
    let w := keys.foldl (CellWalk.step f.table.colCount) ⟨f.liveCells.cells.length, k, 0⟩
    ∃ e session g stop, Command.run .format {} d doc p = .ok (some e) ∧
      Session.run d ⟨doc, p⟩ keys = .ok (some session) ∧
      Focus.load d session.doc session.cursor.line = .ok (some g) ∧
      session.doc =
        doc.take e.region.startLine ++ g.lines ++ doc.drop (e.region.endLine + 1) ∧
      g.lines = Text.lines e.text ++ List.replicate w.added
        (f.indent ++ f.table.rowText d (Table.blankRow f.table.colCount .data)) ∧
      g.region.startLine = e.region.startLine ∧
      g.liveCells.cells.length = w.count ∧ g.liveCells.cells[w.index]? = some stop ∧
      IsContentStart g.region.startLine g.lines stop.address session.cursor := by
  obtain ⟨rfl, -⟩ := Focus.legible_of_load hload
  have hf := Focus.sound_of_load hdoc hload
  obtain ⟨pre, rest, _, hb, rfl, -⟩ := Focus.exists_between_of_load hdoc hload
  have haddresses : f.liveCells.cells.map Stop.address = f.table.cellAddresses :=
    CellMap.map_address_cells _ f.table f.lines
  have hcount : f.liveCells.cells.length = f.table.cellAddresses.length := by
    rw [← haddresses, List.length_map]
  have hk : f.table.cellAddresses[k]? = some s.address := by
    rw [← haddresses, List.getElem?_map, hs]
    rfl
  have hanchor := Focus.anchorAt_of_isAt hf.startLine (List.mem_of_getElem? hs) hp
  obtain ⟨session, hrun, hstanding⟩ := hb.exists_run hf hload hanchor hk hkeys
  rw [← hcount] at hstanding
  obtain ⟨g, stop, hg, hdocument, hlines, hstart, hcells, hstop, hcontent⟩ :=
    hstanding.exists_load hb hf
  refine ⟨_, session, g, stop, Command.run_eq_ok_some_iff.2 ⟨f, _, hload, hanchor, rfl⟩, hrun, hg,
    ?_, hlines, hstart, hcells, hstop, hcontent⟩
  obtain ⟨htake, hdrop⟩ := hb.take_drop
  rw [hdocument, ← List.append_assoc]
  simp only [Focus.replace, htake, hdrop]

/-- From the last cell a row is appended, and from there it is two cells back to the first one,
past a separator row. -/
theorem cellWalk_run_past_separator :
    ∃ (session : Session) (g : Focus) (stop : Stop),
      Session.run .org ⟨["|a|".toList, "|-".toList, "|b|".toList], ⟨2, 1⟩⟩
        [.next true, .previous, .previous] = .ok (some session) ∧
      session.doc =
        ["| a   |".toList, "|-----|".toList, "| b   |".toList, "|     |".toList] ∧
      Focus.load .org session.doc session.cursor.line = .ok (some g) ∧
      g.liveCells.cells[0]? = some stop ∧
      IsContentStart 0 session.doc stop.address session.cursor := by
  obtain ⟨f, hload⟩ : ∃ f, Focus.load .org ["|a|".toList, "|-".toList, "|b|".toList] 2 =
      .ok (some f) := ⟨_, rfl⟩
  obtain rfl := Option.some.inj (Except.ok.inj hload)
  obtain ⟨e, session, g, stop, he, hrun, hg, hdoc, hlines, hstart, -, hstop, hcursor⟩ :=
    cellWalk_run (p := ⟨2, 1⟩) (k := 1) (by decide) hload rfl (by decide)
      (List.cons_ne_nil (.next true) [.previous, .previous])
  obtain rfl := Option.some.inj (Except.ok.inj he)
  have hwritten : g.lines =
      ["| a   |".toList, "|-----|".toList, "| b   |".toList, "|     |".toList] := hlines
  have hsame : session.doc = g.lines := hdoc.trans (List.append_nil g.lines)
  have hfirst : g.region.startLine = 0 := hstart
  refine ⟨session, g, stop, hrun, hsame.trans hwritten, hg, hstop, ?_⟩
  rw [hsame, ← hfirst]
  exact hcursor

end PipeTable
