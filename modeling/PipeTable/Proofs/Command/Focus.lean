import PipeTable.Command.Run
import PipeTable.Proofs.Table.Legible

/-! # The table in focus

When a line has a table in focus, and how the outcome of a command is made up: the focus is
loaded, the cursor is anchored, and the command is carried out. The text that takes the place of
the table has lines of the document behind its indentation, so it starts with blanks that are
no line feeds.
-/

namespace PipeTable

open Text

variable {d : Dialect} {doc : List Text} {p : Position} {f : Focus}

theorem Region.linesOf_eq_ok_iff {r : Region} {ls : List Text} :
    r.linesOf doc = .ok ls ↔ (r.endLine < doc.length ∧ r.startLine ≤ r.endLine + 1) ∧
      ls = (doc.drop r.startLine).take r.lineCount := by
  unfold linesOf
  split
  · next h => rw [Except.ok.injEq, and_iff_right h, eq_comm]
  · next h => exact ⟨nofun, fun hok => absurd hok.1 h⟩

namespace Focus

theorem load_eq_ok_some_iff {line : Nat} :
    load d doc line = .ok (some f) ↔ ∃ region lines t, Region.locate doc line = some region ∧
      region.linesOf doc = .ok lines ∧ Table.parse d (joinLines lines) = some t ∧
      f = ⟨d, region, lines, { t with startLine := region.startLine }⟩ := by
  unfold load
  constructor
  · intro h
    cases hregion : Region.locate doc line with
    | none => simp [hregion, pure, Except.pure] at h
    | some region =>
      simp only [hregion] at h
      obtain ⟨lines, hlines, h⟩ := Table.bind_eq_ok_iff.1 h
      cases ht : Table.parse d (joinLines lines) with
      | none => simp [ht, pure, Except.pure] at h
      | some t =>
        simp only [ht] at h
        exact ⟨region, lines, t, rfl, hlines, ht, Option.some.inj (Table.pure_eq_ok_iff.1 h)⟩
  · rintro ⟨region, lines, t, hregion, hlines, ht, rfl⟩
    simp only [hregion]
    refine Table.bind_eq_ok_iff.2 ⟨lines, hlines, ?_⟩
    simp only [ht]
    rfl

theorem blank_indent (f : Focus) : Blank f.indent := blank_leadingBlanks _

theorem newline_not_mem_indent (hdoc : ∀ l ∈ doc, '\n' ∉ l) {line : Nat}
    (h : load d doc line = .ok (some f)) : '\n' ∉ f.indent := by
  obtain ⟨region, lines, t, -, hlines, -, rfl⟩ := load_eq_ok_some_iff.1 h
  intro hnew
  have hfirst : '\n' ∈ lines.headD [] := (List.takeWhile_sublist _).subset hnew
  cases lines with
  | nil => cases hfirst
  | cons l ls =>
    have hmem : l ∈ (doc.drop region.startLine).take region.lineCount := by
      rw [← (Region.linesOf_eq_ok_iff.1 hlines).2]
      exact List.mem_cons_self
    exact hdoc l (List.mem_of_mem_drop (List.mem_of_mem_take hmem)) hfirst

theorem legible_of_load {line : Nat} (h : load d doc line = .ok (some f)) :
    f.dialect = d ∧ f.table.WellFormed ∧ f.table.Legible d := by
  obtain ⟨region, lines, t, -, -, ht, rfl⟩ := load_eq_ok_some_iff.1 h
  exact ⟨rfl, (Table.wellFormed_of_parse ht).withStartLine _,
    (Table.legible_of_parse ht).congr rfl rfl rfl⟩

theorem rowAt_eq_ok_iff {row : Nat} :
    f.rowAt p = .ok row ↔ f.region.startLine ≤ p.line ∧ row = p.line - f.region.startLine := by
  unfold rowAt
  split
  · next h => simp [Nat.not_le.2 h]
  · next h => simp [Nat.not_lt.1 h, eq_comm]

theorem rowAt_of_line {row : Nat} (h : p.line = f.region.startLine + row) :
    f.rowAt p = .ok row :=
  rowAt_eq_ok_iff.2 ⟨by omega, by omega⟩

theorem exists_anchorAt (h : f.region.startLine ≤ p.line) :
    ∃ anchor, f.anchorAt p = .ok anchor := by
  have hrow : f.rowAt p = .ok (p.line - f.region.startLine) := rowAt_eq_ok_iff.2 ⟨h, rfl⟩
  unfold anchorAt
  rw [hrow]
  simp only [bind, Except.bind]
  split
  · exact ⟨_, rfl⟩
  · split <;> exact ⟨_, rfl⟩

end Focus

theorem Direction.step_back_eq_some {i count target : Nat}
    (h : Direction.back.step i count = some target) : i = target + 1 := by
  cases i with
  | zero => cases h
  | succ i =>
    simp only [step] at h
    split at h
    · rw [Option.some.inj h]
    · cases h

theorem Direction.step_forward_eq_some {i count target : Nat}
    (h : Direction.forward.step i count = some target) : target = i + 1 := by
  simp only [step] at h
  split at h
  · exact (Option.some.inj h).symm
  · cases h

theorem Direction.lt_of_step {direction : Direction} {i count target : Nat}
    (h : direction.step i count = some target) : target < count := by
  cases direction with
  | back =>
    cases i with
    | zero => cases h
    | succ i =>
      simp only [step, Option.ite_none_right_eq_some, Option.some.injEq] at h
      omega
  | forward =>
    simp only [step, Option.ite_none_right_eq_some, Option.some.injEq] at h
    omega

theorem Direction.step_back_eq_none_iff {i count : Nat} (h : i < count) :
    back.step i count = none ↔ i = 0 := by
  cases i with
  | zero => simp [step]
  | succ i => simp [step, Nat.lt_of_succ_lt h]

theorem Direction.step_forward_eq_none_iff {i count : Nat} (h : i < count) :
    forward.step i count = none ↔ i + 1 = count := by
  simp only [step, ite_eq_right_iff, reduceCtorEq, imp_false]
  omega

theorem Command.run_eq_ok_some_iff {command : Command} {options : CommandOptions}
    {e : Replacement} :
    command.run options d doc p = .ok (some e) ↔ ∃ f anchor,
      Focus.load d doc p.line = .ok (some f) ∧ f.anchorAt p = .ok anchor ∧
      f.perform p anchor command options = .ok (some e) := by
  unfold run
  rw [Table.bind_eq_ok_iff]
  constructor
  · rintro ⟨focus, hload, h⟩
    cases focus with
    | none => simp [pure, Except.pure] at h
    | some f =>
      obtain ⟨anchor, hanchor, h⟩ := Table.bind_eq_ok_iff.1 h
      exact ⟨f, anchor, hload, hanchor, h⟩
  · rintro ⟨f, anchor, hload, hanchor, h⟩
    exact ⟨some f, hload, Table.bind_eq_ok_iff.2 ⟨anchor, hanchor, h⟩⟩

end PipeTable
