import PipeTable.Proofs.Navigation.Stop

/-! # Moves over ordered stops

Where stops stand in order, a position belongs to one of them at most, and the moves walk over
the data cells one by one: from a position inside the cell with number `k` the next cell is the
one with number `k + 1`, whatever separator rows lie between. A move to the next row ends in the
last cell that starts at or before the character it came from.
-/

namespace PipeTable

theorem find?_eq_some_of_unique {α : Type} {l : List α} {q : α → Bool} {x : α} (hx : x ∈ l)
    (hq : q x = true) (hunique : ∀ y ∈ l, q y = true → y = x) : l.find? q = some x := by
  cases hfound : l.find? q with
  | none => exact absurd hq (List.find?_eq_none.1 hfound x hx)
  | some y => rw [hunique y (List.mem_of_find?_eq_some hfound) (List.find?_some hfound)]

theorem Stop.isAt_iff {s : Stop} {p : Position} :
    s.isAt p = true ↔
      s.line = p.line ∧ s.span.cellStart ≤ p.character ∧ p.character ≤ s.span.close := by
  simp [isAt, holds]

namespace CellMap

variable {place : Nat → Nat} {m : CellMap} {k : Nat} {p q : Position} {s u : Stop}

theorem Ordered.eq_or_before (h : m.Ordered place) (hs : s ∈ m.stops) (hu : u ∈ m.stops) :
    s = u ∨ s.Before u ∨ u.Before s := by
  obtain ⟨i, hi, rfl⟩ := List.getElem_of_mem hs
  obtain ⟨j, hj, rfl⟩ := List.getElem_of_mem hu
  have hpair := List.pairwise_iff_getElem.1 h.before
  rcases Nat.lt_trichotomy i j with hij | rfl | hij
  · exact .inr (.inl (hpair i j hi hj hij))
  · exact .inl rfl
  · exact .inr (.inr (hpair j i hj hi hij))

theorem Ordered.row_eq_iff (h : m.Ordered place) (hs : s ∈ m.stops) (hu : u ∈ m.stops) :
    s.line = u.line ↔ s.row = u.row := by
  refine ⟨h.apart s hs u hu, fun hrow => ?_⟩
  rw [h.line s hs, h.line u hu, hrow]

theorem Ordered.not_isAt_of_before (h : m.Ordered place) (hs : s ∈ m.stops) (hu : u ∈ m.stops)
    (hbefore : s.Before u) (hp : u.isAt p = true) : ¬ s.isAt p = true := by
  rw [Stop.isAt_iff] at hp ⊢
  intro hp'
  have hrow : s.row = u.row := (h.row_eq_iff hs hu).1 (hp'.1.trans hp.1.symm)
  rcases hbefore with hlt | ⟨-, -, hlt⟩ <;> omega

theorem Ordered.eq_of_isAt (h : m.Ordered place) (hs : s ∈ m.stops) (hu : u ∈ m.stops)
    (hsp : s.isAt p = true) (hup : u.isAt p = true) : s = u := by
  rcases h.eq_or_before hs hu with heq | hbefore | hbefore
  · exact heq
  · exact absurd hsp (h.not_isAt_of_before hs hu hbefore hup)
  · exact absurd hup (h.not_isAt_of_before hu hs hbefore hsp)

theorem Ordered.nodup (h : m.Ordered place) : m.stops.Nodup := by
  refine h.before.imp fun {s u} hbefore heq => ?_
  subst heq
  rcases hbefore with hlt | ⟨-, hlt, -⟩ <;> omega

theorem mem_of_stopAt (h : m.stopAt p = some s) : s ∈ m.stops ∧ s.isAt p = true :=
  ⟨List.mem_of_find?_eq_some h, List.find?_some (p := fun u : Stop => u.isAt p) h⟩

theorem Ordered.stopAt_eq (h : m.Ordered place) (hs : s ∈ m.stops) (hp : s.isAt p = true) :
    m.stopAt p = some s :=
  find?_eq_some_of_unique hs hp fun _ hu hup => h.eq_of_isAt hu hs hup hp

theorem Ordered.eq_of_address (h : m.Ordered place) (hs : s ∈ m.stops) (hu : u ∈ m.stops)
    (haddress : s.address = u.address) : s = u := by
  obtain ⟨hrow, hcol⟩ := CellAddress.mk.inj haddress
  rcases h.eq_or_before hs hu with heq | hbefore | hbefore
  · exact heq
  · rcases hbefore with hlt | ⟨-, hlt, -⟩ <;> omega
  · rcases hbefore with hlt | ⟨-, hlt, -⟩ <;> omega

theorem Ordered.positionOf_eq (h : m.Ordered place) (hs : s ∈ m.cells) :
    m.positionOf s.address = some s.position := by
  obtain ⟨hstop, hdata⟩ := mem_cells.1 hs
  have hfind : m.stops.find? (fun u => !u.isSeparator && u.row == s.row && u.col == s.col) =
      some s := by
    refine find?_eq_some_of_unique hstop (by simp [hdata]) fun u hu hmatch => ?_
    simp only [Bool.and_eq_true, beq_iff_eq] at hmatch
    exact h.eq_of_address hu hstop (CellAddress.mk.injEq .. ▸ ⟨hmatch.1.2, hmatch.2⟩)
  rw [positionOf]
  exact congrArg (Option.map Stop.position) hfind

theorem Ordered.isAt_position (h : m.Ordered place) (hs : s ∈ m.stops) :
    s.isAt s.position = true :=
  Stop.isAt_iff.2 ⟨rfl, h.bounds s hs⟩

theorem exists_split (hk : m.cells[k]? = some s) :
    ∃ before after, m.stops = before ++ s :: after ∧
      (before.filter fun u => !u.isSeparator) = m.cells.take k ∧
      (after.filter fun u => !u.isSeparator) = m.cells.drop (k + 1) := by
  obtain ⟨hlen, rfl⟩ := List.getElem?_eq_some_iff.1 hk
  have hcells : m.cells = m.cells.take k ++ m.cells[k] :: m.cells.drop (k + 1) := by
    rw [List.getElem_cons_drop, List.take_append_drop]
  obtain ⟨l, r, hstops, hl, hr⟩ := List.filter_eq_append_iff.1 hcells
  obtain ⟨between, after, rfl, hnone, -, hafter⟩ := List.filter_eq_cons_iff.1 hr
  refine ⟨l ++ between, after, by rw [hstops, List.append_assoc], ?_, hafter⟩
  rw [List.filter_append, hl, List.filter_eq_nil_iff.2 hnone, List.append_nil]

theorem Ordered.indexAt_eq (h : m.Ordered place) {before after : List Stop}
    (hstops : m.stops = before ++ s :: after) (hp : s.isAt p = true) :
    m.indexAt p = some before.length := by
  have hs : s ∈ m.stops := by simp [hstops]
  have hnone : before.findIdx? (fun u => u.isAt p) = none := by
    rw [List.findIdx?_eq_none_iff]
    intro u hu
    have hbefore : u.Before s := by
      have hpair := h.before
      rw [hstops, List.pairwise_append] at hpair
      exact hpair.2.2 u hu s List.mem_cons_self
    have hu : u ∈ m.stops := by simp [hstops, hu]
    exact Bool.eq_false_iff.2 (h.not_isAt_of_before hu hs hbefore hp)
  rw [indexAt, hstops, List.findIdx?_append, hnone, List.findIdx?_cons, if_pos hp]
  simp

theorem cellAfter_eq {before after : List Stop} (hstops : m.stops = before ++ s :: after)
    (hafter : (after.filter fun u => !u.isSeparator) = m.cells.drop (k + 1)) :
    m.cellAfter before.length = m.cells[k + 1]? := by
  rw [cellAfter, hstops, List.drop_length_add_append, List.drop_succ_cons, List.drop_zero,
    ← List.head?_filter, hafter, List.head?_drop]

section Walk

variable (h : m.Ordered place) (hk : m.cells[k]? = some s) (hp : s.isAt p = true)

include h hk hp

theorem Ordered.nextCell_eq : m.nextCell p = m.cells[k + 1]?.map Stop.position := by
  obtain ⟨before, after, hstops, -, hafter⟩ := exists_split hk
  simp only [nextCell, h.indexAt_eq hstops hp, cellAfter_eq hstops hafter]

theorem Ordered.previousCell_eq :
    m.previousCell p = if k = 0 then none else m.cells[k - 1]?.map Stop.position := by
  obtain ⟨before, after, hstops, hbefore, -⟩ := exists_split hk
  have hprevious : m.cellBefore before.length = (m.cells.take k).getLast? := by
    rw [cellBefore, hstops, List.take_left, ← List.head?_filter, List.filter_reverse, hbefore,
      List.head?_reverse]
  simp only [previousCell, h.indexAt_eq hstops hp, hprevious, List.getLast?_take]
  split
  · rfl
  · have hlt : k - 1 < m.cells.length := by
      have := (List.getElem?_eq_some_iff.1 hk).1
      omega
    rw [List.getElem?_eq_getElem hlt]
    rfl

theorem Ordered.isLastCell_eq : m.isLastCell p = decide (k + 1 = m.cells.length) := by
  obtain ⟨before, after, hstops, -, hafter⟩ := exists_split hk
  obtain ⟨hs, hdata⟩ := mem_cells.1 (List.mem_of_getElem? hk)
  have hlen := (List.getElem?_eq_some_iff.1 hk).1
  simp only [isLastCell, h.indexAt_eq hstops hp, h.stopAt_eq hs hp, cellAfter_eq hstops hafter,
    hdata, Bool.not_false, Bool.true_and]
  rw [Bool.eq_iff_iff, Option.isNone_iff_eq_none, List.getElem?_eq_none_iff, decide_eq_true_eq]
  omega

end Walk

theorem exists_of_positionOf {a : CellAddress} (h : m.positionOf a = some q) :
    ∃ s ∈ m.cells, s.address = a ∧ q = s.position := by
  obtain ⟨s, hs, rfl⟩ := Option.map_eq_some_iff.1 h
  have hmatch := List.find?_some hs
  simp only [Bool.and_eq_true, Bool.not_eq_true', beq_iff_eq] at hmatch
  refine ⟨s, mem_cells.2 ⟨List.mem_of_find?_eq_some hs, hmatch.1.1⟩, ?_, rfl⟩
  rw [Stop.address, hmatch.1.2, hmatch.2]

theorem mem_cellsOnLine {line : Nat} : s ∈ m.cellsOnLine line ↔ s ∈ m.cells ∧ s.line = line := by
  rw [cellsOnLine, List.mem_filter, mem_cells, Bool.and_eq_true, beq_iff_eq, Bool.not_eq_true',
    and_assoc, and_comm (a := s.line = line)]

theorem mem_cells_of_nearest (h : m.nearest p = some s) : s ∈ m.cells ∧ s.line = p.line := by
  apply mem_cellsOnLine.1
  rcases Option.or_eq_some_iff.1 h with h | ⟨-, h⟩
  · exact List.mem_of_find?_eq_some h
  · exact List.mem_of_head? h

theorem exists_nearest (hs : s ∈ m.cells) (hline : s.line = p.line) :
    ∃ u, m.nearest p = some u := by
  have hmem : s ∈ m.cellsOnLine p.line := mem_cellsOnLine.2 ⟨hs, hline⟩
  obtain ⟨first, others, hcells⟩ := List.exists_cons_of_ne_nil (List.ne_nil_of_mem hmem)
  rw [nearest, hcells]
  cases (first :: others).find? fun s => p.character < s.span.start with
  | none => exact ⟨first, rfl⟩
  | some u => exact ⟨u, rfl⟩

theorem exists_of_nextCell (h : m.nextCell p = some q) : ∃ s ∈ m.cells, q = s.position := by
  unfold nextCell at h
  split at h
  · obtain ⟨s, hs, rfl⟩ := Option.map_eq_some_iff.1 h
    have hdata := List.find?_some hs
    have hmem := List.mem_of_mem_drop (List.mem_of_find?_eq_some hs)
    exact ⟨s, List.mem_filter.2 ⟨hmem, hdata⟩, rfl⟩
  · obtain ⟨s, hs, rfl⟩ := Option.map_eq_some_iff.1 h
    exact ⟨s, (mem_cells_of_nearest hs).1, rfl⟩

theorem exists_of_previousCell (h : m.previousCell p = some q) :
    ∃ s ∈ m.cells, q = s.position := by
  unfold previousCell at h
  split at h
  · obtain ⟨s, hs, rfl⟩ := Option.map_eq_some_iff.1 h
    have hdata := List.find?_some hs
    have hmem := List.mem_of_mem_take (List.mem_reverse.1 (List.mem_of_find?_eq_some hs))
    exact ⟨s, List.mem_filter.2 ⟨hmem, hdata⟩, rfl⟩
  · obtain ⟨s, hs, rfl⟩ := Option.map_eq_some_iff.1 h
    exact ⟨s, (mem_cells_of_nearest hs).1, rfl⟩

/-- `s` is the last of the stops that start at or before the character, if there is one. -/
structure LastFrom (all : List Stop) (character : Nat) (s : Stop) : Prop where
  mem : s ∈ all
  last : ∀ u ∈ all, u.span.cellStart ≤ character →
    s.span.cellStart ≤ character ∧ (u = s ∨ u.Before s)

section Line

variable {line : Nat} {first : Stop} {others : List Stop}

theorem lastFrom_of_getLast? {all : List Stop} (hpair : all.Pairwise Stop.Before)
    (hfirst : first ∈ all) (character : Nat) :
    LastFrom all character
      ((all.filter fun s => s.span.cellStart ≤ character).getLast?.getD first) := by
  cases hlast : (all.filter fun s => s.span.cellStart ≤ character).getLast? with
  | none =>
    refine ⟨hfirst, fun u hu hle => ?_⟩
    rw [List.getLast?_eq_none_iff, List.filter_eq_nil_iff] at hlast
    exact absurd (decide_eq_true hle) (hlast u hu)
  | some s =>
    obtain ⟨before, hbefore⟩ := List.getLast?_eq_some_iff.1 hlast
    have hmem {u : Stop} : u ∈ before ++ [s] ↔ u ∈ all ∧ u.span.cellStart ≤ character := by
      rw [← hbefore, List.mem_filter, decide_eq_true_eq]
    obtain ⟨hs, hle⟩ := hmem.1 (List.mem_append_right before List.mem_cons_self)
    refine ⟨hs, fun u hu hule => ⟨hle, ?_⟩⟩
    have hordered := hpair.filter fun s => decide (s.span.cellStart ≤ character)
    rw [hbefore, List.pairwise_append] at hordered
    rcases List.mem_append.1 (hmem.2 ⟨hu, hule⟩) with hu | hu
    · exact .inr (hordered.2.2 u hu s List.mem_cons_self)
    · exact .inl (List.mem_singleton.1 hu)

/-- On its line a character belongs to the last cell that starts at or before it. -/
theorem Ordered.lastFrom_columnOnLine (h : m.Ordered place)
    (hall : (m.stops.filter fun s => s.line == line) = first :: others) (character : Nat) :
    LastFrom (first :: others) character
      (m.columnOnLine line character first (first :: others)) := by
  cases hstop : m.stopAt ⟨line, character⟩ with
  | none =>
    have hpair : (first :: others).Pairwise Stop.Before := hall ▸ h.before.filter _
    rw [columnOnLine, hstop, Option.none_or]
    exact lastFrom_of_getLast? hpair List.mem_cons_self character
  | some s =>
    rw [columnOnLine, hstop, Option.some_or, Option.getD_some]
    have hmem {u : Stop} : u ∈ first :: others ↔ u ∈ m.stops ∧ u.line = line := by
      rw [← hall, List.mem_filter, beq_iff_eq]
    obtain ⟨hs, hat⟩ := mem_of_stopAt hstop
    obtain ⟨hline, hstart, hclose⟩ := Stop.isAt_iff.1 hat
    refine ⟨hmem.2 ⟨hs, hline⟩, fun u hu hle => ⟨hstart, ?_⟩⟩
    obtain ⟨hu, huline⟩ := hmem.1 hu
    rcases h.eq_or_before hu hs with heq | hbefore | hbefore
    · exact .inl heq
    · exact .inr hbefore
    · -- a cell further right starts behind the one that holds the character
      have hrow : s.row = u.row := (h.row_eq_iff hs hu).1 (hline.trans huline.symm)
      rcases hbefore with hlt | ⟨-, -, hlt⟩
      · omega
      · exact absurd (Nat.lt_of_lt_of_le hlt hle) (Nat.not_lt.2 hclose)

theorem Ordered.lastFrom_self (h : m.Ordered place) (hs : s ∈ m.cells) :
    LastFrom (m.cells.filter fun u => u.row == s.row) s.span.start s := by
  have hstop := (mem_cells.1 hs).1
  have hbounds := h.bounds s hstop
  refine ⟨List.mem_filter.2 ⟨hs, beq_iff_eq.2 rfl⟩, fun u hu hle => ⟨hbounds.1, ?_⟩⟩
  obtain ⟨hu, hrow⟩ := List.mem_filter.1 hu
  rcases h.eq_or_before (mem_cells.1 hu).1 hstop with heq | hbefore | hbefore
  · exact .inl heq
  · exact .inr hbefore
  · have hrow : u.row = s.row := beq_iff_eq.1 hrow
    rcases hbefore with hlt | ⟨-, -, hlt⟩ <;> omega

end Line

section Search

variable {below : Nat → Nat} {character line row target : Nat} {left others : List Stop}
  {first : Stop}

theorem nextRowFrom_nil (hall : (left.filter fun s => s.line == line) = []) :
    m.nextRowFrom below character left line = none := by
  rw [nextRowFrom]
  split
  · rfl
  · next hcons => simp [hall] at hcons

theorem nextRowFrom_cons (hall : (left.filter fun s => s.line == line) = first :: others) :
    m.nextRowFrom below character left line =
      if first.isSeparator then
        m.nextRowFrom below character (offLine left line) (below line)
      else some (m.columnOnLine line character first (first :: others)).position := by
  rw [nextRowFrom]
  split
  · next hnil => simp [hall] at hnil
  · next f os hcons =>
    obtain ⟨rfl, rfl⟩ := List.cons.inj (hall.symm.trans hcons)
    rfl

theorem Ordered.columnOnLine_mem_cells (h : m.Ordered place)
    (hall : ∀ u ∈ first :: others, u ∈ m.stops ∧ u.line = line)
    (hfirst : first.isSeparator = false) :
    m.columnOnLine line character first (first :: others) ∈ m.cells := by
  obtain ⟨hmem, hline⟩ := hall first List.mem_cons_self
  have hcell {u : Stop} (hu : u ∈ m.stops) (huline : u.line = line) : u ∈ m.cells := by
    have hrow : u.row = first.row := (h.row_eq_iff hu hmem).1 (huline.trans hline.symm)
    exact mem_cells.2 ⟨hu, (h.kind u hu first hmem hrow).trans hfirst⟩
  unfold columnOnLine
  dsimp only
  cases hstop : m.stopAt ⟨line, character⟩ with
  | some s =>
    obtain ⟨hs, hat⟩ := mem_of_stopAt hstop
    exact hcell hs (Stop.isAt_iff.1 hat).1
  | none =>
    rw [Option.none_or]
    cases hlast : ((first :: others).filter fun s => s.span.cellStart ≤ character).getLast? with
    | none => exact hcell hmem hline
    | some s =>
      obtain ⟨hs, hsline⟩ := hall s (List.mem_of_mem_filter (List.mem_of_getLast? hlast))
      exact hcell hs hsline

theorem nextRowFrom_congr {under : Nat → Nat} (h : ∀ s ∈ left, below s.line = under s.line) :
    m.nextRowFrom below character left line = m.nextRowFrom under character left line := by
  induction left, line using nextRowFrom.induct below with
  | case1 left line hall => rw [nextRowFrom_nil hall, nextRowFrom_nil hall]
  | case2 left line first others hall hsep ih =>
    obtain ⟨hfirst, hline⟩ := List.mem_filter.1 (hall ▸ List.mem_cons_self)
    rw [nextRowFrom_cons hall, nextRowFrom_cons hall, if_pos hsep, if_pos hsep,
      ih fun s hs => h s (List.mem_of_mem_filter hs), ← beq_iff_eq.1 hline, h first hfirst]
  | case3 left line first others hall hdata =>
    rw [nextRowFrom_cons hall, nextRowFrom_cons hall, if_neg hdata, if_neg hdata]

theorem Ordered.exists_of_nextRowFrom (h : m.Ordered place) (hleft : ∀ s ∈ left, s ∈ m.stops)
    (hq : m.nextRowFrom below character left line = some q) : ∃ s ∈ m.cells, q = s.position := by
  induction left, line using nextRowFrom.induct below with
  | case1 left line hall =>
    rw [nextRowFrom_nil hall] at hq
    cases hq
  | case2 left line first others hall hsep ih =>
    rw [nextRowFrom_cons hall, if_pos hsep] at hq
    exact ih (fun s hs => hleft s (List.mem_of_mem_filter hs)) hq
  | case3 left line first others hall hdata =>
    rw [nextRowFrom_cons hall, if_neg hdata, Option.some.injEq] at hq
    refine ⟨_, h.columnOnLine_mem_cells (fun u hu => ?_) (Bool.not_eq_true _ ▸ hdata), hq.symm⟩
    rw [← hall, List.mem_filter, beq_iff_eq] at hu
    exact hu.imp_left (hleft u)

theorem Ordered.filter_line_eq (h : m.Ordered place) (hrow : ∃ s ∈ m.cells, s.row = row) :
    (m.stops.filter fun s => s.line == place row) = m.cells.filter fun s => s.row == row := by
  obtain ⟨s, hs, rfl⟩ := hrow
  obtain ⟨hs, hdata⟩ := mem_cells.1 hs
  rw [cells, List.filter_filter]
  refine List.filter_congr fun u hu => ?_
  rw [← h.line s hs, Bool.eq_iff_iff, Bool.and_eq_true, beq_iff_eq, beq_iff_eq,
    h.row_eq_iff hu hs]
  exact ⟨fun hurow => ⟨hurow, by rw [h.kind u hu s hs hurow, hdata, Bool.not_false]⟩, And.left⟩

theorem exists_filter_eq_cons {q : Stop → Bool} {stops : List Stop} (hu : u ∈ stops)
    (hq : q u = true) :
    ∃ first others, stops.filter q = first :: others ∧ first ∈ stops ∧ q first = true := by
  obtain ⟨first, others, hall⟩ :=
    List.exists_cons_of_ne_nil (List.ne_nil_of_mem (List.mem_filter.2 ⟨hu, hq⟩))
  have hfirst : first ∈ stops.filter q := hall ▸ List.mem_cons_self
  exact ⟨first, others, hall, List.mem_filter.1 hfirst⟩

/-- Of the rows from `row` to `target` all stops are left. -/
def HasLeft (m : CellMap) (place : Nat → Nat) (row target : Nat) (left : List Stop) : Prop :=
  ∀ i, row ≤ i → i ≤ target →
    (left.filter fun s => s.line == place i) = m.stops.filter fun s => s.line == place i

theorem hasLeft_stops (m : CellMap) (place : Nat → Nat) (row target : Nat) :
    m.HasLeft place row target m.stops := fun _ _ _ => rfl

theorem HasLeft.pass (h : m.HasLeft place row target left)
    (hnumbers : Numbering (target + 1) place below)
    (hlt : row < target) :
    m.HasLeft place (row + 1) target (offLine left (place row)) := by
  intro i hi hle
  rw [← h i (Nat.le_of_succ_le hi) hle, offLine, List.filter_filter]
  refine List.filter_congr fun s _ => ?_
  rw [Bool.eq_iff_iff, Bool.and_eq_true, beq_iff_eq, bne_iff_ne, and_iff_left_iff_imp]
  intro hline hrow
  have hsame := hnumbers.apart i (Nat.lt_succ_of_le hle) row (Nat.lt_succ_of_lt hlt)
    (hline.symm.trans hrow)
  omega

theorem Ordered.nextRowFrom_separator (h : m.Ordered place) {bound : Nat}
    (hnumbers : Numbering bound place below) (hleft : m.HasLeft place row target left)
    (hle : row ≤ target) (hrow : ∃ s ∈ m.stops, s.row = row ∧ s.isSeparator = true) :
    m.nextRowFrom below character left (place row) =
      m.nextRowFrom below character (offLine left (place row)) (place (row + 1)) := by
  obtain ⟨s, hs, rfl, hsep⟩ := hrow
  obtain ⟨first, others, hall, hfirst, hline⟩ :=
    exists_filter_eq_cons (q := fun u => u.line == place s.row) hs (beq_iff_eq.2 (h.line s hs))
  have hsame : first.row = s.row :=
    (h.row_eq_iff hfirst hs).1 ((beq_iff_eq.1 hline).trans (h.line s hs).symm)
  rw [nextRowFrom_cons ((hleft _ (Nat.le_refl _) hle).trans hall),
    if_pos ((h.kind first hfirst s hs hsame).trans hsep), hnumbers.below_place]

theorem Ordered.exists_nextRowFrom_data (h : m.Ordered place)
    (hleft : m.HasLeft place row row left) (hrow : ∃ s ∈ m.cells, s.row = row) :
    ∃ s, m.nextRowFrom below character left (place row) = some s.position ∧
      LastFrom (m.cells.filter fun s => s.row == row) character s := by
  have hall := h.filter_line_eq hrow
  obtain ⟨u, hu, hurow⟩ := hrow
  obtain ⟨first, others, hcons, hfirst, -⟩ :=
    exists_filter_eq_cons (q := fun u => u.row == row) hu (beq_iff_eq.2 hurow)
  rw [hcons] at hall ⊢
  refine ⟨_, ?_, h.lastFrom_columnOnLine hall character⟩
  rw [nextRowFrom_cons ((hleft row (Nat.le_refl _) (Nat.le_refl _)).trans hall),
    (mem_cells.1 hfirst).2]
  rfl

/-- Separator rows above `target` are passed over one by one. -/
theorem Ordered.exists_nextRowFrom_eq (h : m.Ordered place) (character : Nat)
    (hnumbers : Numbering (target + 1) place below)
    (hleft : m.HasLeft place row target left) (hle : row ≤ target)
    (hskip : ∀ i, row ≤ i → i < target → ∃ s ∈ m.stops, s.row = i ∧ s.isSeparator = true) :
    ∃ left', m.HasLeft place target target left' ∧
      m.nextRowFrom below character left (place row) =
        m.nextRowFrom below character left' (place target) := by
  obtain ⟨n, rfl⟩ := Nat.exists_eq_add_of_le hle
  induction n generalizing row left with
  | zero => exact ⟨left, hleft, rfl⟩
  | succ n ih =>
    have heq : row + (n + 1) = row + 1 + n := by omega
    rw [h.nextRowFrom_separator hnumbers hleft hle (hskip row (Nat.le_refl row) (by omega))]
    have hpass := hleft.pass hnumbers (by omega)
    rw [heq] at hpass hnumbers hskip ⊢
    exact ih hnumbers hpass (Nat.le_add_right _ _) fun i hi => hskip i (by omega)

/-- The next row is the first one below with data cells, and the cell in it the last one that
starts at or before the character. -/
theorem Ordered.exists_nextRowFrom (h : m.Ordered place) (character : Nat)
    (hnumbers : Numbering (target + 1) place below)
    (hleft : m.HasLeft place row target left) (hle : row ≤ target)
    (hskip : ∀ i, row ≤ i → i < target → ∃ s ∈ m.stops, s.row = i ∧ s.isSeparator = true)
    (htarget : ∃ s ∈ m.cells, s.row = target) :
    ∃ s, m.nextRowFrom below character left (place row) = some s.position ∧
      LastFrom (m.cells.filter fun s => s.row == target) character s := by
  obtain ⟨left', hleft', heq⟩ := h.exists_nextRowFrom_eq character hnumbers hleft hle hskip
  rw [heq]
  exact h.exists_nextRowFrom_data hleft' htarget

theorem Ordered.nextRowFrom_eq_none (h : m.Ordered place)
    (hnumbers : Numbering (target + 1) place below)
    (hleft : m.HasLeft place row target left) (hle : row ≤ target)
    (hskip : ∀ i, row ≤ i → i < target → ∃ s ∈ m.stops, s.row = i ∧ s.isSeparator = true)
    (hend : ∀ s ∈ m.stops, s.line ≠ place target) :
    m.nextRowFrom below character left (place row) = none := by
  obtain ⟨left', hleft', heq⟩ := h.exists_nextRowFrom_eq character hnumbers hleft hle hskip
  rw [heq]
  apply nextRowFrom_nil
  rw [hleft' target (Nat.le_refl _) (Nat.le_refl _), List.filter_eq_nil_iff]
  exact fun s hs => by simpa using hend s hs

end Search

end CellMap

end PipeTable
