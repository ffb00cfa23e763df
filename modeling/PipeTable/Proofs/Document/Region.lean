import PipeTable.Document.Replacement

/-! # Regions as runs

A document is taken apart into single lines outside all tables and runs of table lines that end
before a line of another kind or at the end of the document. Each run gives exactly one region,
and looking outwards from its first line finds the same region again. Other lines in its place
move the regions below and leave those above alone.
-/

namespace PipeTable

namespace Region

theorem runLength_cons_of_not_tableLine {l : Text} (h : isTableLine l = false) (ls : List Text) :
    runLength (l :: ls) = 0 := by
  rw [runLength, List.takeWhile_cons_of_neg (by simp [h])]
  rfl

theorem isTableLine_of_runLength_eq_zero {l : Text} {ls : List Text}
    (h : runLength (l :: ls) = 0) : isTableLine l = false := by
  cases hl : isTableLine l with
  | false => rfl
  | true =>
    rw [runLength, List.takeWhile_cons_of_pos hl] at h
    cases h

theorem runLength_append {run : List Text} (h : ∀ l ∈ run, isTableLine l = true)
    (rest : List Text) : runLength (run ++ rest) = run.length + runLength rest := by
  rw [runLength, List.takeWhile_append_of_pos h, List.length_append, runLength]

theorem runLength_of_tableLines {run : List Text} (h : ∀ l ∈ run, isTableLine l = true) :
    runLength run = run.length := by
  have hlen := runLength_append h []
  rwa [List.append_nil] at hlen

theorem runLength_of_append {ls ms : List Text} (h : runLength (ls ++ ms) = 0) :
    runLength ls = 0 := by
  cases ls with
  | nil => rfl
  | cons l ls => exact runLength_cons_of_not_tableLine (isTableLine_of_runLength_eq_zero h) ls

theorem runLength_append_eq_zero {ls ms : List Text} (hls : runLength ls = 0)
    (hms : ls = [] → runLength ms = 0) : runLength (ls ++ ms) = 0 := by
  cases ls with
  | nil => exact hms rfl
  | cons l ls => exact runLength_cons_of_not_tableLine (isTableLine_of_runLength_eq_zero hls) _

theorem exists_run (ls : List Text) : ∃ run rest, ls = run ++ rest ∧
    (∀ l ∈ run, isTableLine l = true) ∧ runLength rest = 0 := by
  refine ⟨ls.takeWhile isTableLine, ls.dropWhile isTableLine,
    List.takeWhile_append_dropWhile.symm, List.all_eq_true.1 List.all_takeWhile, ?_⟩
  have h := List.head?_dropWhile_not isTableLine ls
  cases hrest : ls.dropWhile isTableLine with
  | nil => rfl
  | cons l rest =>
    rw [hrest] at h
    exact runLength_cons_of_not_tableLine (by simpa using h) rest

/-- Induction on a document by its lines outside tables and its runs of table lines. -/
theorem run_induction {motive : List Text → Prop} (nil : motive [])
    (line : ∀ l ls, isTableLine l = false → motive ls → motive (l :: ls))
    (run : ∀ l ls rest, (∀ m ∈ l :: ls, isTableLine m = true) → runLength rest = 0 →
      motive rest → motive (l :: ls ++ rest))
    (doc : List Text) : motive doc := by
  induction hlen : doc.length using Nat.strongRecOn generalizing doc with
  | ind n ih =>
    cases doc with
    | nil => exact nil
    | cons l ls =>
      have hlen' : ls.length + 1 = n := hlen
      cases hl : isTableLine l with
      | false => exact line l ls hl (ih _ (by omega) ls rfl)
      | true =>
        obtain ⟨table, rest, rfl, htable, hrest⟩ := exists_run ls
        rw [List.length_append] at hlen'
        apply run l table rest _ hrest (ih _ (by omega) rest rfl)
        exact List.forall_mem_cons.2 ⟨hl, htable⟩

theorem mem_prependLine {n : Nat} {r : Region} {rs : List Region} (h : r ∈ prependLine n rs) :
    r.startLine = n ∨ r ∈ rs := by
  unfold prependLine at h
  split at h
  · exact .inl (by rw [List.mem_singleton.1 h])
  · split at h
    · rcases List.mem_cons.1 h with rfl | h
      · exact .inl rfl
      · exact .inr (List.mem_cons_of_mem _ h)
    · rcases List.mem_cons.1 h with rfl | h
      · exact .inl rfl
      · exact .inr h

theorem le_startLine {n : Nat} {ls : List Text} {r : Region} (h : r ∈ regionsFrom n ls) :
    n ≤ r.startLine := by
  induction ls generalizing n with
  | nil => cases h
  | cons l ls ih =>
    unfold regionsFrom at h
    split at h
    · rcases mem_prependLine h with h | h
      · exact Nat.le_of_eq h.symm
      · exact Nat.le_of_succ_le (ih h)
    · exact Nat.le_of_succ_le (ih h)

theorem regionsFrom_cons_of_not_tableLine {l : Text} (h : isTableLine l = false) (n : Nat)
    (ls : List Text) : regionsFrom n (l :: ls) = regionsFrom (n + 1) ls := by
  rw [regionsFrom, if_neg (by simp [h])]

theorem regionsFrom_cons_of_tableLine {l : Text} (h : isTableLine l = true) (n : Nat)
    (ls : List Text) : regionsFrom n (l :: ls) = prependLine n (regionsFrom (n + 1) ls) := by
  rw [regionsFrom, if_pos h]

theorem prependLine_regionsFrom {rest : List Text} (h : runLength rest = 0) (n : Nat) :
    prependLine n (regionsFrom (n + 1) rest) = ⟨n, n⟩ :: regionsFrom (n + 1) rest := by
  cases rest with
  | nil => rfl
  | cons l ls =>
    rw [regionsFrom_cons_of_not_tableLine (isTableLine_of_runLength_eq_zero h)]
    cases hregions : regionsFrom (n + 1 + 1) ls with
    | nil => rfl
    | cons r rs =>
      have hstart : n + 1 + 1 ≤ r.startLine := le_startLine (hregions ▸ List.mem_cons_self)
      rw [prependLine, if_neg (Nat.ne_of_gt hstart)]

theorem regionsFrom_run {l : Text} {ls rest : List Text}
    (hrun : ∀ m ∈ l :: ls, isTableLine m = true) (hrest : runLength rest = 0) (n : Nat) :
    regionsFrom n (l :: ls ++ rest) =
      ⟨n, n + ls.length⟩ :: regionsFrom (n + ls.length + 1) rest := by
  obtain ⟨hl, hls⟩ := List.forall_mem_cons.1 hrun
  rw [List.cons_append, regionsFrom_cons_of_tableLine hl]
  induction ls generalizing n l with
  | nil => exact prependLine_regionsFrom hrest n
  | cons m ms ih =>
    obtain ⟨hm, hms⟩ := List.forall_mem_cons.1 hls
    rw [List.cons_append, regionsFrom_cons_of_tableLine hm, ih hls (n + 1) hm hms, prependLine,
      if_pos rfl, List.length_cons]
    simp only [Nat.add_assoc, Nat.add_comm 1]

theorem regionsFrom_run_append {run rest : List Text} (hne : run ≠ [])
    (hrun : ∀ l ∈ run, isTableLine l = true) (hrest : runLength rest = 0) (n : Nat) :
    regionsFrom n (run ++ rest) =
      ⟨n, n + run.length - 1⟩ :: regionsFrom (n + run.length) rest := by
  obtain ⟨l, ls, rfl⟩ := List.exists_cons_of_ne_nil hne
  exact regionsFrom_run hrun hrest n

/-- Lines have the same regions behind other ones, if no run goes on across the boundary. -/
theorem regionsFrom_append (pre ls : List Text) (n : Nat)
    (h : runLength pre.reverse = 0 ∨ runLength ls = 0) :
    regionsFrom n (pre ++ ls) = regionsFrom n pre ++ regionsFrom (n + pre.length) ls := by
  induction pre using run_induction generalizing n with
  | nil => rfl
  | line l pre hl ih =>
    have h' : runLength pre.reverse = 0 ∨ runLength ls = 0 :=
      h.imp_left fun h => runLength_of_append (List.reverse_cons ▸ h)
    rw [List.cons_append, regionsFrom_cons_of_not_tableLine hl,
      regionsFrom_cons_of_not_tableLine hl, ih (n + 1) h', List.length_cons]
    simp only [Nat.add_assoc, Nat.add_comm 1]
  | run l run rest hrun hrest ih =>
    have h' : runLength rest.reverse = 0 ∨ runLength ls = 0 :=
      h.imp_left fun h => runLength_of_append (List.reverse_append ▸ h)
    have hnext : runLength (rest ++ ls) = 0 := by
      refine runLength_append_eq_zero hrest fun hnil => h.resolve_left fun hpre => ?_
      rw [hnil, List.append_nil, runLength_of_tableLines fun m hm => hrun m (List.mem_reverse.1 hm),
        List.length_reverse] at hpre
      cases hpre
    rw [List.append_assoc, regionsFrom_run hrun hnext, regionsFrom_run hrun hrest, ih _ h',
      List.cons_append]
    simp only [List.length_append, List.length_cons, Nat.add_assoc, Nat.add_comm 1]

/-- The region with another number of lines. -/
def resize (r : Region) (count : Nat) : Region := ⟨r.startLine, r.startLine + count - 1⟩

/-- The region once `old` lines above it have given way to `new` ones. -/
def shift (old new : Nat) (r : Region) : Region :=
  ⟨r.startLine - old + new, r.endLine - old + new⟩

theorem prependLine_shift (n old new : Nat) (rs : List Region) :
    prependLine (n + new) (rs.map (shift old new)) =
      (prependLine (n + old) rs).map (shift old new) := by
  have hline : shift old new ⟨n + old, n + old⟩ = ⟨n + new, n + new⟩ := by
    simp [shift]
  cases rs with
  | nil => rw [prependLine, List.map_cons, hline]; rfl
  | cons r rs =>
    rw [List.map_cons, prependLine, prependLine]
    by_cases hr : r.startLine = n + old + 1
    · have hr' : (shift old new r).startLine = n + new + 1 := by
        simp only [shift]
        omega
      rw [if_pos hr, if_pos hr', List.map_cons, List.cons.injEq, and_iff_left rfl]
      simp [shift]
    · have hr' : (shift old new r).startLine ≠ n + new + 1 := by
        simp only [shift]
        omega
      rw [if_neg hr, if_neg hr', List.map_cons, List.map_cons, hline]

theorem regionsFrom_shift (ls : List Text) (n old new : Nat) :
    regionsFrom (n + new) ls = (regionsFrom (n + old) ls).map (shift old new) := by
  induction ls generalizing n with
  | nil => rfl
  | cons l ls ih =>
    have hnext := ih (n + 1)
    rw [Nat.add_right_comm n 1 new, Nat.add_right_comm n 1 old] at hnext
    cases hl : isTableLine l with
    | false =>
      rw [regionsFrom_cons_of_not_tableLine hl, regionsFrom_cons_of_not_tableLine hl, hnext]
    | true =>
      rw [regionsFrom_cons_of_tableLine hl, regionsFrom_cons_of_tableLine hl, hnext,
        prependLine_shift]

/-- Table lines between lines that do not continue them. -/
structure IsRun (pre run rest : List Text) : Prop where
  above : runLength pre.reverse = 0
  tableLines : ∀ l ∈ run, isTableLine l = true
  below : runLength rest = 0

section Lookup

variable {pre run rest doc : List Text}

theorem IsRun.replace (h : IsRun pre run rest) {lines : List Text}
    (hlines : ∀ l ∈ lines, isTableLine l = true) : IsRun pre lines rest :=
  ⟨h.above, hlines, h.below⟩

/-- A run stays one below further lines, unless it starts right below table lines. -/
theorem IsRun.append_left (h : IsRun pre run rest) (ms : List Text)
    (hms : pre = [] → runLength ms.reverse = 0) : IsRun (ms ++ pre) run rest where
  above := by
    rw [List.reverse_append]
    exact runLength_append_eq_zero h.above fun hnil => hms (List.reverse_eq_nil_iff.1 hnil)
  tableLines := h.tableLines
  below := h.below

theorem IsRun.locate (h : IsRun pre run rest) {i : Nat} (hi : i < run.length) :
    locate (pre ++ (run ++ rest)) (pre.length + i) =
      some ⟨pre.length, pre.length + run.length - 1⟩ := by
  have hline : (pre ++ (run ++ rest))[pre.length + i]? = some run[i] := by
    rw [List.getElem?_append_right (Nat.le_add_right _ _), Nat.add_sub_cancel_left,
      List.getElem?_append_left hi, List.getElem?_eq_getElem hi]
  have habove : (pre ++ (run ++ rest)).take (pre.length + i) = pre ++ run.take i := by
    rw [List.take_length_add_append, List.take_append_of_le_length (Nat.le_of_lt hi)]
  have hbelow : (pre ++ (run ++ rest)).drop (pre.length + i + 1) = run.drop (i + 1) ++ rest := by
    rw [Nat.add_assoc, List.drop_length_add_append, List.drop_append_of_le_length hi]
  unfold Region.locate
  rw [hline]
  simp only [if_pos (h.tableLines _ (List.getElem_mem hi))]
  rw [habove, hbelow, List.reverse_append, runLength_append, runLength_append, h.above, h.below]
  · simp only [List.length_reverse, List.length_take, List.length_drop, Option.some.injEq,
      mk.injEq]
    omega
  · exact fun l hl => h.tableLines l (List.mem_of_mem_drop hl)
  · exact fun l hl => h.tableLines l (List.mem_of_mem_take (List.mem_reverse.1 hl))

theorem locate_eq_none_iff {line : Nat} :
    locate doc line = none ↔ ∀ l, doc[line]? = some l → isTableLine l = false := by
  unfold Region.locate
  cases doc[line]? with
  | none => simp
  | some l => by_cases hl : isTableLine l = true <;> simp [hl]

theorem exists_run_of_locate {line : Nat} {r : Region} (h : locate doc line = some r) :
    ∃ pre run rest i, IsRun pre run rest ∧ i < run.length ∧ doc = pre ++ (run ++ rest) ∧
      line = pre.length + i ∧ r = ⟨pre.length, pre.length + run.length - 1⟩ := by
  obtain ⟨l, hl, htable⟩ : ∃ l, doc[line]? = some l ∧ isTableLine l = true := by
    unfold locate at h
    cases hl : doc[line]? with
    | none => simp [hl] at h
    | some l =>
      cases htable : isTableLine l with
      | false => simp [hl, htable] at h
      | true => exact ⟨l, rfl, htable⟩
  obtain ⟨hline, hget⟩ := List.getElem?_eq_some_iff.1 hl
  obtain ⟨up, top, hup, huplines, htop⟩ := exists_run (doc.take line).reverse
  obtain ⟨down, rest, hdown, hdownlines, hrest⟩ := exists_run (doc.drop (line + 1))
  have habove : doc.take line = top.reverse ++ up.reverse := by
    rw [← List.reverse_append, ← hup, List.reverse_reverse]
  have hlen : line = top.reverse.length + up.length := by
    have := congrArg List.length habove
    simp only [List.length_take, List.length_append, List.length_reverse] at this ⊢
    omega
  have hrun : IsRun top.reverse (up.reverse ++ l :: down) rest := by
    refine ⟨by rwa [List.reverse_reverse], fun m hm => ?_, hrest⟩
    rcases List.mem_append.1 hm with hm | hm
    · exact huplines m (List.mem_reverse.1 hm)
    · rcases List.mem_cons.1 hm with rfl | hm
      · exact htable
      · exact hdownlines m hm
  have hdoc : doc = top.reverse ++ ((up.reverse ++ l :: down) ++ rest) := by
    calc doc = doc.take line ++ (l :: doc.drop (line + 1)) := by
          rw [← hget, List.getElem_cons_drop, List.take_append_drop]
      _ = top.reverse ++ ((up.reverse ++ l :: down) ++ rest) := by
          rw [habove, hdown]
          simp
  have hi : up.length < (up.reverse ++ l :: down).length := by simp
  refine ⟨_, _, _, up.length, hrun, hi, hdoc, hlen, ?_⟩
  have hfound := hrun.locate hi
  rw [← hdoc, ← hlen, h] at hfound
  exact Option.some.inj hfound

theorem lineCount_run (hne : run ≠ []) :
    lineCount ⟨pre.length, pre.length + run.length - 1⟩ = run.length := by
  have hpos : 0 < run.length := List.length_pos_iff.2 hne
  simp only [lineCount]
  omega

theorem drop_run (hne : run ≠ []) :
    (pre ++ (run ++ rest)).drop (pre.length + run.length - 1 + 1) = rest := by
  have hpos : 0 < run.length := List.length_pos_iff.2 hne
  have hend : pre.length + run.length - 1 + 1 = (pre ++ run).length := by
    rw [List.length_append]
    omega
  rw [hend, ← List.append_assoc, List.drop_left]

theorem linesOf_run (hne : run ≠ []) :
    linesOf ⟨pre.length, pre.length + run.length - 1⟩ (pre ++ (run ++ rest)) = .ok run := by
  have hpos : 0 < run.length := List.length_pos_iff.2 hne
  rw [linesOf, if_pos, lineCount_run hne, List.drop_left, List.take_left]
  simp only [List.length_append]
  omega

theorem IsRun.findAll (h : IsRun pre run rest) (hne : run ≠ []) :
    findAll (pre ++ (run ++ rest)) = findAll pre ++
      ⟨pre.length, pre.length + run.length - 1⟩ :: regionsFrom (pre.length + run.length) rest := by
  rw [Region.findAll, regionsFrom_append _ _ _ (.inl h.above), Nat.zero_add,
    regionsFrom_run_append hne h.tableLines h.below]
  rfl

/-- Other table lines in place of a run give it another number of lines and move the regions
below it. -/
theorem IsRun.findAll_replace (h : IsRun pre run rest) (hne : run ≠ []) {lines : List Text}
    (hlines : ∀ l ∈ lines, isTableLine l = true) (hne' : lines ≠ []) {r : Region}
    (hr : r = ⟨pre.length, pre.length + run.length - 1⟩) :
    ∃ before after, Region.findAll (pre ++ (run ++ rest)) = before ++ r :: after ∧
      Region.findAll (pre ++ (lines ++ rest)) =
        before ++ r.resize lines.length :: after.map (shift run.length lines.length) := by
  subst hr
  refine ⟨_, _, h.findAll hne, ?_⟩
  rw [(h.replace hlines).findAll hne', ← regionsFrom_shift]
  rfl

/-- The lines of the region are table lines, those next to it are not. -/
structure Maximal (doc : List Text) (r : Region) : Prop where
  ordered : r.startLine ≤ r.endLine
  inside : r.endLine < doc.length
  tableLines : ∀ l ∈ (doc.drop r.startLine).take r.lineCount, isTableLine l = true
  above : ∀ l, (doc.take r.startLine).getLast? = some l → isTableLine l = false
  below : ∀ l, (doc.drop (r.endLine + 1)).head? = some l → isTableLine l = false

theorem isTableLine_of_head? {l : Text} {ls : List Text} (h : runLength ls = 0)
    (hl : ls.head? = some l) : isTableLine l = false := by
  obtain ⟨ms, rfl⟩ := List.head?_eq_some_iff.1 hl
  exact isTableLine_of_runLength_eq_zero h

theorem IsRun.maximal (h : IsRun pre run rest) (hne : run ≠ []) :
    Maximal (pre ++ (run ++ rest)) ⟨pre.length, pre.length + run.length - 1⟩ := by
  have hpos : 0 < run.length := List.length_pos_iff.2 hne
  refine ⟨by simp only; omega, ?_, fun l hl => ?_, fun l hl => ?_, fun l hl => ?_⟩
  · simp only [List.length_append]
    omega
  · rw [lineCount_run hne, List.drop_left, List.take_left] at hl
    exact h.tableLines l hl
  · rw [List.take_left, ← List.head?_reverse] at hl
    exact isTableLine_of_head? h.above hl
  · rw [drop_run hne] at hl
    exact isTableLine_of_head? h.below hl

end Lookup

end Region

theorem Replacement.apply_run {pre run : List Text} {e : Replacement} (hne : run ≠ [])
    (hregion : e.region = ⟨pre.length, pre.length + run.length - 1⟩) (rest : List Text) :
    e.apply (pre ++ (run ++ rest)) = .ok (pre ++ (Text.lines e.text ++ rest)) := by
  have hpos : 0 < run.length := List.length_pos_iff.2 hne
  rw [apply, hregion, if_pos]
  · rw [List.take_left, Region.drop_run hne, List.append_assoc]
  · simp only [List.length_append]
    omega

end PipeTable
