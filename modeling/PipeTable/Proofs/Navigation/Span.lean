import Mathlib.Data.List.Chain
import PipeTable.Navigation.Stop
import PipeTable.Proofs.Table.Written

/-! # Spans of a line

The spans of a line follow one another without a gap, whatever the line is: each ends at a bar,
and the next one begins just behind it. In a written data row the bars are those of the closed
cells, so the spans are exactly what stands between them, and the content of a cell begins
behind its opening bar and one space.
-/

namespace PipeTable.Span

open Text

theorem barsFrom_append (n : Nat) (s u : Text) :
    barsFrom n (s ++ u) = barsFrom n s ++ barsFrom (n + s.length) u := by
  induction s generalizing n with
  | nil => rfl
  | cons c s ih =>
    have hn : n + 1 + s.length = n + (c :: s).length := by
      rw [List.length_cons]
      omega
    by_cases hc : c = bar <;> simp only [List.cons_append, barsFrom, hc, if_true, if_false, ih, hn]

theorem barsFrom_eq_nil {s : Text} (h : bar ∉ s) (n : Nat) : barsFrom n s = [] := by
  induction s generalizing n with
  | nil => rfl
  | cons c s ih =>
    rw [List.mem_cons, not_or] at h
    rw [barsFrom, if_neg (Ne.symm h.1), ih h.2]

theorem bounds_of_mem_barsFrom {n b : Nat} {s : Text} (h : b ∈ barsFrom n s) :
    n ≤ b ∧ b < n + s.length := by
  induction s generalizing n with
  | nil => cases h
  | cons c s ih =>
    rw [List.length_cons]
    unfold barsFrom at h
    split at h
    · rcases List.mem_cons.1 h with rfl | h
      · omega
      · have := ih h
        omega
    · have := ih h
      omega

theorem pairwise_barsFrom (n : Nat) (s : Text) : (barsFrom n s).Pairwise (· < ·) := by
  induction s generalizing n with
  | nil => exact .nil
  | cons c s ih =>
    unfold barsFrom
    split
    · refine .cons (fun b hb => ?_) (ih (n + 1))
      exact (bounds_of_mem_barsFrom hb).1
    · exact ih (n + 1)

variable {line : Text}

theorem between_bounds {opening closing : Nat} (h : opening < closing) :
    (between line opening closing).cellStart ≤ (between line opening closing).start ∧
      (between line opening closing).start ≤ closing := by
  unfold between
  dsimp only
  split
  · exact ⟨Nat.le_min.2 ⟨Nat.le_succ _, h⟩, Nat.min_le_right _ _⟩
  · split
    · next hc => exact ⟨Nat.le_succ _, hc.2⟩
    · exact ⟨Nat.le_refl _, h⟩

theorem between_of_space {opening closing : Nat} {rest : Text}
    (hspace : line.drop (opening + 1) = ' ' :: rest)
    (h : opening + 1 < closing) :
    between line opening closing = ⟨opening + 1, opening + 2, closing⟩ := by
  simp [between, hspace, h]

theorem exists_spans_cons {found : List Nat} (hfound : found.Pairwise (· < ·))
    (hline : ∀ b ∈ found, b < line.length) (opening size : Nat) (sizes : List Nat) :
    ∃ closing, found.head?.getD opening < closing ∧
      found.tail.head?.getD closing = closing ∧
      spans line found opening (size :: sizes) =
        between line (found.head?.getD opening) closing ::
          spans line found.tail closing sizes := by
  match found, hfound, hline with
  | [], _, _ =>
    exact ⟨opening + size + 1, Nat.lt_succ_of_le (Nat.le_add_right opening size), rfl, rfl⟩
  | [b], _, hline => exact ⟨line.length, hline b List.mem_cons_self, rfl, rfl⟩
  | b :: b' :: bs, hfound, _ =>
    exact ⟨b', (List.pairwise_cons.1 hfound).1 b' List.mem_cons_self, rfl, rfl⟩

/-- Spans lie behind the bar where they start, contain the start of their content, and end
before the next span begins. -/
theorem spans_ordered {found : List Nat} (hfound : found.Pairwise (· < ·))
    (hline : ∀ b ∈ found, b < line.length) (opening : Nat) (sizes : List Nat) :
    (∀ s ∈ spans line found opening sizes,
      found.head?.getD opening < s.cellStart ∧ s.cellStart ≤ s.start ∧ s.start ≤ s.close) ∧
    (spans line found opening sizes).Pairwise fun s u => s.close < u.cellStart := by
  induction sizes generalizing found opening with
  | nil => exact ⟨nofun, .nil⟩
  | cons size sizes ih =>
    obtain ⟨closing, hlt, hnext, hspans⟩ := exists_spans_cons hfound hline opening size sizes
    obtain ⟨hrest, hpair⟩ := ih (hfound.sublist (List.tail_sublist found))
      (fun b hb => hline b (List.mem_of_mem_tail hb)) closing
    rw [hnext] at hrest
    rw [hspans]
    constructor
    · intro s hs
      rcases List.mem_cons.1 hs with rfl | hs
      · exact ⟨Nat.lt_succ_self _, between_bounds hlt⟩
      · have := hrest s hs
        omega
    · exact .cons (fun u hu => (hrest u hu).1) hpair

theorem cellStart_head_spans {found sizes : List Nat} {opening : Nat} {s : Span}
    (h : (spans line found opening sizes).head? = some s) :
    s.cellStart = found.head?.getD opening + 1 := by
  cases sizes with
  | nil => cases h
  | cons size sizes => exact congrArg cellStart (Option.some.inj h).symm

/-- Each span begins just behind the bar where the one before it ends. -/
theorem isChain_spans (found : List Nat) (opening : Nat) (sizes : List Nat) :
    (spans line found opening sizes).IsChain fun s u => u.cellStart = s.close + 1 := by
  induction sizes generalizing found opening with
  | nil => exact .nil
  | cons size sizes ih =>
    refine (ih found.tail _).cons fun u hu => ?_
    rw [cellStart_head_spans hu]
    rcases found with _ | ⟨b, _ | ⟨b', bs⟩⟩ <;> rfl

/-- Where a line has all its bars, spans stand between neighbouring ones. -/
theorem spans_eq_zipWith {found sizes : List Nat} (h : found.length = sizes.length + 1)
    (opening : Nat) :
    spans line found opening sizes = found.zipWith (between line) found.tail := by
  induction sizes generalizing found opening with
  | nil =>
    obtain ⟨b, rfl⟩ := List.length_eq_one_iff.1 h
    rfl
  | cons size sizes ih =>
    match found, h with
    | b :: b' :: bs, h =>
      rw [List.tail_cons, List.zipWith_cons_cons]
      exact congrArg _ (ih (Nat.succ.inj h) b')

section Written

variable {pre : Text} {ps : List Text}

/-- The place of bar `j` in closed cells behind `pre` and an opening bar. -/
def barPlace (pre : Text) (ps : List Text) (j : Nat) : Nat :=
  pre.length + (closedCells (ps.take j)).length

theorem barPlace_succ (pre : Text) {j : Nat} {p : Text} (hp : ps[j]? = some p) :
    barPlace pre ps (j + 1) = barPlace pre ps j + p.length + 1 := by
  obtain ⟨hj, rfl⟩ := List.getElem?_eq_some_iff.1 hp
  rw [barPlace, barPlace, List.take_succ_eq_append_getElem hj, closedCells_append,
    closedCells_cons, List.length_append, List.length_append, List.length_cons]
  exact (Nat.add_assoc _ _ _).symm

theorem length_closedCells_congr {ps qs : List Text} (h : ps.map List.length = qs.map List.length) :
    (closedCells ps).length = (closedCells qs).length := by
  induction ps generalizing qs with
  | nil =>
    obtain rfl : qs = [] := List.map_eq_nil_iff.1 h.symm
    rfl
  | cons p ps ih =>
    obtain ⟨q, rest, rfl, hq, hrest⟩ := List.map_eq_cons_iff.1 h.symm
    simp only [closedCells_cons, List.length_append, List.length_cons, hq, ih hrest.symm]

theorem barPlace_congr (pre : Text) {ps qs : List Text}
    (h : ps.map List.length = qs.map List.length) : barPlace pre ps = barPlace pre qs := by
  funext j
  have htake : (ps.take j).map List.length = (qs.take j).map List.length := by
    rw [List.map_take, List.map_take, h]
  rw [barPlace, barPlace, length_closedCells_congr htake]

theorem barsFrom_closedCells (hps : ∀ p ∈ ps, bar ∉ p) (n : Nat) :
    barsFrom n (bar :: closedCells ps) =
      (List.range (ps.length + 1)).map fun j => n + (closedCells (ps.take j)).length := by
  induction ps generalizing n with
  | nil => rfl
  | cons p ps ih =>
    obtain ⟨hp, hps⟩ := List.forall_mem_cons.1 hps
    rw [barsFrom, if_pos rfl, closedCells_cons, barsFrom_append, barsFrom_eq_nil hp, ih hps,
      List.nil_append, List.length_cons, List.range_succ_eq_map (n := ps.length + 1), List.map_cons,
      List.map_map]
    refine congrArg₂ _ (by simp [closedCells]) (List.map_congr_left fun j _ => ?_)
    simp [closedCells_cons]
    omega

theorem bars_written (hpre : bar ∉ pre) (hps : ∀ p ∈ ps, bar ∉ p) :
    bars (pre ++ bar :: closedCells ps) = (List.range (ps.length + 1)).map (barPlace pre ps) := by
  rw [bars, barsFrom_append, barsFrom_eq_nil hpre, List.nil_append, Nat.zero_add,
    barsFrom_closedCells hps]
  rfl

theorem drop_written (j : Nat) :
    (pre ++ bar :: closedCells ps).drop (barPlace pre ps j + 1) = closedCells (ps.drop j) := by
  have hsplit : pre ++ bar :: closedCells ps =
      (pre ++ bar :: closedCells (ps.take j)) ++ closedCells (ps.drop j) := by
    rw [List.append_assoc, List.cons_append, ← closedCells_append, List.take_append_drop]
  have hlen : barPlace pre ps j + 1 = (pre ++ bar :: closedCells (ps.take j)).length := by
    rw [List.length_append, List.length_cons, barPlace, Nat.add_assoc]
  rw [hsplit, hlen, List.drop_left]

/-- The spans of a written line stand between its bars, each content behind a space. -/
theorem spans_written (hpre : bar ∉ pre) (hps : ∀ p ∈ ps, bar ∉ p)
    (hspace : ∀ p ∈ ps, p.head? = some ' ') {sizes : List Nat} (hlen : sizes.length = ps.length) :
    spans (pre ++ bar :: closedCells ps) (bars (pre ++ bar :: closedCells ps)) 0 sizes =
      (List.range ps.length).map fun j =>
        ⟨barPlace pre ps j + 1, barPlace pre ps j + 2, barPlace pre ps (j + 1)⟩ := by
  rw [bars_written hpre hps, spans_eq_zipWith (by simpa using hlen.symm)]
  apply List.ext_getElem
  · simp
  · intro j _ hj
    rw [List.length_map, List.length_range] at hj
    obtain ⟨rest, hrest⟩ : ∃ rest, ps[j] = ' ' :: rest := by
      have hfirst := hspace _ (List.getElem_mem hj)
      cases hp : ps[j] with
      | nil => simp [hp] at hfirst
      | cons c rest => exact ⟨rest, by simpa [hp] using hfirst⟩
    have hclose := barPlace_succ pre (List.getElem?_eq_getElem hj)
    have hdrop : (pre ++ bar :: closedCells ps).drop (barPlace pre ps j + 1) =
        ' ' :: (rest ++ bar :: closedCells (ps.drop (j + 1))) := by
      rw [drop_written, List.drop_eq_getElem_cons hj, closedCells_cons, hrest]
      rfl
    simp only [List.getElem_zipWith, List.getElem_tail, List.getElem_map, List.getElem_range]
    refine between_of_space hdrop ?_
    rw [hclose, hrest, List.length_cons]
    omega

end Written

end PipeTable.Span
