import Mathlib.Logic.ExistsUnique
import PipeTable.Proofs.Document.Region

/-! # Regions partition the table lines

Looking outwards from a table line finds the maximal run around it, and from every line of this
run the same one. A search down the document that goes on behind each region it finds meets every
run at its first line, so it comes to the same regions as the pass over all lines. They are in
order, a line of another kind stands between any two of them, and each table line is in exactly
one.
-/

namespace PipeTable

namespace Region

variable {doc pre ls : List Text} {r : Region} {n i : Nat}

theorem contains_iff : r.contains i = true ↔ r.startLine ≤ i ∧ i ≤ r.endLine := by
  simp [contains]

theorem exists_locate_iff :
    (∃ r, locate doc i = some r) ↔ ∃ l, doc[i]? = some l ∧ isTableLine l = true := by
  rw [← Option.isSome_iff_exists, Option.isSome_iff_ne_none, ne_eq, locate_eq_none_iff]
  simp

theorem le_endLine_of_locate (h : locate doc i = some r) : i ≤ r.endLine := by
  obtain ⟨pre, run, rest, j, -, hj, -, rfl, rfl⟩ := exists_run_of_locate h
  simp only
  omega

/-- What is found from a line is the maximal run of table lines around it, whichever of its lines
the search starts from. -/
theorem maximal_of_locate (h : locate doc i = some r) :
    r.contains i = true ∧ Maximal doc r ∧ ∀ k, r.contains k = true → locate doc k = some r := by
  obtain ⟨pre, run, rest, j, hrun, hj, rfl, rfl, rfl⟩ := exists_run_of_locate h
  have hne : run ≠ [] := List.length_pos_iff.1 (Nat.zero_lt_of_lt hj)
  refine ⟨?_, hrun.maximal hne, fun k hk => ?_⟩
  · simp only [contains_iff]
    omega
  · simp only [contains_iff] at hk
    have hrow := hrun.locate (i := k - pre.length) (by omega)
    rwa [Nat.add_sub_cancel' hk.1] at hrow

/-- The regions found from line `n` on: the search goes on behind a region that it finds, and
with the next line where it finds none. -/
def searchFrom (doc : List Text) (n : Nat) : List Region :=
  if _h : n < doc.length then
    match hfound : locate doc n with
    | some r => r :: searchFrom doc (r.endLine + 1)
    | none => searchFrom doc (n + 1)
  else []
termination_by doc.length - n
decreasing_by
  · have hend := le_endLine_of_locate hfound
    omega
  · omega

theorem searchFrom_of_le (h : doc.length ≤ n) : searchFrom doc n = [] := by
  rw [searchFrom, dif_neg (Nat.not_lt.2 h)]

theorem searchFrom_of_none (hn : n < doc.length) (h : locate doc n = none) :
    searchFrom doc n = searchFrom doc (n + 1) := by
  rw [searchFrom, dif_pos hn]
  split
  · next hfound => cases h.symm.trans hfound
  · rfl

theorem searchFrom_of_some (hn : n < doc.length) (h : locate doc n = some r) :
    searchFrom doc n = r :: searchFrom doc (r.endLine + 1) := by
  rw [searchFrom, dif_pos hn]
  split
  · next hfound =>
    obtain rfl := Option.some.inj (h.symm.trans hfound)
    rfl
  · next hfound => cases h.symm.trans hfound

theorem exists_locate_of_mem_searchFrom (h : r ∈ searchFrom doc n) :
    ∃ i, locate doc i = some r := by
  fun_induction searchFrom doc n with
  | case1 n hn found hfound ih =>
    rcases List.mem_cons.1 h with rfl | h
    · exact ⟨n, hfound⟩
    · exact ih h
  | case2 n hn hfound ih => exact ih h
  | case3 n hn => cases h

/-- At a line that continues no run, the search finds the regions of the lines from there on. -/
theorem searchFrom_eq_regionsFrom (ls pre : List Text)
    (h : runLength pre.reverse = 0 ∨ runLength ls = 0) :
    searchFrom (pre ++ ls) pre.length = regionsFrom pre.length ls := by
  induction ls using run_induction generalizing pre with
  | nil => exact searchFrom_of_le (by simp)
  | line l ls hl ih =>
    have hnone : locate (pre ++ l :: ls) pre.length = none := by
      rw [locate_eq_none_iff]
      simp [hl]
    have hnext := ih (pre ++ [l]) (.inl (by
      rw [List.reverse_concat]
      exact runLength_cons_of_not_tableLine hl _))
    rw [searchFrom_of_none (by simp) hnone, regionsFrom_cons_of_not_tableLine hl]
    simpa using hnext
  | run l run rest hrun hrest ih =>
    have habove : runLength pre.reverse = 0 := by
      refine h.resolve_right fun hzero => ?_
      rw [runLength_append hrun, List.length_cons] at hzero
      omega
    have hfound := IsRun.locate ⟨habove, hrun, hrest⟩ (Nat.succ_pos run.length)
    have hnext := ih (pre ++ (l :: run)) (.inr hrest)
    rw [Nat.add_zero, List.length_cons] at hfound
    rw [searchFrom_of_some (by simp) hfound, regionsFrom_run hrun hrest]
    rw [List.append_assoc, List.length_append, List.length_cons] at hnext
    exact congrArg (_ :: ·) hnext

theorem searchFrom_zero (doc : List Text) : searchFrom doc 0 = findAll doc :=
  searchFrom_eq_regionsFrom doc [] (.inl rfl)

theorem mem_findAll_iff : r ∈ findAll doc ↔ ∃ i, locate doc i = some r := by
  constructor
  · intro h
    rw [← searchFrom_zero] at h
    exact exists_locate_of_mem_searchFrom h
  · rintro ⟨i, hi⟩
    obtain ⟨pre, run, rest, j, hrun, hj, rfl, -, rfl⟩ := exists_run_of_locate hi
    rw [hrun.findAll (List.length_pos_iff.1 (Nat.zero_lt_of_lt hj))]
    exact List.mem_append_right _ List.mem_cons_self

theorem lt_startLine (hls : runLength ls = 0) (h : r ∈ regionsFrom n ls) : n < r.startLine := by
  cases ls with
  | nil => cases h
  | cons l ls =>
    rw [regionsFrom_cons_of_not_tableLine (isTableLine_of_runLength_eq_zero hls)] at h
    exact le_startLine h

theorem pairwise_regionsFrom (ls : List Text) (n : Nat) :
    (regionsFrom n ls).Pairwise fun a b => a.endLine + 1 < b.startLine := by
  induction ls using run_induction generalizing n with
  | nil => exact .nil
  | line l ls hl ih =>
    rw [regionsFrom_cons_of_not_tableLine hl]
    exact ih (n + 1)
  | run l run rest hrun hrest ih =>
    rw [regionsFrom_run hrun hrest]
    exact .cons (fun r hr => lt_startLine hrest hr) (ih _)

/-- Region `a` ends above the start of region `b`, and a line that is no table line stands between
them. -/
def Apart (doc : List Text) (a b : Region) : Prop :=
  ∃ k l, a.endLine < k ∧ k < b.startLine ∧ doc[k]? = some l ∧ isTableLine l = false

theorem pairwise_apart_findAll (doc : List Text) : (findAll doc).Pairwise (Apart doc) := by
  refine (pairwise_regionsFrom doc 0).imp_of_mem fun {a b} ha hb hab => ?_
  obtain ⟨i, hi⟩ := mem_findAll_iff.1 ha
  obtain ⟨j, hj⟩ := mem_findAll_iff.1 hb
  obtain ⟨-, hmaxA, -⟩ := maximal_of_locate hi
  obtain ⟨-, hmaxB, -⟩ := maximal_of_locate hj
  have hordered := hmaxB.ordered
  have hinside := hmaxB.inside
  have hk : a.endLine + 1 < doc.length := by omega
  refine ⟨a.endLine + 1, doc[a.endLine + 1], Nat.lt_succ_self _, hab,
    List.getElem?_eq_getElem hk, hmaxA.below _ ?_⟩
  rw [List.head?_drop, List.getElem?_eq_getElem hk]

/-- The regions of a document partition its table lines. Something is found from exactly the table
lines; it is the maximal run around the line and found from each line in it. The search down the
document ends with all these regions, each of them once and in order, with a line of another kind
between any two, and a line is a table line exactly if one region and no other holds it. -/
theorem regions_partition (doc : List Text) :
    (∀ i, (∃ r, locate doc i = some r) ↔ ∃ l, doc[i]? = some l ∧ isTableLine l = true) ∧
    (∀ i r, locate doc i = some r →
      r.contains i = true ∧ Maximal doc r ∧ ∀ k, r.contains k = true → locate doc k = some r) ∧
    searchFrom doc 0 = findAll doc ∧
    (findAll doc).Pairwise (Apart doc) ∧
    (∀ r, r ∈ findAll doc ↔ ∃ i, locate doc i = some r) ∧
    ∀ i, (∃ l, doc[i]? = some l ∧ isTableLine l = true) ↔
      ∃! r, r ∈ findAll doc ∧ r.contains i = true := by
  refine ⟨fun i => exists_locate_iff, fun i r h => maximal_of_locate h, searchFrom_zero doc,
    pairwise_apart_findAll doc, fun r => mem_findAll_iff, fun i => ?_⟩
  rw [← exists_locate_iff]
  constructor
  · rintro ⟨r, hr⟩
    refine ⟨r, ⟨mem_findAll_iff.2 ⟨i, hr⟩, (maximal_of_locate hr).1⟩, ?_⟩
    rintro s ⟨hs, hcontains⟩
    obtain ⟨j, hj⟩ := mem_findAll_iff.1 hs
    exact Option.some.inj (((maximal_of_locate hj).2.2 i hcontains).symm.trans hr)
  · rintro ⟨r, ⟨hr, hcontains⟩, -⟩
    obtain ⟨j, hj⟩ := mem_findAll_iff.1 hr
    exact ⟨r, (maximal_of_locate hj).2.2 i hcontains⟩

end Region

end PipeTable
