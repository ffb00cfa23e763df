import PipeTable.Proofs.Table.Outcome
import PipeTable.Storage.Tree

/-! # Paths in a tree

Where paths lead in a tree, and what is left of that when the tree grows. A path is followed from
directory to directory, so it leads to the same place as long as nothing disappears and nothing
changes its kind. A path that leads to a file is one that the file can be written by.
-/

namespace PipeTable.Tree

open Table (bind_eq_ok_iff pure_eq_ok_iff)

variable {t u v : Tree} {p : Path} {place here : Location} {name : Text} {entry : Entry}
  {content : Content}

/-- Everything lies in a directory, and relative paths start in one. -/
structure WellFormed (t : Tree) : Prop where
  current : t.isDirectoryAt t.current = true
  parents : ∀ place entry, t.find place = some entry → t.isDirectoryAt place.dropLast = true

theorem isDirectoryAt_iff : t.isDirectoryAt place = true ↔ t.find place = some .directory := by
  unfold isDirectoryAt
  cases t.find place with
  | none => simp
  | some entry => cases entry <;> simp [Entry.isDirectory]

theorem not_isDirectoryAt_of_file (h : t.find place = some (.file content)) :
    t.isDirectoryAt place = false := by
  rw [isDirectoryAt, h]
  rfl

theorem lookup_filter_ne {entries : List (Location × Entry)} {q : Location} (h : q ≠ place) :
    (entries.filter fun x => x.1 ≠ place).lookup q = entries.lookup q := by
  induction entries with
  | nil => rfl
  | cons x xs ih =>
    obtain ⟨key, entry⟩ := x
    by_cases hkey : key = place
    · have hne : (q == key) = false := by simpa [hkey] using h
      rw [List.filter_cons_of_neg (by simp [hkey]), ih, List.lookup_cons, hne]
    · rw [List.filter_cons_of_pos (by simp [hkey]), List.lookup_cons, List.lookup_cons, ih]

theorem find_put_self (h : place ≠ []) : (t.put place entry).find place = some entry := by
  simp [find, put, h]

theorem find_put_of_ne {q : Location} (h : q ≠ place) :
    (t.put place entry).find q = t.find q := by
  have hne : (q == place) = false := beq_eq_false_iff_ne.2 h
  simp only [find, put, List.lookup_cons, hne, lookup_filter_ne h]

theorem step_eq_ok_iff {next : Location} :
    t.step here name = .ok next ↔
      (name = ['.'] ∧ next = here) ∨ (name = ['.', '.'] ∧ next = here.dropLast) ∨
      ((name ≠ ['.'] ∧ name ≠ ['.', '.']) ∧ checkName name = .ok () ∧
        (t.find (here ++ [name])).isSome = true ∧ next = here ++ [name]) := by
  unfold step
  split
  · next hdot => simp [hdot]; exact eq_comm
  · next hdot =>
    split
    · next hdots => simp [hdots]; exact eq_comm
    · next hdots =>
      simp only [hdot, hdots, false_and, false_or, not_false_eq_true, and_self, true_and, ne_eq]
      rw [bind_eq_ok_iff]
      constructor
      · rintro ⟨⟨⟩, hname, hfound⟩
        split at hfound
        · next hsome => exact ⟨hname, hsome, (Except.ok.inj hfound).symm⟩
        · cases hfound
      · rintro ⟨hname, hsome, rfl⟩
        exact ⟨(), hname, if_pos hsome⟩

theorem isDirectoryAt_of_enter {names : List Text} (hhere : t.isDirectoryAt here = true)
    (h : t.enter here names = .ok place) : t.isDirectoryAt place = true := by
  induction names generalizing here with
  | nil => exact Except.ok.inj h ▸ hhere
  | cons name names ih =>
    obtain ⟨next, -, h⟩ := bind_eq_ok_iff.1 h
    split at h
    · next hnext => exact ih hnext h
    · cases h

theorem approach_eq :
    t.approach p =
      if '\x00' ∈ p then .error .nulInName
      else if p.isEmpty then .error .notFound
      else if pathLimit ≤ (String.ofList p).utf8ByteSize then .error .nameTooLong
      else (t.enter (t.origin p) (Path.steps p).dropLast).map fun here =>
        (here, (Path.steps p).getLast?) := by
  unfold approach
  split
  · rfl
  · split
    · rfl
    · split
      · rfl
      · rfl

/-- A path that is not refused before it is looked for in a tree. -/
def Followed (p : Path) : Prop :=
  '\x00' ∉ p ∧ p.isEmpty = false ∧ (String.ofList p).utf8ByteSize < pathLimit

theorem approach_eq_ok_iff {last : Option Text} :
    t.approach p = .ok (here, last) ↔ Followed p ∧
      t.enter (t.origin p) (Path.steps p).dropLast = .ok here ∧
      last = (Path.steps p).getLast? := by
  rw [approach_eq, Followed]
  split
  · next hnul => simp [hnul]
  · split
    · next hempty => simp [hempty]
    · split
      · next hlong => simp [Nat.not_lt.2 hlong]
      · next hnul hempty hlong =>
        rw [and_iff_right ⟨hnul, Bool.not_eq_true _ ▸ hempty, Nat.lt_of_not_le hlong⟩]
        cases t.enter (t.origin p) (Path.steps p).dropLast with
        | error e => simp [Except.map]
        | ok there => simp [Except.map, eq_comm]

theorem WellFormed.isDirectoryAt_of_approach (ht : t.WellFormed) {last : Option Text}
    (h : t.approach p = .ok (here, last)) : t.isDirectoryAt here = true := by
  have horigin : t.isDirectoryAt (t.origin p) = true := by
    unfold origin
    split
    · rfl
    · exact ht.current
  exact isDirectoryAt_of_enter horigin (approach_eq_ok_iff.1 h).2.1

theorem resolve_eq_ok_iff :
    t.resolve p = .ok place ↔ t.approach p = .ok (place, none) ∨
      ∃ here name, t.approach p = .ok (here, some name) ∧ t.step here name = .ok place ∧
        (Path.endsWithSlash p = true → t.isDirectoryAt place = true) := by
  unfold resolve
  rw [bind_eq_ok_iff]
  constructor
  · rintro ⟨⟨here, _ | name⟩, happroach, h⟩
    · obtain rfl := pure_eq_ok_iff.1 h
      exact .inl happroach
    · obtain ⟨found, hstep, h⟩ := bind_eq_ok_iff.1 h
      split at h
      · cases h
      · next hslash =>
        obtain rfl := pure_eq_ok_iff.1 h
        exact .inr ⟨here, name, happroach, hstep, by simpa using hslash⟩
  · rintro (happroach | ⟨here, name, happroach, hstep, hslash⟩)
    · exact ⟨_, happroach, rfl⟩
    · refine ⟨_, happroach, bind_eq_ok_iff.2 ⟨_, hstep, ?_⟩⟩
      exact if_neg (by simpa using hslash)

theorem fileAt_eq_ok_iff :
    t.fileAt p = .ok content ↔
      ∃ place, t.resolve p = .ok place ∧ t.find place = some (.file content) := by
  unfold fileAt
  rw [bind_eq_ok_iff]
  refine exists_congr fun place => and_congr_right fun _ => ?_
  cases t.find place with
  | none => simp [throw, throwThe, MonadExceptOf.throw]
  | some entry => cases entry <;> simp [throw, throwThe, MonadExceptOf.throw, pure, Except.pure]

theorem WellFormed.writeFile_eq (ht : t.WellFormed) (h : t.resolve p = .ok place)
    {old : Content} (hfile : t.find place = some (.file old)) (new : Content) :
    t.writeFile p new = .ok (t.put place (.file new)) := by
  have hdirectory := not_isDirectoryAt_of_file hfile
  have hto : t.fileToWrite p = .ok place := by
    rcases resolve_eq_ok_iff.1 h with happroach | ⟨here, name, happroach, hstep, hslash⟩
    · cases hdirectory.symm.trans (ht.isDirectoryAt_of_approach happroach)
    · have hhere := ht.isDirectoryAt_of_approach happroach
      rcases step_eq_ok_iff.1 hstep with ⟨-, rfl⟩ | ⟨-, rfl⟩ | ⟨⟨hdot, hdots⟩, hname, -, rfl⟩
      · cases hdirectory.symm.trans hhere
      · have hparent := ht.parents here _ (isDirectoryAt_iff.1 hhere)
        cases hdirectory.symm.trans hparent
      · have hnoslash : Path.endsWithSlash p = false := by
          rw [hdirectory] at hslash
          simpa using hslash
        unfold fileToWrite
        refine bind_eq_ok_iff.2 ⟨_, happroach, ?_⟩
        simp [hdot, hdots, hnoslash, hname, hdirectory, bind, Except.bind, pure, Except.pure]
  unfold writeFile
  rw [hto]
  rfl

/-- What there was is there and of the same kind. -/
structure Grows (t u : Tree) : Prop where
  current : u.current = t.current
  kinds : ∀ place entry, t.find place = some entry →
    ∃ entry', u.find place = some entry' ∧ entry'.isDirectory = entry.isDirectory

section Grows

variable (h : t.Grows u)

include h

theorem Grows.isDirectoryAt (hplace : t.isDirectoryAt place = true) :
    u.isDirectoryAt place = true := by
  obtain ⟨entry, hentry, hkind⟩ := h.kinds place _ (isDirectoryAt_iff.1 hplace)
  rw [Tree.isDirectoryAt, hentry]
  exact hkind

theorem Grows.step {next : Location} (hstep : t.step here name = .ok next) :
    u.step here name = .ok next := by
  rw [step_eq_ok_iff] at hstep ⊢
  refine hstep.imp_right (Or.imp_right fun hnamed => ?_)
  obtain ⟨hdots, hname, hfound, hnext⟩ := hnamed
  obtain ⟨entry, hentry⟩ := Option.isSome_iff_exists.1 hfound
  obtain ⟨entry', hentry', -⟩ := h.kinds _ entry hentry
  exact ⟨hdots, hname, Option.isSome_iff_exists.2 ⟨entry', hentry'⟩, hnext⟩

theorem Grows.enter {names : List Text} (henter : t.enter here names = .ok place) :
    u.enter here names = .ok place := by
  induction names generalizing here with
  | nil => exact henter
  | cons name names ih =>
    obtain ⟨next, hstep, henter⟩ := bind_eq_ok_iff.1 henter
    refine bind_eq_ok_iff.2 ⟨next, h.step hstep, ?_⟩
    split at henter
    · next hnext =>
      rw [if_pos (h.isDirectoryAt hnext)]
      exact ih henter
    · cases henter

theorem Grows.approach {last : Option Text} (happroach : t.approach p = .ok (here, last)) :
    u.approach p = .ok (here, last) := by
  have horigin : u.origin p = t.origin p := by
    rw [origin, origin, h.current]
  rw [approach_eq_ok_iff] at happroach ⊢
  rw [horigin]
  exact happroach.imp_right fun hfound => hfound.imp_left h.enter

/-- Paths lead where they led. -/
theorem Grows.resolve (hresolve : t.resolve p = .ok place) : u.resolve p = .ok place := by
  rw [resolve_eq_ok_iff] at hresolve ⊢
  rcases hresolve with happroach | ⟨here, name, happroach, hstep, hslash⟩
  · exact .inl (h.approach happroach)
  · exact .inr ⟨here, name, h.approach happroach, h.step hstep,
      fun hends => h.isDirectoryAt (hslash hends)⟩

end Grows

theorem grows_put (hplace : place ≠ [])
    (h : ∀ old, t.find place = some old → entry.isDirectory = old.isDirectory) :
    t.Grows (t.put place entry) where
  current := rfl
  kinds q old hold := by
    by_cases hq : q = place
    · subst hq
      exact ⟨entry, find_put_self hplace, h old hold⟩
    · exact ⟨old, (find_put_of_ne hq).trans hold, rfl⟩

/-- There is more than before, but only directories came in. -/
structure Furnished (t u : Tree) : Prop where
  current : u.current = t.current
  keeps : ∀ place entry, t.find place = some entry → u.find place = some entry
  files : ∀ place content, u.find place = some (.file content) →
    t.find place = some (.file content)
  wellFormed : t.WellFormed → u.WellFormed

theorem Furnished.refl (t : Tree) : t.Furnished t :=
  ⟨rfl, fun _ _ h => h, fun _ _ h => h, id⟩

theorem Furnished.trans (h : t.Furnished u) (h' : u.Furnished v) : t.Furnished v where
  current := h'.current.trans h.current
  keeps place entry hentry := h'.keeps place entry (h.keeps place entry hentry)
  files place content hfile := h.files place content (h'.files place content hfile)
  wellFormed ht := h'.wellFormed (h.wellFormed ht)

theorem Furnished.grows (h : t.Furnished u) : t.Grows u :=
  ⟨h.current, fun place entry hentry => ⟨entry, h.keeps place entry hentry, rfl⟩⟩

theorem Furnished.find_file_iff (h : t.Furnished u) :
    u.find place = some (.file content) ↔ t.find place = some (.file content) :=
  ⟨h.files place content, h.keeps place _⟩

theorem wellFormed_empty : ({} : Tree).WellFormed where
  current := rfl
  parents place entry h := by
    cases place with
    | nil => rfl
    | cons name place => cases h

theorem WellFormed.put (ht : t.WellFormed) (hhere : t.isDirectoryAt here = true)
    (hfree : t.find (here ++ [name]) = none) (new : Entry) :
    (t.put (here ++ [name]) new).WellFormed := by
  have hgrows : t.Grows (t.put (here ++ [name]) new) :=
    grows_put (by simp) fun old hold => by cases hfree.symm.trans hold
  refine ⟨hgrows.isDirectoryAt ht.current, fun q entry hentry => ?_⟩
  by_cases hq : q = here ++ [name]
  · rw [hq, List.dropLast_concat]
    exact hgrows.isDirectoryAt hhere
  · rw [find_put_of_ne hq] at hentry
    exact hgrows.isDirectoryAt (ht.parents q entry hentry)

theorem furnished_put (hhere : t.WellFormed → t.isDirectoryAt here = true)
    (hfree : t.find (here ++ [name]) = none) :
    t.Furnished (t.put (here ++ [name]) .directory) where
  current := rfl
  keeps q entry hentry := by
    by_cases hq : q = here ++ [name]
    · cases hfree.symm.trans (hq ▸ hentry)
    · rwa [find_put_of_ne hq]
  files q content hfile := by
    by_cases hq : q = here ++ [name]
    · rw [hq, find_put_self (by simp)] at hfile
      cases hfile
    · rwa [find_put_of_ne hq] at hfile
  wellFormed ht := ht.put (hhere ht) hfree .directory

theorem furnished_of_makeDirectory (h : t.makeDirectory p = .ok u) : t.Furnished u := by
  unfold makeDirectory at h
  obtain ⟨⟨here, _ | name⟩, happroach, h⟩ := bind_eq_ok_iff.1 h
  · cases h
  · dsimp only at h
    by_cases hdots : [['.'], ['.', '.']].contains name = true
    · rw [if_pos hdots] at h
      cases h
    · rw [if_neg hdots] at h
      obtain ⟨_, -, h⟩ := bind_eq_ok_iff.1 h
      split at h
      · cases h
      · next hfree =>
        obtain rfl := pure_eq_ok_iff.1 h
        exact furnished_put (fun ht => ht.isDirectoryAt_of_approach happroach)
          (Option.not_isSome_iff_eq_none.1 hfree)

end PipeTable.Tree
