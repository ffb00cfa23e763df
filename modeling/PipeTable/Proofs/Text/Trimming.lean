import PipeTable.Text.Blank

/-! # Trimming

Blanks added at either end of a text are trimmed away again, a text without them is its own
trim, and trimming drops nothing but blanks. The end of a text is treated as the start of its
reversal.
-/

namespace PipeTable.Text

def Blank (s : Text) : Prop := ∀ c ∈ s, isBlank c = true

theorem blank_nil : Blank [] := by simp [Blank]

theorem blank_replicate_space (n : Nat) : Blank (List.replicate n ' ') := by
  intro c hc
  rw [List.eq_of_mem_replicate hc]
  exact isBlank_space

theorem Blank.append {a b : Text} (ha : Blank a) (hb : Blank b) : Blank (a ++ b) := by
  intro c hc
  rcases List.mem_append.1 hc with h | h
  · exact ha c h
  · exact hb c h

theorem Blank.reverse {a : Text} (ha : Blank a) : Blank a.reverse :=
  fun c hc => ha c (List.mem_reverse.1 hc)

theorem blank_leadingBlanks (s : Text) : Blank (leadingBlanks s) :=
  List.all_eq_true.1 List.all_takeWhile

theorem reverse_trimEnd (s : Text) : (trimEnd s).reverse = trimStart s.reverse :=
  List.reverse_reverse _

theorem trimStart_append {a : Text} (ha : Blank a) (s : Text) :
    trimStart (a ++ s) = trimStart s :=
  List.dropWhile_append_of_pos ha

theorem trimEnd_append {b : Text} (hb : Blank b) (s : Text) : trimEnd (s ++ b) = trimEnd s := by
  unfold trimEnd
  rw [List.reverse_append, List.dropWhile_append_of_pos hb.reverse]

theorem trim_append_left {a : Text} (ha : Blank a) (s : Text) : trim (a ++ s) = trim s := by
  unfold trim
  rw [trimStart_append ha]

theorem trim_append_right {b : Text} (hb : Blank b) (s : Text) : trim (s ++ b) = trim s := by
  unfold trim trimStart
  rw [List.dropWhile_append]
  split
  · next h =>
    -- the text before is blank too, so nothing is left of either
    have hs : s.dropWhile isBlank = [] := List.isEmpty_iff.1 h
    have hb' : b.dropWhile isBlank = [] := by
      rw [← List.append_nil b, List.dropWhile_append_of_pos hb, List.dropWhile_nil]
    rw [hs, hb']
  · exact trimEnd_append hb _

theorem trimStart_of_head {s : Text} (h : ∀ c, s.head? = some c → isBlank c = false) :
    trimStart s = s := by
  cases s with
  | nil => rfl
  | cons c s =>
    have hc : ¬ isBlank c = true := by simp [h c rfl]
    exact List.dropWhile_cons_of_neg hc

theorem trimEnd_of_getLast {s : Text} (h : ∀ c, s.getLast? = some c → isBlank c = false) :
    trimEnd s = s := by
  rw [← List.reverse_inj, reverse_trimEnd]
  apply trimStart_of_head
  intro c hc
  exact h c (by rwa [List.head?_reverse] at hc)

theorem trim_of_ends {s : Text} (hfirst : ∀ c, s.head? = some c → isBlank c = false)
    (hlast : ∀ c, s.getLast? = some c → isBlank c = false) : trim s = s := by
  rw [trim, trimStart_of_head hfirst, trimEnd_of_getLast hlast]

theorem head_trimStart (s : Text) : ∀ c, (trimStart s).head? = some c → isBlank c = false := by
  intro c hc
  have h := List.head?_dropWhile_not isBlank s
  rw [trimStart] at hc
  rw [hc] at h
  simpa using h

theorem getLast_trimEnd (s : Text) : ∀ c, (trimEnd s).getLast? = some c → isBlank c = false := by
  intro c hc
  apply head_trimStart s.reverse
  rwa [← reverse_trimEnd, List.head?_reverse]

theorem trimEnd_isPrefix (s : Text) : trimEnd s <+: s := by
  rw [← List.reverse_suffix, reverse_trimEnd]
  exact List.dropWhile_suffix _

theorem head_of_isPrefix {s t : Text} (h : s <+: t) {c : Char} (hc : s.head? = some c) :
    t.head? = some c := by
  obtain ⟨rest, rfl⟩ := h
  rw [List.head?_append, hc]
  rfl

@[simp] theorem trim_trim (s : Text) : trim (trim s) = trim s := by
  apply trim_of_ends
  · intro c hc
    exact head_trimStart s c (head_of_isPrefix (trimEnd_isPrefix _) hc)
  · exact getLast_trimEnd _

theorem trim_of_blank {s : Text} (h : Blank s) : trim s = [] := by
  have hs := trim_append_left h []
  rwa [List.append_nil] at hs

theorem mem_of_mem_trim {c : Char} {s : Text} (h : c ∈ trim s) : c ∈ s :=
  (List.dropWhile_suffix _).subset ((trimEnd_isPrefix _).subset h)

theorem filter_trimStart {p : Char → Bool} (hp : ∀ c, p c = true → isBlank c = false) (s : Text) :
    (trimStart s).filter p = s.filter p := by
  have hblanks : (leadingBlanks s).filter p = [] := by
    rw [List.filter_eq_nil_iff]
    intro c hc hpc
    have hblank := blank_leadingBlanks s c hc
    rw [hp c hpc] at hblank
    cases hblank
  calc (trimStart s).filter p = (leadingBlanks s).filter p ++ (trimStart s).filter p := by
        rw [hblanks, List.nil_append]
    _ = s.filter p := by rw [← List.filter_append, leadingBlanks_append_trimStart]

theorem filter_trim {p : Char → Bool} (hp : ∀ c, p c = true → isBlank c = false) (s : Text) :
    (trim s).filter p = s.filter p := by
  rw [trim, ← List.reverse_inj, ← List.filter_reverse, reverse_trimEnd, filter_trimStart hp,
    List.filter_reverse, filter_trimStart hp]

theorem compact_trimStart (s : Text) : compact (trimStart s) = compact s :=
  filter_trimStart (by simp) s

@[simp] theorem compact_trim (s : Text) : compact (trim s) = compact s :=
  filter_trim (by simp) s

@[simp] theorem compact_append (s t : Text) : compact (s ++ t) = compact s ++ compact t :=
  List.filter_append ..

theorem compact_cons_solid {c : Char} (h : isBlank c = false) (s : Text) :
    compact (c :: s) = c :: compact s := by
  simp [compact, h]

end PipeTable.Text
