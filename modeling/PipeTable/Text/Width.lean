import PipeTable.Text.Blank

/-! # Display width

A wide character takes two terminal cells and every other character one. The width of a text
is the sum over its characters, and padding fills a text up to a width without cutting it.
-/

namespace PipeTable.Text

/-- Kana, ideographs, their punctuation and the full-width forms. -/
def wideRanges : CodeRanges :=
  [(0x3000, 0x303F), (0x3040, 0x309F), (0x30A0, 0x30FF), (0x31F0, 0x31FF), (0x3400, 0x4DBF),
   (0x4E00, 0x9FFF), (0xF900, 0xFAFF), (0xFF01, 0xFF60), (0xFFE0, 0xFFE6), (0x20000, 0x2FFFF),
   (0x30000, 0x3134F)]

def isWide (c : Char) : Bool :=
  wideRanges.contains c

def charWidth (c : Char) : Nat :=
  if isWide c then 2 else 1

def displayWidth (s : Text) : Nat :=
  (s.map charWidth).foldr (· + ·) 0

@[simp] theorem displayWidth_nil : displayWidth [] = 0 := rfl

@[simp] theorem displayWidth_cons (c : Char) (s : Text) :
    displayWidth (c :: s) = charWidth c + displayWidth s := rfl

@[simp] theorem displayWidth_append (s t : Text) :
    displayWidth (s ++ t) = displayWidth s + displayWidth t := by
  induction s with
  | nil => simp
  | cons c s ih => simp [ih, Nat.add_assoc]

/-- The copies of `fill` that `s` lacks to be `width` wide, one cell counted for each. -/
def padding (fill : Char) (width : Nat) (s : Text) : Text :=
  List.replicate (width - displayWidth s) fill

/-- Fill up on the right; a text that is already wider stays as it is. -/
def padWith (fill : Char) (width : Nat) (s : Text) : Text :=
  s ++ padding fill width s

def pad (width : Nat) (s : Text) : Text :=
  padWith ' ' width s

theorem displayWidth_replicate (n : Nat) (c : Char) :
    displayWidth (List.replicate n c) = n * charWidth c := by
  induction n with
  | zero => simp
  | succ n ih => rw [List.replicate_succ, displayWidth_cons, ih, Nat.succ_mul, Nat.add_comm]

theorem displayWidth_pad (width : Nat) (s : Text) :
    displayWidth (pad width s) = max width (displayWidth s) := by
  have hspace : charWidth ' ' = 1 := by decide
  simp only [pad, padWith, padding, displayWidth_append, displayWidth_replicate, hspace]
  omega

end PipeTable.Text
