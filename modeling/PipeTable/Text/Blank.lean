/-! # Text and blank characters

A text is the list of its characters. A character is blank when it has the Unicode
property White_Space; trimming removes blanks from the ends of a text and nothing else.
-/

namespace PipeTable

abbrev Text := List Char

/-- Inclusive ranges of code points. -/
abbrev CodeRanges := List (Nat × Nat)

def CodeRanges.contains (ranges : CodeRanges) (c : Char) : Bool :=
  ranges.any fun r => r.1 ≤ c.toNat && c.toNat ≤ r.2

namespace Text

/-- The twenty-five code points with the property White_Space. -/
def blankRanges : CodeRanges :=
  [(0x0009, 0x000D), (0x0020, 0x0020), (0x0085, 0x0085), (0x00A0, 0x00A0), (0x1680, 0x1680),
   (0x2000, 0x200A), (0x2028, 0x2029), (0x202F, 0x202F), (0x205F, 0x205F), (0x3000, 0x3000)]

def isBlank (c : Char) : Bool :=
  blankRanges.contains c

theorem isBlank_space : isBlank ' ' = true := by decide

theorem isBlank_newline : isBlank '\n' = true := by decide

theorem isBlank_bar : isBlank '|' = false := by decide

def leadingBlanks (s : Text) : Text :=
  s.takeWhile isBlank

def trimStart (s : Text) : Text :=
  s.dropWhile isBlank

def trimEnd (s : Text) : Text :=
  (s.reverse.dropWhile isBlank).reverse

def trim (s : Text) : Text :=
  trimEnd (trimStart s)

theorem leadingBlanks_append_trimStart (s : Text) : leadingBlanks s ++ trimStart s = s :=
  List.takeWhile_append_dropWhile

/-- The text without its blanks, wherever they stand. -/
def compact (s : Text) : Text :=
  s.filter fun c => !isBlank c

/-- The letters `A` to `Z` and the Kelvin sign in lower case. No other character has a lower
case made of ASCII letters alone, so this decides comparisons with lower-case ASCII words. -/
def lowerAscii (s : Text) : Text :=
  s.map fun c => if c = '\u212A' then 'k' else c.toLower

end Text

end PipeTable
