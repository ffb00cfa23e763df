import PipeTable.Yaml.Cursor

/-! # Spellings of scalars

A scalar is written plainly, in single or double quotes, or as a block of lines. In the first
three a line end between words reads as a space, and of several line ends the first is dropped.
A block keeps its line ends or folds them in the same way, and its header says what becomes of
those at its end.
-/

namespace PipeTable.Yaml

/-- The blanks and line ends between two words. `first` is the first line end, empty if it was
escaped; blanks are dropped once there is one. -/
structure Gap where
  spaces : Text := []
  first : Option Text := none
  more : Text := []

namespace Gap

def addSpace (g : Gap) (c : Char) : Gap :=
  if g.first.isSome then g else { g with spaces := g.spaces ++ [c] }

def addBreak (g : Gap) (lineEnd : Text) : Gap :=
  match g.first with
  | none => { first := some lineEnd }
  | some _ => { g with more := g.more ++ lineEnd }

def isEmpty (g : Gap) : Bool := g.spaces.isEmpty && g.first.isNone

/-- What a gap reads as. -/
def text (g : Gap) : Text :=
  match g.first with
  | none => g.spaces
  | some ['\n'] => if g.more.isEmpty then [' '] else g.more
  | some lineEnd => lineEnd ++ g.more

end Gap

def isFlowEnd (c : Char) : Bool :=
  c == ',' || c == '[' || c == ']' || c == '\x7b' || c == '\x7d'

/-- A character that ends a plain scalar in the middle of a line. -/
def endsPlain (flow : Bool) (c : Cursor) : Bool :=
  (c.isAt ':' && c.isOpen 1) || (flow && c.rest.head?.any isFlowEnd)

/-- Read a plain scalar: its value, the place behind it and the gap after it, and whether that
gap reaches another line. Outside brackets every line starts at `minColumn` or further right. -/
def plainScalar (flow : Bool) (minColumn : Nat) (start : Mark) :
    Text → Mark → Text → Gap → Except SyntaxFault (Text × Cursor × Bool)
  | [], m, out, g => .ok (out.reverse, ⟨[], m⟩, g.first.isSome)
  | '\r' :: '\n' :: rest, m, out, g =>
    plainScalar flow minColumn start rest (m.down 2) out (g.addBreak ['\n'])
  | ch :: rest, m, out, g =>
    let here : Cursor := ⟨ch :: rest, m⟩
    let context := some ("while scanning a plain scalar", start)
    if isBreak ch then
      plainScalar flow minColumn start rest (m.down 1) out (g.addBreak [breakChar ch])
    else if isGap ch then
      if g.first.isSome && ch == '\t' && m.column < minColumn then
        .error ⟨"found a tab character that violates indentation", m, context⟩
      else plainScalar flow minColumn start rest (m.right 1) out (g.addSpace ch)
    else if !g.isEmpty && (ch == '#' || (!flow && m.column < minColumn)) then
      .ok (out.reverse, here, g.first.isSome)
    else if here.isAtDocumentMarker then .ok (out.reverse, here, g.first.isSome)
    else if flow && ch == ':' && rest.head?.any (fun c => c == '?' || isFlowEnd c) then
      .error ⟨"found unexpected ':'", m, context⟩
    else if endsPlain flow here then .ok (out.reverse, here, g.first.isSome)
    else plainScalar flow minColumn start rest (m.right 1) (ch :: (g.text.reverse ++ out)) {}

/-- The character that a backslash and this one stand for. -/
def escaped? : Char → Option Char
  | '0' => some '\x00'
  | 'a' => some '\x07'
  | 'b' => some '\x08'
  | 't' | '\t' => some '\t'
  | 'n' => some '\n'
  | 'v' => some '\x0b'
  | 'f' => some '\x0c'
  | 'r' => some '\r'
  | 'e' => some '\x1b'
  | ' ' => some ' '
  | '"' => some '"'
  | '/' => some '/'
  | '\\' => some '\\'
  | 'N' => some '\u0085'
  | '_' => some '\u00a0'
  | 'L' => some '\u2028'
  | 'P' => some '\u2029'
  | _ => none

/-- How many hexadecimal digits follow a backslash and this character. -/
def hexLength? : Char → Option Nat
  | 'x' => some 2
  | 'u' => some 4
  | 'U' => some 8
  | _ => none

def hexDigit? (c : Char) : Option Nat :=
  if c.isDigit then some (c.toNat - '0'.toNat)
  else if 'a' ≤ c ∧ c ≤ 'f' then some (c.toNat - 'a'.toNat + 10)
  else if 'A' ≤ c ∧ c ≤ 'F' then some (c.toNat - 'A'.toNat + 10)
  else none

/-- The number that a text of digits of base `base` writes. -/
def digitsValue? (base : Nat) (s : Text) : Option Nat :=
  if s.isEmpty then none
  else s.foldlM (fun n c => (hexDigit? c).bind fun d =>
    if d < base then some (n * base + d) else none) 0

/-- Read a quoted scalar behind its opening quote: its value and the place behind its closing
quote. -/
def quotedScalar (single : Bool) (start : Mark) (s : Text) (m : Mark) (out : Text) (g : Gap) :
    Except SyntaxFault (Text × Cursor) :=
  let scanning := some ("while scanning a quoted scalar", start)
  let parsing := some ("while parsing a quoted scalar", start)
  match s with
  | [] => .error ⟨"found unexpected end of stream", m, scanning⟩
  | '\r' :: '\n' :: rest =>
    quotedScalar single start rest (m.down 2) out (g.addBreak ['\n'])
  | ch :: rest =>
    if isBreak ch then
      quotedScalar single start rest (m.down 1) out (g.addBreak [breakChar ch])
    else if isGap ch then quotedScalar single start rest (m.right 1) out (g.addSpace ch)
    else if Cursor.isAtDocumentMarker ⟨ch :: rest, m⟩ then
      .error ⟨"found unexpected document indicator", m, scanning⟩
    else
      let out := g.text.reverse ++ out
      if single && ch == '\'' then
        match rest with
        | '\'' :: rest => quotedScalar single start rest (m.right 2) ('\'' :: out) {}
        | _ => .ok (out.reverse, ⟨rest, m.right 1⟩)
      else if !single && ch == '"' then .ok (out.reverse, ⟨rest, m.right 1⟩)
      else if !single && ch == '\\' then
        match rest with
        | [] => .error ⟨"found unknown escape character", m, parsing⟩
        | '\r' :: '\n' :: rest =>
          quotedScalar single start rest ((m.right 1).down 2) out { first := some [] }
        | e :: rest =>
          if isBreak e then
            quotedScalar single start rest ((m.right 1).down 1) out { first := some [] }
          else
            match escaped? e, hexLength? e with
            | some c, _ => quotedScalar single start rest (m.right 2) (c :: out) {}
            | none, none => .error ⟨"found unknown escape character", m, parsing⟩
            | none, some n =>
              match digitsValue? 16 (rest.take n) with
              | none => .error ⟨"did not find expected hexdecimal number", m.right 2, parsing⟩
              | some code =>
                if rest.length < n then
                  .error ⟨"did not find expected hexdecimal number", m.right 2, parsing⟩
                else if Nat.isValidChar code then
                  quotedScalar single start (rest.drop n) (m.right (n + 2))
                    (Char.ofNat code :: out) {}
                else
                  .error ⟨"found invalid Unicode character escape code", m.right 2, parsing⟩
      else quotedScalar single start rest (m.right 1) (ch :: out) {}
termination_by s.length
decreasing_by all_goals simp only [List.length_cons, List.length_drop]; omega

/-- What becomes of the line ends after the last line of a block. -/
inductive Chomping where
  | strip
  | clip
  | keep

/-- Go over blank lines and indentation: the place behind them, the line ends passed, and the
deepest indentation seen. An indentation of zero is not known yet. -/
def blockBreaks (indent : Nat) (start : Mark) :
    Nat → Cursor → Text → Nat → Except SyntaxFault (Cursor × Text × Nat)
  | 0, c, breaks, deepest => .ok (c, breaks, deepest)
  | n + 1, c, breaks, deepest =>
    let spaces := (c.rest.takeWhile (· == ' ')).length
    let c := c.advance (if indent = 0 then spaces else min spaces (indent - c.mark.column))
    let deepest := max deepest c.mark.column
    if (indent = 0 || c.mark.column < indent) && c.isAt '\t' then
      .error ⟨"found a tab character where an indentation space is expected", c.mark,
        some ("while scanning a block scalar", start)⟩
    else if c.atBreak then
      let (lineEnd, c) := c.takeBreak
      blockBreaks indent start n c (breaks ++ lineEnd) deepest
    else .ok (c, breaks, deepest)

/-- Read the lines of a block: `lineEnd` ends the last line read, `breaks` are the blank lines
after it, and `wasIndented` tells that it started with a blank. -/
def blockLines (literal : Bool) (indent : Nat) (start : Mark) (chomping : Chomping) :
    Nat → Cursor → Text → Text → Text → Bool → Except SyntaxFault (Text × Cursor)
  | 0, c, out, _, _, _ => .ok (out, c)
  | n + 1, c, out, lineEnd, breaks, wasIndented =>
    if c.mark.column = indent && !c.atEnd then do
      let indented := c.rest.head?.any isGap
      let folds := !literal && lineEnd == ['\n'] && !wasIndented && !indented
      let joint := if folds then (if breaks.isEmpty then [' '] else []) else lineEnd
      let (line, c) := c.takeWhile fun ch => !isBreak ch
      let (lineEnd, c) := c.takeBreak
      let out := out ++ joint ++ breaks ++ line
      let (c, breaks, _) ← blockBreaks indent start (c.rest.length + 1) c [] 0
      blockLines literal indent start chomping n c out lineEnd breaks indented
    else
      match chomping with
      | .strip => .ok (out, c)
      | .clip => .ok (out ++ lineEnd, c)
      | .keep => .ok (out ++ lineEnd ++ breaks, c)

/-- The digit that gives the indentation of a block, if there is one. -/
def indentDigit (c : Cursor) (start : Mark) : Except SyntaxFault (Nat × Cursor) :=
  match c.rest.head? with
  | some d =>
    if d == '0' then
      .error ⟨"found an indentation indicator equal to 0", c.mark,
        some ("while scanning a block scalar", start)⟩
    else if d.isDigit then .ok (d.toNat - '0'.toNat, c.advance 1)
    else .ok (0, c)
  | none => .ok (0, c)

def chompingSign (c : Cursor) : Option (Chomping × Cursor) :=
  if c.isAt '+' then some (.keep, c.advance 1)
  else if c.isAt '-' then some (.strip, c.advance 1)
  else none

/-- Read a block behind its bar or arrow. `parent` is the least column of the lines around it
plus one. -/
def blockScalar (literal : Bool) (start : Mark) (parent : Nat) (c : Cursor) :
    Except SyntaxFault (Text × Cursor) := do
  let (chomping, increment, c) ←
    match chompingSign c with
    | some (chomping, c) => do
      let (increment, c) ← indentDigit c start
      pure (chomping, increment, c)
    | none => do
      let (increment, c) ← indentDigit c start
      match (if increment = 0 then none else chompingSign c) with
      | some (chomping, c) => pure (chomping, increment, c)
      | none => pure (Chomping.clip, increment, c)
  let c := c.skipWhile isGap
  let c := if c.isAt '#' then c.skipWhile fun ch => !isBreak ch else c
  if !c.atEnd && !c.atBreak then
    throw ⟨"did not find expected comment or line break", c.mark,
      some ("while scanning a block scalar", start)⟩
  let (_, c) := c.takeBreak
  let given := if increment = 0 then 0 else (parent - 1) + increment
  let (c, breaks, deepest) ← blockBreaks given start (c.rest.length + 1) c [] 0
  let indent := if given = 0 then max deepest (max parent 1) else given
  blockLines literal indent start chomping (c.rest.length + 1) c [] [] breaks false

end PipeTable.Yaml
