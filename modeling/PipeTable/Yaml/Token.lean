import PipeTable.Yaml.Spelling

/-! # YAML tokens

Indentation becomes tokens: a block starts where a line is indented deeper than the block
around it and ends where a line is indented less. Whether a scalar is the key of a mapping shows
only at the colon behind it, so a possible key is remembered together with its token, and the
key token is put in front of it later.
-/

namespace PipeTable.Yaml

inductive Style where
  | plain
  | quoted
  | literal
  | folded
deriving DecidableEq

inductive TokenKind where
  | versionDirective (major minor : Nat)
  | tagDirective (handle leader : Text)
  | documentStart
  | documentEnd
  | blockSequenceStart
  | blockMappingStart
  | blockEnd
  | flowSequenceStart
  | flowSequenceEnd
  | flowMappingStart
  | flowMappingEnd
  | blockEntry
  | flowEntry
  | key
  | value
  | alias (name : Text)
  | anchor (name : Text)
  | tag (handle suffix : Text)
  | scalar (style : Style) (value : Text)
  | streamEnd
deriving DecidableEq

structure Token where
  kind : TokenKind
  start : Mark
  stop : Mark

/-- A token that may turn out to be a key: its index and its place. A required key starts a line
of a block mapping, where nothing but a key can stand. -/
structure PossibleKey where
  index : Nat
  mark : Mark
  required : Bool

/-- `indents` are the columns of the open blocks, innermost first. `keys` has one entry for the
text outside all brackets and one for each open bracket, innermost first. -/
structure Scan where
  cursor : Cursor
  tokens : List Token := []
  indents : List Nat := []
  keys : List (Option PossibleKey) := [none]
  keyAllowed : Bool := true

namespace Scan

def inFlow (s : Scan) : Bool := s.keys.length > 1

/-- One more than the column of the innermost block, zero outside all blocks. -/
def indentSize (s : Scan) : Nat := (s.indents.head?).elim 0 (· + 1)

def mark (s : Scan) : Mark := s.cursor.mark

def push (s : Scan) (t : Token) : Scan := { s with tokens := s.tokens ++ [t] }

def pushAt (s : Scan) (kind : TokenKind) (m : Mark) : Scan := s.push ⟨kind, m, m⟩

def pushNext (s : Scan) (kind : TokenKind) (n : Nat) : Scan :=
  let c := s.cursor.advance n
  { s.push ⟨kind, s.mark, c.mark⟩ with cursor := c }

def missingColon (s : Scan) (k : PossibleKey) : SyntaxFault :=
  ⟨"could not find expected ':'", s.mark, some ("while scanning a simple key", k.mark)⟩

/-- A key stands on one line and has at most 1024 characters. -/
def isStale (s : Scan) (k : PossibleKey) : Bool :=
  k.mark.line < s.mark.line || k.mark.offset + 1024 < s.mark.offset

def dropStaleKeys (s : Scan) : Except SyntaxFault Scan := do
  let keys ← s.keys.mapM fun key =>
    match key with
    | none => pure none
    | some k =>
      if s.isStale k then (if k.required then throw (s.missingColon k) else pure none)
      else pure (some k)
  return { s with keys }

def withKey (s : Scan) (key : Option PossibleKey) : Scan :=
  { s with keys := key :: s.keys.tail }

def removeKey (s : Scan) : Except SyntaxFault Scan :=
  match s.keys.head?.join with
  | some k => if k.required then .error (s.missingColon k) else .ok (s.withKey none)
  | none => .ok s

/-- Remember that the next token may be a key, if one may stand here. -/
def saveKey (s : Scan) : Except SyntaxFault Scan := do
  if !s.keyAllowed then return s
  let s ← s.removeKey
  let required := !s.inFlow && s.indents.head? == some s.mark.column
  return s.withKey (some ⟨s.tokens.length, s.mark, required⟩)

/-- Open a block at a column that is deeper than the innermost block, with its token before the
token of the given index. -/
def openBlock (s : Scan) (column index : Nat) (kind : TokenKind) (m : Mark) : Scan :=
  if !s.inFlow && s.indentSize ≤ column then
    { s with
      indents := column :: s.indents
      tokens := s.tokens.insertIdx index ⟨kind, m, m⟩ }
  else s

def closeBlocksFrom (s : Scan) (column : Nat) : List Nat → Scan
  | [] => { s with indents := [] }
  | indent :: indents =>
    if column < indent then
      (s.pushAt .blockEnd s.mark).closeBlocksFrom column indents
    else { s with indents := indent :: indents }

def closeBlocks (s : Scan) (column : Nat) : Scan :=
  if s.inFlow then s else s.closeBlocksFrom column s.indents

def closeAllFrom (s : Scan) : List Nat → Scan
  | [] => { s with indents := [] }
  | _ :: indents => (s.pushAt .blockEnd s.mark).closeAllFrom indents

def closeAll (s : Scan) : Scan :=
  if s.inFlow then s else s.closeAllFrom s.indents

/-- Go over blanks, comments and line ends. A tab counts as a blank only where no key may
stand. -/
def skipToToken : Nat → Scan → Scan
  | 0, s => s
  | n + 1, s =>
    let tabs := s.inFlow || !s.keyAllowed
    let c := s.cursor.skipWhile fun ch => ch == ' ' || (tabs && ch == '\t')
    let c := if c.isAt '#' then c.skipWhile fun ch => !isBreak ch else c
    if c.atBreak then
      let (_, c) := c.takeBreak
      skipToToken n { s with cursor := c, keyAllowed := s.keyAllowed || !s.inFlow }
    else { s with cursor := c }

/-- The end of the text counts as the start of a line. -/
def streamEnd (s : Scan) : Except SyntaxFault Scan := do
  let m := s.mark
  let m := if m.column = 0 then m else { m with line := m.line + 1, column := 0 }
  let s : Scan := { s with cursor := ⟨[], m⟩ }
  let s ← s.closeAll.removeKey
  return { s with keyAllowed := false }.pushAt .streamEnd m

def documentMarker (s : Scan) (kind : TokenKind) : Except SyntaxFault Scan := do
  let s ← s.closeAll.removeKey
  return { s with keyAllowed := false }.pushNext kind 3

def flowStart (s : Scan) (kind : TokenKind) : Except SyntaxFault Scan := do
  let s ← s.saveKey
  return { s with keys := none :: s.keys, keyAllowed := true }.pushNext kind 1

def flowEnd (s : Scan) (kind : TokenKind) : Except SyntaxFault Scan := do
  let s ← s.removeKey
  let keys := if s.inFlow then s.keys.tail else s.keys
  return { s with keys, keyAllowed := false }.pushNext kind 1

def flowEntry (s : Scan) : Except SyntaxFault Scan := do
  let s ← s.removeKey
  return { s with keyAllowed := true }.pushNext .flowEntry 1

def blockEntry (s : Scan) : Except SyntaxFault Scan := do
  if !s.inFlow && !s.keyAllowed then
    throw ⟨"block sequence entries are not allowed in this context", s.mark, none⟩
  let s := s.openBlock s.mark.column s.tokens.length .blockSequenceStart s.mark
  let s ← s.removeKey
  return { s with keyAllowed := true }.pushNext .blockEntry 1

def explicitKey (s : Scan) : Except SyntaxFault Scan := do
  if !s.inFlow && !s.keyAllowed then
    throw ⟨"mapping keys are not allowed in this context", s.mark, none⟩
  let s := s.openBlock s.mark.column s.tokens.length .blockMappingStart s.mark
  let s ← s.removeKey
  return { s with keyAllowed := !s.inFlow }.pushNext .key 1

/-- A colon: the possible key before it becomes one. -/
def value (s : Scan) : Except SyntaxFault Scan := do
  match s.keys.head?.join with
  | some k =>
    let s := { s with tokens := s.tokens.insertIdx k.index ⟨.key, k.mark, k.mark⟩ }
    let s := s.openBlock k.mark.column k.index .blockMappingStart k.mark
    return { s.withKey none with keyAllowed := false }.pushNext .value 1
  | none =>
    if !s.inFlow && !s.keyAllowed then
      throw ⟨"mapping values are not allowed in this context", s.mark, none⟩
    let s := s.openBlock s.mark.column s.tokens.length .blockMappingStart s.mark
    return { s with keyAllowed := !s.inFlow }.pushNext .value 1

/-- The name of an anchor or an alias, behind its sign. -/
def namedNode (s : Scan) (what : String) (kind : Text → TokenKind) : Except SyntaxFault Scan := do
  let s := { (← s.saveKey) with keyAllowed := false }
  let (name, c) := (s.cursor.advance 1).takeWhile isNameChar
  let ends := c.isOpen 0 || c.rest.head?.any fun ch => ch ∈ "?:,]\x7d%@".toList || ch.toNat = 0x60
  if name.isEmpty || !ends then
    throw ⟨"did not find expected alphabetic or numeric character", c.mark,
      some (what, s.mark)⟩
  return { s.push ⟨kind name, s.mark, c.mark⟩ with cursor := c }

def isUriChar (verbatim : Bool) (c : Char) : Bool :=
  isNameChar c || c ∈ ";/?:@&=+$.!~*'()%".toList || (verbatim && c ∈ ",[]".toList)

/-- The handle and the suffix of a tag, and the place behind it. -/
def tagParts (c : Cursor) (start : Mark) : Except SyntaxFault (Text × Text × Cursor) := do
  let context := some ("while scanning a tag", start)
  if (c.advance 1).isAt '<' then
    let (uri, c) := (c.advance 2).takeWhile (isUriChar true)
    if uri.isEmpty then throw ⟨"did not find expected tag URI", c.mark,
      some ("while parsing a tag", start)⟩
    if !c.isAt '>' then throw ⟨"did not find the expected '>'", c.mark, context⟩
    return ([], uri, c.advance 1)
  else
    let (name, c) := (c.advance 1).takeWhile isNameChar
    if c.isAt '!' then
      let (suffix, c) := (c.advance 1).takeWhile (isUriChar false)
      if suffix.isEmpty then throw ⟨"did not find expected tag URI", c.mark,
        some ("while parsing a tag", start)⟩
      return ('!' :: name ++ ['!'], suffix, c)
    else
      let (more, c) := c.takeWhile (isUriChar false)
      let suffix := name ++ more
      return if suffix.isEmpty then ([], ['!'], c) else (['!'], suffix, c)

def tag (s : Scan) : Except SyntaxFault Scan := do
  let s := { (← s.saveKey) with keyAllowed := false }
  let (handle, suffix, c) ← tagParts s.cursor s.mark
  if !c.isOpen 0 && !(s.inFlow && c.isAt ',') then
    throw ⟨"did not find expected whitespace or line break", c.mark,
      some ("while scanning a tag", s.mark)⟩
  return { s.push ⟨.tag handle suffix, s.mark, c.mark⟩ with cursor := c }

def block (s : Scan) (literal : Bool) : Except SyntaxFault Scan := do
  let s ← s.removeKey
  let (text, c) ← blockScalar literal s.mark s.indentSize (s.cursor.advance 1)
  let style := if literal then Style.literal else .folded
  return { s.push ⟨.scalar style text, s.mark, c.mark⟩ with cursor := c, keyAllowed := true }

def quoted (s : Scan) (single : Bool) : Except SyntaxFault Scan := do
  let s ← s.saveKey
  let behind := s.cursor.advance 1
  let (text, c) ← quotedScalar single s.mark behind.rest behind.mark [] {}
  return { s.push ⟨.scalar .quoted text, s.mark, c.mark⟩ with cursor := c, keyAllowed := false }

/-- A gap that reaches another line lets a key follow. -/
def plain (s : Scan) : Except SyntaxFault Scan := do
  let s ← s.saveKey
  let (text, c, newLine) ←
    plainScalar s.inFlow s.indentSize s.mark s.cursor.rest s.mark [] {}
  return { s.push ⟨.scalar .plain text, s.mark, c.mark⟩ with cursor := c, keyAllowed := newLine }

def versionNumber (c : Cursor) (start : Mark) : Except SyntaxFault (Nat × Cursor) := do
  let (digits, c) := c.takeWhile Char.isDigit
  match digitsValue? 10 digits with
  | some n => return (n, c)
  | none => throw ⟨"did not find expected version number", c.mark,
      some ("while scanning a %YAML directive", start)⟩

def directiveKind (c : Cursor) (start : Mark) : Except SyntaxFault (TokenKind × Cursor) := do
  let context := some ("while scanning a directive", start)
  let (name, c) := (c.advance 1).takeWhile isNameChar
  if name.isEmpty then throw ⟨"could not find expected directive name", c.mark, context⟩
  if !c.isOpen 0 then throw ⟨"found unexpected non-alphabetical character", c.mark, context⟩
  if name = "YAML".toList then
    let (major, c) ← versionNumber (c.skipWhile isGap) start
    if !c.isAt '.' then throw ⟨"did not find expected digit or '.' character", c.mark,
      some ("while scanning a %YAML directive", start)⟩
    let (minor, c) ← versionNumber (c.advance 1) start
    return (.versionDirective major minor, c)
  else if name = "TAG".toList then
    let (handle, c) := (c.skipWhile isGap).takeWhile fun ch => isNameChar ch || ch == '!'
    if handle.head? != some '!' then throw ⟨"did not find expected '!'", c.mark,
      some ("while scanning a directive", start)⟩
    let (leader, c) := (c.skipWhile isGap).takeWhile (isUriChar true)
    if leader.isEmpty then throw ⟨"did not find expected tag URI", c.mark,
      some ("while parsing a %TAG directive", start)⟩
    return (.tagDirective handle leader, c)
  else throw ⟨"found unknown directive name", c.mark, context⟩

def directive (s : Scan) : Except SyntaxFault Scan := do
  let s ← s.closeAll.removeKey
  let (kind, c) ← directiveKind s.cursor s.mark
  let stop := c.mark
  let c := c.skipWhile isGap
  let c := if c.isAt '#' then c.skipWhile fun ch => !isBreak ch else c
  if !c.atEnd && !c.atBreak then
    throw ⟨"did not find expected comment or line break", c.mark,
      some ("while scanning a directive", s.mark)⟩
  let (_, c) := c.takeBreak
  return { s.push ⟨kind, s.mark, stop⟩ with cursor := c, keyAllowed := false }

/-- The characters that have a meaning of their own at the start of a token. -/
def isIndicator (c : Char) : Bool :=
  isFlowEnd c || c ∈ "-?:#&*!|>'\"%@".toList || c.toNat = 0x60

def startsPlain (s : Scan) : Bool :=
  let c := s.cursor
  match c.rest.head? with
  | none => false
  | some ch =>
    !(isGap ch || isBreak ch || isIndicator ch) ||
      (ch == '-' && !(c.peek? 1).any isGap) ||
      (!s.inFlow && (ch == '?' || ch == ':') && !c.isOpen 1)

def next (s : Scan) : Except SyntaxFault Scan := do
  let s := skipToToken (s.cursor.rest.length + 1) s
  let s ← s.dropStaleKeys
  let s := s.closeBlocks s.mark.column
  let c := s.cursor
  match c.rest.head? with
  | none => s.streamEnd
  | some ch =>
    if ch == '%' && c.mark.column == 0 then s.directive
    else if c.isAtMarker '-' then s.documentMarker .documentStart
    else if c.isAtMarker '.' then s.documentMarker .documentEnd
    else if ch == '[' then s.flowStart .flowSequenceStart
    else if ch == '\x7b' then s.flowStart .flowMappingStart
    else if ch == ']' then s.flowEnd .flowSequenceEnd
    else if ch == '\x7d' then s.flowEnd .flowMappingEnd
    else if ch == ',' then s.flowEntry
    else if ch == '-' && c.isOpen 1 then s.blockEntry
    else if ch == '?' && (s.inFlow || c.isOpen 1) then s.explicitKey
    else if ch == ':' && (s.inFlow || c.isOpen 1) then s.value
    else if ch == '*' then s.namedNode "while scanning an alias" .alias
    else if ch == '&' then s.namedNode "while scanning an anchor" .anchor
    else if ch == '!' then s.tag
    else if ch == '|' && !s.inFlow then s.block true
    else if ch == '>' && !s.inFlow then s.block false
    else if ch == '\'' then s.quoted true
    else if ch == '"' then s.quoted false
    else if s.startsPlain then s.plain
    else throw ⟨"found character that cannot start any token", s.mark,
      some ("while scanning for the next token", s.mark)⟩

/-- Tokens behind a possible key are not certain before it is known to be a key or not. -/
def certain (s : Scan) : List Token :=
  s.tokens.take ((s.keys.filterMap id).foldr (fun k n => min k.index n) s.tokens.length)

/-- Read up to `n` tokens: those that are certain, and what stopped the reading early. -/
def run : Nat → Scan → List Token × Option SyntaxFault
  | 0, s => (s.tokens, none)
  | n + 1, s =>
    if s.tokens.getLast?.any (·.kind == .streamEnd) then (s.tokens, none)
    else
      match s.dropStaleKeys with
      | .error e => (s.certain, some e)
      | .ok s =>
        match s.next with
        | .error e => (s.certain, some e)
        | .ok s => run n s

end Scan

/-- The characters of a text that YAML does not admit have their place counted in bytes. -/
def inadmissible? (s : Text) : Option SyntaxFault :=
  if s.all isAdmitted then none
  else
    let before := (String.ofList (s.takeWhile isAdmitted)).utf8ByteSize
    let place := if before = 0 then "" else s!" at position {before}"
    some ⟨"control characters are not allowed" ++ place, {}, none⟩

/-- The tokens of a text, and what stopped the reading early. A byte order mark at the start is
no part of the text. -/
def Token.scan (s : Text) : List Token × Option SyntaxFault :=
  let s := if s.head? == some '\uFEFF' then s.tail else s
  match inadmissible? s with
  | some e => ([], some e)
  | none => Scan.run (s.length + 2) { cursor := ⟨s, {}⟩ }

end PipeTable.Yaml
