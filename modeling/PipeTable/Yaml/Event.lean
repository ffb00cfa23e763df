import PipeTable.Yaml.Token

/-! # YAML events

The tokens of a document read as a stream of nodes: a collection is everything between its start
and its end. Reading stops at the first token that does not fit, and the events before it stand,
so a reader of events may find something to say before the end of a broken text is reached.
-/

namespace PipeTable.Yaml

inductive EventKind where
  | scalar (style : Style) (value : Text)
  | sequenceStart
  | sequenceEnd
  | mappingStart
  | mappingEnd
  | alias (name : Text)
deriving DecidableEq

/-- `mark` is where the node starts, its anchor and tag included. -/
structure Event where
  kind : EventKind
  mark : Mark
  tag : Option Text := none
  anchor : Option Text := none
deriving DecidableEq

/-- Tag handles and what they stand for. -/
abbrev TagHandles := List (Text × Text)

def standardHandles : TagHandles :=
  [(['!'], ['!']), ("!!".toList, "tag:yaml.org,2002:".toList)]

/-- `events` has the last event first; `fault` is what stopped the scanning. -/
structure EventReader where
  tokens : List Token
  fault : Option SyntaxFault
  handles : TagHandles := standardHandles
  events : List Event := []

/-- Reading keeps the events before a fault. -/
abbrev ReadM := ExceptT SyntaxFault (StateM EventReader)

namespace ReadM

/-- The next token. There is none only where scanning stopped. -/
def peek : ReadM Token := do
  let r ← get
  match r.tokens with
  | t :: _ => return t
  | [] => throw (r.fault.getD ⟨"did not find expected token", {}, none⟩)

def skip : ReadM Unit := modify fun r => { r with tokens := r.tokens.tail }

def emit (e : Event) : ReadM Unit := modify fun r => { r with events := e :: r.events }

def emitEmpty (m : Mark) : ReadM Unit := emit { kind := .scalar .plain [], mark := m }

/-- The tag that a handle and a suffix write. -/
def resolveTag (handle suffix : Text) (start place : Mark) : ReadM Text := do
  if handle.isEmpty then return suffix
  match (← get).handles.lookup handle with
  | some leader => return leader ++ suffix
  | none => throw ⟨"found undefined tag handle", place, some ("while parsing a node", start)⟩

/-- Anchor and tag of a node, in either order, and where they start. -/
structure Properties where
  start : Option Mark := none
  anchor : Option Text := none
  tag : Option Text := none

def takeAnchor (p : Properties) : ReadM Properties := do
  let t ← peek
  match t.kind with
  | .anchor name =>
    skip
    return { p with start := p.start.or (some t.start), anchor := some name }
  | _ => return p

def takeTag (p : Properties) : ReadM Properties := do
  let t ← peek
  match t.kind with
  | .tag handle suffix =>
    skip
    let start := p.start.getD t.start
    let tag ← resolveTag handle suffix start t.start
    return { p with start := some start, tag := some tag }
  | _ => return p

/-- At most one anchor and one tag, whichever is first. -/
def properties : ReadM Properties := do
  let t ← peek
  match t.kind with
  | .anchor _ => takeTag (← takeAnchor {})
  | .tag _ _ => takeAnchor (← takeTag {})
  | _ => return {}

/-- The kinds of node that can stand in a place: blocks, and lists that are not indented. -/
structure Setting where
  blocks : Bool
  indentless : Bool

def flowSetting : Setting := ⟨false, false⟩

def blockSetting : Setting := ⟨true, false⟩

/-- The value of a mapping entry in a block. -/
def valueSetting : Setting := ⟨true, true⟩

def isOneOf (kinds : List TokenKind) (t : Token) : Bool := t.kind ∈ kinds

mutual

def node : Nat → Setting → ReadM Unit
  | 0, _ => throw ⟨"exceeded depth", {}, none⟩
  | n + 1, setting => do
    let first ← peek
    match first.kind with
    | .alias name =>
      skip
      emit { kind := .alias name, mark := first.start }
    | _ =>
      let p ← properties
      let t ← peek
      let start := p.start.getD t.start
      let event (kind : EventKind) : Event :=
        { kind, mark := start, tag := p.tag, anchor := p.anchor }
      match t.kind with
      | .scalar style value =>
        skip
        emit (event (.scalar style value))
      | .flowSequenceStart =>
        emit (event .sequenceStart)
        skip
        flowSequence n true t.start
      | .flowMappingStart =>
        emit (event .mappingStart)
        skip
        flowMapping n true t.start
      | kind =>
        if setting.indentless && kind == .blockEntry then
          emit (event .sequenceStart)
          indentlessSequence n
        else if setting.blocks && kind == .blockSequenceStart then
          emit (event .sequenceStart)
          skip
          blockSequence n t.start
        else if setting.blocks && kind == .blockMappingStart then
          emit (event .mappingStart)
          skip
          blockMapping n t.start
        else if p.anchor.isSome || p.tag.isSome then
          emit (event (.scalar .plain []))
        else
          let what := if setting.blocks then "while parsing a block node"
            else "while parsing a flow node"
          throw ⟨"did not find expected node content", t.start, some (what, start)⟩

def blockSequence : Nat → Mark → ReadM Unit
  | 0, _ => throw ⟨"exceeded depth", {}, none⟩
  | n + 1, start => do
    let t ← peek
    match t.kind with
    | .blockEntry =>
      skip
      if isOneOf [.blockEntry, .blockEnd] (← peek) then emitEmpty t.stop
      else node n blockSetting
      blockSequence n start
    | .blockEnd =>
      skip
      emit { kind := .sequenceEnd, mark := t.start }
    | _ => throw ⟨"did not find expected '-' indicator", t.start,
        some ("while parsing a block collection", start)⟩

/-- The entries of a sequence that stands at the column of the mapping around it. -/
def indentlessSequence : Nat → ReadM Unit
  | 0 => throw ⟨"exceeded depth", {}, none⟩
  | n + 1 => do
    let t ← peek
    match t.kind with
    | .blockEntry =>
      skip
      if isOneOf [.blockEntry, .key, .value, .blockEnd] (← peek) then emitEmpty t.stop
      else node n blockSetting
      indentlessSequence n
    | _ => emit { kind := .sequenceEnd, mark := t.start }

def blockMapping : Nat → Mark → ReadM Unit
  | 0, _ => throw ⟨"exceeded depth", {}, none⟩
  | n + 1, start => do
    let t ← peek
    match t.kind with
    | .key =>
      skip
      if isOneOf [.key, .value, .blockEnd] (← peek) then emitEmpty t.stop
      else node n valueSetting
      let v ← peek
      match v.kind with
      | .value =>
        skip
        if isOneOf [.key, .value, .blockEnd] (← peek) then emitEmpty v.stop
        else node n valueSetting
      | _ => emitEmpty v.start
      blockMapping n start
    | .blockEnd =>
      skip
      emit { kind := .mappingEnd, mark := t.start }
    | _ => throw ⟨"did not find expected key", t.start,
        some ("while parsing a block mapping", start)⟩

/-- The entries of a sequence in brackets and its end. An entry may be a mapping of one pair. -/
def flowSequence : Nat → Bool → Mark → ReadM Unit
  | 0, _, _ => throw ⟨"exceeded depth", {}, none⟩
  | n + 1, isFirst, start => do
    let t ← peek
    if t.kind != .flowSequenceEnd && !isFirst then
      if t.kind == .flowEntry then skip
      else throw ⟨"did not find expected ',' or ']'", t.start,
        some ("while parsing a flow sequence", start)⟩
    let t ← peek
    match t.kind with
    | .flowSequenceEnd =>
      skip
      emit { kind := .sequenceEnd, mark := t.start }
    | .key =>
      skip
      emit { kind := .mappingStart, mark := t.start }
      let k ← peek
      if isOneOf [.value, .flowEntry, .flowSequenceEnd] k then
        skip
        emitEmpty k.stop
      else node n flowSetting
      let v ← peek
      match v.kind with
      | .value =>
        skip
        let next ← peek
        if isOneOf [.flowEntry, .flowSequenceEnd] next then emitEmpty next.start
        else node n flowSetting
      | _ => emitEmpty v.start
      emit { kind := .mappingEnd, mark := (← peek).start }
      flowSequence n false start
    | _ =>
      node n flowSetting
      flowSequence n false start

def flowMapping : Nat → Bool → Mark → ReadM Unit
  | 0, _, _ => throw ⟨"exceeded depth", {}, none⟩
  | n + 1, isFirst, start => do
    let t ← peek
    if t.kind != .flowMappingEnd && !isFirst then
      if t.kind == .flowEntry then skip
      else throw ⟨"did not find expected ',' or '\x7d'", t.start,
        some ("while parsing a flow mapping", start)⟩
    let t ← peek
    match t.kind with
    | .flowMappingEnd =>
      skip
      emit { kind := .mappingEnd, mark := t.start }
    | .key =>
      skip
      let k ← peek
      if isOneOf [.value, .flowEntry, .flowMappingEnd] k then emitEmpty k.start
      else node n flowSetting
      let v ← peek
      match v.kind with
      | .value =>
        skip
        let next ← peek
        if isOneOf [.flowEntry, .flowMappingEnd] next then emitEmpty next.start
        else node n flowSetting
      | _ => emitEmpty v.start
      flowMapping n false start
    | _ =>
      node n flowSetting
      emitEmpty (← peek).start
      flowMapping n false start

end

def directives : Nat → ReadM Unit
  | 0 => return ()
  | n + 1 => do
    let t ← peek
    match t.kind with
    | .versionDirective major minor =>
      if major != 1 || (minor != 1 && minor != 2) then
        throw ⟨"found incompatible YAML document", t.start, none⟩
      skip
      directives n
    | .tagDirective handle leader =>
      skip
      modify fun r => { r with handles := (handle, leader) :: r.handles }
      directives n
    | _ => return ()

def isDirective (t : Token) : Bool :=
  match t.kind with
  | .versionDirective _ _ | .tagDirective _ _ => true
  | _ => false

/-- Read the first document, if there is any, up to its end. -/
def document (size : Nat) : ReadM Unit := do
  let t ← peek
  if t.kind == .streamEnd then return
  if isDirective t || t.kind == .documentStart then
    directives size
    let t ← peek
    if t.kind != .documentStart then
      throw ⟨"did not find expected <document start>", t.start, none⟩
    skip
    let t ← peek
    if isDirective t || isOneOf [.documentStart, .documentEnd, .streamEnd] t then
      emitEmpty t.start
    else node size blockSetting
  else node size blockSetting
  if (← peek).kind == .documentEnd then skip

end ReadM

/-- The first document of a text: its events as far as they could be read, and the fault that
cut them short. `isLast` says that nothing follows it. -/
structure Document where
  events : List Event
  fault : Option SyntaxFault
  isLast : Bool

def Document.read (s : Text) : Document :=
  let (tokens, fault) := Token.scan s
  let depth := 4 * tokens.length + 8
  let (result, reader) := (ReadM.document depth).run { tokens, fault }
  let events := reader.events.reverse
  match result with
  | .error e => ⟨events, some e, false⟩
  | .ok () =>
    let rest := reader.tokens.dropWhile fun t => t.kind == .documentEnd
    ⟨events, none, rest.head?.any fun t => t.kind == .streamEnd⟩

end PipeTable.Yaml
