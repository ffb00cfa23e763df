import PipeTable.Config.Basic

/-! # Reading configurations

A configuration is a YAML mapping; both of its fields may be left out, and fields that it does
not know are passed over. The events of the file are read in order, so a bad value is reported
even if the text breaks further down.
-/

namespace PipeTable.Config

open Yaml (Event EventKind Mark Meaning Style)

/-- A node or an end of a collection as it stands in the file. `head` is the event itself, or for
an alias the event that starts the node it stands for. -/
structure Item where
  event : Event
  head : Event

/-- Replace aliases by what they stand for. The items end at the first alias that stands for
nothing, whose place is given then. -/
def itemsOf : List (Text × Event) → List Event → List Item × Option Mark
  | _, [] => ([], none)
  | anchors, e :: rest =>
    match e.kind with
    | .alias name =>
      match anchors.lookup name with
      | none => ([], some e.mark)
      | some head =>
        let (items, lost) := itemsOf anchors rest
        (⟨e, head⟩ :: items, lost)
    | _ =>
      let anchors := match e.anchor with
        | some name => (name, e) :: anchors
        | none => anchors
      let (items, lost) := itemsOf anchors rest
      (⟨e, e⟩ :: items, lost)

/-- The fault of a value that is of the wrong kind. -/
def wrongType (head : Event) (expected : String) : ValueFault :=
  match head.kind with
  | .scalar style s =>
    match Meaning.ofScalar head.tag style s with
    | .ok meaning => .invalidType meaning.describe expected
    | .error kind => .invalidValue (Yaml.describeText s) kind
  | .mappingStart => .invalidType "map" expected
  | _ => .invalidType "sequence" expected

/-- The name that a tag of the file's own gives. -/
def ownTag? (head : Event) : Option Text :=
  match head.tag with
  | some ('!' :: name) => some (if name.isEmpty then ['!'] else name)
  | _ => none

def variant? (name : Text) : Option Dialect :=
  if name = Dialect.markdown.name.toList then some .markdown
  else if name = Dialect.org.name.toList then some .org
  else none

/-- A dialect given by a tag has no value beside it. -/
def checkNothing (head : Event) : Except ValueFault Unit :=
  match head.kind with
  | .scalar .plain s =>
    if s.isEmpty || Yaml.isNothing s then .ok ()
    else .error (.invalidValue (Yaml.describeText s) "null")
  | _ => .error (wrongType head "unit")

/-- Read a dialect from field `field` of the mapping that starts at `root`: the exact name,
however it is written, or the name as a tag. -/
def readDialect (root : Mark) (field : String) (head : Event) : Except ConfigFault Dialect :=
  match ownTag? head with
  | some name =>
    match variant? name with
    | none => .error (.value (.unknownVariant (String.ofList name)) none root)
    | some d =>
      match checkNothing head with
      | .ok () => .ok d
      | .error fault => .error (.value fault (some field) head.mark)
  | none =>
    match head.kind with
    | .scalar _ name =>
      match variant? name with
      | some d => .ok d
      | none => .error (.value (.unknownVariant (String.ofList name)) (some field) head.mark)
    | _ => .error (.value (wrongType head "a YAML tag starting with '!'") (some field) head.mark)

/-- The scalar may stand for a truth value: it is plain, or a literal block with that tag. -/
def mayBeBoolean (head : Event) (style : Style) : Bool :=
  style = .plain || (style = .literal && head.tag == some (Yaml.standardTag "bool"))

def readBoolean (field : String) (head : Event) : Except ConfigFault Bool :=
  let fault := ConfigFault.value (wrongType head "a boolean") (some field) head.mark
  match head.kind with
  | .scalar style s =>
    match if mayBeBoolean head style then Yaml.boolean? s else none with
    | some b => .ok b
    | none => .error fault
  | _ => .error fault

/-- The items behind the first node; `depth` collections are open before it. -/
def skipNode : Nat → List Item → Option (List Item)
  | _, [] => none
  | depth, i :: rest =>
    match i.event.kind with
    | .scalar _ _ | .alias _ => if depth = 0 then some rest else skipNode depth rest
    | .sequenceStart | .mappingStart => skipNode (depth + 1) rest
    | .sequenceEnd | .mappingEnd => if depth ≤ 1 then some rest else skipNode (depth - 1) rest

/-- The fields read so far; fields that the file leaves out have their usual values. -/
structure Fields where
  dialect : Option Dialect := none
  autoAddRow : Option Bool := none

def Fields.config (f : Fields) : Config :=
  let usual : Config := {}
  ⟨f.dialect.getD usual.dialect, f.autoAddRow.getD usual.autoAddRow⟩

/-- Read the fields of the mapping that starts at `root`, `n` of them at most. `broken` is the
fault that cut the items short. -/
def readFields (broken : ConfigFault) (root : Mark) :
    Nat → List Item → Fields → Except ConfigFault Config
  | 0, _, _ => .error broken
  | _, [], _ => .error broken
  | n + 1, key :: rest, fields =>
    match key.event.kind with
    | .mappingEnd => .ok fields.config
    | _ =>
      match key.head.kind with
      | .scalar _ name => do
        let name := String.ofList name
        let field := if key.event.kind = key.head.kind then name else "?"
        if name = dialectField then
          if fields.dialect.isSome then throw (.value (.duplicateField name) none root)
          match rest with
          | [] => throw broken
          | value :: rest =>
            let d ← readDialect root field value.head
            readFields broken root n rest { fields with dialect := some d }
        else if name = autoAddRowField then
          if fields.autoAddRow.isSome then throw (.value (.duplicateField name) none root)
          match rest with
          | [] => throw broken
          | value :: rest =>
            let b ← readBoolean field value.head
            readFields broken root n rest { fields with autoAddRow := some b }
        else
          match skipNode 0 rest with
          | none => throw broken
          | some rest => readFields broken root n rest fields
      | _ => .error (.value (wrongType key.head "field identifier") none key.head.mark)

/-- Read the root of a document. A document without content has no fields. -/
def readRoot (broken : ConfigFault) (isWhole : Bool) : List Item → Except ConfigFault Config
  | [] => if isWhole then .ok {} else .error broken
  | root :: rest =>
    match root.head.kind with
    | .mappingStart => readFields broken root.head.mark (rest.length + 1) rest {}
    | .scalar .plain [] => .ok {}
    | _ => .error (.value (wrongType root.head "struct TableModeConfig") none root.head.mark)

def parse (s : Text) : Except ConfigFault Config := do
  let document := Yaml.Document.read s
  let (items, lost) := itemsOf [] document.events
  let broken :=
    match lost, document.fault with
    | some place, _ => ConfigFault.unknownAnchor place
    | none, some fault => .malformed fault
    | none, none => .cutShort
  let isWhole := lost.isNone && document.fault.isNone
  let config ← readRoot broken isWhole items
  if !isWhole then throw broken
  if !document.isLast then throw .severalDocuments
  return config

end PipeTable.Config
