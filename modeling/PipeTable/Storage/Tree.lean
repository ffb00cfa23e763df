import PipeTable.Storage.Basic

/-! # File trees

A file system as a value: locations with a file or a directory at each. Paths are followed one
step at a time, and every step starts from a directory. There are no links and no permissions.
-/

namespace PipeTable

/-- The bytes of a file, and a stretch of zero bytes after them that is not written out. -/
structure Content where
  bytes : ByteArray
  zeros : Nat := 0

namespace Content

def ofText (s : String) : Content := ⟨s.toUTF8, 0⟩

def size (c : Content) : Nat := c.bytes.size + c.zeros

/-- The first `n` bytes. -/
def start (c : Content) (n : Nat) : List UInt8 :=
  (c.bytes.extract 0 n).toList ++ List.replicate (min c.zeros (n - c.bytes.size)) 0

def text? (c : Content) : Option String :=
  String.fromUTF8? (c.bytes ++ ⟨Array.replicate c.zeros 0⟩)

end Content

inductive Entry where
  | file (content : Content)
  | directory

def Entry.isDirectory : Entry → Bool
  | file _ => false
  | directory => true

/-- The names from the root to a place. -/
abbrev Location := List Text

/-- `current` is where relative paths start. -/
structure Tree where
  entries : List (Location × Entry) := []
  current : Location := []

namespace Tree

def find (t : Tree) (place : Location) : Option Entry :=
  if place.isEmpty then some .directory else t.entries.lookup place

def isDirectoryAt (t : Tree) (place : Location) : Bool :=
  (t.find place).any Entry.isDirectory

def put (t : Tree) (place : Location) (e : Entry) : Tree :=
  { t with entries := (place, e) :: t.entries.filter fun x => x.1 ≠ place }

def maxNameBytes : Nat := 255

/-- The name fits into a directory. -/
def checkName (name : Text) : Except FileError Unit :=
  if maxNameBytes < (String.ofList name).utf8ByteSize then .error .nameTooLong else .ok ()

def step (t : Tree) (here : Location) (name : Text) : Except FileError Location :=
  if name = ['.'] then .ok here
  else if name = ['.', '.'] then .ok here.dropLast
  else do
    checkName name
    if (t.find (here ++ [name])).isSome then .ok (here ++ [name]) else .error .notFound

/-- Follow steps that all have to end in directories. -/
def enter (t : Tree) : Location → List Text → Except FileError Location
  | here, [] => .ok here
  | here, name :: names => do
    let next ← t.step here name
    if t.isDirectoryAt next then t.enter next names else .error .notDirectory

def origin (t : Tree) (p : Path) : Location :=
  if Path.isAbsolute p then [] else t.current

/-- A path of so many bytes or more is not followed. -/
def pathLimit : Nat := 4096

/-- The directory that the last step of a path starts from, and that step. The root has none. -/
def approach (t : Tree) (p : Path) : Except FileError (Location × Option Text) := do
  if '\x00' ∈ p then throw .nulInName
  if p.isEmpty then throw .notFound
  if pathLimit ≤ (String.ofList p).utf8ByteSize then throw .nameTooLong
  let steps := Path.steps p
  return (← t.enter (t.origin p) steps.dropLast, steps.getLast?)

/-- The location that a path leads to; after a slash at its end there has to be a directory. -/
def resolve (t : Tree) (p : Path) : Except FileError Location := do
  match ← t.approach p with
  | (here, none) => return here
  | (here, some name) =>
    let found ← t.step here name
    if Path.endsWithSlash p && !t.isDirectoryAt found then throw .notDirectory
    return found

def fileAt (t : Tree) (p : Path) : Except FileError Content := do
  match t.find (← t.resolve p) with
  | some (.file c) => return c
  | some .directory => throw .isDirectory
  | none => throw .notFound

/-- The location of a file to write. A file has a name of its own and no slash after it. -/
def fileToWrite (t : Tree) (p : Path) : Except FileError Location := do
  match ← t.approach p with
  | (_, none) => throw .isDirectory
  | (here, some name) =>
    if [['.'], ['.', '.']].contains name || Path.endsWithSlash p then throw .isDirectory
    checkName name
    if t.isDirectoryAt (here ++ [name]) then throw .isDirectory
    return here ++ [name]

def writeFile (t : Tree) (p : Path) (c : Content) : Except FileError Tree := do
  return t.put (← t.fileToWrite p) (.file c)

def makeDirectory (t : Tree) (p : Path) : Except FileError Tree := do
  match ← t.approach p with
  | (_, none) => throw .alreadyExists
  | (here, some name) =>
    if [['.'], ['.', '.']].contains name then throw .alreadyExists
    checkName name
    if (t.find (here ++ [name])).isSome then throw .alreadyExists
    return t.put (here ++ [name]) .directory

def status (t : Tree) (p : Path) : Except FileError FileStatus := do
  match t.find (← t.resolve p) with
  | some (.file c) => return ⟨false, c.size⟩
  | some .directory => return ⟨true, 0⟩
  | none => throw .notFound

/-- A change of the tree that may fail and then changes nothing. -/
def attempt (change : Tree → Except FileError Tree) : StateM Tree (Except FileError Unit) :=
  fun t =>
    match change t with
    | .ok t' => (.ok (), t')
    | .error e => (.error e, t)

instance : Storage (StateM Tree) where
  status p := fun t => (t.status p, t)
  readStart p n := fun t => ((t.fileAt p).map fun c => c.start n, t)
  readText p := fun t =>
    ((t.fileAt p).bind fun c => (c.text?).elim (.error .notText) .ok, t)
  writeText p s := attempt fun t => t.writeFile p (.ofText s)
  makeDirectory p := attempt fun t => t.makeDirectory p

end Tree

end PipeTable
