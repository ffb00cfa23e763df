import PipeTable.Text.Lines

/-! # Paths

A path is a text cut into pieces at slashes. Empty pieces and pieces of one dot say nothing,
except that an empty first piece makes the path absolute and a first dot stays where it is.
-/

namespace PipeTable

abbrev Path := Text

namespace Path

def slash : Char := '/'

def isAbsolute (p : Path) : Bool := p.head? == some slash

/-- The pieces that lead somewhere. -/
def steps (p : Path) : List Text :=
  (Text.fields slash p).filter fun piece => !piece.isEmpty

def endsWithSlash (p : Path) : Bool := p.getLast? == some slash

def isIdle (piece : Text) : Bool := piece == [] || piece == ['.']

def dropIdle (pieces : List Text) : List Text :=
  (pieces.reverse.dropWhile isIdle).reverse

/-- The first piece, which is empty for an absolute path, and the others without an idle end. -/
def cut (p : Path) : Text × List Text :=
  match Text.fields slash p with
  | [] => ([], [])
  | first :: rest => (first, dropIdle rest)

def ofPieces (first : Text) (rest : List Text) : Path :=
  [slash].intercalate (first :: rest)

/-- The path that `child` names from `base`. -/
def join (base child : Path) : Path :=
  if isAbsolute child then child
  else if base.isEmpty || endsWithSlash base then base ++ child
  else base ++ slash :: child

/-- The path without its last piece; the root and the empty path have none. -/
def parent (p : Path) : Option Path :=
  match cut p with
  | (first, []) => if first.isEmpty then none else some []
  | (first, rest) =>
    match dropIdle rest.dropLast with
    | [] => some (if first.isEmpty then [slash] else first)
    | rest => some (ofPieces first rest)

/-- The path and the paths that it lies in, innermost first; at most `n` of them. -/
def lineage : Nat → Path → List Path
  | 0, _ => []
  | n + 1, p =>
    match parent p with
    | none => [p]
    | some q => p :: lineage n q

/-- The path and all paths that it lies in, innermost first. -/
def withParents (p : Path) : List Path :=
  lineage (p.length + 2) p

/-- The last piece, unless it leads up or nowhere. -/
def fileName (p : Path) : Option Text :=
  let (first, rest) := cut p
  match rest.getLast? with
  | some name => if name = "..".toList then none else some name
  | none => if isIdle first || first = "..".toList then none else some first

/-- What follows the last dot of the file name, if the name does not start with that dot. -/
def extension (p : Path) : Option Text :=
  match fileName p with
  | none => none
  | some name =>
    let fields := Text.fields '.' name
    if fields.length = 1 then none
    else if fields.length = 2 && fields.head? == some [] then none
    else fields.getLast?

end Path

end PipeTable
