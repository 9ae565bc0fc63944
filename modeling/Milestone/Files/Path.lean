/-!
# Paths

Paths are texts whose names are separated by slashes. Repeated slashes, a slash at the end and single
points behind the first name do not count as parts; the text of a path is kept as it was given.
-/

namespace Milestone.Path

/-- A part of a path: where it starts, or a name, a single or a double point. -/
structure Part where
  name : List Char
  /-- The position behind the part in the text of the path. -/
  stop : Nat
  deriving DecidableEq

/-- The pieces between slashes with the positions behind them; `start` is that of the first
character. -/
def pieces (start : Nat) (current : List Char) : List Char → List Part
  | [] => [⟨current.reverse, start⟩]
  | '/' :: rest => ⟨current.reverse, start⟩ :: pieces (start + 1) [] rest
  | c :: rest => pieces (start + 1) (c :: current) rest

def isAbsolute (path : String) : Bool :=
  path.toList.head? == some '/'

/-- The parts that count: no empty ones, and a single point only at the very start. -/
def parts (path : String) : List Part :=
  match pieces 0 [] path.toList with
  | [] => []
  | first :: rest =>
    (if first.name.isEmpty then [] else [first]) ++
      rest.filter fun p => !p.name.isEmpty && p.name != ['.']

/-- The last name, if the path ends in one. -/
def fileName? (path : String) : Option String :=
  match (parts path).getLast? with
  | some p => if p.name = ['.'] ∨ p.name = ['.', '.'] then none else some (String.ofList p.name)
  | none => none

/-- The path without its last part. -/
def parent? (path : String) : Option String :=
  match (parts path).reverse with
  | [] => none
  | [_] => some (if isAbsolute path then "/" else "")
  | _ :: before :: _ => some (String.ofList (path.toList.take before.stop))

/-- A path inside a directory; an absolute path stands for itself. -/
def join (directory path : String) : String :=
  if isAbsolute path then path
  else if directory.isEmpty || directory.toList.getLast? == some '/' then directory ++ path
  else directory ++ "/" ++ path

/-- The path with another last name, or with the name added where it ends in none. -/
def withFileName (path name : String) : String :=
  match fileName? path, parent? path with
  | some _, some parent => join parent name
  | _, _ => join path name

/-- What follows the last point of a name that has more than a point before it. -/
def extension? (path : String) : Option String :=
  (fileName? path).bind fun name =>
    let reversed := name.toList.reverse
    let extension := reversed.takeWhile (· != '.')
    if extension.length + 1 < reversed.length then some (String.ofList extension.reverse) else none

/-- Whether the system refuses a name because it has too many bytes. -/
def isLongName (name : String) : Bool :=
  255 < name.utf8ByteSize

/-- Whether the system refuses a path because it has too many bytes. -/
def isLong (path : String) : Bool :=
  4095 < path.utf8ByteSize

/-- Whether a path ends like a progress file. -/
def isProgressFile (path : String) : Bool :=
  match extension? path with
  | some e => e == "json" || e == "dat"
  | none => false

end Milestone.Path
