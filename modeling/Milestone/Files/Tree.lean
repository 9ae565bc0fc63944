import Milestone.Files.Error
import Milestone.Files.Path

/-!
# File trees

A tree of directories and files as a value, with the times of the last changes and a working
directory. A location is the list of names from the root. Accesses fail as on Linux. A directory
changes when a name comes into it or leaves it.
-/

namespace Milestone

/-- A location: the names from the root of the tree. -/
abbrev Location := List String

/-- What stands at a location. -/
inductive Node where
  /-- A file with its text, if its bytes are one. -/
  | file (text : Option String) (modified : Int)
  | directory (modified : Int)
  deriving DecidableEq

namespace Node

def isDirectory : Node → Bool
  | directory _ => true
  | file .. => false

/-- The time of the last change. -/
def modified : Node → Int
  | file _ t => t
  | directory t => t

/-- The same node with another time. -/
def touch (t : Int) : Node → Node
  | file text _ => file text t
  | directory _ => directory t

end Node

/-- A node and its location. -/
structure Entry where
  place : Location
  /-- The number of names, which tells deep locations apart without a look at the names. -/
  depth : Nat
  depth_eq : depth = place.length
  node : Node
  deriving DecidableEq

namespace Entry

/-- A node at a location. -/
def ofNode (place : Location) (node : Node) : Entry := ⟨place, place.length, rfl, node⟩

/-- Whether an entry is the one of a location with a number of names. -/
def isAt (e : Entry) (depth : Nat) (place : Location) : Bool :=
  e.depth == depth && e.place == place

/-- Whether an entry is at or below a location. -/
def isWithin (e : Entry) (place : Location) : Bool :=
  place.isPrefixOf e.place

theorem isAt_iff (e : Entry) (place : Location) :
    e.isAt place.length place = true ↔ e.place = place := by
  simp only [isAt, e.depth_eq, Bool.and_eq_true, beq_iff_eq]
  exact ⟨fun h => h.2, fun h => ⟨by rw [h], h⟩⟩

end Entry

/-- A tree of files. The root directory is always there. -/
structure FileTree where
  entries : List Entry
  working : Location
  /-- The time that a change made now bears. -/
  clock : Int
  deriving DecidableEq

namespace FileTree

/-- The tree of an empty working directory in the root. -/
def ofWorking (name : String) : FileTree := ⟨[.ofNode [name] (.directory 0)], [name], 0⟩

/-- The entry of a location. -/
def entryAt? (t : FileTree) (place : Location) : Option Entry :=
  let depth := place.length
  t.entries.find? (·.isAt depth place)

/-- The node at a location. -/
def node? (t : FileTree) (place : Location) : Option Node :=
  if place.isEmpty then some (.directory 0) else (t.entryAt? place).map (·.node)

/-- Puts a node at a location, in the stead of one that is there. -/
def put (t : FileTree) (place : Location) (node : Node) : FileTree :=
  let depth := place.length
  { t with entries := .ofNode place node :: t.entries.filter (!·.isAt depth place) }

theorem entryAt?_put_self (t : FileTree) (place : Location) (node : Node) :
    (t.put place node).entryAt? place = some (.ofNode place node) := by
  simp [put, entryAt?, Entry.isAt_iff, Entry.ofNode]

theorem entryAt?_put_of_ne (t : FileTree) {place other : Location} (node : Node)
    (h : other ≠ place) : (t.put place node).entryAt? other = t.entryAt? other := by
  simp only [put, entryAt?]
  rw [List.find?_cons_of_neg (by simpa [Entry.isAt_iff, Entry.ofNode] using h.symm),
    List.find?_filter]
  congr 1
  funext e
  by_cases he : e.place = other
  · have : e.isAt place.length place = false := by
      simpa [← Bool.not_eq_true, Entry.isAt_iff, he] using h
    simp [this]
  · have : e.isAt other.length other = false := by
      simpa [← Bool.not_eq_true, Entry.isAt_iff] using he
    simp [this]

/-- What is put at a location stands there. -/
theorem node?_put_self (t : FileTree) {place : Location} (node : Node) (h : place ≠ []) :
    (t.put place node).node? place = some node := by
  simp [node?, h, entryAt?_put_self, Entry.ofNode]

/-- What is put at a location leaves the other locations alone. -/
theorem node?_put_of_ne (t : FileTree) {place other : Location} (node : Node)
    (h : other ≠ place) : (t.put place node).node? other = t.node? other := by
  simp [node?, entryAt?_put_of_ne t node h]

/-- Sets the time of the directory at a location to that of the clock. -/
def stamp (t : FileTree) (place : Location) : FileTree :=
  match (t.entryAt? place).map Entry.node with
  | some (.directory _) => t.put place (.directory t.clock)
  | _ => t

/-- Takes away what stands at and below a location. -/
def cut (t : FileTree) (place : Location) : FileTree :=
  { t with entries := t.entries.filter (!·.isWithin place) }

/-- The nodes directly in a directory, by name. -/
def children (t : FileTree) (place : Location) : List (String × Node) :=
  let depth := place.length + 1
  t.entries.filterMap fun e =>
    if e.depth = depth ∧ e.isWithin place then e.place.getLast?.map (·, e.node) else none

/-- Everything at and below a location, a directory after what is in it. -/
def below (t : FileTree) (place : Location) : List Location :=
  ((t.entries.filter (·.isWithin place)).mergeSort fun a b => b.depth ≤ a.depth).map (·.place)

/-- The names of a path with single points kept, and whether it demands a directory at its end. -/
def steps (path : String) : List String × Bool :=
  let names := path.toList.splitOn '/'
  ((names.filter (!·.isEmpty)).map String.ofList, names.getLast? == some [])

/-- Where names lead from a location; every name but the last must be a directory that is there. -/
def walk (t : FileTree) (start : Location) : List String → Except FileError Location
  | [] => .ok start
  | name :: rest =>
    match t.node? start with
    | none => .error .notFound
    | some (.file ..) => .error .notDirectory
    | some (.directory _) =>
      if name = "." then t.walk start rest
      else if name = ".." then t.walk start.dropLast rest
      else if Path.isLongName name then .error .nameTooLong
      else t.walk (start ++ [name]) rest

/-- Why the system takes no path like this, whatever the tree. -/
def pathFault? (path : String) : Option FileError :=
  if path.toList.any (·.toNat == 0) then some .zeroCharacter
  else if Path.isLong path then some .nameTooLong
  else none

/-- The location that a path names, present or not. -/
def locate (t : FileTree) (path : String) : Except FileError Location :=
  if path.isEmpty then .error .notFound
  else
    match pathFault? path with
    | some fault => .error fault
    | none => t.walk (if Path.isAbsolute path then [] else t.working) (steps path).1

/-- The location and node that a path names. -/
def find (t : FileTree) (path : String) : Except FileError (Location × Node) := do
  let place ← t.locate path
  match t.node? place with
  | none => throw .notFound
  | some node =>
    if (steps path).2 && !node.isDirectory then throw .notDirectory
    return (place, node)

def exists? (t : FileTree) (path : String) : Bool :=
  (t.find path).toOption.isSome

def isDirectory (t : FileTree) (path : String) : Bool :=
  (t.find path).toOption.any (·.2.isDirectory)

/-- The text of a file. -/
def readText (t : FileTree) (path : String) : Except FileError String := do
  match (← t.find path).2 with
  | .file (some text) _ => return text
  | .file none _ => throw .notText
  | .directory _ => throw .isDirectory

/-- The names and nodes in a directory. -/
def list (t : FileTree) (path : String) : Except FileError (List (String × Node)) := do
  match ← t.find path with
  | (place, .directory _) => return t.children place
  | _ => throw .notDirectory

/-- Makes the directories that names lead through from a location; on a failure the tree is as far as
the names went. A file in the way is met by the making of its own name if a directory before it was
made, and otherwise by that of the whole path. -/
def makeDirectories (t : FileTree) (made : Bool) (place : Location) :
    List String → Except FileError Unit × FileTree
  | [] => (.ok (), t)
  | name :: rest =>
    if name = "." then t.makeDirectories made place rest
    else if name = ".." then t.makeDirectories made place.dropLast rest
    else if Path.isLongName name then (.error .nameTooLong, t)
    else
      let inner := place ++ [name]
      match t.node? inner with
      | some (.directory _) => t.makeDirectories made inner rest
      | some (.file ..) => (.error (if made || rest.isEmpty then .alreadyThere else .notDirectory), t)
      | none =>
        ((t.stamp place).put inner (.directory t.clock)).makeDirectories true inner rest

/-- Makes the directory that a path names, and those on the way to it. -/
def createDirectory (t : FileTree) (path : String) : Except FileError Unit × FileTree :=
  match pathFault? path with
  | some fault => (.error fault, t)
  | none =>
    t.makeDirectories false (if Path.isAbsolute path then [] else t.working) (steps path).1

/-- Writes a file whose directory is there. -/
def writeFile (t : FileTree) (path : String) (text : Option String) :
    Except FileError FileTree := do
  let place ← t.locate path
  match t.node? place with
  | some (.directory _) => throw .isDirectory
  | some (.file ..) => return t.put place (.file text t.clock)
  | none => return (t.stamp place.dropLast).put place (.file text t.clock)

/-- Sets the time of what a path names. -/
def touch (t : FileTree) (path : String) (modified : Int) : Except FileError FileTree := do
  let (place, node) ← t.find path
  return t.put place (node.touch modified)

/-- Takes away what a path names, with all below it. -/
def remove (t : FileTree) (path : String) : Except FileError FileTree := do
  return t.cut (← t.find path).1

/-- Moves what stands at and below a location. -/
def move (t : FileTree) (source target : Location) : FileTree :=
  let entries := (t.cut target).entries.map fun e =>
    if e.isWithin source then .ofNode (target ++ e.place.drop source.length) e.node else e
  ({ t with entries }.stamp source.dropLast).stamp target.dropLast

/-- Renames a file or directory, in the stead of what the new name holds. -/
def rename (t : FileTree) (source target : String) : Except FileError FileTree := do
  let (source, node) ← t.find source
  let (names, directory) := steps target
  let place ← t.locate target
  if names.getLast?.all fun name => name = "." ∨ name = ".." then throw .busy
  if directory && !node.isDirectory then throw .notDirectory
  if place = source then return t
  match t.node? place with
  | none => return t.move source place
  | some (.file ..) => if node.isDirectory then throw .notDirectory else return t.move source place
  | some (.directory _) =>
    if !node.isDirectory then throw .isDirectory
    else if !(t.children place).isEmpty then throw .notEmpty
    else return t.move source place

end FileTree

end Milestone
