import Milestone.Files.Tree

/-!
# Edits of a file tree

What others do to the files while they are tracked, and the notices that the operating system gives of
it. Every edit sets the time of the path it names; directories made on the way have the time 0, and
those that were there keep theirs. An edit that cannot be carried out changes nothing.
-/

namespace Milestone

/-- One change of the files. -/
inductive FileEdit where
  /-- Writes a file; no text stands for bytes that are none. -/
  | write (path : String) (text : Option String) (modified : Int)
  | makeDirectory (path : String) (modified : Int)
  | touch (path : String) (modified : Int)
  | rename (source target : String) (modified : Int)
  | remove (path : String)

/-- What the operating system tells about a location. -/
inductive Notice where
  | changed (place : Location)
  | removed (place : Location)
  /-- What stood at one location and below it now stands at another. -/
  | moved (source target : Location)

namespace FileEdit

/-- The path that an edit names; a renaming names the new one. -/
def path : FileEdit → String
  | write path .. | makeDirectory path _ | touch path _ | rename _ path _ | remove path => path

/-- The time that an edit sets. -/
def modified? : FileEdit → Option Int
  | write _ _ t | makeDirectory _ t | touch _ t | rename _ _ t => some t
  | remove _ => none

/-- Makes the directory of a path, and those above it. -/
def withParent (files : FileTree) (path : String) : Except FileError FileTree :=
  match files.createDirectory ((Path.parent? path).getD "") with
  | (.ok _, files) => .ok files
  | (.error cause, _) => .error cause

/-- The tree with what an edit does, apart from the times. -/
def perform (files : FileTree) : FileEdit → Except FileError FileTree
  | write path text _ => do (← withParent files path).writeFile path text
  | makeDirectory path _ =>
    match files.createDirectory path with
    | (.ok _, files) => .ok files
    | (.error cause, _) => .error cause
  | touch _ _ => .ok files
  | rename source target _ => do (← withParent files target).rename source target
  | remove path => files.remove path

/-- The second tree with the times that the directories of the first one have there. -/
def keepTimes (before after : FileTree) : FileTree :=
  { after with entries := after.entries.map fun e =>
      match before.node? e.place with
      | some (.directory t) => { e with node := e.node.touch t }
      | _ => e }

/-- The tree after an edit that can be carried out. -/
def carryOut (files : FileTree) (edit : FileEdit) : Except FileError FileTree := do
  let after := keepTimes files (← edit.perform { files with clock := 0 })
  let after ← match edit.modified? with
    | some t => after.touch edit.path t
    | none => pure after
  return { after with clock := files.clock }

/-- The directories above a location that only the second tree has. -/
def madeAbove (before after : FileTree) (place : Location) : List Location :=
  ((List.range place.length).map place.take).filter fun above =>
    (before.node? above).isNone && (after.node? above).isSome

/-- The notices of a change of what a path names. -/
def changeNotices (before after : FileTree) (path : String) : List Notice :=
  match after.locate path with
  | .ok place => (madeAbove before after place ++ [place]).map .changed
  | .error _ => []

/-- The notices of an edit that turned one tree into another. -/
def notices (before after : FileTree) : FileEdit → List Notice
  | write path .. | makeDirectory path _ | touch path _ => changeNotices before after path
  | rename source target _ =>
    match before.locate source, after.locate target with
    | .ok old, .ok new => .changed old :: .moved old new :: changeNotices before after target
    | _, _ => []
  | remove path =>
    match before.locate path with
    | .ok place => (before.below place).map .removed
    | .error _ => []

/-- The tree after an edit, with the notices of it. -/
def apply (files : FileTree) (edit : FileEdit) : FileTree × List Notice :=
  match edit.carryOut files with
  | .ok after => (after, notices files after edit)
  | .error _ => (files, [])

end FileEdit

end Milestone
