import Milestone.Files.Edit
import Milestone.Session.Basic

/-!
# Watching directories

Reports the changes below watched directories that call for a tick: changes of progress files, and
every removal, because a world is removed with its directory. A report names the path as the watched
directory was given, also when that directory has been moved since.
-/

namespace Milestone

/-- A change that calls for a tick. -/
inductive WatchEvent where
  | changed (path : String)
  | removed (path : String)
  deriving DecidableEq

/-- Directories that are watched with all below them: the paths given, and where they are. -/
structure Watch where
  directories : List (String × Location)

namespace Watch

/-- Watches directories, all of which must be there. -/
def start (files : FileTree) (directories : List String) : Except SessionError Watch :=
  match directories.find? (!files.isDirectory ·) with
  | some missing => .error (.notWatchable missing)
  | none => .ok ⟨directories.filterMap fun d =>
      (files.find d).toOption.map fun found => (d, found.1)⟩

/-- The paths under which a location is watched. -/
def pathsOf (watch : Watch) (place : Location) : List String :=
  watch.directories.filterMap fun (directory, root) =>
    if root.isPrefixOf place then some ((place.drop root.length).foldl Path.join directory)
    else none

/-- The events of a notice. -/
def report (watch : Watch) : Notice → List WatchEvent
  | .changed place => ((watch.pathsOf place).filter Path.isProgressFile).map .changed
  | .removed place => (watch.pathsOf place).map .removed
  | .moved .. => []

/-- The watch after a notice: a removed directory is watched no more, and a moved one where it is
now. -/
def advance (watch : Watch) : Notice → Watch
  | .removed place => ⟨watch.directories.filter (·.2 != place)⟩
  | .changed _ => watch
  | .moved source target => ⟨watch.directories.map fun (directory, root) =>
      (directory, if source.isPrefixOf root then target ++ root.drop source.length else root)⟩

/-- The events of notices, and the watch after them. -/
def observe (watch : Watch) : List Notice → List WatchEvent × Watch
  | [] => ([], watch)
  | notice :: rest =>
    let (events, after) := (watch.advance notice).observe rest
    (watch.report notice ++ events, after)

end Watch

/-- A watch over the directories of a session that are there; nothing where none is. -/
def Session.watch? (session : Session) (files : FileTree) : Option Watch :=
  match (session.watchDirectories files).filter (files.isDirectory ·) with
  | [] => none
  | directories => (Watch.start files directories).toOption

end Milestone
