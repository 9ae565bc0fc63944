import Milestone.Files.Tree
import Milestone.Snapshot.Document
import Milestone.Snapshot.Sources

/-!
# Progress files

Which world is active and where its documents are. The active world is the directory that changed
last, and each document the file that changed last in its own directory; of equal times the greater
name counts. A file that cannot be read blanks its own source and no other.
-/

namespace Milestone

/-- Why a progress file or the directory of worlds cannot be read. -/
inductive SnapshotError where
  | unreadable (path : String) (cause : FileError)
  | unusable (path : String) (cause : DocumentError)
  deriving DecidableEq

/-- The text of an error. -/
def SnapshotError.message : SnapshotError → String
  | unreadable path cause => "failed to read " ++ path ++ ": " ++ cause.message
  | unusable path cause => "failed to parse " ++ path ++ ": " ++ cause.message

/-- What a listing tells of an entry: its name, whether it is of the kind that is looked for, and the time of
its last change where that can be read. -/
structure Listed where
  name : String
  accepted : Bool
  modified? : Option Int
  deriving DecidableEq

/-- The choice after one more entry. An entry of another kind or without a time is passed over; of the others
the one that changed later is kept, and of equal times the one with the greater name. -/
def newer (best : Option (String × Int)) (e : Listed) : Option (String × Int) :=
  if e.accepted then
    match e.modified?, best with
    | none, _ => best
    | some time, none => some (e.name, time)
    | some time, some (name, latest) =>
      if latest < time ∨ (time = latest ∧ name < e.name) then some (e.name, time) else best
  else best

/-- The name of the entry that changed last. -/
def newest? (entries : List Listed) : Option String :=
  (entries.foldl newer none).map (·.1)

/-- An entry of a directory as the listing tells of it. Nothing can be said of the kind of an entry whose path
is too long for the system. -/
def listed (directory : String) (accept : String → Node → Bool) (e : String × Node) : Listed where
  name := e.1
  accepted := accept e.1 e.2 && !Path.isLong (Path.join directory e.1)
  modified? := some e.2.modified

namespace FileTree

/-- The path of the entry that changed last among those of a directory that are accepted; a missing directory
has none. -/
def newestEntry (files : FileTree) (directory : String) (accept : String → Node → Bool) :
    Except SnapshotError (Option String) :=
  match files.list directory with
  | .error .notFound => .ok none
  | .error cause => .error (.unreadable directory cause)
  | .ok entries =>
    .ok ((newest? (entries.map (listed directory accept))).map (Path.join directory))

/-- The file with an extension that changed last. -/
def newestFile (files : FileTree) (directory extension : String) :
    Except SnapshotError (Option String) :=
  files.newestEntry directory fun name node =>
    !node.isDirectory && Path.extension? name == some extension

/-- The name and path of the active world. -/
def activeWorld (files : FileTree) (saves : String) :
    Except SnapshotError (Option (String × String)) := do
  let path ← files.newestEntry saves fun _ node => node.isDirectory
  return path.bind fun path => (Path.fileName? path).map (·, path)

/-- The document in a file. -/
def readDocument (files : FileTree) (path : String) (lifetime : Bool) :
    Except SnapshotError Json.Value :=
  match files.readText path with
  | .error cause => .error (.unreadable path cause)
  | .ok text =>
    match if lifetime then Document.readLifetime text else Document.read text with
    | .ok doc => .ok doc
    | .error cause => .error (.unusable path cause)

/-- The newest document of a directory, if there is one and it can be used. -/
def newestDocument (files : FileTree) (directory extension : String) (lifetime : Bool) :
    Option Json.Value := do
  let path ← (← (files.newestFile directory extension).toOption)
  (files.readDocument path lifetime).toOption

/-- The directory of the lifetime counters, beside that of the worlds. -/
def lifetimeDirectory (saves : String) : String :=
  match Path.parent? saves with
  | some parent => Path.join parent "stats"
  | none => "stats"

/-- The statistics of a world. -/
def statisticsIn (files : FileTree) (era : Era) (saves world : String) : Option Json.Value :=
  match era with
  | .legacy => files.newestDocument (lifetimeDirectory saves) "dat" true
  | .mid | .hybrid | .modern => files.newestDocument (Path.join world "stats") "json" false
  | .unknown => none

/-- The advancements of a world. -/
def advancementsIn (files : FileTree) (era : Era) (world : String) : Option Json.Value :=
  match era with
  | .hybrid | .modern => files.newestDocument (Path.join world "advancements") "json" false
  | .legacy | .mid | .unknown => none

/-- The sources of the active world. -/
def sources (files : FileTree) (era : Era) (saves : String) : Sources :=
  match files.activeWorld saves with
  | .ok (some (name, path)) =>
    { world := some name
      advancements := files.advancementsIn era path
      statistics := files.statisticsIn era saves path
      unlocks := files.newestDocument (Path.join path "unlocks") "json" false }
  | _ => .none

end FileTree

end Milestone
