import Milestone.Command.Footprint
import Milestone.Command.Run

/-!
# The program

Reads the files that a command looks at into a tree, carries the command out on the tree, and puts the
state file in its place if it changed.
-/

namespace Milestone.Program

open Milestone.Command

/-- A location as a path from the root. -/
def pathOf (place : Location) : String :=
  "/" ++ String.intercalate "/" place

/-- The time of a change in nanoseconds. -/
def nanoseconds (t : IO.FS.SystemTime) : Int :=
  t.sec * 1000000000 + t.nsec.toNat

/-- The names of a directory that is there. -/
def namesIn (place : Location) : IO (List String) := do
  let path ← IO.FS.realPath (pathOf place)
  return (← path.readDir).toList.map (·.fileName)

/-- What stands at a location; the text of a file is read only if it is wanted. -/
def nodeAt (place : Location) (wanted : Bool) : IO Node := do
  let path ← IO.FS.realPath (pathOf place)
  let info ← path.metadata
  let modified := nanoseconds info.modified
  match info.type with
  | .dir => return .directory modified
  | _ =>
    let text ← if wanted then pure (String.fromUTF8? (← IO.FS.readBinFile path)) else pure none
    return .file text modified

/-- Adds what stands at a location, if anything does. -/
def addNode (files : FileTree) (place : Location) (wanted : Bool) : IO FileTree := do
  try return files.put place (← nodeAt place wanted)
  catch _ => return files

/-- Adds what lies below a directory, a number of levels deep. -/
def addBelow (files : FileTree) (place : Location) (levels : Nat) : IO FileTree := do
  let names ← try namesIn place catch _ => pure []
  names.foldlM (fun files name => do
    let child := place ++ [name]
    let files ← addNode files child (Path.isProgressFile name)
    match levels, files.node? child with
    | n + 1, some (.directory _) => addBelow files child n
    | _, _ => return files) files

/-- The location that names lead to from another one. -/
def follow (place : Location) : List String → Location
  | [] => place
  | "." :: rest => follow place rest
  | ".." :: rest => follow place.dropLast rest
  | name :: rest => follow (place ++ [name]) rest

/-- The location that a path names from the working directory. -/
def placeOf (working : Location) (path : String) : Location :=
  follow (if Path.isAbsolute path then [] else working) (FileTree.steps path).1

/-- The locations that a path leads through before its last name. -/
def placesOnWay (working : Location) (path : String) : List Location :=
  let names := (FileTree.steps path).1
  let start := if Path.isAbsolute path then [] else working
  ((List.range names.length).map fun n => follow start (names.take n)).filter (!·.isEmpty)

/-- Adds the directories that a path leads through. -/
def addWay (files : FileTree) (path : String) : IO FileTree :=
  (placesOnWay files.working path).foldlM (fun files place => addNode files place false) files

/-- The tree that a command looks at. -/
def readTree (working : Location) (footprint : Footprint) : IO FileTree := do
  let files ← addWay ⟨[], working, 0⟩ (pathOf working)
  let files ← addNode files working false
  let files ← footprint.files.foldlM (fun files path => do
    addNode (← addWay files path) (placeOf working path) true) files
  footprint.directories.foldlM (fun files (path, levels) => do
    let place := placeOf working path
    let files ← addNode (← addWay files path) place false
    addBelow files place levels) files

/-- Puts a text into a file, whose directories are made: under another name first, then in its place. -/
def install (working : Location) (path text : String) : IO Unit := do
  (placesOnWay working path).forM fun place => IO.FS.createDirAll (pathOf place)
  let path := pathOf (placeOf working path)
  let temporary := StateFile.temporary path
  IO.FS.writeFile temporary text
  IO.FS.rename temporary path

/-- Installs the state file if a command changed it. -/
def installChange (env : Environment) (before after : FileTree) : IO Unit :=
  match Settings.stateFileOf env with
  | .error _ => return
  | .ok path =>
    match after.readText path with
    | .error _ => return
    | .ok text =>
      if (before.readText path).toOption = some text then return else install after.working path text

/-- The present time, which is that of a file just written. -/
def presentTime : IO Instant := do
  let (_, path) ← IO.FS.createTempFile
  let info ← path.metadata
  IO.FS.removeFile path
  match Instant.ofEpoch? info.modified.sec info.modified.nsec.toNat with
  | some now => return now
  | none => throw (IO.userError "the clock shows no date")

/-- The environment variables that settings are read from. -/
def readEnvironment : IO Environment := do
  let names := ["HOME", "WAYPOST_VERSION", "WAYPOST_TEMPLATE", "WAYPOST_LANG",
    "WAYPOST_SAVES_DIR", "WAYPOST_STATE_PATH", "WAYPOST_DEBOUNCE_MS", "WAYPOST_TICK_SECS"]
  let values ← names.filterMapM fun name => do
    return (← IO.getEnv name).map (name, ·)
  return fun name => values.lookup name

/-- Prints the end of a command and tells its exit code. -/
def finish (outcome : Outcome) : IO UInt32 := do
  IO.print outcome.output
  match outcome.failure with
  | some failure => failure.lines.forM fun line => IO.eprintln line
  | none => pure ()
  return UInt32.ofNat outcome.exitCode

/-- The milliseconds between two looks at the files. -/
def lookInterval : Nat := 50

/-- Keeps a session up to date until the process is stopped. -/
partial def watch (env : Environment) (working : Location) (footprint : Footprint) (started : Nat)
    (previous : FileTree) (monitor : Monitor) : IO Unit := do
  let files ← readTree working footprint
  let time := (← IO.monoMsNow) - started
  let (due, monitor) := monitor.advance time (files != previous)
  if due then
    let (monitor, after) := monitor.tickNow (← presentTime) files
    installChange env files after
    watch env working footprint started (← readTree working footprint) monitor
  else
    IO.sleep (UInt32.ofNat lookInterval)
    watch env working footprint started files monitor

/-- Carries out what a command line asks for. -/
def perform (request : Request) : IO UInt32 := do
  let env ← readEnvironment
  let current ← IO.currentDir
  let working := placeOf [] current.toString
  let footprint := footprint env request
  let files ← readTree working footprint
  match request, Monitor.start env files with
  | .run, .ok monitor =>
    watch env working footprint (← IO.monoMsNow) files monitor
    return 0
  | _, _ =>
    let (outcome, after) := execute env request (← presentTime) files
    installChange env files after
    finish outcome

end Milestone.Program

open Milestone.Command in
/-- Runs the program with its arguments. -/
def main (args : List String) : IO UInt32 :=
  match parse args with
  | some (.request request) => Milestone.Program.perform request
  | some .help => do IO.print helpText; return 0
  | some .version => do IO.print versionText; return 0
  | none => do IO.eprint helpText; return 2
