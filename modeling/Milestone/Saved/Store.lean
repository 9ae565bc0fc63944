import Milestone.Files.Tree
import Milestone.Saved.Written
import Milestone.Text.Blank

/-!
# Stores

Where the saved state is kept. A store that has never been written holds the empty state. The state
file is replaced by renaming a complete file into its place, so that it never holds half a state.
-/

namespace Milestone

/-- Why the saved state cannot be loaded or saved. -/
inductive StateError where
  | inaccessible (path : String) (cause : FileError)
  /-- The text is no state. -/
  | malformed (path : String)
  /-- The store takes nothing at the moment. -/
  | rejected
  deriving DecidableEq

/-- The text of an error. -/
def StateError.message : StateError → String
  | inaccessible path cause => "failed to access state file " ++ path ++ ": " ++ cause.message
  | malformed path => "failed to parse state file " ++ path
  | rejected => "the store rejected the state"

/-- A place that keeps the saved state in surroundings `σ`. -/
structure Store (σ : Type) where
  load : σ → Except StateError SavedState × σ
  save : SavedState → σ → Except StateError Unit × σ

namespace StateFile

/-- The state of the contents of a file; blanks alone are the empty state. -/
def decode (path contents : String) : Except StateError SavedState :=
  if Text.isBlankText contents then .ok .empty
  else
    match SavedState.read? contents with
    | some s => .ok s
    | none => .error (.malformed path)

/-- The state in a file; a missing file holds the empty state. -/
def load (path : String) (files : FileTree) : Except StateError SavedState :=
  match files.readText path with
  | .ok contents => decode path contents
  | .error .notFound => .ok .empty
  | .error cause => .error (.inaccessible path cause)

/-- The name under which a file is written before it replaces the old one. -/
def temporary (path : String) : String :=
  Path.withFileName path ((Path.fileName? path).getD "" ++ ".tmp")

/-- Makes the directory of a file; on a failure the tree is as far as the names went. -/
def prepare (path : String) (files : FileTree) : Except FileError Unit × FileTree :=
  match Path.parent? path with
  | some parent => files.createDirectory parent
  | none => (.ok (), files)

/-- Writes a state to a file; on a failure the tree is as far as the steps went. -/
def save (path : String) (s : SavedState) (files : FileTree) :
    Except StateError Unit × FileTree :=
  match prepare path files with
  | (.error cause, files) => (.error (.inaccessible path cause), files)
  | (.ok _, files) =>
    match files.writeFile (temporary path) (some s.text) with
    | .error cause => (.error (.inaccessible path cause), files)
    | .ok files =>
      match files.rename (temporary path) path with
      | .error cause => (.error (.inaccessible path cause), files)
      | .ok files => (.ok (), files)

/-- The store in a state file. -/
def store (path : String) : Store FileTree where
  load files := (load path files, files)
  save := save path

end StateFile

/-- A store in memory that rejects a number of saves. -/
structure MemoryStore where
  state : SavedState
  rejections : Nat
  /-- How many saves were accepted. -/
  saves : Nat
  deriving DecidableEq

namespace MemoryStore

def load (m : MemoryStore) : Except StateError SavedState × MemoryStore :=
  (.ok m.state, m)

def save (s : SavedState) (m : MemoryStore) : Except StateError Unit × MemoryStore :=
  if 0 < m.rejections then
    (.error .rejected, { m with rejections := m.rejections - 1 })
  else (.ok (), { m with state := s, saves := m.saves + 1 })

/-- The store in memory. -/
def store : Store MemoryStore := ⟨load, save⟩

end MemoryStore

end Milestone
