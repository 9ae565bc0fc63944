import Milestone.Files.Tree
import Milestone.Template.Build

/-!
# Template files

Loads a template with the names to show. Names that cannot be loaded are left out, and the template is
read all the same.
-/

namespace Milestone.Template

/-- The display names of a file, or none of them where it cannot be used. -/
def loadNames (files : FileTree) : Option String → DisplayNames
  | none => ∅
  | some path => ((files.readText path).toOption.bind DisplayNames.read?).getD ∅

/-- The checklist of a template file. -/
def load (files : FileTree) (path : String) (names : Option String) :
    Except TemplateError Checklist :=
  match files.readText path with
  | .error cause => .error (.unreadable path cause)
  | .ok text => read text (loadNames files names)

/-- The checklist of a template file, or the empty one where it cannot be used. -/
def loadOrEmpty (files : FileTree) (path : String) (names : Option String) : Checklist :=
  match load files path names with
  | .ok checklist => checklist
  | .error _ => .empty

/-- A template is told by the texts of its files. -/
theorem loadOrEmpty_congr {files later : FileTree} {path : String} {names : Option String}
    (hpath : later.readText path = files.readText path)
    (hnames : ∀ file, names = some file → later.readText file = files.readText file) :
    loadOrEmpty later path names = loadOrEmpty files path names := by
  have hload : loadNames later names = loadNames files names := by
    cases names with
    | none => rfl
    | some file => rw [loadNames, loadNames, hnames file rfl]
  rw [loadOrEmpty, loadOrEmpty, load, load, hpath, hload]

end Milestone.Template
