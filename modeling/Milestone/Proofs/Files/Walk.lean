import Milestone.Files.Tree
import Mathlib.Tactic.SplitIfs

/-!
# Where paths lead

Where a path leads and what a read shows do not depend on times. So a tree is described by what stands at each
location, times aside. More files and directories do not change where a path leads, except that what was
missing may be there.
-/

namespace Milestone

namespace FileTree

variable {t u : FileTree}

/-- What stands at a location, its time aside. -/
def shown? (t : FileTree) (place : Location) : Option Node :=
  (t.node? place).map (Node.touch 0)

/-- The location that the names of a path start from. -/
def start (t : FileTree) (path : String) : Location :=
  if Path.isAbsolute path then [] else t.working

/-- Nothing is shown where nothing stands. -/
theorem shown?_eq_none {place : Location} : t.shown? place = none ↔ t.node? place = none :=
  Option.map_eq_none_iff

/-- A directory is shown where one stands, whatever its time. -/
theorem shown?_eq_directory {place : Location} :
    t.shown? place = some (.directory 0) ↔ ∃ time, t.node? place = some (.directory time) := by
  simp only [shown?, Option.map_eq_some_iff]
  constructor
  · rintro ⟨node, hnode, htouch⟩
    cases node with
    | directory time => exact ⟨time, hnode⟩
    | file text time => cases htouch
  · rintro ⟨time, hnode⟩
    exact ⟨_, hnode, rfl⟩

/-- A file is shown where one with that text stands, whatever its time. -/
theorem shown?_eq_file {place : Location} {text : Option String} :
    t.shown? place = some (.file text 0) ↔ ∃ time, t.node? place = some (.file text time) := by
  simp only [shown?, Option.map_eq_some_iff]
  constructor
  · rintro ⟨node, hnode, htouch⟩
    cases node with
    | directory time => cases htouch
    | file text' time =>
      cases htouch
      exact ⟨time, hnode⟩
  · rintro ⟨time, hnode⟩
    exact ⟨_, hnode, rfl⟩

/-- Nothing, a file or a directory stands at a location. -/
theorem shown?_cases (t : FileTree) (place : Location) :
    t.shown? place = none ∨ (∃ text, t.shown? place = some (.file text 0)) ∨
      t.shown? place = some (.directory 0) := by
  rw [shown?]
  cases t.node? place with
  | none => exact .inl rfl
  | some node =>
    cases node with
    | file text time => exact .inr (.inl ⟨text, rfl⟩)
    | directory time => exact .inr (.inr rfl)

/-- The root is a directory in every tree. -/
@[simp] theorem shown?_root (t : FileTree) : t.shown? [] = some (.directory 0) := rfl

/-- What is put at a location shows there and nowhere else. -/
theorem shown?_put (t : FileTree) {place : Location} (node : Node) (h : place ≠ []) (other : Location) :
    (t.put place node).shown? other =
      if other = place then some (node.touch 0) else t.shown? other := by
  by_cases hother : other = place
  · rw [if_pos hother, hother, shown?, node?_put_self t node h, Option.map_some]
  · rw [if_neg hother, shown?, node?_put_of_ne t node hother, shown?]

/-- The time of a directory does not show. -/
@[simp] theorem shown?_stamp (t : FileTree) (place other : Location) :
    (t.stamp place).shown? other = t.shown? other := by
  rw [stamp]
  split
  · rename_i time hentry
    by_cases hplace : place = []
    · subst hplace
      by_cases hother : other = []
      · rw [hother, shown?_root, shown?_root]
      · rw [shown?, node?_put_of_ne t _ hother, shown?]
    · rw [shown?_put t _ hplace]
      split
      · rename_i hother
        have hnode : t.node? place = some (.directory time) := by
          rw [node?, if_neg (by simpa using hplace), hentry]
        rw [hother, shown?, hnode]
        rfl
      · rfl
  · rfl

/-- Putting something leaves the working directory where it is. -/
@[simp] theorem working_put (t : FileTree) (place : Location) (node : Node) :
    (t.put place node).working = t.working := rfl

/-- So does marking a directory. -/
@[simp] theorem working_stamp (t : FileTree) (place : Location) :
    (t.stamp place).working = t.working := by
  rw [stamp]
  split <;> rfl

/-! ## Walks -/

/-- A walk does not go on where nothing stands. -/
theorem walk_of_none {start : Location} (h : t.shown? start = none) (name : String)
    (rest : List String) : t.walk start (name :: rest) = .error .notFound := by
  rw [walk, shown?_eq_none.mp h]

/-- A walk does not go on from a file. -/
theorem walk_of_file {start : Location} {text : Option String}
    (h : t.shown? start = some (.file text 0)) (name : String) (rest : List String) :
    t.walk start (name :: rest) = .error .notDirectory := by
  obtain ⟨time, hnode⟩ := shown?_eq_file.mp h
  rw [walk, hnode]

/-- From a directory a walk stays for a point, goes up for two and else enters the name. -/
theorem walk_of_directory {start : Location} (h : t.shown? start = some (.directory 0))
    (name : String) (rest : List String) :
    t.walk start (name :: rest) =
      if name = "." then t.walk start rest
      else if name = ".." then t.walk start.dropLast rest
      else if Path.isLongName name then .error .nameTooLong
      else t.walk (start ++ [name]) rest := by
  obtain ⟨time, hnode⟩ := shown?_eq_directory.mp h
  rw [walk, hnode]

/-- A walk that goes on from a location has a directory there. -/
theorem directory_of_walk {start place : Location} {name : String} {rest : List String}
    (h : t.walk start (name :: rest) = .ok place) : t.shown? start = some (.directory 0) := by
  rcases t.shown?_cases start with hnone | ⟨text, hfile⟩ | hdirectory
  · rw [walk_of_none hnone] at h
    cases h
  · rw [walk_of_file hfile] at h
    cases h
  · exact hdirectory

/-- A walk goes on where an earlier one ended. -/
theorem walk_append (t : FileTree) (start : Location) (names later : List String) :
    t.walk start (names ++ later) = (t.walk start names).bind fun place => t.walk place later := by
  induction names generalizing start with
  | nil => rfl
  | cons name rest ih =>
    rw [List.cons_append]
    rcases t.shown?_cases start with hnone | ⟨text, hfile⟩ | hdirectory
    · rw [walk_of_none hnone, walk_of_none hnone]
      rfl
    · rw [walk_of_file hfile, walk_of_file hfile]
      rfl
    · rw [walk_of_directory hdirectory, walk_of_directory hdirectory]
      simp only [ih]
      split_ifs <;> rfl

/-- A walk that comes to an end came to one with fewer names. -/
theorem walk_of_append {start place : Location} {names later : List String}
    (h : t.walk start (names ++ later) = .ok place) :
    ∃ between, t.walk start names = .ok between ∧ t.walk between later = .ok place := by
  rw [walk_append] at h
  cases hnames : t.walk start names with
  | error cause => rw [hnames] at h; cases h
  | ok between =>
    rw [hnames] at h
    exact ⟨between, rfl, h⟩

/-- A walk over single points stays where it is. -/
theorem walk_dots {start place : Location} {names : List String} (hdots : ∀ name ∈ names, name = ".")
    (h : t.walk start names = .ok place) : place = start := by
  induction names with
  | nil => exact (Except.ok.inj h).symm
  | cons name rest ih =>
    rw [walk_of_directory (directory_of_walk h), if_pos (hdots name List.mem_cons_self)] at h
    exact ih (fun other hother => hdots other (List.mem_cons_of_mem _ hother)) h

/-- A walk over one more name ends in the directory with that name added. -/
theorem walk_singleton {start place : Location} {name : String} (hdot : name ≠ ".")
    (hdots : name ≠ "..") (h : t.walk start [name] = .ok place) : place = start ++ [name] := by
  rw [walk_of_directory (directory_of_walk h), if_neg hdot, if_neg hdots] at h
  split at h
  · cases h
  · exact (Except.ok.inj h).symm

/-- A walk over one more name goes on from a directory and ends in it, with that name added. -/
theorem walk_concat {start place : Location} {names : List String} {name : String}
    (hdot : name ≠ ".") (hdots : name ≠ "..") (h : t.walk start (names ++ [name]) = .ok place) :
    ∃ directory, t.walk start names = .ok directory ∧
      t.shown? directory = some (.directory 0) ∧ place = directory ++ [name] := by
  obtain ⟨directory, hnames, hlast⟩ := walk_of_append h
  exact ⟨directory, hnames, directory_of_walk hlast, walk_singleton hdot hdots hlast⟩

/-! ## Trees with more in them -/

/-- Every directory of one tree is one of the other. -/
def KeepsDirectories (t u : FileTree) : Prop :=
  ∀ place, t.shown? place = some (.directory 0) → u.shown? place = some (.directory 0)

/-- Every directory of one tree is one of the other, and every file is one with some text. -/
structure Extends (t u : FileTree) : Prop where
  directory : t.KeepsDirectories u
  file : ∀ place text, t.shown? place = some (.file text 0) →
    ∃ text', u.shown? place = some (.file text' 0)

/-- What stays over two changes stays over both together. -/
theorem Extends.trans {v : FileTree} (h : t.Extends u) (h' : u.Extends v) : t.Extends v where
  directory place hplace := h'.directory place (h.directory place hplace)
  file place text hplace := by
    obtain ⟨text', hfile⟩ := h.file place text hplace
    exact h'.file place text' hfile

/-- Where directories lead they lead as long as they are there. -/
theorem KeepsDirectories.walk (h : t.KeepsDirectories u) {start place : Location}
    {names : List String} (hwalk : t.walk start names = .ok place) : u.walk start names = .ok place := by
  induction names generalizing start with
  | nil => exact hwalk
  | cons name rest ih =>
    have hdirectory := directory_of_walk hwalk
    rw [walk_of_directory hdirectory] at hwalk
    rw [walk_of_directory (h _ hdirectory)]
    split_ifs at hwalk ⊢ with hdot hdots hlong
    · exact ih hwalk
    · exact ih hwalk
    · exact ih hwalk

/-- What a tree knows of names is not changed by more files and directories, except that something is
missing. -/
theorem Extends.walk_eq (h : t.Extends u) {start : Location} {names : List String}
    (hfound : t.walk start names ≠ .error .notFound) : u.walk start names = t.walk start names := by
  induction names generalizing start with
  | nil => rfl
  | cons name rest ih =>
    rcases t.shown?_cases start with hnone | ⟨text, hfile⟩ | hdirectory
    · exact absurd (walk_of_none hnone name rest) hfound
    · obtain ⟨text', hfile'⟩ := h.file _ _ hfile
      rw [walk_of_file hfile, walk_of_file hfile']
    · rw [walk_of_directory hdirectory] at hfound ⊢
      rw [walk_of_directory (h.directory _ hdirectory)]
      split_ifs at hfound ⊢ with hdot hdots hlong
      · exact ih hfound
      · exact ih hfound
      · rfl
      · exact ih hfound

/-! ## Accesses -/

/-- A path is refused whatever the tree, or it leads where its names lead. -/
theorem locate_cases (path : String) :
    (∃ cause, ∀ t : FileTree, t.locate path = .error cause) ∨
      ∀ t : FileTree, t.locate path = t.walk (t.start path) (steps path).1 := by
  by_cases hempty : path.isEmpty = true
  · exact .inl ⟨.notFound, fun t => by rw [locate, if_pos hempty]⟩
  · cases hfault : pathFault? path with
    | some fault => exact .inl ⟨fault, fun t => by rw [locate, if_neg hempty, hfault]⟩
    | none => exact .inr fun t => by rw [locate, if_neg hempty, hfault]; rfl

/-- A path that leads somewhere leads where its names lead. -/
theorem locate_eq_walk {path : String} {place : Location} (h : t.locate path = .ok place)
    (u : FileTree) : u.locate path = u.walk (u.start path) (steps path).1 := by
  rcases locate_cases path with ⟨cause, herror⟩ | hwalk
  · rw [herror] at h
    cases h
  · exact hwalk u

/-- Where directories lead a path it leads as long as they are there. -/
theorem KeepsDirectories.locate (h : t.KeepsDirectories u) (hworking : u.working = t.working)
    {path : String} {place : Location} (hlocate : t.locate path = .ok place) :
    u.locate path = .ok place := by
  have hstart : u.start path = t.start path := by rw [start, start, hworking]
  rw [locate_eq_walk hlocate u, hstart]
  exact h.walk (locate_eq_walk hlocate t ▸ hlocate)

/-- More files and directories do not change where a path leads, except that something is missing. -/
theorem Extends.locate_eq (h : t.Extends u) (hworking : u.working = t.working) {path : String}
    (hfound : t.locate path ≠ .error .notFound) : u.locate path = t.locate path := by
  rcases locate_cases path with ⟨cause, herror⟩ | hwalk
  · rw [herror, herror]
  · have hstart : u.start path = t.start path := by rw [start, start, hworking]
    rw [hwalk t] at hfound
    rw [hwalk u, hwalk t, hstart]
    exact h.walk_eq hfound

/-- A path without a slash at its end finds what stands where it leads. -/
theorem find_of_locate {path : String} {place : Location} {node : Node}
    (hlocate : t.locate path = .ok place) (hnode : t.node? place = some node)
    (hend : (steps path).2 = false) : t.find path = .ok (place, node) := by
  simp [find, hlocate, hnode, hend, bind, Except.bind, pure, Except.pure]

/-- What a read shows depends on where the path leads and what stands there, not on times. -/
theorem readText_eq (t : FileTree) (path : String) :
    t.readText path = (t.locate path).bind fun place =>
      match t.shown? place with
      | none => .error .notFound
      | some (.directory _) => .error .isDirectory
      | some (.file text _) =>
        if (steps path).2 then .error .notDirectory
        else match text with
          | some text => .ok text
          | none => .error .notText := by
  rw [readText, find]
  cases t.locate path with
  | error cause => rfl
  | ok place =>
    simp only [shown?, bind, Except.bind]
    cases t.node? place with
    | none => rfl
    | some node =>
      cases node with
      | directory time => cases (steps path).2 <;> rfl
      | file text time =>
        cases (steps path).2 with
        | true => rfl
        | false => cases text <;> rfl

/-- What is read depends on where the path leads and on what shows there. -/
theorem readText_congr {path : String} (hlocate : u.locate path = t.locate path)
    (hshown : ∀ place, t.locate path = .ok place → u.shown? place = t.shown? place) :
    u.readText path = t.readText path := by
  rw [readText_eq, readText_eq, hlocate]
  cases h : t.locate path with
  | error cause => rfl
  | ok place => simp only [Except.bind, hshown place h]

end FileTree

end Milestone
