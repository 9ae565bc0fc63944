import Milestone.Proofs.Files.Change
import Milestone.Proofs.Files.Path

/-!
# The directory of the state file

The temporary file stands beside the state file, or inside what the path names. A path that leads somewhere has
its directory, so that a save makes none; and where the directory of a plain path is made, nothing comes to
stand on the way of the path but directories before its end.
-/

namespace Milestone

open FileTree

namespace StateFile

variable {path : String} {t : FileTree}

/-! ## The temporary file -/

/-- Where a path starts depends only on whether it is absolute. -/
theorem start_eq {other : String} (h : Path.isAbsolute other = Path.isAbsolute path) (t : FileTree) :
    t.start other = t.start path := by
  rw [start, start, h]

/-- A path with a last name leads to that name in the directory of its parent. -/
theorem locate_of_fileName? {parent name : String} {place : Location}
    (hname : Path.fileName? path = some name) (hparent : Path.parent? path = some parent)
    (h : t.locate path = .ok place) :
    ∃ directory, t.walk (t.start path) (steps parent).1 = .ok directory ∧
      place = directory ++ [name] := by
  obtain ⟨hdot, hdots, -⟩ := Path.name_of_fileName? hname
  obtain ⟨before, after, hpoints, hsteps⟩ := (Path.endsIn_of_fileName? hname hparent).steps_eq
  rw [locate_eq_walk h t, hsteps] at h
  obtain ⟨between, hbetween, hlast⟩ := walk_of_append h
  obtain ⟨directory, hdirectory, hbefore⟩ := walk_of_append hbetween
  obtain rfl := walk_dots (fun n hn => hpoints n (List.mem_append_left _ hn)) hbefore
  rw [← List.singleton_append] at hlast
  obtain ⟨last, hsingle, hafter⟩ := walk_of_append hlast
  obtain rfl := walk_singleton hdot hdots hsingle
  obtain rfl := walk_dots (fun n hn => hpoints n (List.mem_append_right _ hn)) hafter
  exact ⟨between, hdirectory, rfl⟩

/-- The temporary name is longer than that of the file. -/
theorem length_temporaryName (name : String) : (name ++ ".tmp").length = name.length + 4 := by
  rw [String.length_append]
  rfl

/-- The temporary name of a file is no point, and not that of the file. -/
theorem temporaryName_ne (name : String) :
    name ++ ".tmp" ≠ "." ∧ name ++ ".tmp" ≠ ".." ∧ name ++ ".tmp" ≠ name := by
  have hlength := length_temporaryName name
  refine ⟨fun h => ?_, fun h => ?_, fun h => ?_⟩
  · rw [h] at hlength
    have hpoint : ".".length = 1 := rfl
    omega
  · rw [h] at hlength
    have hpoints : "..".length = 2 := rfl
    omega
  · rw [h] at hlength
    omega

/-- The temporary file stands in a directory, and it is never what the path itself leads to. -/
theorem locate_temporary {other : Location} (h : t.locate (temporary path) = .ok other) :
    ∃ directory name, t.shown? directory = some (.directory 0) ∧ other = directory ++ [name] ∧
      ∀ place, t.locate path = .ok place → place ≠ other := by
  rw [locate_eq_walk h t] at h
  cases hname : Path.fileName? path with
  | some name =>
    obtain ⟨parent, hparent⟩ := Path.exists_parent hname
    have hends := Path.endsIn_of_fileName? hname hparent
    obtain ⟨hsteps, habsolute⟩ := steps_temporary_of_some hname hparent
    have hstart := start_eq (habsolute.trans hends.isAbsolute_eq) t
    rw [hsteps, hstart] at h
    obtain ⟨directory, hdirectory, hshown, rfl⟩ :=
      walk_concat (temporaryName_ne name).1 (temporaryName_ne name).2.1 h
    refine ⟨directory, _, hshown, rfl, fun place hplace heq => ?_⟩
    obtain ⟨directory', hdirectory', rfl⟩ := locate_of_fileName? hname hparent hplace
    rw [hdirectory, Except.ok.injEq] at hdirectory'
    obtain ⟨-, hlast⟩ := List.append_inj' heq rfl
    exact (temporaryName_ne name).2.2 (List.cons.inj hlast).1.symm
  | none =>
    obtain ⟨hsteps, habsolute⟩ := steps_temporary_of_none hname
    rw [hsteps, start_eq habsolute t] at h
    obtain ⟨directory, hdirectory, hshown, rfl⟩ := walk_concat (by decide) (by decide) h
    refine ⟨directory, _, hshown, rfl, fun place hplace heq => ?_⟩
    rw [locate_eq_walk hplace t, hdirectory, Except.ok.injEq] at hplace
    have hlength := congrArg List.length (hplace.trans heq)
    rw [List.length_append, List.length_singleton] at hlength
    omega

/-- The path of the temporary file does not end in a slash. -/
theorem ends_temporary (path : String) : (steps (temporary path)).2 = false := by
  cases hname : Path.fileName? path with
  | some name =>
    obtain ⟨parent, hparent⟩ := Path.exists_parent hname
    rw [(steps_temporary_of_some hname hparent).1]
  | none => rw [(steps_temporary_of_none hname).1]

/-! ## The directory -/

/-- The tree where the making of the directory is broken off after a number of names. -/
def prepareSome (path : String) (count : Nat) (t : FileTree) : FileTree :=
  match Path.parent? path with
  | some parent =>
    (t.makeDirectories false (t.start parent) ((steps parent).1.take count)).2
  | none => t

/-- Making the directory of a path leaves one of the trees that it could be broken off at. -/
theorem exists_prepareSome (path : String) (t : FileTree) :
    ∃ count, (prepare path t).2 = prepareSome path count t := by
  rw [prepare]
  cases hparent : Path.parent? path with
  | none => exact ⟨0, by rw [prepareSome, hparent]⟩
  | some parent =>
    simp only [createDirectory, prepareSome, hparent]
    cases pathFault? parent with
    | some fault => exact ⟨0, rfl⟩
    | none => exact ⟨(steps parent).1.length, by rw [List.take_length]; rfl⟩

/-- However far it comes, the working directory stays. -/
theorem working_prepareSome (path : String) (count : Nat) (t : FileTree) :
    (prepareSome path count t).working = t.working := by
  rw [prepareSome]
  cases Path.parent? path with
  | none => rfl
  | some parent => exact (makes_makeDirectories t false _ _).shown?.1

/-- However far it comes, paths start where they did. -/
theorem start_prepareSome (path : String) (count : Nat) (t : FileTree) :
    (prepareSome path count t).start path = t.start path := by
  rw [start, start, working_prepareSome]

/-- While the directory is made, whatever stands somewhere stays. -/
theorem shown?_prepareSome (path : String) (count : Nat) (t : FileTree) {place : Location}
    (h : t.shown? place ≠ none) :
    (prepareSome path count t).shown? place = t.shown? place := by
  rw [prepareSome]
  cases Path.parent? path with
  | none => rfl
  | some parent =>
    exact ((makes_makeDirectories t false _ _).shown?.2 place).resolve_right fun hnew => h hnew.1

/-- However far it comes, files and directories stay. -/
theorem extends_prepareSome (path : String) (count : Nat) (t : FileTree) :
    t.Extends (prepareSome path count t) where
  directory place h := by rw [shown?_prepareSome path count t (by simp [h]), h]
  file place text h := ⟨text, by rw [shown?_prepareSome path count t (by simp [h]), h]⟩

/-- However far it comes, a sound tree stays sound. -/
theorem isSound_prepareSome (h : t.IsSound) (path : String) (count : Nat) :
    (prepareSome path count t).IsSound := by
  rw [prepareSome]
  cases Path.parent? path with
  | none => exact h
  | some parent => exact (makes_makeDirectories t false _ _).isSound h (h.start parent)

/-- The names of a path go on from those of its parent. -/
theorem walk_parent {parent : String} {place : Location} (hparent : Path.parent? path = some parent)
    (h : t.locate path = .ok place) :
    ∃ later, later ≠ [] ∧ t.walk (t.start parent) ((steps parent).1 ++ later) = .ok place := by
  obtain ⟨p, -, hends⟩ := Path.endsIn_of_parent? hparent
  obtain ⟨before, after, -, hsteps⟩ := hends.steps_eq
  rw [locate_eq_walk h t, hsteps, List.append_assoc] at h
  refine ⟨before ++ String.ofList p.name :: after, by simp, ?_⟩
  rwa [start_eq hends.isAbsolute_eq]

/-- A path that leads somewhere has its directory, so that a save makes none. -/
theorem prepare_of_locate (hprepared : (prepare path t).1 = .ok ()) {u : FileTree} {place : Location}
    (h : u.locate path = .ok place) : prepare path u = (.ok (), u) := by
  rw [prepare] at hprepared ⊢
  cases hparent : Path.parent? path with
  | none => rfl
  | some parent =>
    rw [hparent] at hprepared
    obtain ⟨later, hlater, hwalk⟩ := walk_parent hparent h
    simp only [createDirectory] at hprepared ⊢
    cases hfault : pathFault? parent with
    | some fault => rw [hfault] at hprepared; cases hprepared
    | none => exact makeDirectories_of_walk hlater hwalk false

/-- Where a path leads somewhere, its directory is there and nothing is made. -/
theorem prepareSome_of_locate {place : Location} (h : t.locate path = .ok place) (count : Nat) :
    prepareSome path count t = t := by
  rw [prepareSome]
  cases hparent : Path.parent? path with
  | none => rfl
  | some parent =>
    obtain ⟨later, hlater, hwalk⟩ := walk_parent hparent h
    rw [← List.take_append_drop count (steps parent).1, List.append_assoc] at hwalk
    have hrest : (steps parent).1.drop count ++ later ≠ [] := by simp [hlater]
    simp only [makeDirectories_of_walk hrest hwalk false]

/-! ## Plain paths -/

/-- The names of a path with a last name are those of its parent and that name, points aside. -/
theorem trail_steps {parent name : String} (hname : Path.fileName? path = some name)
    (hparent : Path.parent? path = some parent) :
    trail (steps path).1 = trail (steps parent).1 ++ [name] := by
  have hdot := (Path.name_of_fileName? hname).1
  obtain ⟨before, rest, hpoints, hsteps⟩ := (Path.endsIn_of_fileName? hname hparent).steps_eq
  rw [hsteps, trail_append, trail_append, trail_cons hdot,
    trail_dots fun n hn => hpoints n (List.mem_append_left _ hn),
    trail_dots fun n hn => hpoints n (List.mem_append_right _ hn), List.append_nil]

/-- A path that ends in no plain name has its directory made already. -/
theorem prepareSome_of_none (hplain : ∀ name ∈ (steps path).1, IsPlain name)
    (hname : Path.fileName? path = none) (count : Nat) (t : FileTree) :
    prepareSome path count t = t := by
  rw [prepareSome]
  cases hparent : Path.parent? path with
  | none => rfl
  | some parent =>
    obtain ⟨p, hlast, hends⟩ := Path.endsIn_of_parent? hparent
    obtain ⟨before, rest, -, hsteps⟩ := hends.steps_eq
    have hdots : p.name ≠ ['.', '.'] := fun hname =>
      (hplain (String.ofList p.name) (by simp [hsteps])).1 (by rw [hname])
    have hdot : p.name = ['.'] := by
      simp only [Path.fileName?, hlast, hdots, or_false] at hname
      split_ifs at hname with hdot
      exact hdot
    have hempty := hends.dot (by rw [hdot])
    simp only [hempty, List.take_nil, makeDirectories]

/-- The names that lead to the parent of a plain path are plain. -/
theorem plain_parent {parent name : String} (hplain : ∀ name ∈ (steps path).1, IsPlain name)
    (hends : Path.EndsIn path parent name) : ∀ name ∈ (steps parent).1, IsPlain name := by
  obtain ⟨before, later, -, hsteps⟩ := hends.steps_eq
  exact fun other hother => hplain other (by simp [hsteps, hother])

/-- The temporary file of a plain path with a last name stands beside it. -/
theorem locate_temporary_of_plain {parent name : String} (hplain : ∀ name ∈ (steps path).1, IsPlain name)
    (hname : Path.fileName? path = some name) (hparent : Path.parent? path = some parent)
    {other : Location} (h : t.locate (temporary path) = .ok other) :
    other = t.start path ++ (trail (steps parent).1 ++ [name ++ ".tmp"]) := by
  have hends := Path.endsIn_of_fileName? hname hparent
  obtain ⟨hsteps, habsolute⟩ := steps_temporary_of_some hname hparent
  have hdots : ".." ∉ (steps parent).1 ++ [name ++ ".tmp"] := fun hmem => by
    rcases List.mem_append.mp hmem with hmem | hmem
    · exact (plain_parent hplain hends ".." hmem).1 rfl
    · exact (temporaryName_ne name).2.1 (List.mem_singleton.mp hmem).symm
  rw [locate_eq_walk h, start_eq (habsolute.trans hends.isAbsolute_eq), hsteps] at h
  rw [trail_walk hdots h, trail_append, trail_cons (temporaryName_ne name).1, trail_nil]

/-- While the directory of a plain path is made, nothing comes to stand on the way of the path but
directories before its end. -/
theorem added_prepareSome {parent name : String} (hplain : ∀ name ∈ (steps path).1, IsPlain name)
    (hname : Path.fileName? path = some name) (hparent : Path.parent? path = some parent) (count : Nat)
    (t : FileTree) (rest : List String) :
    (prepareSome path count t).shown? (t.start path ++ rest) =
        t.shown? (t.start path ++ rest) ∨
      t.shown? (t.start path ++ rest) = none ∧
        (prepareSome path count t).shown? (t.start path ++ rest) = some (.directory 0) ∧
        rest ≠ trail (steps path).1 := by
  have hends := Path.endsIn_of_fileName? hname hparent
  have hdots : ".." ∉ (steps parent).1.take count := fun hmem =>
    (plain_parent hplain hends ".." (List.mem_of_mem_take hmem)).1 rfl
  have hmade := (makes_makeDirectories t false (t.start parent)
    ((steps parent).1.take count)).shown?.2 (t.start path ++ rest)
  simp only [prepareSome, hparent]
  refine hmade.imp_right fun hnew => ⟨hnew.1, hnew.2.1, fun hall => ?_⟩
  have hlength := (hnew.2.2 hdots).length_le
  rw [start_eq hends.isAbsolute_eq, hall, trail_steps hname hparent] at hlength
  have htake : (trail ((steps parent).1.take count)).length ≤ (trail (steps parent).1).length :=
    ((List.take_prefix count _).filter _).length_le
  simp only [List.length_append, List.length_singleton] at hlength
  omega

end StateFile

end Milestone
