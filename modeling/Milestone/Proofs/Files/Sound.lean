import Milestone.Proofs.Files.Walk
import Mathlib.Data.List.Induction

/-!
# Sound trees and new directories

In a sound tree everything stands in a directory. There the making of directories adds what was missing on
the way and nothing else, so that plain names which led to nothing still lead to nothing.
-/

namespace Milestone

namespace FileTree

variable {t u : FileTree}

/-! ## Sound trees -/

/-- Everything stands in a directory, and so does the program. -/
structure IsSound (t : FileTree) : Prop where
  parent : ∀ {place : Location} {name : String}, t.shown? (place ++ [name]) ≠ none →
    t.shown? place = some (.directory 0)
  working : t.shown? t.working = some (.directory 0)

/-- Only directories have something below them. -/
theorem IsSound.below (h : t.IsSound) {place : Location}
    (hplace : t.shown? place ≠ some (.directory 0)) {rest : List String} (hrest : rest ≠ []) :
    t.shown? (place ++ rest) = none := by
  induction rest using List.reverseRecOn with
  | nil => exact absurd rfl hrest
  | append_singleton rest name ih =>
    refine Decidable.byContradiction fun hshown => ?_
    rw [← List.append_assoc] at hshown
    have hdirectory := h.parent hshown
    by_cases hnil : rest = []
    · rw [hnil, List.append_nil] at hdirectory
      exact hplace hdirectory
    · rw [ih hnil] at hdirectory
      cases hdirectory

/-- A tree stays sound where something comes to stand in a directory, in the stead of no directory. -/
theorem IsSound.of_shown? (h : t.IsSound) {directory : Location} {name : String} {node : Node}
    (hdirectory : t.shown? directory = some (.directory 0))
    (hfree : t.shown? (directory ++ [name]) ≠ some (.directory 0)) (hworking : u.working = t.working)
    (hshown : ∀ place, u.shown? place =
      if place = directory ++ [name] then some node else t.shown? place) : u.IsSound := by
  have hkept {place : Location} (hplace : t.shown? place = some (.directory 0)) :
      u.shown? place = some (.directory 0) := by
    have hne : place ≠ directory ++ [name] := fun heq => hfree (heq ▸ hplace)
    rw [hshown, if_neg hne, hplace]
  constructor
  · intro place other hother
    rw [hshown] at hother
    split_ifs at hother with heq
    · obtain ⟨rfl, -⟩ := List.append_inj' heq rfl
      exact hkept hdirectory
    · exact hkept (h.parent hother)
  · rw [hworking]
    exact hkept h.working

/-- A tree stays sound where a node is put in a directory, in the stead of no directory. -/
theorem IsSound.put (h : t.IsSound) (directory : Location) (name : String) (node : Node)
    (hdirectory : t.shown? directory = some (.directory 0))
    (hfree : t.shown? (directory ++ [name]) ≠ some (.directory 0)) :
    (t.put (directory ++ [name]) node).IsSound :=
  h.of_shown? hdirectory hfree rfl (shown?_put t node (by simp))

/-- The tree of an empty working directory is sound. -/
theorem isSound_ofWorking (name : String) : (ofWorking name).IsSound := by
  have hshown (place : Location) : (ofWorking name).shown? place =
      if place = [name] then some (.directory 0) else if place = [] then some (.directory 0) else none := by
    have hput : ofWorking name = (⟨[], [name], 0⟩ : FileTree).put [name] (.directory 0) := rfl
    rw [hput, shown?_put _ _ (List.cons_ne_nil _ _)]
    split_ifs with hplace hroot
    · rfl
    · rw [hroot]
      rfl
    · rw [shown?_eq_none, node?, if_neg (by simpa using hroot)]
      rfl
  constructor
  · intro place other hother
    rw [hshown] at hother
    split_ifs at hother with hplace hroot
    · obtain ⟨rfl, -⟩ := List.append_inj' (hplace.trans (List.nil_append _).symm) rfl
      rfl
    · exact absurd (List.append_eq_nil_iff.mp hroot).2 (List.cons_ne_nil _ _)
    · exact absurd rfl hother
  · rw [hshown]
    exact if_pos rfl

/-! ## Plain names -/

/-- The names without single points. -/
def trail (names : List String) : List String :=
  names.filter (· != ".")

/-- No names have no trail. -/
@[simp] theorem trail_nil : trail [] = [] := rfl

/-- A point leaves no trail. -/
theorem trail_dot (rest : List String) : trail ("." :: rest) = trail rest := rfl

/-- Any other name stays in the trail. -/
theorem trail_cons {name : String} (h : name ≠ ".") (rest : List String) :
    trail (name :: rest) = name :: trail rest := by
  rw [trail, List.filter_cons, if_pos (bne_iff_ne.mpr h), trail]

/-- The trail of names is that of their parts in order. -/
theorem trail_append (names later : List String) :
    trail (names ++ later) = trail names ++ trail later :=
  List.filter_append names later

/-- Points alone leave no trail. -/
theorem trail_dots {names : List String} (h : ∀ name ∈ names, name = ".") : trail names = [] :=
  List.filter_eq_nil_iff.mpr fun name hname => by simp [h name hname]

/-- Whether a name leads neither up nor is too long for the system. -/
def IsPlain (name : String) : Prop :=
  name ≠ ".." ∧ Path.isLongName name = false

instance (name : String) : Decidable (IsPlain name) :=
  inferInstanceAs (Decidable (_ ∧ _))

/-- A walk that never leads up ends where its names say, points aside. -/
theorem trail_walk {start place : Location} {names : List String} (hplain : ".." ∉ names)
    (h : t.walk start names = .ok place) : place = start ++ trail names := by
  induction names generalizing start with
  | nil =>
    rw [trail_nil, List.append_nil]
    exact (Except.ok.inj h).symm
  | cons name rest ih =>
    have hrest : ".." ∉ rest := fun hmem => hplain (List.mem_cons_of_mem _ hmem)
    have hdots : name ≠ ".." := fun hname => hplain (hname ▸ List.mem_cons_self)
    rw [walk_of_directory (directory_of_walk h), if_neg hdots] at h
    split_ifs at h with hdot hlong
    · rw [hdot, trail_dot]
      exact ih hrest h
    · rw [trail_cons hdot, ih hrest h, List.append_assoc, List.singleton_append]

/-- A plain name leads from a directory to what it names, and a point back to the directory. -/
theorem walk_of_plain {start : Location} (hstart : t.shown? start = some (.directory 0)) {name : String}
    (hname : IsPlain name) (rest : List String) :
    t.walk start (name :: rest) = t.walk (start ++ trail [name]) rest := by
  rw [walk_of_directory hstart, if_neg hname.1, hname.2, if_neg Bool.false_ne_true]
  split_ifs with hdot
  · rw [hdot, trail_dot, trail_nil, List.append_nil]
  · rw [trail_cons hdot, trail_nil]

/-- Where no file is in the way, plain names lead through all directories or something is missing. -/
theorem walk_of_free {start : Location} {names : List String} (hplain : ∀ name ∈ names, IsPlain name)
    (hfree : ∀ rest, rest <+: trail names →
      u.shown? (start ++ rest) = none ∨ u.shown? (start ++ rest) = some (.directory 0)) :
    u.walk start names = .error .notFound ∨ u.walk start names = .ok (start ++ trail names) := by
  induction names generalizing start with
  | nil => exact .inr (by rw [trail_nil, List.append_nil]; rfl)
  | cons name rest ih =>
    have hname := hplain name List.mem_cons_self
    have hrest : ∀ other ∈ rest, IsPlain other := fun other hother =>
      hplain other (List.mem_cons_of_mem _ hother)
    have hall : trail (name :: rest) = trail [name] ++ trail rest := trail_append [name] rest
    rcases hfree [] List.nil_prefix with hnone | hdirectory
    · rw [List.append_nil] at hnone
      exact .inl (walk_of_none hnone name rest)
    · rw [List.append_nil] at hdirectory
      rw [walk_of_plain hdirectory hname, hall, ← List.append_assoc]
      refine ih hrest fun more hmore => ?_
      rw [List.append_assoc]
      exact hfree _ (hall ▸ (List.prefix_append_right_inj _).mpr hmore)

/-- What is missing at the end of plain names stays missing where nothing comes to stand on the way but
directories before the end. -/
theorem walk_of_added (hsound : t.IsSound) {start : Location} {names : List String}
    (hplain : ∀ name ∈ names, IsPlain name)
    (hadded : ∀ rest, rest <+: trail names → u.shown? (start ++ rest) = t.shown? (start ++ rest) ∨
      t.shown? (start ++ rest) = none ∧ u.shown? (start ++ rest) = some (.directory 0) ∧
        rest ≠ trail names)
    (h : t.walk start names = .error .notFound) :
    u.walk start names = .error .notFound ∨
      u.walk start names = .ok (start ++ trail names) ∧ u.shown? (start ++ trail names) = none := by
  induction names generalizing start with
  | nil => cases h
  | cons name rest ih =>
    rcases t.shown?_cases start with hnone | ⟨text, hfile⟩ | hdirectory
    · -- Nothing stood below the place that was missing, so all there is now are new directories.
      have hbelow (more : List String) : t.shown? (start ++ more) = none := by
        by_cases hnil : more = []
        · rw [hnil, List.append_nil, hnone]
        · exact hsound.below (by rw [hnone]; simp) hnil
      refine (walk_of_free hplain fun more hmore => ?_).imp_right fun hwalk => ⟨hwalk, ?_⟩
      · rcases hadded more hmore with hsame | ⟨-, hnew, -⟩
        · exact .inl (hsame.trans (hbelow more))
        · exact .inr hnew
      · rcases hadded _ List.prefix_rfl with hsame | ⟨-, -, hne⟩
        · exact hsame.trans (hbelow _)
        · exact absurd rfl hne
    · rw [walk_of_file hfile] at h
      cases h
    · have hname := hplain name List.mem_cons_self
      have hrest : ∀ other ∈ rest, IsPlain other := fun other hother =>
        hplain other (List.mem_cons_of_mem _ hother)
      have hall : trail (name :: rest) = trail [name] ++ trail rest := trail_append [name] rest
      have hdirectory' : u.shown? start = some (.directory 0) := by
        rcases hadded [] List.nil_prefix with hsame | ⟨-, hnew, -⟩
        · rwa [List.append_nil, hdirectory] at hsame
        · rwa [List.append_nil] at hnew
      rw [walk_of_plain hdirectory hname] at h
      rw [walk_of_plain hdirectory' hname, hall, ← List.append_assoc]
      refine ih hrest (fun more hmore => ?_) h
      rw [List.append_assoc]
      refine (hadded _ (hall ▸ (List.prefix_append_right_inj _).mpr hmore)).imp_right fun hnew =>
        ⟨hnew.1, hnew.2.1, fun heq => hnew.2.2 ?_⟩
      rw [heq, hall]

/-- In a sound tree every path starts in a directory. -/
theorem IsSound.start (h : t.IsSound) (path : String) :
    t.shown? (t.start path) = some (.directory 0) := by
  rw [FileTree.start]
  split
  · exact t.shown?_root
  · exact h.working

/-! ## New directories -/

/-- What the making of directories may do: it goes along the names, puts a directory where nothing stands,
and ends with the names or before something that is in the way. -/
inductive Makes : FileTree → Location → List String → FileTree → Prop where
  | ended (t : FileTree) (start : Location) (names : List String) : Makes t start names t
  | stayed {t after : FileTree} {start : Location} {rest : List String}
      (h : Makes t start rest after) : Makes t start ("." :: rest) after
  | left {t after : FileTree} {start : Location} {rest : List String}
      (h : Makes t start.dropLast rest after) : Makes t start (".." :: rest) after
  | entered {t after : FileTree} {start : Location} {name : String} {rest : List String}
      (hname : name ≠ ".") (hthere : t.shown? (start ++ [name]) = some (.directory 0))
      (h : Makes t (start ++ [name]) rest after) : Makes t start (name :: rest) after
  | added {t between after : FileTree} {start : Location} {name : String} {rest : List String}
      (hname : name ≠ ".") (hnone : t.shown? (start ++ [name]) = none)
      (hworking : between.working = t.working)
      (hput : ∀ place, between.shown? place =
        if place = start ++ [name] then some (.directory 0) else t.shown? place)
      (h : Makes between (start ++ [name]) rest after) : Makes t start (name :: rest) after

/-- What is made on the way of names are directories at those names. -/
theorem makes_makeDirectories (t : FileTree) (made : Bool) (start : Location) (names : List String) :
    Makes t start names (t.makeDirectories made start names).2 := by
  induction names generalizing t made start with
  | nil => exact .ended t start []
  | cons name rest ih =>
    rw [makeDirectories]
    by_cases hdot : name = "."
    · rw [if_pos hdot, hdot]
      exact .stayed (ih t made start)
    by_cases hdots : name = ".."
    · rw [if_neg hdot, if_pos hdots, hdots]
      exact .left (ih t made start.dropLast)
    by_cases hlong : Path.isLongName name = true
    · rw [if_neg hdot, if_neg hdots, if_pos hlong]
      exact .ended t start _
    rw [if_neg hdot, if_neg hdots, if_neg hlong]
    dsimp only
    split
    · rename_i time hnode
      exact .entered hdot (shown?_eq_directory.mpr ⟨time, hnode⟩) (ih t made _)
    · exact .ended t start _
    · rename_i hnone
      have hput := shown?_put (t.stamp start) (.directory t.clock) (show start ++ [name] ≠ [] by simp)
      simp only [shown?_stamp] at hput
      exact .added hdot (shown?_eq_none.mpr hnone) (by simp) hput (ih _ true _)

/-- New directories change nothing else, and without double points they are on the way of the names. -/
theorem Makes.shown? {start : Location} {names : List String} {after : FileTree}
    (h : Makes t start names after) :
    after.working = t.working ∧
    ∀ place, after.shown? place = t.shown? place ∨
      t.shown? place = none ∧ after.shown? place = some (.directory 0) ∧
        (".." ∉ names → place <+: start ++ trail names) := by
  -- What later names make is on the way of all names.
  have hway {start : Location} {name : String} {rest : List String} (hname : name ≠ ".") :
      start ++ trail (name :: rest) = start ++ [name] ++ trail rest := by
    rw [trail_cons hname, List.append_assoc, List.singleton_append]
  have hlater {name : String} {rest : List String} (hdots : ".." ∉ name :: rest) : ".." ∉ rest :=
    fun hmem => hdots (List.mem_cons_of_mem _ hmem)
  induction h with
  | ended t start names => exact ⟨rfl, fun place => .inl rfl⟩
  | stayed _ ih =>
    exact ⟨ih.1, fun place => (ih.2 place).imp_right fun hnew =>
      ⟨hnew.1, hnew.2.1, fun hdots => hnew.2.2 (hlater hdots)⟩⟩
  | left _ ih =>
    exact ⟨ih.1, fun place => (ih.2 place).imp_right fun hnew =>
      ⟨hnew.1, hnew.2.1, fun hdots => absurd List.mem_cons_self hdots⟩⟩
  | entered hname _ _ ih =>
    exact ⟨ih.1, fun place => (ih.2 place).imp_right fun hnew =>
      ⟨hnew.1, hnew.2.1, fun hdots => hway hname ▸ hnew.2.2 (hlater hdots)⟩⟩
  | @added t between after start name rest hname hnone hworking hput _ ih =>
    refine ⟨ih.1.trans hworking, fun place => ?_⟩
    by_cases hplace : place = start ++ [name]
    · have hthere : between.shown? place = some (.directory 0) := by rw [hput, if_pos hplace]
      refine .inr ⟨hplace ▸ hnone, ?_, fun _ => ?_⟩
      · rcases ih.2 place with hsame | ⟨hgone, -⟩
        · rw [hsame, hthere]
        · rw [hthere] at hgone
          cases hgone
      · rw [hplace, hway hname]
        exact List.prefix_append _ _
    · have hsame : between.shown? place = t.shown? place := by rw [hput, if_neg hplace]
      rw [← hsame]
      exact (ih.2 place).imp_right fun hnew =>
        ⟨hnew.1, hnew.2.1, fun hdots => hway hname ▸ hnew.2.2 (hlater hdots)⟩

/-- Where more names lead on, all directories are there already. -/
theorem makeDirectories_of_walk {start place : Location} {names later : List String}
    (hlater : later ≠ []) (h : t.walk start (names ++ later) = .ok place) (made : Bool) :
    t.makeDirectories made start names = (.ok (), t) := by
  induction names generalizing start with
  | nil => rfl
  | cons name rest ih =>
    rw [List.cons_append] at h
    rw [walk_of_directory (directory_of_walk h)] at h
    rw [makeDirectories]
    split_ifs at h with hdot hdots hlong
    · rw [if_pos hdot]
      exact ih h
    · rw [if_neg hdot, if_pos hdots]
      exact ih h
    · rw [if_neg hdot, if_neg hdots, if_neg hlong]
      have hinner : t.shown? (start ++ [name]) = some (.directory 0) := by
        cases hnext : rest ++ later with
        | nil => exact absurd (List.append_eq_nil_iff.mp hnext).2 hlater
        | cons next more =>
          rw [hnext] at h
          exact directory_of_walk h
      obtain ⟨time, hnode⟩ := shown?_eq_directory.mp hinner
      simp only [hnode]
      exact ih h

/-- New directories keep a tree sound. -/
theorem Makes.isSound {start : Location} {names : List String} {after : FileTree}
    (h : Makes t start names after) (hsound : t.IsSound)
    (hstart : t.shown? start = some (.directory 0)) : after.IsSound := by
  induction h with
  | ended => exact hsound
  | stayed _ ih => exact ih hsound hstart
  | @left t after start rest _ ih =>
    refine ih hsound ?_
    rcases List.eq_nil_or_concat start with rfl | ⟨above, last, rfl⟩
    · exact hstart
    · rw [List.concat_eq_append, List.dropLast_concat]
      exact hsound.parent (by rw [← List.concat_eq_append, hstart]; simp)
  | entered _ hthere _ ih => exact ih hsound hthere
  | added _ hnone hworking hput _ ih =>
    have hfree := hsound.of_shown? hstart (by rw [hnone]; simp) hworking hput
    exact ih hfree (by rw [hput, if_pos rfl])

end FileTree

end Milestone
