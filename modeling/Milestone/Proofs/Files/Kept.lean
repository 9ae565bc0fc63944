import Milestone.Files.Edit
import Milestone.Proofs.Files.Change
import Milestone.Proofs.Files.Named

/-!
# Names are kept

Whatever is done to a tree, its locations stay different and their names such as can stand in a directory: a
path leads to such names only, and nothing is put anywhere else.
-/

namespace Milestone

/-- A location of names that can stand in a directory. -/
abbrev Location.IsNamed (place : Location) : Prop :=
  ∀ name ∈ place, Path.IsName name

/-- A location in a named one is named if its own name can stand in a directory. -/
theorem Location.IsNamed.concat {place : Location} (h : place.IsNamed) {name : String}
    (hname : Path.IsName name) : Location.IsNamed (place ++ [name]) := by
  intro other hother
  rcases List.mem_append.mp hother with hother | hother
  · exact h other hother
  · rwa [List.mem_singleton.mp hother]

/-- The directory of a named location is named. -/
theorem Location.IsNamed.dropLast {place : Location} (h : place.IsNamed) :
    Location.IsNamed place.dropLast :=
  fun name hname => h name (List.dropLast_subset place hname)

namespace FileTree

variable {t u : FileTree}

/-- The tree of an empty working directory is named. -/
theorem isNamed_ofWorking {name : String} (hname : Path.IsName name) : (ofWorking name).IsNamed where
  nodup := List.nodup_singleton _
  name e he other hother := by
    obtain rfl := List.mem_singleton.mp he
    rwa [List.mem_singleton.mp hother]
  working other hother := by rwa [List.mem_singleton.mp hother]

/-! ## Entries -/

/-- A tree stays named when anything is put at a named location: whatever stood there gives way. -/
theorem IsNamed.put (h : t.IsNamed) {place : Location} (hplace : place.IsNamed) (node : Node) :
    (t.put place node).IsNamed where
  nodup := by
    have hother : ∀ e ∈ t.entries.filter (!·.isAt place.length place), e.place ≠ place := by
      intro e he heq
      have hnot := (List.mem_filter.mp he).2
      rw [(e.isAt_iff place).mpr heq] at hnot
      cases hnot
    refine List.nodup_cons.mpr ⟨fun hmem => ?_, h.nodup.sublist (List.filter_sublist.map _)⟩
    obtain ⟨e, he, heq⟩ := List.mem_map.mp hmem
    exact hother e he heq
  name e he := by
    rcases List.mem_cons.mp he with rfl | he
    · exact hplace
    · exact h.name e (List.mem_filter.mp he).1
  working := h.working

/-- A tree stays named when a location is taken away with all that it holds. -/
theorem IsNamed.cut (h : t.IsNamed) (place : Location) : (t.cut place).IsNamed where
  nodup := h.nodup.sublist (List.filter_sublist.map _)
  name e he := h.name e (List.mem_filter.mp he).1
  working := h.working

/-- Times do not matter for names. -/
theorem IsNamed.of_places (h : t.IsNamed) (hplaces : u.entries.map Entry.place = t.entries.map Entry.place)
    (hworking : u.working = t.working) : u.IsNamed where
  nodup := hplaces ▸ h.nodup
  name e he := by
    have hmem : e.place ∈ t.entries.map Entry.place := hplaces ▸ List.mem_map_of_mem he
    obtain ⟨e', he', heq⟩ := List.mem_map.mp hmem
    exact heq ▸ h.name e' he'
  working := hworking ▸ h.working

/-- In a named tree only named locations have entries. -/
theorem IsNamed.place_of_entryAt? (h : t.IsNamed) {place : Location} {e : Entry}
    (hentry : t.entryAt? place = some e) : place.IsNamed := by
  obtain ⟨he, rfl⟩ := mem_of_entryAt? hentry
  exact h.name e he

/-- Marking a directory as just changed concerns its time alone. -/
theorem IsNamed.stamp (h : t.IsNamed) (place : Location) : (t.stamp place).IsNamed := by
  rw [FileTree.stamp]
  split
  · rename_i time hentry
    obtain ⟨e, hentry, -⟩ := Option.map_eq_some_iff.mp hentry
    exact h.put (h.place_of_entryAt? hentry) _
  · exact h

/-! ## Paths -/

/-- The characters of a piece are those of the path. -/
theorem mem_of_mem_name {start : Nat} {current cs : List Char} {p : Path.Part}
    (hp : p ∈ Path.pieces start current cs) {c : Char} (hc : c ∈ p.name) : c ∈ current ∨ c ∈ cs := by
  induction cs generalizing start current with
  | nil =>
    rw [Path.pieces, List.mem_singleton] at hp
    rw [hp] at hc
    exact .inl (List.mem_reverse.mp hc)
  | cons d cs ih =>
    by_cases hd : d = '/'
    · subst hd
      rcases List.mem_cons.mp hp with rfl | hp
      · exact .inl (List.mem_reverse.mp hc)
      · exact .inr (List.mem_cons_of_mem _ ((ih hp).resolve_left List.not_mem_nil))
    · rw [Path.pieces_of_ne hd] at hp
      rcases ih hp with hcurrent | hrest
      · rcases List.mem_cons.mp hcurrent with rfl | hcurrent
        · exact .inr List.mem_cons_self
        · exact .inl hcurrent
      · exact .inr (List.mem_cons_of_mem _ hrest)

/-- The names of a path that can stand in a directory, unless they are points or too long. -/
def Fit (names : List String) : Prop :=
  ∀ name ∈ names, name ≠ "." → name ≠ ".." → ¬Path.isLongName name = true → Path.IsName name

/-- The names of a path that come later are fit as well. -/
theorem Fit.of_cons {name : String} {rest : List String} (h : Fit (name :: rest)) : Fit rest :=
  fun other hother => h other (List.mem_cons_of_mem _ hother)

/-- The names of a path that the system takes are fit for a directory. -/
theorem fit_steps {path : String} (hpath : pathFault? path = none) : Fit (steps path).1 := by
  intro name hname hdot hdots hshort
  rw [Path.steps_eq_namesOf] at hname
  simp only [Path.namesOf, List.mem_map, List.mem_filter] at hname
  obtain ⟨cs, ⟨⟨p, hp, rfl⟩, hne⟩, rfl⟩ := hname
  have hzero : path.toList.any (·.toNat == 0) = false := by
    refine Bool.eq_false_iff.mpr fun hany => ?_
    rw [pathFault?, if_pos hany] at hpath
    cases hpath
  refine ⟨fun hempty => ?_, hdot, hdots, ?_, fun c hc => ?_, by simpa using hshort⟩
  · rw [String.ofList_eq_empty_iff.mp hempty] at hne
    cases hne
  · rw [String.toList_ofList]
    exact Path.slash_not_mem_name List.not_mem_nil hp
  · rw [String.toList_ofList] at hc
    have hmem := (mem_of_mem_name hp hc).resolve_left List.not_mem_nil
    simpa using List.any_eq_false.mp hzero c hmem

/-- A path starts at the root or in the working directory, both of which are named. -/
theorem IsNamed.start (h : t.IsNamed) (path : String) : Location.IsNamed (t.start path) := by
  rw [FileTree.start]
  split
  · exact fun _ hname => absurd hname List.not_mem_nil
  · exact h.working

/-- A walk over fit names comes from one named location to another. -/
theorem walk_isNamed {start place : Location} {names : List String} (hstart : start.IsNamed)
    (hnames : Fit names) (h : t.walk start names = .ok place) : place.IsNamed := by
  induction names generalizing start with
  | nil => exact Except.ok.inj h ▸ hstart
  | cons name rest ih =>
    rw [walk_of_directory (directory_of_walk h)] at h
    split_ifs at h with hdot hdots hlong
    · exact ih hstart hnames.of_cons h
    · exact ih hstart.dropLast hnames.of_cons h
    · exact ih (hstart.concat (hnames name List.mem_cons_self hdot hdots hlong)) hnames.of_cons h

/-- A path leads to a location of names that can stand in a directory. -/
theorem IsNamed.locate (h : t.IsNamed) {path : String} {place : Location}
    (hlocate : t.locate path = .ok place) : place.IsNamed := by
  have hnames := fit_steps (pathFault?_of_locate hlocate)
  rw [locate_eq_walk hlocate t] at hlocate
  exact walk_isNamed (h.start path) hnames hlocate

/-- What a path finds stands where the path leads. -/
theorem locate_of_find {path : String} {place : Location} {node : Node}
    (h : t.find path = .ok (place, node)) : t.locate path = .ok place := by
  rw [FileTree.find] at h
  cases hlocate : t.locate path with
  | error cause => rw [hlocate] at h; cases h
  | ok found =>
    simp only [hlocate, bind, Except.bind] at h
    split at h
    · cases h
    · split at h
      · cases h
      · cases h
        rfl

/-! ## Accesses -/

/-- Directories are made at named locations only, also where making them breaks off. -/
theorem IsNamed.makeDirectories (h : t.IsNamed) (made : Bool) {place : Location} {names : List String}
    (hplace : place.IsNamed) (hnames : Fit names) : (t.makeDirectories made place names).2.IsNamed := by
  induction names generalizing t made place with
  | nil => exact h
  | cons name rest ih =>
    have hrest := hnames.of_cons
    rw [FileTree.makeDirectories]
    by_cases hdot : name = "."
    · rw [if_pos hdot]
      exact ih h made hplace hrest
    by_cases hdots : name = ".."
    · rw [if_neg hdot, if_pos hdots]
      exact ih h made hplace.dropLast hrest
    by_cases hlong : Path.isLongName name = true
    · rw [if_neg hdot, if_neg hdots, if_pos hlong]
      exact h
    have hinner := hplace.concat (hnames name List.mem_cons_self hdot hdots hlong)
    rw [if_neg hdot, if_neg hdots, if_neg hlong]
    dsimp only
    split
    · exact ih h made hinner hrest
    · exact h
    · exact ih ((h.stamp place).put hinner _) true hinner hrest

/-- Making the directories of a path keeps a tree named, whether it succeeds or not. -/
theorem IsNamed.createDirectory (h : t.IsNamed) (path : String) :
    (t.createDirectory path).2.IsNamed := by
  rw [FileTree.createDirectory]
  cases hpath : pathFault? path with
  | some fault => exact h
  | none => exact h.makeDirectories false (h.start path) (fit_steps hpath)

/-- Writing a file keeps a tree named. -/
theorem IsNamed.writeFile (h : t.IsNamed) {path : String} {text : Option String}
    (hwrite : t.writeFile path text = .ok u) : u.IsNamed := by
  rw [FileTree.writeFile] at hwrite
  cases hlocate : t.locate path with
  | error cause => rw [hlocate] at hwrite; cases hwrite
  | ok place =>
    have hplace := h.locate hlocate
    simp only [hlocate, bind, Except.bind] at hwrite
    split at hwrite
    · cases hwrite
    · cases hwrite
      exact h.put hplace _
    · cases hwrite
      exact (h.stamp _).put hplace _

/-- Setting the time of a file keeps a tree named. -/
theorem IsNamed.touch (h : t.IsNamed) {path : String} {time : Int}
    (htouch : t.touch path time = .ok u) : u.IsNamed := by
  rw [FileTree.touch] at htouch
  cases hfind : t.find path with
  | error cause => rw [hfind] at htouch; cases htouch
  | ok found =>
    rw [hfind] at htouch
    cases htouch
    exact h.put (h.locate (locate_of_find hfind)) _

/-- Removing what a path finds keeps a tree named. -/
theorem IsNamed.remove (h : t.IsNamed) {path : String} (hremove : t.remove path = .ok u) : u.IsNamed := by
  rw [FileTree.remove] at hremove
  cases hfind : t.find path with
  | error cause => rw [hfind] at hremove; cases hremove
  | ok found =>
    rw [hfind] at hremove
    cases hremove
    exact h.cut _

/-- What is moved comes to different locations, where nothing else is. -/
theorem IsNamed.relocated (h : t.IsNamed) (source : Location) {target : Location}
    (htarget : target.IsNamed) : (t.relocated source target).IsNamed where
  nodup := by
    have hcut := (h.cut target).nodup
    rw [FileTree.relocated, List.map_map]
    refine List.Nodup.map_on (fun a ha b hb heq => ?_) hcut.of_map
    have houtside {e : Entry} (he : e ∈ (t.cut target).entries) : ¬target <+: e.place := by
      have hnot := (List.mem_filter.mp he).2
      rwa [Bool.not_eq_true', ← Bool.not_eq_true, Entry.isWithin, List.isPrefixOf_iff_prefix] at hnot
    have hsame (hplace : a.place = b.place) : a = b := List.inj_on_of_nodup_map hcut ha hb hplace
    simp only [Function.comp_apply, relocate, Entry.isWithin, List.isPrefixOf_iff_prefix] at heq
    split_ifs at heq with hwithin hwithin' hwithin'
    · obtain ⟨rest, hrest⟩ := hwithin
      obtain ⟨rest', hrest'⟩ := hwithin'
      refine hsame ?_
      simp only [Entry.ofNode, List.append_cancel_left_eq, ← hrest, ← hrest', List.drop_left] at heq
      rw [← hrest, ← hrest', heq]
    · exact absurd (heq ▸ List.prefix_append _ _) (houtside hb)
    · exact absurd (heq ▸ List.prefix_append _ _) (houtside ha)
    · exact hsame heq
  name e he := by
    obtain ⟨e', he', rfl⟩ := List.mem_map.mp he
    have hplace := (h.cut target).name e' he'
    rw [relocate]
    split
    · intro name hname
      rcases List.mem_append.mp hname with hname | hname
      · exact htarget name hname
      · exact hplace name (List.mem_of_mem_drop hname)
    · exact hplace
  working := h.working

/-- Moving something to a named location keeps a tree named. -/
theorem IsNamed.move (h : t.IsNamed) (source : Location) {target : Location} (htarget : target.IsNamed) :
    (t.move source target).IsNamed := by
  rw [move_eq]
  exact ((h.relocated source htarget).stamp _).stamp _

/-- A rename that succeeds keeps a tree named: it moves what it finds, or nothing. -/
theorem IsNamed.rename (h : t.IsNamed) {source target : String} (hrename : t.rename source target = .ok u) :
    u.IsNamed := by
  rw [FileTree.rename] at hrename
  cases hfind : t.find source with
  | error cause => rw [hfind] at hrename; cases hrename
  | ok found =>
    cases hlocate : t.locate target with
    | error cause => simp [hfind, hlocate, bind, Except.bind] at hrename
    | ok place =>
      simp only [hfind, hlocate, bind, Except.bind, throw, throwThe, MonadExceptOf.throw, pure,
        Except.pure] at hrename
      have hresult : u = t ∨ u = t.move found.1 place := by grind
      rcases hresult with rfl | rfl
      · exact h
      · exact h.move _ (h.locate hlocate)

end FileTree

/-! ## Edits -/

namespace FileEdit

open FileTree

variable {t u : FileTree}

/-- Making the directory above a path keeps a tree named. -/
theorem isNamed_withParent (h : t.IsNamed) {path : String} (hparent : withParent t path = .ok u) :
    u.IsNamed := by
  rw [withParent] at hparent
  have hmade := h.createDirectory ((Path.parent? path).getD "")
  split at hparent
  · rename_i after hcreate
    rw [hcreate] at hmade
    cases hparent
    exact hmade
  · cases hparent

/-- What an edit does keeps the names. -/
theorem isNamed_perform (h : t.IsNamed) {edit : FileEdit} (hperform : edit.perform t = .ok u) :
    u.IsNamed := by
  cases edit with
  | write path text time =>
    rw [perform] at hperform
    cases hparent : withParent t path with
    | error cause => rw [hparent] at hperform; cases hperform
    | ok made =>
      rw [hparent] at hperform
      exact (isNamed_withParent h hparent).writeFile hperform
  | makeDirectory path time =>
    rw [perform] at hperform
    have hmade := h.createDirectory path
    split at hperform
    · rename_i after hcreate
      rw [hcreate] at hmade
      cases hperform
      exact hmade
    · cases hperform
  | touch path time =>
    cases hperform
    exact h
  | rename source target time =>
    rw [perform] at hperform
    cases hparent : withParent t target with
    | error cause => rw [hparent] at hperform; cases hperform
    | ok made =>
      rw [hparent] at hperform
      exact (isNamed_withParent h hparent).rename hperform
  | remove path => exact h.remove hperform

/-- Setting times back keeps a tree named. -/
theorem isNamed_keepTimes (before : FileTree) (h : t.IsNamed) : (keepTimes before t).IsNamed := by
  refine h.of_places ?_ rfl
  rw [keepTimes, List.map_map]
  refine List.map_congr_left fun e _ => ?_
  simp only [Function.comp_apply]
  split <;> rfl

/-- An edit that succeeds keeps a tree named, its times included. -/
theorem isNamed_carryOut (h : t.IsNamed) {edit : FileEdit} (hcarry : edit.carryOut t = .ok u) :
    u.IsNamed := by
  have hclock : FileTree.IsNamed { t with clock := 0 } := ⟨h.nodup, h.name, h.working⟩
  rw [carryOut] at hcarry
  cases hperform : edit.perform { t with clock := 0 } with
  | error cause => rw [hperform] at hcarry; cases hcarry
  | ok between =>
    have hkept := isNamed_keepTimes t (isNamed_perform hclock hperform)
    simp only [hperform, bind, Except.bind, pure, Except.pure] at hcarry
    cases htime : edit.modified? with
    | none =>
      rw [htime] at hcarry
      cases hcarry
      exact ⟨hkept.nodup, hkept.name, hkept.working⟩
    | some time =>
      simp only [htime] at hcarry
      cases htouch : (keepTimes t between).touch edit.path time with
      | error cause => rw [htouch] at hcarry; cases hcarry
      | ok after =>
        have hafter := hkept.touch htouch
        rw [htouch] at hcarry
        cases hcarry
        exact ⟨hafter.nodup, hafter.name, hafter.working⟩

/-- Every edit keeps a tree whose locations are there once and have names that can stand in a directory. -/
theorem isNamed_apply (h : t.IsNamed) (edit : FileEdit) : (edit.apply t).1.IsNamed := by
  rw [FileEdit.apply]
  split
  · exact isNamed_carryOut h ‹_›
  · exact h

/-- So every tree that edits make of an empty one is such a tree. -/
theorem isNamed_foldl_apply (h : t.IsNamed) (edits : List FileEdit) :
    (edits.foldl (fun files edit => (edit.apply files).1) t).IsNamed := by
  induction edits generalizing t with
  | nil => exact h
  | cons edit rest ih => exact ih (isNamed_apply h edit)

end FileEdit

end Milestone
