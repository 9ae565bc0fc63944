import Milestone.Proofs.Files.Named
import Milestone.Proofs.Snapshot.Newest

/-!
# The sources of the active world

The active world is the newest directory among the worlds, and each document the newest file of its kind in a
directory of its own. So a document that is missing or broken leaves the world and the other documents alone.
-/

namespace Milestone

namespace FileTree

variable {t u : FileTree}

/-- Whether an entry of a directory is the newest of those that are accepted and can be looked at by their
paths: none of them is later by time and then by path. -/
def IsNewestIn (t : FileTree) (directory : String) (accept : String → Node → Bool) (name : String)
    (node : Node) : Prop :=
  ∃ kids, t.list directory = .ok kids ∧ (name, node) ∈ kids ∧ accept name node = true ∧
    Path.isLong (Path.join directory name) = false ∧
    ∀ other n, (other, n) ∈ kids → accept other n = true →
      Path.isLong (Path.join directory other) = false →
        NoLater (Path.join directory other, n.modified) (Path.join directory name, node.modified)

/-- An entry counts if it is accepted under a path that is not too long. -/
theorem counting_mem_listed {directory : String} {accept : String → Node → Bool}
    {kids : List (String × Node)} {e : String × Int} :
    .counting e ∈ kids.map (listed directory accept) ↔ ∃ node, (e.1, node) ∈ kids ∧
      accept e.1 node = true ∧ Path.isLong (Path.join directory e.1) = false ∧ node.modified = e.2 := by
  simp only [List.mem_map, listed, Listed.counting, Listed.mk.injEq, Bool.and_eq_true, Bool.not_eq_true',
    Option.some.injEq, Prod.exists]
  constructor
  · rintro ⟨name, node, hkid, rfl, ⟨haccept, hshort⟩, htime⟩
    exact ⟨node, hkid, haccept, hshort, htime⟩
  · rintro ⟨node, hkid, haccept, hshort, htime⟩
    exact ⟨e.1, node, hkid, rfl, ⟨haccept, hshort⟩, htime⟩

/-- In one directory the order of entries by name is that by path. -/
theorem noLater_join_iff (directory : String) {a b : String × Int} (ha : Path.IsName a.1)
    (hb : Path.IsName b.1) :
    NoLater (Path.join directory a.1, a.2) (Path.join directory b.1, b.2) ↔ NoLater a b := by
  have horder : Path.join directory a.1 ≤ Path.join directory b.1 ↔ a.1 ≤ b.1 := by
    rw [← String.not_lt, ← String.not_lt, Path.join_lt_join_iff directory hb.no_slash ha.no_slash]
  simp only [NoLater, horder]

/-- In a named tree a directory lists names only. -/
theorem IsNamed.isName_of_mem (h : t.IsNamed) {directory name : String} {node : Node}
    {kids : List (String × Node)} (hlist : t.list directory = .ok kids) (hkid : (name, node) ∈ kids) :
    Path.IsName name := by
  obtain ⟨place, -, -, rfl⟩ := list_eq_ok_iff.mp hlist
  exact h.isName (h.mem_children_iff.mp hkid) (by simp)

/-- The newest of the listed entries is the newest entry of the directory. -/
theorem IsNamed.isNewest_iff (h : t.IsNamed) {directory name : String} {accept : String → Node → Bool}
    {kids : List (String × Node)} (hlist : t.list directory = .ok kids) {time : Int} :
    IsNewest (kids.map (listed directory accept)) (name, time) ↔
      ∃ node, node.modified = time ∧ t.IsNewestIn directory accept name node := by
  have hname {other : String} {n : Node} (hkid : (other, n) ∈ kids) : Path.IsName other :=
    h.isName_of_mem hlist hkid
  constructor
  · rintro ⟨hmem, hlatest⟩
    obtain ⟨node, hkid, haccept, hshort, htime⟩ := counting_mem_listed.mp hmem
    refine ⟨node, htime, kids, hlist, hkid, haccept, hshort, fun other n hother hn hlong => ?_⟩
    rw [htime]
    exact (noLater_join_iff directory (a := (other, n.modified)) (b := (name, time)) (hname hother)
      (hname hkid)).mpr (hlatest _ (counting_mem_listed.mpr ⟨n, hother, hn, hlong, rfl⟩))
  · rintro ⟨node, rfl, kids', hlist', hkid, haccept, hshort, hlatest⟩
    rw [hlist, Except.ok.injEq] at hlist'
    subst hlist'
    refine ⟨counting_mem_listed.mpr ⟨node, hkid, haccept, hshort, rfl⟩, fun e he => ?_⟩
    obtain ⟨n, hother, hn, hlong, htime⟩ := counting_mem_listed.mp he
    have hle := hlatest e.1 n hother hn hlong
    rw [htime] at hle
    exact (noLater_join_iff directory (b := (name, node.modified)) (hname hother) (hname hkid)).mp hle

/-- The search finds a path exactly if it is that of the newest entry. -/
theorem IsNamed.newestEntry_eq_some_iff (h : t.IsNamed) {directory path : String}
    {accept : String → Node → Bool} : t.newestEntry directory accept = .ok (some path) ↔
      ∃ name node, t.IsNewestIn directory accept name node ∧ path = Path.join directory name := by
  cases hlist : t.list directory with
  | error cause =>
    refine iff_of_false (fun hpath => ?_) fun ⟨_, _, ⟨_, hkids, _⟩, _⟩ => ?_
    · rw [newestEntry, hlist] at hpath
      cases cause <;> cases hpath
    · rw [hlist] at hkids
      cases hkids
  | ok kids =>
    simp only [newestEntry, hlist, Except.ok.injEq, Option.map_eq_some_iff, newest?_eq_some_iff,
      h.isNewest_iff hlist]
    constructor
    · rintro ⟨name, ⟨time, node, -, hnewest⟩, rfl⟩
      exact ⟨name, node, hnewest, rfl⟩
    · rintro ⟨name, node, hnewest, rfl⟩
      exact ⟨name, ⟨_, node, rfl, hnewest⟩, rfl⟩

/-- The search finds nothing exactly if the directory is missing or none of its entries is accepted. -/
theorem newestEntry_eq_none_iff {directory : String} {accept : String → Node → Bool} :
    t.newestEntry directory accept = .ok none ↔ t.list directory = .error .notFound ∨
      ∃ kids, t.list directory = .ok kids ∧ ∀ name node, (name, node) ∈ kids →
        ¬(accept name node = true ∧ Path.isLong (Path.join directory name) = false) := by
  cases hlist : t.list directory with
  | error cause => cases cause <;> simp [newestEntry, hlist]
  | ok kids =>
    simp only [newestEntry, hlist, Except.ok.injEq, Option.map_eq_none_iff, newest?_eq_none_iff,
      counting_mem_listed, reduceCtorEq, false_or, exists_eq_left']
    constructor
    · rintro hnone name node hkid ⟨haccept, hshort⟩
      exact hnone (name, node.modified) ⟨node, hkid, haccept, hshort, rfl⟩
    · rintro hnone e ⟨node, hkid, haccept, hshort, -⟩
      exact hnone e.1 node hkid ⟨haccept, hshort⟩

/-- The newest directory is the same in trees that differ in files only, and so is the newest file of any
directory but the one that they differ in. -/
theorem IsNewestIn.of_sameBut {place : Location} (h : SameBut place t u) (ht : t.IsNamed) (hu : u.IsNamed)
    {directory name : String} {accept : String → Node → Bool} {node : Node}
    (haccept : t.locate directory = .ok place → ∀ other n, accept other n = true → n.isDirectory = true)
    (hnewest : t.IsNewestIn directory accept name node) : u.IsNewestIn directory accept name node := by
  obtain ⟨kids, hlist, hkid, haccepted, hshort, hlatest⟩ := hnewest
  obtain ⟨kids', hlist', hsame⟩ := h.list ht hu hlist
  have hsame {other : String} {n : Node} (hn : accept other n = true) :
      (other, n) ∈ kids' ↔ (other, n) ∈ kids := hsame other n fun hplace => haccept hplace other n hn
  exact ⟨kids', hlist', (hsame haccepted).mpr hkid, haccepted, hshort, fun other n hother hn hlong =>
    hlatest other n ((hsame hn).mp hother) hn hlong⟩

/-- In a named tree the newest entry of a directory has a name. -/
theorem IsNamed.isName_of_isNewestIn (h : t.IsNamed) {directory name : String}
    {accept : String → Node → Bool} {node : Node} (hnewest : t.IsNewestIn directory accept name node) :
    Path.IsName name := by
  obtain ⟨kids, hlist, hkid, -⟩ := hnewest
  exact h.isName_of_mem hlist hkid

/-- There is one newest entry at most. -/
theorem IsNamed.newestIn_unique (h : t.IsNamed) {directory name name' : String}
    {accept : String → Node → Bool} {node node' : Node} (hnewest : t.IsNewestIn directory accept name node)
    (hnewest' : t.IsNewestIn directory accept name' node') : name' = name ∧ node' = node := by
  have hname := h.isName_of_isNewestIn hnewest
  have hname' := h.isName_of_isNewestIn hnewest'
  obtain ⟨kids, hlist, hkid, haccept, hshort, hlatest⟩ := hnewest
  obtain ⟨kids', hlist', hkid', haccept', hshort', hlatest'⟩ := hnewest'
  rw [hlist, Except.ok.injEq] at hlist'
  subst hlist'
  have hpath := congrArg Prod.fst ((hlatest name' node' hkid' haccept' hshort').antisymm
    (hlatest' name node hkid haccept hshort))
  have hsame := congrArg Path.fileName? hpath
  rw [Path.fileName?_join directory hname', Path.fileName?_join directory hname, Option.some.injEq] at hsame
  obtain ⟨place, -, -, rfl⟩ := list_eq_ok_iff.mp hlist
  rw [h.mem_children_iff] at hkid hkid'
  rw [hsame, hkid, Option.some.injEq] at hkid'
  exact ⟨hsame, hkid'.symm⟩

/-! ## The world -/

/-- Whether a world is active: it is the newest directory among the worlds. -/
def HasWorld (t : FileTree) (saves name : String) : Prop :=
  ∃ node, t.IsNewestIn saves (fun _ n => n.isDirectory) name node

/-- The active world is the newest one, with its directory. -/
theorem IsNamed.activeWorld_eq_some_iff (h : t.IsNamed) {saves name path : String} :
    t.activeWorld saves = .ok (some (name, path)) ↔
      t.HasWorld saves name ∧ path = Path.join saves name := by
  have hfound (path' : String) : t.newestEntry saves (fun _ n => n.isDirectory) = .ok (some path') ↔ _ :=
    h.newestEntry_eq_some_iff
  constructor
  · intro hactive
    rw [activeWorld] at hactive
    cases hentry : t.newestEntry saves fun _ n => n.isDirectory with
    | error cause => rw [hentry] at hactive; cases hactive
    | ok best =>
      simp only [hentry, bind, Except.bind, pure, Except.pure, Except.ok.injEq,
        Option.bind_eq_some_iff, Option.map_eq_some_iff, Prod.mk.injEq] at hactive
      obtain ⟨path', rfl, name', hfile, rfl, rfl⟩ := hactive
      obtain ⟨found, node, hnewest, rfl⟩ := (hfound path').mp hentry
      rw [Path.fileName?_join saves (h.isName_of_isNewestIn hnewest), Option.some.injEq] at hfile
      subst hfile
      exact ⟨⟨node, hnewest⟩, rfl⟩
  · rintro ⟨⟨node, hnewest⟩, rfl⟩
    rw [activeWorld, (hfound _).mpr ⟨name, node, hnewest, rfl⟩]
    simp only [bind, Except.bind, pure, Except.pure, Option.bind_some,
      Path.fileName?_join saves (h.isName_of_isNewestIn hnewest), Option.map_some]

/-- The sources have the world that is the newest one. -/
theorem IsNamed.sources_world_iff (h : t.IsNamed) {era : Era} {saves name : String} :
    (t.sources era saves).world = some name ↔ t.HasWorld saves name := by
  rw [sources]
  split
  · rename_i world path hactive
    obtain ⟨hworld, rfl⟩ := h.activeWorld_eq_some_iff.mp hactive
    simp only [Option.some.injEq]
    constructor
    · rintro rfl
      exact hworld
    · intro hname
      have hother := h.activeWorld_eq_some_iff.mpr ⟨hname, rfl⟩
      rw [hactive, Except.ok.injEq, Option.some.injEq, Prod.mk.injEq] at hother
      exact hother.1
  · rename_i hnone
    refine iff_of_false (fun hworld => by cases hworld) fun hname => ?_
    exact hnone name _ (h.activeWorld_eq_some_iff.mpr ⟨hname, rfl⟩)

end FileTree

namespace SourceKind

/-- The directory of each kind of source has a name. -/
theorem isName (kind : SourceKind) : Path.IsName kind.name := by
  cases kind <;> decide

/-- Different kinds of sources have different directories. -/
theorem name_inj {kind other : SourceKind} (h : kind.name = other.name) : kind = other := by
  cases kind <;> cases other <;> first | rfl | exact absurd h (by decide)

end SourceKind

/-! ## The documents -/

/-- Where the documents of a kind stand, and how they are written. -/
structure Shelf where
  directory : String
  extension : String
  /-- Whether the documents list changes of lifetime counters. -/
  lifetime : Bool

/-- The shelf of a kind of documents, if the era has such documents. -/
def SourceKind.shelf? (era : Era) (saves world : String) : SourceKind → Option Shelf
  | statistics =>
    match era with
    | .legacy => some ⟨FileTree.lifetimeDirectory saves, "dat", true⟩
    | .mid | .hybrid | .modern => some ⟨Path.join world "stats", "json", false⟩
    | .unknown => none
  | advancements =>
    match era with
    | .hybrid | .modern => some ⟨Path.join world "advancements", "json", false⟩
    | .legacy | .mid | .unknown => none
  | unlocks => some ⟨Path.join world "unlocks", "json", false⟩

/-- The document of a kind. -/
def Sources.document? (s : Sources) : SourceKind → Option Json.Value
  | .statistics => s.statistics
  | .advancements => s.advancements
  | .unlocks => s.unlocks

namespace Shelf

/-- Whether an entry is a file of the shelf. -/
def accepts (shelf : Shelf) (name : String) (node : Node) : Bool :=
  !node.isDirectory && Path.extension? name == some shelf.extension

/-- The document in the text of a file. -/
def parse (shelf : Shelf) (text : String) : Except DocumentError Json.Value :=
  if shelf.lifetime then Document.readLifetime text else Document.read text

/-- Whether a document is in the newest file of the shelf. -/
def Shows (shelf : Shelf) (t : FileTree) (doc : Json.Value) : Prop :=
  ∃ name text time, t.IsNewestIn shelf.directory shelf.accepts name (.file (some text) time) ∧
    shelf.parse text = .ok doc

end Shelf

namespace FileTree

variable {t u : FileTree}

/-- A document is read if its file is, and if the text is one of a document. -/
theorem readDocument_eq_ok_iff {path : String} {shelf : Shelf} {doc : Json.Value} :
    t.readDocument path shelf.lifetime = .ok doc ↔
      ∃ text, t.readText path = .ok text ∧ shelf.parse text = .ok doc := by
  rw [readDocument]
  cases t.readText path with
  | error cause => simp
  | ok text =>
    simp only [Except.ok.injEq, exists_eq_left', Shelf.parse]
    cases if shelf.lifetime = true then Document.readLifetime text else Document.read text <;> simp

/-- A result is kept if there is one. -/
theorem toOption_eq_some_iff {ε α : Type} {x : Except ε α} {a : α} : x.toOption = some a ↔ x = .ok a := by
  cases x <;> simp [Except.toOption]

/-- A document is read exactly if it is in the newest file. -/
theorem IsNamed.newestDocument_eq_some_iff (h : t.IsNamed) {shelf : Shelf} {doc : Json.Value} :
    t.newestDocument shelf.directory shelf.extension shelf.lifetime = some doc ↔ shelf.Shows t doc := by
  have hfile (best : Option String) :
      t.newestFile shelf.directory shelf.extension = .ok best ↔
        t.newestEntry shelf.directory shelf.accepts = .ok best := Iff.rfl
  have hread {name text : String} {node : Node} (hnewest : t.IsNewestIn shelf.directory shelf.accepts name node) :
      t.readText (Path.join shelf.directory name) = .ok text ↔ ∃ time, node = .file (some text) time := by
    obtain ⟨kids, hlist, hkid, -, hshort, -⟩ := hnewest
    exact h.readText_join hlist hkid hshort
  simp only [newestDocument, bind, Option.bind_eq_some_iff, toOption_eq_some_iff, readDocument_eq_ok_iff,
    hfile]
  constructor
  · rintro ⟨best, hbest, path, rfl, text, htext, hparse⟩
    obtain ⟨name, node, hnewest, rfl⟩ := h.newestEntry_eq_some_iff.mp hbest
    obtain ⟨time, rfl⟩ := (hread hnewest).mp htext
    exact ⟨name, text, time, hnewest, hparse⟩
  · rintro ⟨name, text, time, hnewest, hparse⟩
    exact ⟨_, h.newestEntry_eq_some_iff.mpr ⟨name, _, hnewest, rfl⟩, _, rfl, text,
      (hread hnewest).mpr ⟨time, rfl⟩, hparse⟩

/-- With an active world the document of a kind comes from the shelf of the kind. -/
theorem sources_document? {era : Era} {saves name path : String}
    (hactive : t.activeWorld saves = .ok (some (name, path))) (kind : SourceKind) :
    (t.sources era saves).document? kind = (kind.shelf? era saves path).bind fun shelf =>
      t.newestDocument shelf.directory shelf.extension shelf.lifetime := by
  rw [sources, hactive]
  cases kind <;> cases era <;> rfl

/-- A document of the active world is that of the newest file on its shelf. -/
theorem IsNamed.document?_of_world (h : t.IsNamed) {era : Era} {saves name : String}
    (hworld : t.HasWorld saves name) {kind : SourceKind} {doc : Json.Value} :
    (t.sources era saves).document? kind = some doc ↔
      ∃ shelf, kind.shelf? era saves (Path.join saves name) = some shelf ∧ shelf.Shows t doc := by
  rw [sources_document? (h.activeWorld_eq_some_iff.mpr ⟨hworld, rfl⟩), Option.bind_eq_some_iff]
  simp only [h.newestDocument_eq_some_iff]

/-- A directory has at most one newest world. -/
theorem IsNamed.hasWorld_unique (h : t.IsNamed) {saves name other : String}
    (hworld : t.HasWorld saves name) (hother : t.HasWorld saves other) : other = name := by
  obtain ⟨node, hnewest⟩ := hworld
  obtain ⟨node', hnewest'⟩ := hother
  exact (h.newestIn_unique hnewest hnewest').1

/-- Without an active world there are no documents. -/
theorem IsNamed.document?_eq_some_iff (h : t.IsNamed) {era : Era} {saves : String} {kind : SourceKind}
    {doc : Json.Value} : (t.sources era saves).document? kind = some doc ↔ ∃ name shelf,
      t.HasWorld saves name ∧ kind.shelf? era saves (Path.join saves name) = some shelf ∧
        shelf.Shows t doc := by
  by_cases hworld : ∃ name, t.HasWorld saves name
  · obtain ⟨name, hname⟩ := hworld
    rw [h.document?_of_world hname]
    constructor
    · rintro ⟨shelf, hshelf, hshows⟩
      exact ⟨name, shelf, hname, hshelf, hshows⟩
    · rintro ⟨other, shelf, hother, hshelf, hshows⟩
      rw [h.hasWorld_unique hname hother] at hshelf
      exact ⟨shelf, hshelf, hshows⟩
  · refine iff_of_false (fun hdoc => ?_) fun ⟨name, _, hname, _⟩ => hworld ⟨name, hname⟩
    have hnone : t.sources era saves = .none := by
      rw [sources]
      split
      · rename_i name path hactive
        exact absurd ⟨name, (h.activeWorld_eq_some_iff.mp hactive).1⟩ hworld
      · rfl
    rw [hnone] at hdoc
    cases kind <;> cases hdoc

/-! ## One broken document -/

/-- A shelf stands under the name of its kind. -/
theorem exists_directory_of_shelf? {era : Era} {saves world : String} {kind : SourceKind} {shelf : Shelf}
    (h : kind.shelf? era saves world = some shelf) :
    ∃ above, shelf.directory = Path.join above kind.name := by
  cases kind with
  | statistics =>
    cases era with
    | legacy =>
      cases h
      rw [lifetimeDirectory]
      cases Path.parent? saves with
      | none => exact ⟨"", rfl⟩
      | some parent => exact ⟨parent, rfl⟩
    | mid | hybrid | modern => cases h; exact ⟨world, rfl⟩
    | unknown => cases h
  | advancements =>
    cases era with
    | hybrid | modern => cases h; exact ⟨world, rfl⟩
    | legacy | mid | unknown => cases h
  | unlocks => cases h; exact ⟨world, rfl⟩

/-- A path that ends in a name leads to a location that ends in it. -/
theorem getLast?_of_locate_join {above name : String} {place : Location} (hname : Path.IsName name)
    (h : t.locate (Path.join above name) = .ok place) : place.getLast? = some name := by
  rw [locate_eq_walk h t, Path.steps_join above hname.no_slash hname.ne_empty] at h
  obtain ⟨directory, -, -, rfl⟩ := walk_concat hname.ne_dot hname.ne_dots h
  exact List.getLast?_concat

/-- The shelves of two kinds stand in different places. -/
theorem kind_eq_of_locate {era : Era} {saves world : String} {kind other : SourceKind} {shelf shelf' : Shelf}
    {place : Location} (h : kind.shelf? era saves world = some shelf)
    (h' : other.shelf? era saves world = some shelf') (hplace : t.locate shelf.directory = .ok place)
    (hplace' : t.locate shelf'.directory = .ok place) : other = kind := by
  obtain ⟨above, hdirectory⟩ := exists_directory_of_shelf? h
  obtain ⟨above', hdirectory'⟩ := exists_directory_of_shelf? h'
  have hlast := getLast?_of_locate_join (SourceKind.isName kind) (hdirectory ▸ hplace)
  have hlast' := getLast?_of_locate_join (SourceKind.isName other) (hdirectory' ▸ hplace')
  exact SourceKind.name_inj (Option.some.inj (hlast'.symm.trans hlast))

/-- Files do not matter for the active world. -/
theorem HasWorld.of_sameBut {place : Location} (h : SameBut place t u) (ht : t.IsNamed) (hu : u.IsNamed)
    {saves name : String} (hworld : t.HasWorld saves name) : u.HasWorld saves name := by
  obtain ⟨node, hnewest⟩ := hworld
  exact ⟨node, hnewest.of_sameBut h ht hu fun _ _ _ hn => hn⟩

end FileTree

open FileTree

variable {t u : FileTree}

/-- Files of another directory do not matter for a document. -/
theorem Shelf.Shows.of_sameBut {place : Location} (h : SameBut place t u) (ht : t.IsNamed) (hu : u.IsNamed)
    {shelf : Shelf} (hplace : t.locate shelf.directory ≠ .ok place) {doc : Json.Value}
    (hshows : shelf.Shows t doc) : shelf.Shows u doc := by
  obtain ⟨name, text, time, hnewest, hparse⟩ := hshows
  exact ⟨name, text, time, hnewest.of_sameBut h ht hu fun hsame => absurd hsame hplace, hparse⟩

/-- Whether a shelf has no document to show: no file is on it, or the newest one is no text or cannot be
parsed. -/
def Shelf.IsBroken (shelf : Shelf) (t : FileTree) : Prop :=
  (∀ name node, ¬t.IsNewestIn shelf.directory shelf.accepts name node) ∨
    ∃ name node, t.IsNewestIn shelf.directory shelf.accepts name node ∧
      ∀ text time doc, node = .file (some text) time → shelf.parse text ≠ .ok doc

/-- A broken shelf shows no document. -/
theorem Shelf.IsBroken.not_shows (h : t.IsNamed) {shelf : Shelf} (hbroken : shelf.IsBroken t)
    (doc : Json.Value) : ¬shelf.Shows t doc := by
  rintro ⟨name, text, time, hnewest, hparse⟩
  rcases hbroken with hmissing | ⟨name', node, hnewest', hnone⟩
  · exact hmissing name _ hnewest
  · exact hnone text time doc (h.newestIn_unique hnewest hnewest').2 hparse

/-- Files on the shelf of one kind matter for the document of that kind alone. -/
theorem sources_of_sameBut (h : t.IsNamed) (hu : u.IsNamed) {era : Era} {saves name : String}
    {kind : SourceKind} {shelf : Shelf} {place : Location} (hworld : t.HasWorld saves name)
    (hshelf : kind.shelf? era saves (Path.join saves name) = some shelf)
    (hplace : t.locate shelf.directory = .ok place) (hsame : SameBut place t u) :
    u.HasWorld saves name ∧
      (∀ other, other ≠ kind →
        (u.sources era saves).document? other = (t.sources era saves).document? other) ∧
      (shelf.IsBroken u → (u.sources era saves).document? kind = none) := by
  have hworld' := hworld.of_sameBut hsame h hu
  refine ⟨hworld', fun other hother => Option.ext fun doc => ?_, fun hbroken => ?_⟩
  · have hplace' {shelf' : Shelf} (hshelf' : other.shelf? era saves (Path.join saves name) = some shelf') :
        t.locate shelf'.directory ≠ .ok place :=
      fun heq => hother (kind_eq_of_locate hshelf hshelf' hplace heq)
    rw [h.document?_of_world hworld, hu.document?_of_world hworld']
    refine exists_congr fun shelf' => and_congr_right fun hshelf' => ⟨fun hshows => ?_, fun hshows => ?_⟩
    · refine hshows.of_sameBut hsame.symm hu h fun heq => hplace' hshelf' ?_
      exact hsame.symm.keepsDirectories.locate hsame.symm.working heq
    · exact hshows.of_sameBut hsame h hu (hplace' hshelf')
  · rw [Option.eq_none_iff_forall_ne_some]
    intro doc hdoc
    obtain ⟨shelf', hshelf', hshows⟩ := (hu.document?_of_world hworld').mp hdoc
    rw [hshelf, Option.some.injEq] at hshelf'
    subst hshelf'
    exact hbroken.not_shows hu doc hshows

/-- The choice of the newest entry is exact and does not depend on the order of a listing or on entries that
do not count. So the active world is the newest directory, each document is that of the newest file on the
shelf of its kind, and a shelf whose files are missing or broken blanks its own document and nothing else. -/
theorem sources_by_newest (t : FileTree) (h : t.IsNamed) (era : Era) (saves : String) :
    (∀ entries name, newest? entries = some name ↔ ∃ time, IsNewest entries (name, time)) ∧
    (∀ entries, newest? entries = none ↔ ∀ e, .counting e ∉ entries) ∧
    (∀ entries entries', (∀ e, .counting e ∈ entries ↔ .counting e ∈ entries') →
      newest? entries = newest? entries') ∧
    (∀ directory accept path, t.newestEntry directory accept = .ok (some path) ↔
      ∃ name node, t.IsNewestIn directory accept name node ∧ path = Path.join directory name) ∧
    (∀ directory accept, t.newestEntry directory accept = .ok none ↔
      t.list directory = .error .notFound ∨
        ∃ kids, t.list directory = .ok kids ∧ ∀ name node, (name, node) ∈ kids →
          ¬(accept name node = true ∧ Path.isLong (Path.join directory name) = false)) ∧
    (∀ name, (t.sources era saves).world = some name ↔ t.HasWorld saves name) ∧
    (∀ kind doc, (t.sources era saves).document? kind = some doc ↔ ∃ name shelf,
      t.HasWorld saves name ∧ kind.shelf? era saves (Path.join saves name) = some shelf ∧
        shelf.Shows t doc) ∧
    ∀ (u : FileTree) name kind shelf place, u.IsNamed → t.HasWorld saves name →
      SourceKind.shelf? era saves (Path.join saves name) kind = some shelf →
      t.locate shelf.directory = .ok place → SameBut place t u →
        (u.sources era saves).world = some name ∧
        (∀ other, other ≠ kind →
          (u.sources era saves).document? other = (t.sources era saves).document? other) ∧
        (shelf.IsBroken u → (u.sources era saves).document? kind = none) := by
  refine ⟨fun _ _ => newest?_eq_some_iff, fun _ => newest?_eq_none_iff, fun _ _ => newest?_congr,
    fun _ _ _ => h.newestEntry_eq_some_iff, fun _ _ => newestEntry_eq_none_iff,
    fun _ => h.sources_world_iff, fun _ _ => h.document?_eq_some_iff, ?_⟩
  intro u name kind shelf place hu hworld hshelf hplace hsame
  obtain ⟨hworld', hothers, hblank⟩ := sources_of_sameBut h hu hworld hshelf hplace hsame
  exact ⟨hu.sources_world_iff.mpr hworld', hothers, hblank⟩

/-- A world with a document of two kinds, beside one that changed earlier. -/
def worldOfTwo : FileTree where
  entries := [.ofNode ["w"] (.directory 0), .ofNode ["w", "saves"] (.directory 0),
    .ofNode ["w", "saves", "B"] (.directory 4), .ofNode ["w", "saves", "A"] (.directory 5),
    .ofNode ["w", "saves", "A", "advancements"] (.directory 0),
    .ofNode ["w", "saves", "A", "advancements", "p.json"] (.file (some "\x7b\x7d") 3),
    .ofNode ["w", "saves", "A", "stats"] (.directory 0),
    .ofNode ["w", "saves", "A", "stats", "q.json"] (.file (some "\x7b\x7d") 3)]
  working := ["w"]
  clock := 0

/-- A broken file on one shelf leaves the world and the other shelf alone. -/
theorem sources_by_newest_broken :
    let u := worldOfTwo.put ["w", "saves", "A", "advancements", "p.json"] (.file (some "\x7b") 3)
    (worldOfTwo.sources .modern "saves").document? .advancements = some (.object []) ∧
      (u.sources .modern "saves").world = some "A" ∧
      (u.sources .modern "saves").document? .statistics =
        (worldOfTwo.sources .modern "saves").document? .statistics ∧
      (u.sources .modern "saves").document? .advancements = none := by
  intro u
  have h : worldOfTwo.IsNamed := ⟨by decide, by decide, by decide⟩
  have hu : u.IsNamed := ⟨by decide, by decide, by decide⟩
  obtain ⟨-, -, -, -, -, hworld, -, hsame⟩ := sources_by_newest worldOfTwo h .modern "saves"
  have hactive : worldOfTwo.HasWorld "saves" "A" := (hworld "A").mp (by decide)
  have hread : Document.read "\x7b" = .error .malformed := by decide
  have hbroken : (⟨"saves/A/advancements", "json", false⟩ : Shelf).IsBroken u := by
    refine .inr ⟨"p.json", .file (some "\x7b") 3, ⟨[("p.json", .file (some "\x7b") 3)], by decide, by decide,
      by decide, by decide, fun other n hkid _ _ => ?_⟩, fun text time doc hnode hparse => ?_⟩
    · obtain ⟨rfl, rfl⟩ := Prod.mk.inj (List.mem_singleton.mp hkid)
      exact .refl _
    · obtain ⟨rfl, -⟩ := hnode
      exact absurd (hread.symm.trans hparse) (by simp)
  have hput : SameBut ["w", "saves", "A", "advancements"] worldOfTwo u :=
    sameBut_put (by decide) (some "\x7b") 3
  obtain ⟨hname, hothers, hblank⟩ := hsame u "A" .advancements _ _ hu hactive rfl (by decide) hput
  exact ⟨by decide, hname, hothers .statistics (by decide), hblank hbroken⟩

end Milestone
