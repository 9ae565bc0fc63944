import Milestone.Proofs.Run.Unnamed

/-!
# The names to show

A template is read with a map of names to show. This file says which name every entry shows, and that the map concerns
nothing else: with any other map the same texts are rejected for the same fault, and what is read from the others is
the same without the names to show. So it is tracked alike.
-/

namespace Milestone

/-- What is shown for an entry: the name under its path, else the one that it declares, else its own. -/
inductive DisplayNames.Shows (names : DisplayNames) (path : String) (declared : Option String)
    (name : String) : String → Prop where
  | listed {shown : String} (h : names.get? path = some shown) : Shows names path declared name shown
  | declared {shown : String} (h : names.get? path = none) (hd : declared = some shown) :
      Shows names path declared name shown
  | own (h : names.get? path = none) (hd : declared = none) : Shows names path declared name name

/-- The name that is looked up for an entry is the one to show. -/
theorem DisplayNames.shows_resolve (names : DisplayNames) (path : String) (declared : Option String)
    (name : String) : names.Shows path declared name (names.resolve path declared name) := by
  unfold resolve
  cases hlisted : names.get? path with
  | some shown => exact .listed hlisted
  | none =>
    cases hdeclared : declared with
    | some shown => exact .declared hlisted rfl
    | none => exact .own hlisted rfl

namespace Template

section Shown

variable (names : DisplayNames)

/-- A criterion shows the name under its path, which starts with that of its category. -/
def ShowsCriterion (path : String) (d : String × Option CriterionDeclaration) (item : Item) : Prop :=
  ∃ own, d.2 = some own ∧ item.name = d.1 ∧
    names.Shows (path ++ ".criteria." ++ d.1) own.displayName d.1 item.displayName

/-- An advancement shows the name under its path, and each of its criteria the one under its own. -/
def ShowsAdvancement (d : String × Option AdvancementDeclaration) (a : Category) : Prop :=
  ∃ own, d.2 = some own ∧ a.name = d.1 ∧
    names.Shows ("advancement." ++ d.1) own.displayName d.1 a.displayName ∧
    List.Forall₂ (ShowsCriterion names ("advancement." ++ d.1)) own.criteria a.criteria

/-- The only criterion of a single statistic shows the name of its group. -/
def ShowsStatistic (d : String × Option StatisticDeclaration) (group : Category) : Prop :=
  ∃ own, d.2 = some own ∧ group.name = d.1 ∧
    names.Shows ("stat." ++ d.1) own.displayName d.1 group.displayName ∧
    match own.criteria with
    | none => ∃ item, group.criteria = [item] ∧ item.displayName = group.displayName
    | some criteria =>
      List.Forall₂ (ShowsCriterion names ("stat." ++ d.1)) criteria group.criteria

/-- An unlock shows the name under its path. -/
def ShowsUnlock (d : String × Option UnlockDeclaration) (item : Item) : Prop :=
  ∃ own, d.2 = some own ∧ item.name = d.1 ∧
    names.Shows ("unlock." ++ d.1) own.displayName d.1 item.displayName

/-- A custom goal shows the name under its path. -/
def ShowsCustom (d : CustomDeclaration) (item : Item) : Prop :=
  item.name = d.name ∧ names.Shows ("custom." ++ d.name) d.displayName d.name item.displayName

/-- A staged goal shows the name under its path. -/
def ShowsGoal (d : GoalDeclaration) (goal : StagedGoal) : Prop :=
  goal.name = d.name ∧ names.Shows ("multi_stage." ++ d.name) d.displayName d.name goal.displayName

/-- Every entry of a checklist shows the name for its declaration. -/
structure Shows (d : Declarations) (c : Checklist) : Prop where
  advancements : List.Forall₂ (ShowsAdvancement names) d.advancements c.advancements
  statistics : List.Forall₂ (ShowsStatistic names) d.statistics c.statistics
  unlocks : List.Forall₂ (ShowsUnlock names) d.unlocks c.unlocks
  custom : List.Forall₂ (ShowsCustom names) d.custom c.custom
  goals : List.Forall₂ (ShowsGoal names) d.goals c.goals

variable {names}

/-- A built criterion of an advancement shows the name for its declaration. -/
theorem shows_of_buildMark {advancement : String} {d : String × Option CriterionDeclaration}
    {item : Item} (h : buildMark names advancement d = .ok item) :
    ShowsCriterion names ("advancement." ++ advancement) d item := by
  simp only [buildMark, bind_eq_ok_iff, pure_eq_ok_iff] at h
  obtain ⟨own, hshape, rfl⟩ := h
  exact ⟨own, eq_some_of_wellShaped hshape, rfl, names.shows_resolve ..⟩

/-- A built criterion of a group of statistics shows the name for its declaration. -/
theorem shows_of_buildCriterion {group : String} {d : String × Option CriterionDeclaration}
    {item : Item} (h : buildCriterion names group d = .ok item) :
    ShowsCriterion names ("stat." ++ group) d item := by
  simp only [buildCriterion, bind_eq_ok_iff, pure_eq_ok_iff] at h
  obtain ⟨own, hshape, _, -, rfl⟩ := h
  exact ⟨own, eq_some_of_wellShaped hshape, rfl, names.shows_resolve ..⟩

/-- A built advancement shows the names for its declaration, criteria included. -/
theorem shows_of_buildAdvancement {d : String × Option AdvancementDeclaration} {a : Category}
    (h : buildAdvancement names d = .ok a) : ShowsAdvancement names d a := by
  simp only [buildAdvancement, bind_eq_ok_iff, pure_eq_ok_iff, mapM_eq_ok_iff] at h
  obtain ⟨own, hshape, criteria, hcriteria, rfl⟩ := h
  exact ⟨own, eq_some_of_wellShaped hshape, rfl, names.shows_resolve ..,
    hcriteria.imp fun _ _ => shows_of_buildMark⟩

/-- A built group of statistics shows the names for its declaration, with criteria of its own or the one
that is made up. -/
theorem shows_of_buildStatistic {d : String × Option StatisticDeclaration} {group : Category}
    (h : buildStatistic names d = .ok group) : ShowsStatistic names d group := by
  simp only [buildStatistic, bind_eq_ok_iff] at h
  obtain ⟨own, hshape, h⟩ := h
  cases hcriteria : own.criteria with
  | none =>
    simp only [hcriteria, bind_eq_ok_iff, pure_eq_ok_iff] at h
    obtain ⟨_, -, rfl⟩ := h
    refine ⟨own, eq_some_of_wellShaped hshape, rfl, names.shows_resolve .., ?_⟩
    rw [hcriteria]
    exact ⟨_, rfl, rfl⟩
  | some declared =>
    simp only [hcriteria, bind_eq_ok_iff, pure_eq_ok_iff, mapM_eq_ok_iff] at h
    obtain ⟨criteria, hbuilt, rfl⟩ := h
    refine ⟨own, eq_some_of_wellShaped hshape, rfl, names.shows_resolve .., ?_⟩
    rw [hcriteria]
    exact hbuilt.imp fun _ _ => shows_of_buildCriterion

/-- A built unlock shows the name for its declaration. -/
theorem shows_of_buildUnlock {d : String × Option UnlockDeclaration} {item : Item}
    (h : buildUnlock names d = .ok item) : ShowsUnlock names d item := by
  simp only [buildUnlock, bind_eq_ok_iff, pure_eq_ok_iff] at h
  obtain ⟨own, hshape, rfl⟩ := h
  exact ⟨own, eq_some_of_wellShaped hshape, rfl, names.shows_resolve ..⟩

/-- A built custom goal shows the name for its declaration. -/
theorem shows_of_buildCustom {d : CustomDeclaration} {item : Item}
    (h : buildCustom names d = .ok item) : ShowsCustom names d item := by
  simp only [buildCustom, bind_eq_ok_iff, pure_eq_ok_iff] at h
  obtain ⟨_, -, rfl⟩ := h
  exact ⟨rfl, names.shows_resolve ..⟩

/-- A built staged goal shows the name for its declaration. -/
theorem shows_of_buildGoal {d : GoalDeclaration} {goal : StagedGoal}
    (h : buildGoal names d = .ok goal) : ShowsGoal names d goal := by
  unfold buildGoal at h
  split at h
  · cases h
  · simp only [bind_eq_ok_iff, pure_eq_ok_iff] at h
    obtain ⟨_, -, rfl⟩ := h
    exact ⟨rfl, names.shows_resolve ..⟩

/-- Whatever the map, every entry that is built shows the name for its declaration. -/
theorem shows_of_build {d : Declarations} {c : Checklist} (h : build names d = .ok c) :
    Shows names d c := by
  simp only [build, bind_eq_ok_iff, pure_eq_ok_iff, mapM_eq_ok_iff] at h
  obtain ⟨-, -, -, -, -, -, advancements, ha, statistics, hs, unlocks, hu, custom, hc, goals, hg, rfl⟩ := h
  exact ⟨ha.imp fun _ _ => shows_of_buildAdvancement, hs.imp fun _ _ => shows_of_buildStatistic,
    hu.imp fun _ _ => shows_of_buildUnlock,
    (forall₂_of_buildListed hc).imp fun _ _ => shows_of_buildCustom,
    (forall₂_of_buildListed hg).imp fun _ _ => shows_of_buildGoal⟩

end Shown

/-! ## Checks that are alike -/

section Alike

variable {α β γ δ : Type}

/-- Two checks fail with the same fault, or both succeed with results in which `u` sees the same. -/
inductive Alike (u : α → γ) : Except TemplateError α → Except TemplateError α → Prop where
  | error (e : TemplateError) : Alike u (.error e) (.error e)
  | ok {x y : α} (h : u x = u y) : Alike u (.ok x) (.ok y)

/-- A check before two others that are alike makes no difference. -/
theorem alike_bind {u : β → γ} (x : Except TemplateError α) {f g : α → Except TemplateError β}
    (h : ∀ a, Alike u (f a) (g a)) : Alike u (x >>= f) (x >>= g) := by
  cases x with
  | error e => exact .error e
  | ok a => exact h a

/-- Chains of two checks are alike if the first ones are, and the second ones on results that are the same. -/
theorem Alike.bind {u : α → γ} {v : β → δ} {x y : Except TemplateError α}
    {f g : α → Except TemplateError β} (h : Alike u x y)
    (hlater : ∀ a b, u a = u b → Alike v (f a) (g b)) : Alike v (x >>= f) (y >>= g) := by
  cases h with
  | error e => exact .error e
  | ok hsame => exact hlater _ _ hsame

/-- Lists of results are alike if their heads and their tails are. -/
theorem alike_cons {u : α → γ} {x y : Except TemplateError α} (h : Alike u x y)
    {xs ys : Except TemplateError (List α)} (hrest : Alike (List.map u) xs ys) :
    Alike (List.map u) (do return (← x) :: (← xs)) (do return (← y) :: (← ys)) :=
  h.bind fun _ _ hfirst => hrest.bind fun _ _ hlater => .ok (congrArg₂ List.cons hfirst hlater)

/-- Two builders that are alike on every declaration are alike on lists of them. -/
theorem alike_mapM {u : β → γ} {f g : α → Except TemplateError β} (h : ∀ d, Alike u (f d) (g d))
    (ds : List α) : Alike (List.map u) (ds.mapM f) (ds.mapM g) := by
  induction ds with
  | nil => exact .ok rfl
  | cons d rest ih =>
    rw [List.mapM_cons, List.mapM_cons]
    exact alike_cons (h d) ih

/-- The same for sections that are lists, which are also checked for repeated names. -/
theorem alike_buildListed {u : β → γ} {f g : α → Except TemplateError β} (h : ∀ d, Alike u (f d) (g d))
    (part : String) (name : α → String) (seen : List String) (ds : List α) :
    Alike (List.map u) (buildListed part name f seen ds) (buildListed part name g seen ds) := by
  induction ds generalizing seen with
  | nil => exact .ok rfl
  | cons d rest ih =>
    unfold buildListed
    split
    · exact .error _
    · exact alike_cons (h d) (ih _)

end Alike

section Builders

variable (names others : DisplayNames)

/-- The map concerns no more than the name of a criterion of an advancement. -/
theorem alike_buildMark (advancement : String) (d : String × Option CriterionDeclaration) :
    Alike Item.unnamed (buildMark names advancement d) (buildMark others advancement d) :=
  alike_bind (wellShaped d.2) fun _ => .ok rfl

/-- A criterion of a group is built alike with any two maps, or refused for its target with both. -/
theorem alike_buildCriterion (group : String) (d : String × Option CriterionDeclaration) :
    Alike Item.unnamed (buildCriterion names group d) (buildCriterion others group d) :=
  alike_bind (wellShaped d.2) fun own =>
    alike_bind (checkTarget (group ++ "." ++ d.1) own.target) fun _ => .ok rfl

/-- An advancement is built alike with any two maps, since its criteria are. -/
theorem alike_buildAdvancement (d : String × Option AdvancementDeclaration) :
    Alike Category.unnamed (buildAdvancement names d) (buildAdvancement others d) := by
  refine alike_bind (wellShaped d.2) fun own => ?_
  refine (alike_mapM (alike_buildMark names others d.1) own.criteria).bind fun a b hcriteria => .ok ?_
  simp only [Category.unnamed, Category.new, hcriteria]

/-- A group of statistics is built alike with any two maps, single or not. -/
theorem alike_buildStatistic (d : String × Option StatisticDeclaration) :
    Alike Category.unnamed (buildStatistic names d) (buildStatistic others d) := by
  refine alike_bind (wellShaped d.2) fun own => ?_
  cases own.criteria with
  | none => exact alike_bind (checkTarget d.1 own.target) fun _ => .ok rfl
  | some criteria =>
    refine (alike_mapM (alike_buildCriterion names others d.1) criteria).bind fun a b hcriteria => .ok ?_
    simp only [Category.unnamed, Category.new, hcriteria]

/-- An unlock is built alike with any two maps. -/
theorem alike_buildUnlock (d : String × Option UnlockDeclaration) :
    Alike Item.unnamed (buildUnlock names d) (buildUnlock others d) :=
  alike_bind (wellShaped d.2) fun _ => .ok rfl

/-- A custom goal is built alike with any two maps, or refused for its target with both. -/
theorem alike_buildCustom (d : CustomDeclaration) :
    Alike Item.unnamed (buildCustom names d) (buildCustom others d) :=
  alike_bind (checkTarget d.name d.target) fun _ => .ok rfl

/-- A staged goal is built alike with any two maps, or refused for its stages with both. -/
theorem alike_buildGoal (d : GoalDeclaration) :
    Alike StagedGoal.unnamed (buildGoal names d) (buildGoal others d) := by
  unfold buildGoal
  split
  · exact .error _
  · exact alike_bind (buildStages d.name 0 d.stages) fun _ => .ok rfl

/-- With any two maps the same declarations are rejected for the same fault, or make the same checklist but for the
names to show. -/
theorem alike_build (d : Declarations) :
    Alike Checklist.unnamed (build names d) (build others d) := by
  unfold build
  refine alike_bind _ fun _ => alike_bind _ fun _ => alike_bind _ fun _ => ?_
  refine (alike_mapM (alike_buildAdvancement names others) d.advancements).bind fun _ _ ha => ?_
  refine (alike_mapM (alike_buildStatistic names others) d.statistics).bind fun _ _ hs => ?_
  refine (alike_mapM (alike_buildUnlock names others) d.unlocks).bind fun _ _ hu => ?_
  refine (alike_buildListed (alike_buildCustom names others) _ _ _ d.custom).bind fun _ _ hc => ?_
  refine (alike_buildListed (alike_buildGoal names others) _ _ _ d.goals).bind fun _ _ hg => .ok ?_
  rw [Checklist.unnamed, Checklist.unnamed, ha, hs, hu, hc, hg]

/-- So texts are read alike: a text that is no template is none with any map. -/
theorem alike_read (text : String) :
    Alike Checklist.unnamed (read text names) (read text others) := by
  unfold read
  split
  · exact alike_build names others _
  · exact .error _

end Builders

/-- A checklist that was read shows the names for the declarations of its text. -/
theorem shows_of_read {text : String} {names : DisplayNames} {c : Checklist}
    (h : read text names = .ok c) :
    ∃ d, Declarations.read? text = some d ∧ Shows names d c := by
  unfold read at h
  split at h
  · rename_i d hd
    exact ⟨d, hd, shows_of_build h⟩
  · cases h

end Template

/-- **The names to show do not affect tracking.** Take the text of a template and two maps of names to show. Either the
text is rejected for the same fault with both, or it makes two checklists which differ at most in the names to show.
There every entry and every criterion shows the name under its path in the map, else the one that it declares, else its
own, and the criterion of a single statistic the name of its group. Then, from any saved state:

* runs of the same ticks, edits and replacements on both give the same reports, and leave the same saved state, counts,
  steps and percentage, and checklists that differ at most in the names to show;
* sessions on any store, which may reject saves, make the same turns: the reports, the states and the surroundings with
  what was saved there are the same after every turn.
-/
theorem names_do_not_affect_tracking (text : String) (names others : DisplayNames) :
    (∃ fault, Template.read text names = .error fault ∧ Template.read text others = .error fault) ∨
    ∃ declared c d, Template.Declarations.read? text = some declared ∧
      Template.read text names = .ok c ∧ Template.read text others = .ok d ∧
      c.unnamed = d.unnamed ∧
      Template.Shows names declared c ∧ Template.Shows others declared d ∧
      (∀ (version : Version) (state : SavedState) (moves : List Move),
        let st := Standing.run version ⟨c, state⟩ moves
        let other := Standing.run version ⟨d, state⟩ moves
        Standing.reports version ⟨c, state⟩ moves = Standing.reports version ⟨d, state⟩ moves ∧
        st.state = other.state ∧ st.checklist.counts = other.checklist.counts ∧
        st.checklist.totalSteps = other.checklist.totalSteps ∧
        st.checklist.completedSteps = other.checklist.completedSteps ∧
        st.checklist.percentage = other.checklist.percentage ∧
        st.checklist.unnamed = other.checklist.unnamed) ∧
      ∀ {σ : Type} (store : Store σ) (settings : Settings) (state : SavedState) (x : σ)
        (turns : List (Turn σ)),
        (Session.ticks store (.start settings state c, x) turns).map Session.turnUnnamed =
          (Session.ticks store (.start settings state d, x) turns).map Session.turnUnnamed := by
  have halike := Template.alike_read names others text
  generalize hc : Template.read text names = first at halike
  generalize hd : Template.read text others = second at halike
  cases halike with
  | error fault => exact .inl ⟨fault, rfl, rfl⟩
  | @ok c d hsame =>
    obtain ⟨declared, hdeclared, hshows⟩ := Template.shows_of_read hc
    obtain ⟨_, hagain, hothers⟩ := Template.shows_of_read hd
    cases hdeclared.symm.trans hagain
    refine .inr ⟨declared, c, d, hdeclared, rfl, rfl, hsame, hshows, hothers,
      fun version state moves => ?_, fun store settings state x turns => ?_⟩
    · have hstart : Standing.SameUnnamed ⟨c, state⟩ ⟨d, state⟩ := ⟨hsame, rfl⟩
      have hend : Standing.SameUnnamed (.run version ⟨c, state⟩ moves) (.run version ⟨d, state⟩ moves) :=
        hstart.run moves
      -- counts, steps and percentage are fields that `unnamed` leaves alone
      exact ⟨hstart.reports_eq moves, hend.state, congrArg (·.counts) hend.checklist,
        congrArg (·.totalSteps) hend.checklist, congrArg (·.completedSteps) hend.checklist,
        congrArg (·.percentage) hend.checklist, hend.checklist⟩
    · have hstart : (Session.start settings state c).unnamed = (Session.start settings state d).unnamed := by
        rw [← Session.start_unnamed, ← Session.start_unnamed, hsame]
      exact Session.ticks_congr_unnamed store hstart x turns

/-- The map names a single statistic, so that its criterion shows that name too, and a criterion of a group; another
criterion shows what it declares. The tick finds one of the three criteria done. -/
theorem names_do_not_affect_tracking_of_statistics :
    let text := "\x7b\"stats\":\x7b\"walk\":\x7b\"display_name\":\"Walk\",\"target\":4\x7d," ++
      "\"go\":\x7b\"criteria\":\x7b\"swim\":null,\"fly\":\x7b\"display_name\":\"Fly\"\x7d\x7d\x7d\x7d\x7d"
    let names : DisplayNames := .ofList [("stat.walk", "A walk"), ("stat.go.criteria.swim", "A swim")]
    let shown (c : Checklist) :=
      c.statistics.map fun group => (group.displayName, group.criteria.map (·.displayName))
    let walked : Json.Value := .object [("walk", .number (.whole 4))]
    let moves : List Move :=
      [.tick ⟨⟨2018, 3, 1, by decide⟩, 0, 0, by decide⟩ ⟨some "A", none, some walked, none⟩]
    let after (c : Checklist) := Standing.run ⟨"1.12.2"⟩ ⟨c, .empty⟩ moves
    ∃ c d, Template.read text ∅ = .ok c ∧ Template.read text names = .ok d ∧
      shown c = [("Walk", ["Walk"]), ("go", ["swim", "Fly"])] ∧
      shown d = [("A walk", ["A walk"]), ("go", ["A swim", "Fly"])] ∧
      (after c).checklist.completedSteps = 1 ∧ (after d).checklist.completedSteps = 1 ∧
      (after c).checklist.unnamed = (after d).checklist.unnamed := by
  intro text names shown walked moves after
  let criterion (name shown : String) : Item := { Item.new name shown with address := some ⟨name⟩ }
  let made (walk swim : String) : Checklist := { Checklist.empty with
    statistics := [.ofStatistic "walk" walk ⟨"walk"⟩ 4 false,
      .new "go" "go" [criterion "swim" swim, criterion "fly" "Fly"]] }
  have hc : Template.read text ∅ = .ok (made "Walk" "swim") := by decide +kernel
  have hd : Template.read text names = .ok (made "A walk" "A swim") := by decide +kernel
  rcases names_do_not_affect_tracking text ∅ names with
    ⟨fault, hfault, -⟩ | ⟨_, c, d, -, hc', hd', -, -, -, hruns, -⟩
  · cases hc.symm.trans hfault
  · cases hc.symm.trans hc'
    cases hd.symm.trans hd'
    obtain ⟨-, -, -, -, -, -, hafter⟩ := hruns ⟨"1.12.2"⟩ .empty moves
    exact ⟨_, _, hc, hd, by decide, by decide, by decide, by decide, hafter⟩

end Milestone
