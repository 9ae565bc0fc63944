import Milestone.Proofs.Template.Checks

/-!
# Faults of declarations

What can be wrong with the declarations of a template, written as a list in the order in which it stands there:
names that stood in their section before, entries of the wrong shape, targets that are too low, goals without
stages, stages of an unknown kind or without a field that their kind needs. Main fact: building the checklist
reports the first fault of this list, and succeeds exactly if there is none.
-/

namespace Milestone.Template

/-! ## Chains that report the first fault -/

section Reports

variable {α β : Type}

/-- A check reports the first of some faults, and succeeds if there is none. -/
def Reports (x : Except TemplateError α) (faults : List TemplateError) : Prop :=
  match x with
  | .error e => faults.head? = some e
  | .ok _ => faults = []

/-- A check fails exactly with the first of the faults that it reports. -/
theorem Reports.error_iff {x : Except TemplateError α} {faults : List TemplateError} (h : Reports x faults)
    (e : TemplateError) : x = .error e ↔ faults.head? = some e := by
  cases x with
  | error e' =>
    have hfirst : faults.head? = some e' := h
    rw [hfirst, Except.error.injEq, Option.some.injEq]
  | ok a =>
    have hnone : faults = [] := h
    simp [hnone]

/-- A check succeeds exactly if it has no faults to report. -/
theorem Reports.ok_iff {x : Except TemplateError α} {faults : List TemplateError} (h : Reports x faults) :
    (∃ a, x = .ok a) ↔ faults = [] := by
  cases x with
  | error e =>
    have hfirst : faults.head? = some e := h
    refine iff_of_false nofun ?_
    rintro rfl
    cases hfirst
  | ok a => exact iff_of_true ⟨a, rfl⟩ h

/-- What always succeeds reports nothing. -/
theorem reports_pure (a : α) : Reports (pure a) [] := rfl

/-- What always fails reports its error, whatever would come later. -/
theorem reports_throw (e : TemplateError) (faults : List TemplateError) :
    Reports (throw e : Except TemplateError α) (e :: faults) := rfl

/-- A chain of two checks reports the faults of the first one before those of the second. -/
theorem Reports.bind {x : Except TemplateError α} {f : α → Except TemplateError β}
    {faults later : List TemplateError} (hx : Reports x faults) (hf : ∀ a, Reports (f a) later) :
    Reports (x >>= f) (faults ++ later) := by
  cases x with
  | error e =>
    have hfirst : faults.head? = some e := hx
    change (faults ++ later).head? = some e
    rw [List.head?_append, hfirst, Option.some_or]
  | ok a =>
    have hnone : faults = [] := hx
    rw [hnone]
    exact hf a

/-- What is made of a result adds no fault. -/
theorem Reports.map {x : Except TemplateError α} {faults : List TemplateError} (hx : Reports x faults)
    (f : α → β) : Reports (x >>= fun a => pure (f a)) faults := by
  have h := hx.bind fun a => reports_pure (f a)
  rwa [List.append_nil] at h

/-- A check of every entry reports the faults of all entries in their order. -/
theorem reports_mapM {f : α → Except TemplateError β} {faults : α → List TemplateError}
    (h : ∀ x, Reports (f x) (faults x)) (xs : List α) : Reports (xs.mapM f) (xs.flatMap faults) := by
  induction xs with
  | nil => exact reports_pure _
  | cons x rest ih =>
    rw [List.mapM_cons, List.flatMap_cons]
    exact (h x).bind fun y => ih.map _

end Reports

/-! ## The faults -/

section Faults

variable {α : Type}

/-- The fault of a target below that of a count without bound. -/
def targetFaults (entry : String) (target : Counter) : List TemplateError :=
  if target.value < -1 then [.invalidTarget entry target] else []

/-- The faults of entries in their order: the name of an entry if it is one of those that stood before, and then
the faults of the entry itself. -/
def listedFaults (part : String) (name : α → String) (own : α → List TemplateError) (before : List String)
    (ds : List α) : List TemplateError :=
  (ds.mapIdx fun i d =>
    (if name d ∈ before ++ (ds.take i).map name then [.duplicate part (name d)] else []) ++ own d).flatten

/-- The repeated names of a keyed section. -/
def nameFaults (part : String) (names : List String) : List TemplateError :=
  listedFaults part id (fun _ => []) [] names

/-- The faults of an entry: its shape, or those of what it declares. -/
def entryFaults (own : α → List TemplateError) : Option α → List TemplateError
  | none => [.malformed]
  | some d => own d

/-- The faults of an advancement: its shape, and the shapes of its criteria. -/
def advancementFaults (entry : String × Option AdvancementDeclaration) : List TemplateError :=
  entryFaults (fun d => d.criteria.flatMap fun c => entryFaults (fun _ => []) c.2) entry.2

/-- The faults of a single statistic or of the criteria of a group; the target of a group does not matter. -/
def statisticFaults (entry : String × Option StatisticDeclaration) : List TemplateError :=
  entryFaults (fun d =>
    match d.criteria with
    | none => targetFaults entry.1 d.target
    | some criteria => criteria.flatMap fun c =>
      entryFaults (fun criterion => targetFaults (entry.1 ++ "." ++ c.1) criterion.target) c.2) entry.2

/-- The only fault of an unlock is its shape. -/
def unlockFaults (entry : String × Option UnlockDeclaration) : List TemplateError :=
  entryFaults (fun _ => []) entry.2

/-- The kinds of stages, each with the fields that it needs. -/
def stageFields : List (String × List String) :=
  [("advancement", ["root_name"]), ("achievement", ["root_name"]), ("stat", ["root_name"]),
    ("unlock", ["root_name"]), ("criterion", ["parent_advancement", "root_name"]), ("final", []),
    ("manual", [])]

/-- What a stage declares in one of these fields. -/
def StageDeclaration.field? (d : StageDeclaration) (field : String) : Option String :=
  if field = "parent_advancement" then d.parent else d.name

/-- The faults of a stage: its kind, or the needed fields that are missing and then the target of a statistic. -/
def stageFaults (goal : String) (index : Nat) (d : StageDeclaration) : List TemplateError :=
  match stageFields.lookup d.kind with
  | none => [.unknownStage goal d.kind]
  | some fields =>
    (fields.flatMap fun field =>
      if (d.field? field).isNone then [.missingField goal index field] else []) ++
    if d.kind = "stat" ∧ d.target.value < 1 then
      [.invalidTarget (goal ++ ".stages[" ++ toString index ++ "]") d.target]
    else []

/-- The faults of a staged goal: that it has no stages, or those of its stages. -/
def goalFaults (d : GoalDeclaration) : List TemplateError :=
  (if d.stages = [] then [.noStages d.name] else []) ++ (d.stages.mapIdx (stageFaults d.name)).flatten

/-- All faults of declarations in order: the repeated names of the keyed sections, and then each section from its
first entry to its last. -/
def Declarations.faults (d : Declarations) : List TemplateError :=
  nameFaults "advancements" (d.advancements.map (·.1)) ++
  nameFaults "stats" (d.statistics.map (·.1)) ++
  nameFaults "unlocks" (d.unlocks.map (·.1)) ++
  d.advancements.flatMap advancementFaults ++
  d.statistics.flatMap statisticFaults ++
  d.unlocks.flatMap unlockFaults ++
  listedFaults "custom" (·.name) (fun c => targetFaults c.name c.target) [] d.custom ++
  listedFaults "multi_stage_goals" (·.name) goalFaults [] d.goals

end Faults

/-! ## Building reports them -/

section Build

variable {α β : Type}

/-- The faults of a section are those of its first entry, and then those of the rest after its name. -/
theorem listedFaults_cons (part : String) (name : α → String) (own : α → List TemplateError)
    (before : List String) (d : α) (rest : List α) :
    listedFaults part name own before (d :: rest) =
      (if name d ∈ before then [.duplicate part (name d)] else []) ++ own d ++
        listedFaults part name own (before ++ [name d]) rest := by
  simp [listedFaults, List.mapIdx_cons]

/-- The names that stood before may be kept in any order. -/
theorem mem_cons_iff_of_mem_iff {seen before : List String} (h : ∀ n, n ∈ seen ↔ n ∈ before)
    (name n : String) : n ∈ name :: seen ↔ n ∈ before ++ [name] := by
  rw [List.mem_cons, List.mem_append, List.mem_singleton, h, or_comm]

/-- A section is checked for the names that stood before. -/
theorem reports_buildListed {part : String} {name : α → String} {build : α → Except TemplateError β}
    {own : α → List TemplateError} (hbuild : ∀ d, Reports (build d) (own d)) (ds : List α)
    {seen before : List String} (hseen : ∀ n, n ∈ seen ↔ n ∈ before) :
    Reports (buildListed part name build seen ds) (listedFaults part name own before ds) := by
  induction ds generalizing seen before with
  | nil => exact reports_pure _
  | cons d rest ih =>
    rw [listedFaults_cons]
    unfold buildListed
    by_cases hmem : name d ∈ seen
    · rw [if_pos hmem, if_pos ((hseen _).mp hmem)]
      exact reports_throw _ _
    · rw [if_neg hmem, if_neg (mt (hseen _).mpr hmem), List.nil_append]
      exact (hbuild d).bind fun _ => (ih (mem_cons_iff_of_mem_iff hseen (name d))).map _

/-- The names of a keyed section are checked as those of a listed one with nothing else to check. -/
theorem reports_checkUnique (part : String) (names : List String) :
    Reports (checkUnique part names) (nameFaults part names) := by
  have hgo (rest : List String) {seen before : List String} (hseen : ∀ n, n ∈ seen ↔ n ∈ before) :
      (listedFaults part id (fun _ => []) before rest).head? =
        (firstRepeated?.go seen rest).map (.duplicate part) := by
    induction rest generalizing seen before with
    | nil => rfl
    | cons name rest ih =>
      rw [listedFaults_cons, firstRepeated?.go]
      by_cases hmem : name ∈ seen
      · rw [if_pos hmem, id, if_pos ((hseen _).mp hmem)]
        rfl
      · rw [if_neg hmem, id, if_neg (mt (hseen _).mpr hmem)]
        exact ih (mem_cons_iff_of_mem_iff hseen name)
  have hfirst : (nameFaults part names).head? = (firstRepeated? names).map (.duplicate part) :=
    hgo names fun _ => Iff.rfl
  unfold checkUnique
  cases hrepeated : firstRepeated? names with
  | none =>
    rw [hrepeated] at hfirst
    exact List.head?_eq_none_iff.mp hfirst
  | some name =>
    rw [hrepeated] at hfirst
    exact hfirst

/-- The check of a target reports its fault. -/
theorem reports_checkTarget (entry : String) (target : Counter) :
    Reports (checkTarget entry target) (targetFaults entry target) := by
  unfold checkTarget targetFaults
  split
  · exact reports_throw _ _
  · exact reports_pure _

/-- An entry of the wrong shape is reported as such, any other one with its own faults. -/
theorem reports_wellShaped {f : α → Except TemplateError β} {own : α → List TemplateError}
    (hf : ∀ d, Reports (f d) (own d)) (d : Option α) :
    Reports (wellShaped d >>= f) (entryFaults own d) := by
  cases d with
  | none => exact reports_throw _ _
  | some d => exact hf d

end Build

section Builders

variable (names : DisplayNames)

/-- Building an advancement reports its faults. -/
theorem reports_buildAdvancement (entry : String × Option AdvancementDeclaration) :
    Reports (buildAdvancement names entry) (advancementFaults entry) := by
  refine reports_wellShaped (fun d => ?_) entry.2
  refine (reports_mapM (fun c => ?_) d.criteria).map _
  exact reports_wellShaped (fun _ => reports_pure _) c.2

/-- Building a statistic, single or not, reports its faults. -/
theorem reports_buildStatistic (entry : String × Option StatisticDeclaration) :
    Reports (buildStatistic names entry) (statisticFaults entry) := by
  refine reports_wellShaped (fun d => ?_) entry.2
  cases hcriteria : d.criteria with
  | none => exact (reports_checkTarget entry.1 d.target).map _
  | some criteria =>
    refine (reports_mapM (fun c => ?_) criteria).map _
    exact reports_wellShaped (fun criterion => (reports_checkTarget _ criterion.target).map _) c.2

/-- Building an unlock reports its faults. -/
theorem reports_buildUnlock (entry : String × Option UnlockDeclaration) :
    Reports (buildUnlock names entry) (unlockFaults entry) :=
  reports_wellShaped (fun _ => reports_pure _) entry.2

/-- Building a custom goal reports the fault of its target. -/
theorem reports_buildCustom (d : CustomDeclaration) :
    Reports (buildCustom names d) (targetFaults d.name d.target) :=
  (reports_checkTarget d.name d.target).map _

/-- A needed field is missing or stands for its text. -/
theorem reports_stageField (goal : String) (index : Nat) (field : String) (text : Option String) :
    Reports (stageField goal index field text)
      (if text.isNone then [.missingField goal index field] else []) := by
  cases text with
  | none => exact reports_throw _ _
  | some text => exact reports_pure _

/-- The faults of a stage whose kind is known. -/
theorem stageFaults_of_kind {d : StageDeclaration} {fields : List String}
    (h : stageFields.lookup d.kind = some fields) (goal : String) (index : Nat) :
    stageFaults goal index d =
      (fields.flatMap fun field =>
        if (d.field? field).isNone then [.missingField goal index field] else []) ++
      if d.kind = "stat" ∧ d.target.value < 1 then
        [.invalidTarget (goal ++ ".stages[" ++ toString index ++ "]") d.target]
      else [] := by
  rw [stageFaults, h]

/-- A stage that needs its name alone, and no target. -/
theorem reports_named {d : StageDeclaration} (hfields : stageFields.lookup d.kind = some ["root_name"])
    (hkind : d.kind ≠ "stat") (goal : String) (index : Nat) (requirement : String → Requirement) :
    Reports (do return requirement (← stageField goal index "root_name" d.name))
      (stageFaults goal index d) := by
  rw [stageFaults_of_kind hfields, if_neg fun h => hkind h.1, List.flatMap_singleton, List.append_nil]
  exact (reports_stageField goal index "root_name" d.name).map requirement

/-- Building what a stage requires reports the faults of the stage. -/
theorem reports_buildRequirement (goal : String) (index : Nat) (d : StageDeclaration) :
    Reports (buildRequirement goal index d) (stageFaults goal index d) := by
  have hname := reports_stageField goal index "root_name" d.name
  have hparent := reports_stageField goal index "parent_advancement" d.parent
  unfold buildRequirement
  by_cases hadvancement : d.kind = "advancement" ∨ d.kind = "achievement"
  · rw [if_pos hadvancement]
    have hfields : stageFields.lookup d.kind = some ["root_name"] := by
      rcases hadvancement with h | h <;> rw [h] <;> rfl
    have hkind : d.kind ≠ "stat" := by rcases hadvancement with h | h <;> rw [h] <;> decide
    exact reports_named hfields hkind goal index .advancement
  rw [if_neg hadvancement]
  by_cases hstat : d.kind = "stat"
  · rw [if_pos hstat, stageFaults_of_kind (by rw [hstat]; rfl), List.flatMap_singleton]
    refine hname.bind fun address => ?_
    by_cases hlow : d.target < 1
    · rw [if_pos hlow, if_pos ⟨hstat, hlow⟩]
      exact reports_throw _ _
    · rw [if_neg hlow, if_neg fun h => hlow h.2]
      exact reports_pure _
  rw [if_neg hstat]
  by_cases hunlock : d.kind = "unlock"
  · rw [if_pos hunlock]
    exact reports_named (by rw [hunlock]; rfl) hstat goal index .unlock
  rw [if_neg hunlock]
  by_cases hcriterion : d.kind = "criterion"
  · rw [if_pos hcriterion, stageFaults_of_kind (by rw [hcriterion]; rfl), if_neg fun h => hstat h.1,
      List.flatMap_cons, List.flatMap_singleton, List.append_nil]
    exact hparent.bind fun parent => hname.map _
  rw [if_neg hcriterion]
  by_cases hmanual : d.kind = "final" ∨ d.kind = "manual"
  · have hfields : stageFields.lookup d.kind = some [] := by
      rcases hmanual with h | h <;> rw [h] <;> rfl
    rw [if_pos hmanual, stageFaults_of_kind hfields, if_neg fun h => hstat h.1]
    exact reports_pure _
  · have hunknown : stageFields.lookup d.kind = none := by
      rw [not_or] at hadvancement hmanual
      simp [stageFields, List.lookup_cons, beq_eq_false_iff_ne.mpr, *]
    rw [if_neg hmanual, stageFaults, hunknown]
    exact reports_throw _ _

/-- So does building the stage. -/
theorem reports_buildStage (goal : String) (index : Nat) (d : StageDeclaration) :
    Reports (buildStage goal index d) (stageFaults goal index d) :=
  (reports_buildRequirement goal index d).map _

/-- The stages of a goal report the faults of each with its place. -/
theorem reports_buildStages (goal : String) (ds : List StageDeclaration) (index : Nat) :
    Reports (buildStages goal index ds)
      (ds.mapIdx fun i d => stageFaults goal (index + i) d).flatten := by
  induction ds generalizing index with
  | nil => exact reports_pure _
  | cons d rest ih =>
    have hlater := ih (index + 1)
    simp only [Nat.add_assoc, Nat.add_comm 1] at hlater
    rw [List.mapIdx_cons, List.flatten_cons]
    exact (reports_buildStage goal index d).bind fun stage => hlater.map _

/-- Building a staged goal reports its faults, stage by stage. -/
theorem reports_buildGoal (d : GoalDeclaration) : Reports (buildGoal names d) (goalFaults d) := by
  have hstages := reports_buildStages d.name d.stages 0
  simp only [Nat.zero_add] at hstages
  unfold buildGoal goalFaults
  by_cases hempty : d.stages = []
  · rw [if_pos hempty, hempty]
    exact reports_throw _ _
  · rw [if_neg hempty, if_neg (by simpa using hempty)]
    exact hstages.map _

/-- **Building a checklist reports the first fault of its declarations.** -/
theorem reports_build (d : Declarations) : Reports (build names d) d.faults := by
  unfold build Declarations.faults
  simp only [List.append_assoc]
  -- the checks stand in the order of the faults: three for names, then one for each section
  refine (reports_checkUnique _ _).bind fun _ => ?_
  refine (reports_checkUnique _ _).bind fun _ => ?_
  refine (reports_checkUnique _ _).bind fun _ => ?_
  refine (reports_mapM (reports_buildAdvancement names) _).bind fun _ => ?_
  refine (reports_mapM (reports_buildStatistic names) _).bind fun _ => ?_
  refine (reports_mapM (reports_buildUnlock names) _).bind fun _ => ?_
  refine (reports_buildListed (reports_buildCustom names) _ fun _ => Iff.rfl).bind fun _ => ?_
  exact (reports_buildListed (reports_buildGoal names) _ fun _ => Iff.rfl).map _

end Builders

end Milestone.Template
