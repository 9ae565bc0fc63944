import Milestone.Proofs.Template.Faults
import Milestone.Proofs.Template.Names

/-!
# Rejected templates

When a template is rejected and for what. Its declarations are valid if no section repeats a name, no target of a
statistic or custom goal is too low, and every goal has stages of known kinds with all that they need. A template of
the right shape is read exactly if its declarations are valid, and otherwise rejected for the first fault. The
targets of advancements, of their criteria and of stages other than statistics do not matter at all.
-/

namespace Milestone.Template

open Json

/-- The kinds of stages. -/
def stageKinds : List String :=
  ["advancement", "achievement", "stat", "unlock", "criterion", "final", "manual"]

/-- The criteria of an advancement have the right shape. -/
def AdvancementDeclaration.IsShaped (d : AdvancementDeclaration) : Prop :=
  ∀ c ∈ d.criteria, c.2.isSome = true

/-- The criteria of a group of statistics have the right shape. -/
def StatisticDeclaration.IsShaped (d : StatisticDeclaration) : Prop :=
  ∀ criteria, d.criteria = some criteria → ∀ c ∈ criteria, c.2.isSome = true

/-- All entries of the keyed sections have the right shape. -/
structure Declarations.IsShaped (d : Declarations) : Prop where
  advancements : ∀ entry ∈ d.advancements, ∃ a, entry.2 = some a ∧ a.IsShaped
  statistics : ∀ entry ∈ d.statistics, ∃ s, entry.2 = some s ∧ s.IsShaped
  unlocks : ∀ entry ∈ d.unlocks, entry.2.isSome = true

/-- The target of a single statistic, or the targets of the criteria of a group, are at least -1. -/
structure StatisticDeclaration.IsValid (d : StatisticDeclaration) : Prop where
  single : d.criteria = none → -1 ≤ d.target.value
  criteria : ∀ criteria, d.criteria = some criteria → ∀ c ∈ criteria, ∀ criterion, c.2 = some criterion →
    -1 ≤ criterion.target.value

/-- A stage is of a known kind, has the fields that its kind needs, and asks for a count of at least one. -/
structure StageDeclaration.IsValid (d : StageDeclaration) : Prop where
  kind : d.kind ∈ stageKinds
  name : d.kind ∈ ["advancement", "achievement", "stat", "unlock", "criterion"] → d.name.isSome = true
  parent : d.kind = "criterion" → d.parent.isSome = true
  target : d.kind = "stat" → 1 ≤ d.target.value

/-- A staged goal has stages, and all of them are valid. -/
structure GoalDeclaration.IsValid (d : GoalDeclaration) : Prop where
  nonempty : d.stages ≠ []
  stages : ∀ stage ∈ d.stages, stage.IsValid

/-- Nothing is wrong with what the entries of a template declare. -/
structure Declarations.IsValid (d : Declarations) : Prop where
  advancements : (d.advancements.map (·.1)).Nodup
  statistics : (d.statistics.map (·.1)).Nodup
  unlocks : (d.unlocks.map (·.1)).Nodup
  custom : (d.custom.map (·.name)).Nodup
  goals : (d.goals.map (·.name)).Nodup
  statistic : ∀ entry ∈ d.statistics, ∀ s, entry.2 = some s → s.IsValid
  customTarget : ∀ g ∈ d.custom, -1 ≤ g.target.value
  goal : ∀ g ∈ d.goals, g.IsValid

section Faultless

variable {α : Type}

/-- A target is without fault if it is no lower than that of a count without bound. -/
theorem targetFaults_eq_nil_iff (entry : String) (target : Counter) :
    targetFaults entry target = [] ↔ -1 ≤ target.value := by
  unfold targetFaults
  split
  · rename_i hlow
    exact iff_of_false (List.cons_ne_nil _ _) (by omega)
  · exact iff_of_true rfl (by omega)

/-- A listed section is free of faults exactly if its names are different, and new, and each entry is. -/
theorem listedFaults_eq_nil_iff {part : String} {name : α → String} {own : α → List TemplateError}
    (before : List String) (ds : List α) :
    listedFaults part name own before ds = [] ↔
      ((ds.map name).Nodup ∧ ∀ d ∈ ds, name d ∉ before) ∧ ∀ d ∈ ds, own d = [] := by
  induction ds generalizing before with
  | nil => simp [listedFaults]
  | cons d rest ih =>
    rw [listedFaults_cons, List.append_eq_nil_iff, List.append_eq_nil_iff, ih, List.map_cons,
      List.nodup_cons, List.forall_mem_cons, List.forall_mem_cons]
    by_cases hmem : name d ∈ before
    · simp [hmem]
    · rw [if_neg hmem]
      constructor
      · rintro ⟨⟨-, hown⟩, ⟨hnodup, hnew⟩, hrest⟩
        have hfirst : name d ∉ rest.map name := by
          intro hd
          obtain ⟨x, hx, heq⟩ := List.mem_map.mp hd
          exact hnew x hx (List.mem_append_right _ (List.mem_singleton.mpr heq))
        exact ⟨⟨⟨hfirst, hnodup⟩, hmem, fun x hx h => hnew x hx (List.mem_append_left _ h)⟩, hown, hrest⟩
      · rintro ⟨⟨⟨hfirst, hnodup⟩, -, hnew⟩, hown, hrest⟩
        refine ⟨⟨rfl, hown⟩, ⟨hnodup, fun x hx h => ?_⟩, hrest⟩
        rcases List.mem_append.mp h with h | h
        · exact hnew x hx h
        · exact hfirst (List.mem_map.mpr ⟨x, hx, List.mem_singleton.mp h⟩)

/-- The names of a section are without fault if they are different. -/
theorem nameFaults_eq_nil_iff (part : String) (names : List String) :
    nameFaults part names = [] ↔ names.Nodup := by
  rw [nameFaults, listedFaults_eq_nil_iff]
  simp

/-- An entry is without fault if it has its shape and what it declares is without fault. -/
theorem entryFaults_eq_nil_iff (own : α → List TemplateError) (entry : Option α) :
    entryFaults own entry = [] ↔ ∃ d, entry = some d ∧ own d = [] := by
  cases entry with
  | none => simp [entryFaults]
  | some d => simp [entryFaults]

/-- An advancement is without fault if it and its criteria have their shapes. -/
theorem advancementFaults_eq_nil_iff (entry : String × Option AdvancementDeclaration) :
    advancementFaults entry = [] ↔ ∃ a, entry.2 = some a ∧ a.IsShaped := by
  simp only [advancementFaults, entryFaults_eq_nil_iff, List.flatMap_eq_nil_iff, and_true,
    ← Option.isSome_iff_exists]
  rfl

/-- A group of statistics is free of faults exactly if it has the right shape and its targets are valid. -/
theorem statisticFaults_eq_nil_iff (entry : String × Option StatisticDeclaration) :
    statisticFaults entry = [] ↔
      (∃ s, entry.2 = some s ∧ s.IsShaped) ∧ ∀ s, entry.2 = some s → s.IsValid := by
  rw [statisticFaults, entryFaults_eq_nil_iff]
  constructor
  · rintro ⟨s, hs, hfaults⟩
    have hsome (s' : StatisticDeclaration) (hs' : entry.2 = some s') : s' = s :=
      Option.some.inj (hs'.symm.trans hs)
    cases hcriteria : s.criteria with
    | none =>
      rw [hcriteria] at hfaults
      refine ⟨⟨s, hs, fun criteria h => ?_⟩, fun s' hs' => ?_⟩
      · cases hcriteria.symm.trans h
      · obtain rfl := hsome s' hs'
        refine ⟨fun _ => (targetFaults_eq_nil_iff _ _).mp hfaults, fun criteria h => ?_⟩
        cases hcriteria.symm.trans h
    | some criteria =>
      simp only [hcriteria, List.flatMap_eq_nil_iff, entryFaults_eq_nil_iff, targetFaults_eq_nil_iff] at hfaults
      refine ⟨⟨s, hs, fun declared h c hc => ?_⟩, fun s' hs' => ?_⟩
      · cases hcriteria.symm.trans h
        obtain ⟨criterion, hcriterion, -⟩ := hfaults c hc
        exact Option.isSome_iff_exists.mpr ⟨criterion, hcriterion⟩
      · obtain rfl := hsome s' hs'
        refine ⟨fun h => ?_, fun declared h c hc criterion hcriterion => ?_⟩
        · cases hcriteria.symm.trans h
        · cases hcriteria.symm.trans h
          obtain ⟨found, hfound, hlow⟩ := hfaults c hc
          rwa [← Option.some.inj (hcriterion.symm.trans hfound)] at hlow
  · rintro ⟨⟨s, hs, hshaped⟩, hvalid⟩
    refine ⟨s, hs, ?_⟩
    cases hcriteria : s.criteria with
    | none => exact (targetFaults_eq_nil_iff _ _).mpr ((hvalid s hs).single hcriteria)
    | some criteria =>
      simp only [List.flatMap_eq_nil_iff, entryFaults_eq_nil_iff, targetFaults_eq_nil_iff]
      intro c hc
      obtain ⟨criterion, hcriterion⟩ := Option.isSome_iff_exists.mp (hshaped criteria hcriteria c hc)
      exact ⟨criterion, hcriterion, (hvalid s hs).criteria criteria hcriteria c hc criterion hcriterion⟩

/-- A stage has all fields that its kind needs, if the kind is known. -/
theorem exists_fields_iff (d : StageDeclaration) :
    (∃ fields, stageFields.lookup d.kind = some fields ∧ ∀ field ∈ fields, (d.field? field).isSome = true) ↔
      d.kind ∈ stageKinds ∧
        (d.kind ∈ ["advancement", "achievement", "stat", "unlock", "criterion"] → d.name.isSome = true) ∧
        (d.kind = "criterion" → d.parent.isSome = true) := by
  by_cases hkind : d.kind ∈ stageKinds
  · have hcases := hkind
    simp only [stageKinds, List.mem_cons, List.not_mem_nil, or_false] at hcases
    rcases hcases with h | h | h | h | h | h | h <;>
      simp [h, stageFields, stageKinds, StageDeclaration.field?, List.lookup_cons, and_comm]
  · refine iff_of_false ?_ fun h => hkind h.1
    rintro ⟨fields, hfields, -⟩
    simp only [stageKinds, List.mem_cons, List.not_mem_nil, or_false, not_or] at hkind
    simp [stageFields, List.lookup_cons, beq_eq_false_iff_ne.mpr, hkind] at hfields

/-- A stage is without fault exactly if it is valid. -/
theorem stageFaults_eq_nil_iff (goal : String) (index : Nat) (d : StageDeclaration) :
    stageFaults goal index d = [] ↔ d.IsValid := by
  have hfree : stageFaults goal index d = [] ↔
      (∃ fields, stageFields.lookup d.kind = some fields ∧
        ∀ field ∈ fields, (d.field? field).isSome = true) ∧ (d.kind = "stat" → 1 ≤ d.target.value) := by
    cases hfields : stageFields.lookup d.kind with
    | none => simp [stageFaults, hfields]
    | some fields =>
      have hmissing (field : String) :
          (if (d.field? field).isNone then [TemplateError.missingField goal index field] else []) = [] ↔
            (d.field? field).isSome = true := by
        cases d.field? field <;> simp
      have htarget : (if d.kind = "stat" ∧ d.target.value < 1 then
          [TemplateError.invalidTarget (goal ++ ".stages[" ++ toString index ++ "]") d.target]
          else []) = [] ↔ (d.kind = "stat" → 1 ≤ d.target.value) := by
        rw [ite_eq_right_iff]
        constructor
        · intro h hstat
          by_contra hlow
          cases h ⟨hstat, by omega⟩
        · rintro h ⟨hstat, hlow⟩
          have := h hstat
          omega
      rw [stageFaults_of_kind hfields, List.append_eq_nil_iff, List.flatMap_eq_nil_iff, htarget]
      simp only [hmissing, Option.some.injEq, exists_eq_left']
  rw [hfree, exists_fields_iff]
  constructor
  · rintro ⟨⟨hkind, hname, hparent⟩, htarget⟩
    exact ⟨hkind, hname, hparent, htarget⟩
  · rintro ⟨hkind, hname, hparent, htarget⟩
    exact ⟨⟨hkind, hname, hparent⟩, htarget⟩

/-- A staged goal is without fault exactly if it is valid. -/
theorem goalFaults_eq_nil_iff (d : GoalDeclaration) : goalFaults d = [] ↔ d.IsValid := by
  have hstages : (d.stages.mapIdx (stageFaults d.name)).flatten = [] ↔ ∀ stage ∈ d.stages, stage.IsValid := by
    rw [List.flatten_eq_nil_iff]
    constructor
    · intro h stage hstage
      obtain ⟨i, hi, rfl⟩ := List.mem_iff_getElem.mp hstage
      refine (stageFaults_eq_nil_iff d.name i _).mp (h _ (List.mem_mapIdx.mpr ⟨i, hi, rfl⟩))
    · intro h faults hfaults
      obtain ⟨i, hi, rfl⟩ := List.mem_mapIdx.mp hfaults
      exact (stageFaults_eq_nil_iff d.name i _).mpr (h _ (List.getElem_mem hi))
  rw [goalFaults, List.append_eq_nil_iff, hstages]
  constructor
  · rintro ⟨hempty, hvalid⟩
    refine ⟨fun h => ?_, hvalid⟩
    rw [if_pos h] at hempty
    cases hempty
  · rintro ⟨hnonempty, hvalid⟩
    exact ⟨if_neg hnonempty, hvalid⟩

/-- Declarations are free of faults exactly if they have the right shape and are valid. -/
theorem Declarations.faults_eq_nil_iff (d : Declarations) : d.faults = [] ↔ d.IsShaped ∧ d.IsValid := by
  have hunlock (entry : String × Option UnlockDeclaration) :
      unlockFaults entry = [] ↔ entry.2.isSome = true := by
    rw [unlockFaults, entryFaults_eq_nil_iff, Option.isSome_iff_exists]
    simp only [and_true]
  simp only [faults, List.append_eq_nil_iff, nameFaults_eq_nil_iff, List.flatMap_eq_nil_iff,
    listedFaults_eq_nil_iff, advancementFaults_eq_nil_iff, statisticFaults_eq_nil_iff, hunlock,
    targetFaults_eq_nil_iff, goalFaults_eq_nil_iff, List.not_mem_nil, not_false_eq_true, implies_true, and_true]
  constructor
  · rintro ⟨⟨⟨⟨⟨⟨⟨ha, hs⟩, hu⟩, hadvancements⟩, hstatistics⟩, hunlocks⟩, hc, hcustom⟩, hg, hgoals⟩
    exact ⟨⟨hadvancements, fun entry h => (hstatistics entry h).1, hunlocks⟩,
      ⟨ha, hs, hu, hc, hg, fun entry h => (hstatistics entry h).2, hcustom, hgoals⟩⟩
  · rintro ⟨hshaped, hvalid⟩
    exact ⟨⟨⟨⟨⟨⟨⟨hvalid.advancements, hvalid.statistics⟩, hvalid.unlocks⟩, hshaped.advancements⟩,
      fun entry h => ⟨hshaped.statistics entry h, hvalid.statistic entry h⟩⟩, hshaped.unlocks⟩,
      hvalid.custom, hvalid.customTarget⟩, hvalid.goals, hvalid.goal⟩

end Faultless

/-! ## Targets that do not matter -/

section Targets

/-- An advancement whose criteria have no targets. -/
def AdvancementDeclaration.untargeted (d : AdvancementDeclaration) : AdvancementDeclaration :=
  { d with criteria := d.criteria.map fun c => (c.1, c.2.map ({ · with target := 0 })) }

/-- A stage without its target, unless it asks for a statistic. -/
def StageDeclaration.untargeted (d : StageDeclaration) : StageDeclaration :=
  if d.kind = "stat" then d else { d with target := 0 }

/-- A staged goal without the targets of stages that are no statistics. -/
def GoalDeclaration.untargeted (d : GoalDeclaration) : GoalDeclaration :=
  { d with stages := d.stages.map (·.untargeted) }

/-- Declarations without the targets of criteria of advancements and of stages other than statistics. -/
def Declarations.untargeted (d : Declarations) : Declarations :=
  { d with
    advancements := d.advancements.map fun entry => (entry.1, entry.2.map (·.untargeted))
    goals := d.goals.map (·.untargeted) }

variable (names : DisplayNames)

/-- The targets of its criteria do not matter for an advancement. -/
theorem buildAdvancement_untargeted (entry : String × Option AdvancementDeclaration) :
    buildAdvancement names (entry.1, entry.2.map (·.untargeted)) = buildAdvancement names entry := by
  obtain ⟨name, d⟩ := entry
  cases d with
  | none => rfl
  | some d =>
    have hmark (c : String × Option CriterionDeclaration) :
        buildMark names name (c.1, c.2.map ({ · with target := 0 })) = buildMark names name c := by
      obtain ⟨key, criterion⟩ := c
      cases criterion <;> rfl
    have hmarks : d.untargeted.criteria.mapM (buildMark names name) =
        d.criteria.mapM (buildMark names name) := by
      rw [AdvancementDeclaration.untargeted, List.mapM_map]
      exact congrArg (d.criteria.mapM ·) (funext hmark)
    simp only [buildAdvancement, Option.map_some, wellShaped, bind, Except.bind, hmarks]
    rfl

/-- The target of a stage matters only where the stage is a statistic. -/
theorem buildStage_untargeted (goal : String) (index : Nat) (d : StageDeclaration) :
    buildStage goal index d.untargeted = buildStage goal index d := by
  unfold StageDeclaration.untargeted
  split
  · rfl
  · rename_i hstat
    have hrequirement : buildRequirement goal index { d with target := 0 } = buildRequirement goal index d := by
      simp only [buildRequirement, if_neg hstat]
    rw [buildStage, buildStage, hrequirement]

/-- The same for the stages of a goal. -/
theorem buildStages_untargeted (goal : String) (index : Nat) (ds : List StageDeclaration) :
    buildStages goal index (ds.map (·.untargeted)) = buildStages goal index ds := by
  induction ds generalizing index with
  | nil => rfl
  | cons d rest ih => simp only [List.map_cons, buildStages, buildStage_untargeted, ih]

/-- So only the targets of statistics matter for a staged goal. -/
theorem buildGoal_untargeted (d : GoalDeclaration) : buildGoal names d.untargeted = buildGoal names d := by
  simp only [buildGoal, GoalDeclaration.untargeted, List.isEmpty_map, buildStages_untargeted]

/-- A listed section may change in what neither its names nor its entries depend on. -/
theorem buildListed_map {α β : Type} {part : String} {name : α → String}
    {build : α → Except TemplateError β} {f : α → α} (hname : ∀ d, name (f d) = name d)
    (hbuild : ∀ d, build (f d) = build d) (seen : List String) (ds : List α) :
    buildListed part name build seen (ds.map f) = buildListed part name build seen ds := by
  induction ds generalizing seen with
  | nil => rfl
  | cons d rest ih => simp only [List.map_cons, buildListed, hname, hbuild, ih]

/-- Those targets have no part in what is built. -/
theorem build_untargeted (d : Declarations) : build names d.untargeted = build names d := by
  have hadvancements : d.untargeted.advancements.mapM (buildAdvancement names) =
      d.advancements.mapM (buildAdvancement names) := by
    rw [Declarations.untargeted, List.mapM_map]
    exact congrArg (d.advancements.mapM ·) (funext (buildAdvancement_untargeted names))
  have hgoals : buildListed "multi_stage_goals" (·.name) (buildGoal names) [] d.untargeted.goals =
      buildListed "multi_stage_goals" (·.name) (buildGoal names) [] d.goals :=
    buildListed_map (f := (·.untargeted)) (fun _ => rfl) (buildGoal_untargeted names) [] d.goals
  have hkeys : d.untargeted.advancements.map (·.1) = d.advancements.map (·.1) := by
    rw [Declarations.untargeted, List.map_map]
    rfl
  rw [build, build, hadvancements, hgoals, hkeys]
  rfl

/-- A member of an object that is no field of a record is ignored. -/
theorem fields?_filter_ne {names : List String} {field : String} (h : field ∉ names)
    (members : List (String × Value)) :
    fields? names (Value.object (members.filter (·.1 != field))) =
      fields? names (Value.object members) := by
  have hknown : (members.filter (·.1 != field)).filter (fun m => names.contains m.1) =
      members.filter fun m => names.contains m.1 := by
    rw [List.filter_filter]
    refine List.filter_congr fun m _ => ?_
    cases hmem : names.contains m.1 with
    | false => rfl
    | true =>
      have hne : m.1 ≠ field := by
        rintro rfl
        exact h (List.contains_iff_mem.mp hmem)
      rw [Bool.true_and, bne_iff_ne]
      exact hne
  simp only [fields?, layer, hknown]

end Targets

/-- **A template is rejected exactly for its first fault.** Take a text that has the form of a template, and the
declarations in it. It is read exactly if all entries have the right shape and the declarations are valid. It is
rejected for the first fault in this order: names that are repeated among the advancements, the statistics and the
unlocks; then statistics in their order; then custom goals, each for a repeated name before its target; then goals,
each for a repeated name, for having no stages, and for its stages in their order, where a missing field comes before
the target. An entry of the wrong shape is reported in its place. Targets of criteria of advancements and of stages
other than statistics make no difference to what is read, and an advancement or unlock has no target that would be
looked at. -/
theorem read_reports_first_fault {text : String} {d : Declarations} (h : Declarations.read? text = some d)
    (names : DisplayNames) :
    ((∃ c, read text names = .ok c) ↔ d.IsShaped ∧ d.IsValid) ∧
    (∀ e, read text names = .error e ↔ d.faults.head? = some e) ∧
    (∀ other d', Declarations.read? other = some d' → d'.untargeted = d.untargeted →
      read other names = read text names) ∧
    ∀ members : List (String × Value),
      AdvancementDeclaration.read? (.object (members.filter (·.1 != "target"))) =
          AdvancementDeclaration.read? (.object members) ∧
        UnlockDeclaration.read? (.object (members.filter (·.1 != "target"))) =
          UnlockDeclaration.read? (.object members) := by
  have hread {text : String} {d : Declarations} (h : Declarations.read? text = some d) :
      read text names = build names d := by
    rw [read, h]
  have hreports := reports_build names d
  rw [hread h]
  refine ⟨?_, hreports.error_iff, fun other d' hother hsame => ?_, fun members => ⟨?_, ?_⟩⟩
  · rw [hreports.ok_iff, d.faults_eq_nil_iff]
  · rw [hread hother, ← build_untargeted names d', hsame, build_untargeted]
  · rw [AdvancementDeclaration.read?, fields?_filter_ne (by decide)]
    rfl
  · rw [UnlockDeclaration.read?, fields?_filter_ne (by decide)]
    rfl

/-- Of five faults the one of the statistics comes first, whatever the target of a criterion of an advancement is. -/
theorem read_reports_first_fault_of_five :
    let text := "\x7b\"advancements\":\x7b\"story\":\x7b\"criteria\":\x7b\"stone\":\x7b\"target\":-7\x7d\x7d\x7d\x7d," ++
      "\"stats\":\x7b\"go\":\x7b\"target\":-9,\"criteria\":\x7b\"swim\":\x7b\"target\":-1\x7d,\"fly\":" ++
      "\x7b\"target\":-2\x7d\x7d\x7d\x7d," ++
      "\"custom\":[\x7b\"root_name\":\"pet\"\x7d,\x7b\"root_name\":\"pet\",\"target\":-5\x7d]," ++
      "\"multi_stage_goals\":[\x7b\"root_name\":\"end\",\"stages\":[\x7b\"type\":\"stat\"\x7d]\x7d]\x7d"
    let criterion (target : Int) : CriterionDeclaration := ⟨none, false, none, .clamp target⟩
    let d : Declarations :=
      { advancements := [("story", some ⟨none, false, false, [("stone", some (criterion (-7)))]⟩)]
        statistics := [("go", some ⟨none, false, none, .clamp (-9),
          some [("swim", some (criterion (-1))), ("fly", some (criterion (-2)))]⟩)]
        unlocks := []
        custom := [⟨"pet", none, false, 0⟩, ⟨"pet", none, false, .clamp (-5)⟩]
        goals := [⟨"end", none, false, [⟨"stat", none, none, none, 0, none⟩]⟩] }
    Declarations.read? text = some d ∧
      d.faults = [.invalidTarget "go.fly" (.clamp (-2)), .duplicate "custom" "pet",
        .invalidTarget "pet" (.clamp (-5)), .missingField "end" 0 "root_name",
        .invalidTarget "end.stages[0]" 0] ∧
      read text ∅ = .error (.invalidTarget "go.fly" (.clamp (-2))) := by
  intro text criterion d
  have hread : Declarations.read? text = some d := by
    -- the kernel takes the characters of a text much faster from its short pieces
    simp only [Declarations.read?, Tree.read?, text, String.toList_append]
    decide +kernel
  have hfaults : d.faults = [.invalidTarget "go.fly" (.clamp (-2)), .duplicate "custom" "pet",
      .invalidTarget "pet" (.clamp (-5)), .missingField "end" 0 "root_name",
      .invalidTarget "end.stages[0]" 0] := by decide +kernel
  obtain ⟨-, herror, -⟩ := read_reports_first_fault hread ∅
  refine ⟨hread, hfaults, (herror _).mpr ?_⟩
  rw [hfaults, List.head?_cons]

end Milestone.Template
