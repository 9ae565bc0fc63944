import Milestone.Proofs.Json.Parts
import Milestone.Proofs.Template.Names

/-!
# The order of a template text

The entries of a checklist that was read stand in the order of the text. The text is looked at as a tree here, with
repeated keys still in it, so that nothing of the reading is taken for granted: a section may be left out, an entry
may be null or written as an array of its fields, and a block of criteria may repeat a key, which then stands at its
first place with its last value. An entry is built from its own part of the text. What a stage or a criterion is
built from is stated by its declaration and the check that builds it.
-/

namespace Milestone.Template

open Json

/-- The fields of each record of a template, in the order in which an array lists them. -/
def sectionFields : List String := ["advancements", "stats", "unlocks", "custom", "multi_stage_goals"]

/-- The fields of an advancement. -/
def advancementFields : List String := ["display_name", "hidden", "is_recipe", "criteria"]

/-- The fields of a statistic. -/
def statisticFields : List String := ["display_name", "hidden", "root_name", "target", "criteria"]

/-- The fields of a custom goal. -/
def customFields : List String := ["root_name", "display_name", "hidden", "target"]

/-- The fields of a staged goal. -/
def goalFields : List String := ["root_name", "display_name", "hidden", "stages"]

/-- The members of an object, repeated keys included; none where there is no object. -/
def membersOf : Option Tree → List (String × Tree)
  | some (.object members) => members
  | _ => []

/-- The items of an array; none where there is no array. -/
def itemsOf : Option Tree → List Tree
  | some (.array items) => items
  | _ => []

section Parts

variable {β : Type}

/-- What is related through the items of a list in between is related item by item. -/
theorem forall₂_comp {α β γ : Type} {r : α → β → Prop} {s : β → γ → Prop} {q : α → γ → Prop}
    (h : ∀ x y z, r x y → s y z → q x z) {xs : List α} {ys : List β} {zs : List γ}
    (hxy : List.Forall₂ r xs ys) (hyz : List.Forall₂ s ys zs) : List.Forall₂ q xs zs := by
  induction hxy generalizing zs with
  | nil =>
    cases hyz
    exact .nil
  | cons hr _ ih =>
    cases hyz with
    | cons hs hrest => exact .cons (h _ _ _ hr hs) (ih hrest)

/-- Reading the items of a list gives one result for each, in their order. -/
theorem forall₂_of_mapM {α : Type} {f : α → Option β} {xs : List α} {ys : List β}
    (h : xs.mapM f = some ys) : List.Forall₂ (fun x y => f x = some y) xs ys := by
  induction xs generalizing ys with
  | nil =>
    cases h
    exact .nil
  | cons x rest ih =>
    simp only [List.mapM_cons, Option.bind_eq_bind, Option.bind_eq_some_iff, Option.pure_def] at h
    obtain ⟨y, hy, results, hrest, heq⟩ := h
    cases heq
    exact .cons hy (ih hrest)

/-- A keyed section has an entry for each of its members in the text, read from the value of the member. -/
theorem forall₂_of_section {t : Tree} {fields : List (String × Tree)} {name : String} {default : β}
    {read : Value → Option β} {declared : List (String × Option β)}
    (hpart : fields.lookup name = t.part? sectionFields name)
    (h : field? fields name [] (section? default read) = some declared) :
    List.Forall₂
      (fun m d => d.1 = m.1 ∧ ∃ v, m.2.value? entryDepth = some v ∧ d.2 = entry default read v)
      (membersOf (t.part? sectionFields name)) declared := by
  rw [field?, hpart] at h
  cases ht : t.part? sectionFields name with
  | none =>
    rw [ht] at h
    cases h
    exact .nil
  | some part =>
    simp only [ht, section?, Option.map_eq_some_iff, entriesOf?, Option.bind_eq_some_iff] at h
    obtain ⟨values, ⟨members, hmembers, hvalues⟩, rfl⟩ := h
    cases part with
    | object raw =>
      cases hmembers
      rw [membersOf, entries, List.forall₂_map_right_iff]
      refine (forall₂_of_mapM hvalues).imp fun m value hm => ?_
      obtain ⟨v, hv, rfl⟩ := Option.map_eq_some_iff.mp hm
      exact ⟨rfl, v, hv, rfl⟩
    | _ => cases hmembers

/-- A listed part has a declaration for each of its items in the text. -/
theorem forall₂_of_list {t : Tree} {fields : List (String × Tree)} {names : List String} {name : String}
    {read : Tree → Option β} {declared : List β} (hpart : fields.lookup name = t.part? names name)
    (h : field? fields name [] (listOf? read) = some declared) :
    List.Forall₂ (fun x d => read x = some d) (itemsOf (t.part? names name)) declared := by
  rw [field?, hpart] at h
  cases ht : t.part? names name with
  | none =>
    rw [ht] at h
    cases h
    exact .nil
  | some part =>
    simp only [ht, listOf?, Option.bind_eq_some_iff] at h
    obtain ⟨items, hitems, hread⟩ := h
    cases part with
    | array trees =>
      cases hitems
      exact forall₂_of_mapM hread
    | _ => cases hitems

/-- A text that a record must have is a string in the tree. -/
theorem part?_of_required {t : Tree} {names : List String} {fields : List (String × Tree)}
    {name s : String} (hpart : fields.lookup name = t.part? names name)
    (h : required? fields name text? = some s) : t.part? names name = some (.string s) := by
  rw [required?, hpart] at h
  obtain ⟨part, ht, htext⟩ := Option.bind_eq_some_iff.mp h
  rw [ht]
  cases part with
  | string text =>
    cases htext
    rfl
  | _ => cases htext

end Parts

section Criteria

/-- The declarations of a block of criteria: one for each key, at its first place, read from its last value. -/
structure Declares (block : List (String × Tree))
    (declared : List (String × Option CriterionDeclaration)) : Prop where
  names : declared.map (·.1) = (block.map (·.1)).eraseDups
  last : ∀ d ∈ declared, ∃ part room v, block.reverse.lookup d.1 = some part ∧
    part.value? room = some v ∧ d.2 = entry .plain CriterionDeclaration.read? v

/-- The criteria of a category follow a block: one for each key, at its first place, built from its last value. -/
structure FollowsBlock (build : String × Option CriterionDeclaration → Except TemplateError Item)
    (block : List (String × Tree)) (criteria : List Item) : Prop where
  names : criteria.map (·.name) = (block.map (·.1)).eraseDups
  last : ∀ item ∈ criteria, ∃ part room v, block.reverse.lookup item.name = some part ∧
    part.value? room = some v ∧ build (item.name, entry .plain CriterionDeclaration.read? v) = .ok item

/-- The value of a block is declared by the tree of the block. -/
theorem declares_of_criteria? {room : Nat} {part : Tree} {v : Value} (hv : part.value? room = some v)
    {declared : List (String × Option CriterionDeclaration)} (h : criteria? v = some declared) :
    Declares (membersOf (some part)) declared := by
  cases v with
  | object members =>
    cases h
    obtain ⟨raw, rfl, hnames, hlast⟩ := Tree.members_of_value? hv
    have hnodup : (members.map (·.1)).Nodup := Tree.hasDistinctKeys_of_value? hv members rfl
    constructor
    · simp only [entries, List.map_map, Function.comp_def]
      exact hnames
    · intro d hd
      obtain ⟨⟨key, w⟩, hmem, rfl⟩ := List.mem_map.mp hd
      have hlookup : members.lookup key = some w := lookup_of_mem_of_nodup hnodup hmem
      have hrel := hlast key
      rw [hlookup] at hrel
      cases hpart : raw.reverse.lookup key with
      | none => rw [hpart] at hrel; cases hrel
      | some last =>
        rw [hpart] at hrel
        cases hrel with
        | some hvalue => exact ⟨last, _, w, hpart, hvalue, rfl⟩
  | _ => cases h

/-- Criteria that are built of the declarations of a block follow it. -/
theorem Declares.followsBlock {block : List (String × Tree)}
    {declared : List (String × Option CriterionDeclaration)} (hd : Declares block declared)
    {build : String × Option CriterionDeclaration → Except TemplateError Item}
    (hname : ∀ d item, build d = .ok item → item.name = d.1) {criteria : List Item}
    (h : declared.mapM build = .ok criteria) : FollowsBlock build block criteria := by
  have hbuilt := mapM_eq_ok_iff.mp h
  refine ⟨(names_of_build hname hbuilt).trans hd.names, fun item hitem => ?_⟩
  obtain ⟨d, hmem, hbuild⟩ := exists_of_mem_of_forall₂ hbuilt hitem
  obtain ⟨part, room, v, hpart, hv, hread⟩ := hd.last d hmem
  rw [hname d item hbuild]
  exact ⟨part, room, v, hpart, hv, by rw [← hread]; exact hbuild⟩

end Criteria

section Entries

variable (names : DisplayNames)

/-- An advancement has the name of its member and follows the block of criteria in it. -/
structure FollowsAdvancement (m : String × Tree) (a : Category) : Prop where
  name : a.name = m.1
  criteria : FollowsBlock (buildMark names m.1) (membersOf (m.2.part? advancementFields "criteria"))
    a.criteria

/-- A group of statistics has the name of its member. It is a single one exactly if the member has no block of
criteria, or null in its place; then its only criterion is like the group, and else its criteria follow the block. -/
structure FollowsStatistic (m : String × Tree) (group : Category) : Prop where
  name : group.name = m.1
  single_iff : group.single = true ↔ m.2.part? statisticFields "criteria" = none ∨
    m.2.part? statisticFields "criteria" = some .null
  single : group.single = true → ∃ item, group.criteria = [item] ∧ item.name = group.name ∧
    item.displayName = group.displayName ∧ item.hidden = group.hidden
  criteria : group.single = false → FollowsBlock (buildCriterion names m.1)
    (membersOf (m.2.part? statisticFields "criteria")) group.criteria

/-- A goal has the name in its part of the text, and its stages are those declared there, each built with its place,
with at most the final stage behind them. -/
structure FollowsGoal (t : Tree) (goal : StagedGoal) : Prop where
  name : t.part? goalFields "root_name" = some (.string goal.name)
  stages : ∃ declared, (goal.stages = declared ∨ goal.stages = declared ++ [finalStage]) ∧
    ∀ i : Nat, Option.Rel
      (fun part stage => ∃ d, StageDeclaration.read? part = some d ∧
        buildStage goal.name i d = .ok stage)
      (itemsOf (t.part? goalFields "stages"))[i]? declared[i]?

/-- The entries of a checklist follow a text in their order. -/
structure Follows (t : Tree) (c : Checklist) : Prop where
  advancements : List.Forall₂ (FollowsAdvancement names)
    (membersOf (t.part? sectionFields "advancements")) c.advancements
  statistics : List.Forall₂ (FollowsStatistic names)
    (membersOf (t.part? sectionFields "stats")) c.statistics
  unlocks : c.unlocks.map (·.name) = (membersOf (t.part? sectionFields "unlocks")).map (·.1)
  custom : List.Forall₂
    (fun (part : Tree) item => part.part? customFields "root_name" = some (.string item.name))
    (itemsOf (t.part? sectionFields "custom")) c.custom
  goals : List.Forall₂ FollowsGoal (itemsOf (t.part? sectionFields "multi_stage_goals")) c.goals

variable {names}

/-- Only null stands for the value null. -/
theorem eq_null_of_value? {room : Nat} {t : Tree} (h : t.value? room = some .null) : t = .null := by
  cases t with
  | null => rfl
  | array items =>
    rw [Tree.value?] at h
    split at h
    · cases h
    · obtain ⟨_, -, heq⟩ := Option.map_eq_some_iff.mp h
      cases heq
  | object members =>
    rw [Tree.value?] at h
    split at h
    · cases h
    · obtain ⟨_, -, heq⟩ := Option.map_eq_some_iff.mp h
      cases heq
  | _ => simp [Tree.value?] at h

/-- A declaration of the right shape is the one that was read. -/
theorem eq_some_of_wellShaped {β : Type} {d : Option β} {declared : β}
    (h : wellShaped d = .ok declared) : d = some declared := by
  unfold wellShaped at h
  split at h
  · cases h
    rfl
  · cases h

/-- An entry other than null has the shape of its record. -/
theorem read?_of_entry {β : Type} {default : β} {read : Value → Option β} {v : Value} {d : β}
    (h : entry default read v = some d) : v = .null ∧ d = default ∨ read v = some d := by
  unfold entry at h
  split at h
  · exact .inl ⟨rfl, (Option.some.inj h).symm⟩
  · exact .inr h

/-- An empty section declares nothing. -/
theorem declares_nil : Declares [] [] :=
  ⟨rfl, fun _ h => absurd h List.not_mem_nil⟩

/-- An advancement declares the block of criteria in its part of the text. -/
theorem declares_of_advancement {room : Nat} {t : Tree} {v : Value} (hv : t.value? room = some v)
    {d : AdvancementDeclaration} (h : entry .plain AdvancementDeclaration.read? v = some d) :
    Declares (membersOf (t.part? advancementFields "criteria")) d.criteria := by
  rcases read?_of_entry h with ⟨rfl, rfl⟩ | h
  · rw [eq_null_of_value? hv]
    exact declares_nil
  · simp only [AdvancementDeclaration.read?, Option.bind_eq_bind, Option.bind_eq_some_iff,
      Option.pure_def] at h
    obtain ⟨fields, hfields, _, -, _, -, _, -, criteria, hcriteria, heq⟩ := h
    cases heq
    have hrel : Option.Rel _ (t.part? advancementFields "criteria") (fields.lookup "criteria") :=
      Tree.lookup_fields?_value hv hfields (by decide)
    rw [field?] at hcriteria
    generalize t.part? advancementFields "criteria" = part at hrel ⊢
    generalize fields.lookup "criteria" = w at hrel hcriteria
    cases hrel with
    | none =>
      cases hcriteria
      exact declares_nil
    | some hw => exact declares_of_criteria? hw hcriteria

/-- A group of statistics declares the block of criteria in its part of the text, and no criteria without one. -/
theorem declares_of_statistic {room : Nat} {t : Tree} {v : Value} (hv : t.value? room = some v)
    {d : StatisticDeclaration} (h : entry .plain StatisticDeclaration.read? v = some d) :
    (d.criteria = none ↔ t.part? statisticFields "criteria" = none ∨
      t.part? statisticFields "criteria" = some .null) ∧
    ∀ criteria, d.criteria = some criteria →
      Declares (membersOf (t.part? statisticFields "criteria")) criteria := by
  rcases read?_of_entry h with ⟨rfl, rfl⟩ | h
  · rw [eq_null_of_value? hv]
    exact ⟨iff_of_true rfl (.inl rfl), fun _ hnone => by cases hnone⟩
  · simp only [StatisticDeclaration.read?, Option.bind_eq_bind, Option.bind_eq_some_iff,
      Option.pure_def] at h
    obtain ⟨fields, hfields, _, -, _, -, _, -, _, -, criteria, hcriteria, heq⟩ := h
    cases heq
    have hrel : Option.Rel _ (t.part? statisticFields "criteria") (fields.lookup "criteria") :=
      Tree.lookup_fields?_value hv hfields (by decide)
    rw [field?] at hcriteria
    generalize t.part? statisticFields "criteria" = part at hrel ⊢
    generalize fields.lookup "criteria" = w at hrel hcriteria
    cases hrel with
    | none =>
      cases hcriteria
      exact ⟨iff_of_true rfl (.inl rfl), fun _ hnone => by cases hnone⟩
    | @some part w hw =>
      cases w with
      | null =>
        cases hcriteria
        rw [eq_null_of_value? hw]
        exact ⟨iff_of_true rfl (.inr rfl), fun _ hnone => by cases hnone⟩
      | object members =>
        cases hcriteria
        refine ⟨iff_of_false (by simp) ?_, fun declared hdeclared => ?_⟩
        · rintro (hnone | hnull)
          · cases hnone
          · cases hnull
            simp [Tree.value?] at hw
        · cases hdeclared
          exact declares_of_criteria? hw rfl
      | _ => cases hcriteria

/-- What an entry declares comes from the value of its member. -/
theorem followsAdvancement_of_build {m : String × Tree} {room : Nat} {v : Value}
    (hv : m.2.value? room = some v) {a : Category}
    (h : buildAdvancement names (m.1, entry .plain AdvancementDeclaration.read? v) = .ok a) :
    FollowsAdvancement names m a := by
  simp only [buildAdvancement, bind_eq_ok_iff, pure_eq_ok_iff] at h
  obtain ⟨d, hshape, criteria, hbuilt, rfl⟩ := h
  have hdeclares := declares_of_advancement hv (eq_some_of_wellShaped hshape)
  exact ⟨rfl, hdeclares.followsBlock (fun _ _ => name_of_buildMark) hbuilt⟩

/-- A built group of statistics follows its member. -/
theorem followsStatistic_of_build {m : String × Tree} {room : Nat} {v : Value}
    (hv : m.2.value? room = some v) {group : Category}
    (h : buildStatistic names (m.1, entry .plain StatisticDeclaration.read? v) = .ok group) :
    FollowsStatistic names m group := by
  simp only [buildStatistic, bind_eq_ok_iff] at h
  obtain ⟨d, hshape, h⟩ := h
  obtain ⟨hnone, hdeclares⟩ := declares_of_statistic hv (eq_some_of_wellShaped hshape)
  cases hcriteria : d.criteria with
  | none =>
    simp only [hcriteria, bind_eq_ok_iff, pure_eq_ok_iff] at h
    obtain ⟨target, -, rfl⟩ := h
    exact ⟨rfl, iff_of_true rfl (hnone.mp hcriteria), fun _ => ⟨_, rfl, rfl, rfl, rfl⟩,
      fun hsingle => by cases hsingle⟩
  | some declared =>
    simp only [hcriteria, bind_eq_ok_iff, pure_eq_ok_iff] at h
    obtain ⟨criteria, hbuilt, rfl⟩ := h
    refine ⟨rfl, iff_of_false (by simp [Category.new]) fun hblock => ?_, fun hsingle => ?_,
      fun _ => ?_⟩
    · rw [hnone.mpr hblock] at hcriteria
      cases hcriteria
    · cases hsingle
    · exact (hdeclares declared hcriteria).followsBlock (fun _ _ => name_of_buildCriterion) hbuilt

/-- The stages of a goal are built with their places. -/
theorem rel_of_buildStages {goal : String} {index : Nat} {declared : List StageDeclaration}
    {stages : List Stage} (h : buildStages goal index declared = .ok stages) (i : Nat) :
    Option.Rel (fun d stage => buildStage goal (index + i) d = .ok stage) declared[i]? stages[i]? := by
  induction declared generalizing index stages i with
  | nil =>
    cases h
    exact .none
  | cons d rest ih =>
    simp only [buildStages, bind_eq_ok_iff, pure_eq_ok_iff] at h
    obtain ⟨stage, hstage, later, hlater, rfl⟩ := h
    cases i with
    | zero => exact .some hstage
    | succ i =>
      rw [Nat.add_comm i 1, ← Nat.add_assoc, Nat.add_comm 1 i]
      exact ih hlater i

/-- A built staged goal follows its tree. -/
theorem followsGoal_of_build {t : Tree} {d : GoalDeclaration} (hread : GoalDeclaration.read? t = some d)
    {goal : StagedGoal} (h : buildGoal names d = .ok goal) : FollowsGoal t goal := by
  simp only [GoalDeclaration.read?, Option.bind_eq_bind, Option.bind_eq_some_iff,
    Option.pure_def] at hread
  obtain ⟨fields, hfields, name, hname, _, -, _, -, declared, hdeclared, heq⟩ := hread
  cases heq
  have hpart {field : String} (hfield : field ∈ goalFields) :
      fields.lookup field = t.part? goalFields field := lookup_fields?_tree hfields hfield
  unfold buildGoal at h
  split at h
  · cases h
  · simp only [bind_eq_ok_iff, pure_eq_ok_iff] at h
    obtain ⟨stages, hbuilt, rfl⟩ := h
    refine ⟨part?_of_required (hpart (by decide)) hname, stages, ?_, fun i => ?_⟩
    · unfold closeStages
      split
      · exact .inl rfl
      · exact .inr rfl
    · have hparts := getElem?_of_forall₂ (forall₂_of_list (hpart (by decide)) hdeclared) i
      have hstages := rel_of_buildStages hbuilt i
      rw [Nat.zero_add] at hstages
      generalize (itemsOf (t.part? goalFields "stages"))[i]? = part at hparts ⊢
      generalize declared[i]? = d at hparts hstages
      cases hparts with
      | none =>
        generalize stages[i]? = stage at hstages ⊢
        cases hstages
        exact .none
      | some hd =>
        generalize stages[i]? = stage at hstages ⊢
        cases hstages with
        | some hstage => exact .some ⟨_, hd, hstage⟩

/-- A custom goal has the name in its part of the text. -/
theorem name_of_custom {t : Tree} {d : CustomDeclaration} (hread : CustomDeclaration.read? t = some d)
    {item : Item} (h : buildCustom names d = .ok item) :
    t.part? customFields "root_name" = some (.string item.name) := by
  simp only [CustomDeclaration.read?, Option.bind_eq_bind, Option.bind_eq_some_iff,
    Option.pure_def] at hread
  obtain ⟨fields, hfields, name, hname, _, -, _, -, _, -, heq⟩ := hread
  cases heq
  rw [name_of_buildCustom h]
  exact part?_of_required (lookup_fields?_tree hfields (by decide)) hname

/-- **A checklist that was read follows its text.** -/
theorem follows_of_read {text : String} {names : DisplayNames} {c : Checklist}
    (h : read text names = .ok c) : ∃ t, Tree.read? text = some t ∧ Follows names t c := by
  unfold read at h
  split at h
  · rename_i d hd
    obtain ⟨t, ht, hsections⟩ := Option.bind_eq_some_iff.mp hd
    simp only [Declarations.ofTree?, Option.bind_eq_bind, Option.bind_eq_some_iff,
      Option.pure_def] at hsections
    obtain ⟨fields, hfields, advancements, ha, statistics, hs, unlocks, hu, custom, hc, goals, hg,
      heq⟩ := hsections
    cases heq
    simp only [build, bind_eq_ok_iff, pure_eq_ok_iff, mapM_eq_ok_iff] at h
    obtain ⟨-, -, -, -, -, -, builtA, hbuiltA, builtS, hbuiltS, builtU, hbuiltU, builtC, hbuiltC,
      builtG, hbuiltG, rfl⟩ := h
    have hpart {field : String} (hfield : field ∈ sectionFields) :
        fields.lookup field = t.part? sectionFields field := lookup_fields?_tree hfields hfield
    refine ⟨t, ht, ?_, ?_, ?_, ?_, ?_⟩
    · refine forall₂_comp ?_ (forall₂_of_section (hpart (by decide)) ha) hbuiltA
      rintro m ⟨key, d⟩ a ⟨rfl, v, hv, rfl⟩ hbuild
      exact followsAdvancement_of_build hv hbuild
    · refine forall₂_comp ?_ (forall₂_of_section (hpart (by decide)) hs) hbuiltS
      rintro m ⟨key, d⟩ group ⟨rfl, v, hv, rfl⟩ hbuild
      exact followsStatistic_of_build hv hbuild
    · rw [← List.forall₂_eq_eq_eq, List.forall₂_map_left_iff, List.forall₂_map_right_iff]
      refine (forall₂_comp ?_ (forall₂_of_section (hpart (by decide)) hu) hbuiltU).flip
      rintro m d item ⟨hname, -⟩ hbuild
      exact (name_of_buildUnlock hbuild).trans hname
    · refine forall₂_comp ?_ (forall₂_of_list (hpart (by decide)) hc) (forall₂_of_buildListed hbuiltC)
      exact fun _ _ _ hread hbuild => name_of_custom hread hbuild
    · refine forall₂_comp ?_ (forall₂_of_list (hpart (by decide)) hg) (forall₂_of_buildListed hbuiltG)
      exact fun _ _ _ hread hbuild => followsGoal_of_build hread hbuild
  · cases h

end Entries

end Milestone.Template
