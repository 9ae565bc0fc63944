import Mathlib.Data.List.Nodup
import Milestone.Proofs.Json.Lookup
import Milestone.Proofs.Template.Checks

/-!
# Names of a new checklist

The names of a keyed section are checked before its entries are built. So the advancements of a checklist
that was read have different names, and a name finds the one advancement that bears it. The same holds of the
groups of statistics. The names of the criteria of a group are not checked, since they are the keys of an object,
which has every key once.
-/

namespace Milestone.Template

/-- A list has no repeated name exactly if its names are different. -/
theorem firstRepeated?_eq_none_iff {names : List String} :
    firstRepeated? names = none ↔ names.Nodup := by
  have hgo (seen names : List String) :
      firstRepeated?.go seen names = none ↔ names.Nodup ∧ ∀ name ∈ names, name ∉ seen := by
    induction names generalizing seen with
    | nil => simp [firstRepeated?.go]
    | cons name rest ih =>
      rw [firstRepeated?.go]
      split
      · rename_i hseen
        simp [hseen]
      · rename_i hseen
        rw [ih, List.nodup_cons, List.forall_mem_cons]
        constructor
        · rintro ⟨hrest, hnot⟩
          have hname : name ∉ rest := fun hmem => hnot name hmem List.mem_cons_self
          exact ⟨⟨hname, hrest⟩, hseen, fun n hn h => hnot n hn (List.mem_cons_of_mem _ h)⟩
        · rintro ⟨⟨hname, hrest⟩, -, hnot⟩
          refine ⟨hrest, fun n hn h => ?_⟩
          rcases List.mem_cons.mp h with rfl | h
          · exact hname hn
          · exact hnot n hn h
  rw [firstRepeated?, hgo]
  simp

/-- Names that pass the check are different. -/
theorem nodup_of_checkUnique {part : String} {names : List String}
    (h : checkUnique part names = .ok ()) : names.Nodup := by
  unfold checkUnique at h
  split at h
  · cases h
  · rename_i hnone
    exact firstRepeated?_eq_none_iff.mp hnone

/-- Where all names are different, a name finds the one entry that bears it. -/
theorem find?_of_nodup {α : Type} {name : α → String} {xs : List α} (hnodup : (xs.map name).Nodup)
    {x : α} (hx : x ∈ xs) : xs.find? (name · == name x) = some x := by
  cases hfind : xs.find? (name · == name x) with
  | none =>
    have hnot := List.find?_eq_none.mp hfind x hx
    simp at hnot
  | some found =>
    have hname : name found = name x := by simpa using List.find?_some hfind
    rw [List.inj_on_of_nodup_map hnodup (List.mem_of_find?_eq_some hfind) hx hname]

/-- What is built of the declarations of a keyed section bears their names, in the same order. -/
theorem names_of_build {α β : Type} {build : String × α → Except TemplateError β} {name : β → String}
    (hname : ∀ d x, build d = .ok x → name x = d.1) {ds : List (String × α)} {xs : List β}
    (h : List.Forall₂ (fun d x => build d = .ok x) ds xs) : xs.map name = ds.map (·.1) := by
  induction h with
  | nil => rfl
  | cons hbuild _ ih => rw [List.map_cons, List.map_cons, hname _ _ hbuild, ih]

/-- A built advancement has the name under which it is declared. -/
theorem name_of_buildAdvancement {names : DisplayNames}
    {d : String × Option AdvancementDeclaration} {c : Category}
    (h : buildAdvancement names d = .ok c) : c.name = d.1 := by
  simp only [buildAdvancement, bind_eq_ok_iff, pure_eq_ok_iff] at h
  obtain ⟨_, -, criteria, -, rfl⟩ := h
  rfl

/-- So has a built criterion of an advancement. -/
theorem name_of_buildMark {names : DisplayNames} {advancement : String}
    {d : String × Option CriterionDeclaration} {item : Item}
    (h : buildMark names advancement d = .ok item) : item.name = d.1 := by
  simp only [buildMark, bind_eq_ok_iff, pure_eq_ok_iff] at h
  obtain ⟨_, -, rfl⟩ := h
  rfl

/-- So has a built unlock. -/
theorem name_of_buildUnlock {names : DisplayNames} {d : String × Option UnlockDeclaration}
    {item : Item} (h : buildUnlock names d = .ok item) : item.name = d.1 := by
  simp only [buildUnlock, bind_eq_ok_iff, pure_eq_ok_iff] at h
  obtain ⟨_, -, rfl⟩ := h
  rfl

/-- So has a built custom goal. -/
theorem name_of_buildCustom {names : DisplayNames} {d : CustomDeclaration} {item : Item}
    (h : buildCustom names d = .ok item) : item.name = d.name := by
  simp only [buildCustom, bind_eq_ok_iff, pure_eq_ok_iff] at h
  obtain ⟨_, -, rfl⟩ := h
  rfl

/-- So has a built staged goal. -/
theorem name_of_buildGoal {names : DisplayNames} {d : GoalDeclaration} {goal : StagedGoal}
    (h : buildGoal names d = .ok goal) : goal.name = d.name := by
  unfold buildGoal at h
  split at h
  · cases h
  · simp only [bind_eq_ok_iff, pure_eq_ok_iff] at h
    obtain ⟨_, -, rfl⟩ := h
    rfl

/-- So has a built criterion of a group of statistics. -/
theorem name_of_buildCriterion {names : DisplayNames} {group : String}
    {d : String × Option CriterionDeclaration} {item : Item}
    (h : buildCriterion names group d = .ok item) : item.name = d.1 := by
  simp only [buildCriterion, bind_eq_ok_iff, pure_eq_ok_iff] at h
  obtain ⟨_, -, _, -, rfl⟩ := h
  rfl

/-- A group of statistics is a single one of its name, or has the criteria that it declares. -/
theorem criteria_of_buildStatistic {names : DisplayNames} {d : String × Option StatisticDeclaration}
    {c : Category} (h : buildStatistic names d = .ok c) :
    ∃ declared, d.2 = some declared ∧ c.name = d.1 ∧
      ((∃ item, c.criteria = [item]) ∨
        ∃ criteria, declared.criteria = some criteria ∧
          c.criteria.map (·.name) = criteria.map (·.1)) := by
  simp only [buildStatistic, bind_eq_ok_iff] at h
  obtain ⟨declared, hshape, h⟩ := h
  have hdeclared : d.2 = some declared := by
    unfold wellShaped at hshape
    split at hshape
    · rename_i hsome
      cases hshape
      exact hsome
    · cases hshape
  refine ⟨declared, hdeclared, ?_⟩
  cases hcriteria : declared.criteria with
  | none =>
    simp only [hcriteria, bind_eq_ok_iff, pure_eq_ok_iff] at h
    obtain ⟨_, -, rfl⟩ := h
    exact ⟨rfl, .inl ⟨_, rfl⟩⟩
  | some criteria =>
    simp only [hcriteria, bind_eq_ok_iff, pure_eq_ok_iff, mapM_eq_ok_iff] at h
    obtain ⟨items, hitems, rfl⟩ := h
    exact ⟨rfl, .inr ⟨criteria, rfl, names_of_build (fun _ _ => name_of_buildCriterion) hitems⟩⟩

/-- The advancements of a checklist that was read have different names. -/
theorem nodup_advancements_of_read {text : String} {names : DisplayNames} {c : Checklist}
    (h : read text names = .ok c) : (c.advancements.map (·.name)).Nodup := by
  unfold read at h
  split at h
  · simp only [build, bind_eq_ok_iff, pure_eq_ok_iff, mapM_eq_ok_iff] at h
    obtain ⟨_, hunique, -, -, -, -, advancements, hbuilt, -, -, -, -, -, -, -, -, rfl⟩ := h
    rw [names_of_build (fun _ _ => name_of_buildAdvancement) hbuilt]
    exact nodup_of_checkUnique hunique
  · cases h

/-- The entries of a listed section bear different names, which are none of those seen before. -/
theorem nodup_of_buildListed {α β : Type} {part : String} {name : α → String}
    {build : α → Except TemplateError β} {entryName : β → String}
    (hname : ∀ d x, build d = .ok x → entryName x = name d) {seen : List String} {ds : List α}
    {xs : List β} (h : buildListed part name build seen ds = .ok xs) :
    (xs.map entryName).Nodup ∧ ∀ x ∈ xs, entryName x ∉ seen := by
  induction ds generalizing seen xs with
  | nil =>
    cases h
    exact ⟨.nil, fun _ hx => absurd hx List.not_mem_nil⟩
  | cons d rest ih =>
    unfold buildListed at h
    split at h
    · cases h
    · rename_i hseen
      simp only [bind_eq_ok_iff, pure_eq_ok_iff] at h
      obtain ⟨x, hx, later, hlater, rfl⟩ := h
      obtain ⟨hnodup, hnot⟩ := ih hlater
      have hfirst := hname d x hx
      rw [List.map_cons, List.nodup_cons, List.forall_mem_cons, hfirst]
      refine ⟨⟨fun hmem => ?_, hnodup⟩, hseen, fun y hy hmem =>
        hnot y hy (List.mem_cons_of_mem _ hmem)⟩
      obtain ⟨y, hy, heq⟩ := List.mem_map.mp hmem
      exact hnot y hy (heq ▸ List.mem_cons_self)

section Criteria

open Json

/-- The fields of a record that stands for a tree stand for trees. -/
theorem isRead_of_fields? {v : Value} (h : v.IsRead) {names : List String}
    {fields : List (String × Value)} (hfields : fields? names v = some fields) :
    ∀ f ∈ fields, f.2.IsRead := by
  cases v with
  | object members =>
    simp only [fields?, layer] at hfields
    split at hfields
    · cases hfields
      exact fun f hf => h.members f (List.mem_of_mem_filter hf)
    · cases hfields
  | array items =>
    simp only [fields?, layer] at hfields
    split at hfields
    · cases hfields
      exact fun f hf => h.items f.2 (List.of_mem_zip hf).2
    · cases hfields
  | _ => cases hfields

/-- A field that is not absent is read from one of those that a record shows. -/
theorem exists_of_field? {α β : Type} {fields : List (String × α)} {name : String} {absent r : β}
    {readField : α → Option β} (h : field? fields name absent readField = some r) :
    r = absent ∨ ∃ f ∈ fields, readField f.2 = some r := by
  unfold field? at h
  split at h
  · exact .inl (Option.some.inj h).symm
  · rename_i x hlookup
    exact .inr ⟨(name, x), mem_of_lookup hlookup, h⟩

/-- The criteria of an object that stands for a tree have different names. -/
theorem nodup_of_criteria? {v : Value} (hv : v.IsRead)
    {criteria : List (String × Option CriterionDeclaration)} (h : criteria? v = some criteria) :
    (criteria.map (·.1)).Nodup := by
  obtain ⟨room, t, ht⟩ := hv
  cases v with
  | object members =>
    cases h
    simp only [entries, List.map_map, Function.comp_def]
    exact Tree.hasDistinctKeys_of_value? ht members rfl
  | _ => cases h

/-- A group of statistics declares criteria of different names. -/
theorem nodup_criteria_of_read? {v : Value} (hv : v.IsRead) {d : StatisticDeclaration}
    (h : StatisticDeclaration.read? v = some d) :
    ∀ criteria, d.criteria = some criteria → (criteria.map (·.1)).Nodup := by
  intro criteria hcriteria
  simp only [StatisticDeclaration.read?, Option.bind_eq_bind, Option.bind_eq_some_iff, Option.pure_def] at h
  obtain ⟨fields, hfields, _, -, _, -, _, -, _, -, declared, hdeclared, heq⟩ := h
  cases heq
  rcases exists_of_field? hdeclared with rfl | ⟨f, hf, hread⟩
  · cases hcriteria
  · cases hcriteria
    unfold orNull? at hread
    split at hread
    · cases hread
    · obtain ⟨_, hsome, heq⟩ := Option.map_eq_some_iff.mp hread
      cases heq
      exact nodup_of_criteria? (isRead_of_fields? hv hfields f hf) hsome

/-- Every group of statistics that a template declares has criteria of different names. -/
theorem nodup_criteria_of_declared {text : String} {d : Declarations}
    (h : Declarations.read? text = some d) :
    ∀ entry ∈ d.statistics, ∀ declared, entry.2 = some declared →
      ∀ criteria, declared.criteria = some criteria → (criteria.map (·.1)).Nodup := by
  obtain ⟨t, -, ht⟩ := Option.bind_eq_some_iff.mp h
  simp only [Declarations.ofTree?, Option.bind_eq_bind, Option.bind_eq_some_iff, Option.pure_def] at ht
  obtain ⟨fields, hfields, _, -, statistics, hstatistics, _, -, _, -, _, -, heq⟩ := ht
  cases heq
  intro entry hentry declared hdeclared
  rcases exists_of_field? hstatistics with rfl | ⟨f, -, hsection⟩
  · cases hentry
  · obtain ⟨members, hmembers, rfl⟩ := Option.map_eq_some_iff.mp hsection
    obtain ⟨trees, -, hvalues⟩ := Option.bind_eq_some_iff.mp hmembers
    obtain ⟨⟨key, v⟩, hmem, rfl⟩ := List.mem_map.mp hentry
    obtain ⟨⟨_, tree⟩, -, hvalue⟩ := exists_of_mem_of_mapM hvalues hmem
    obtain ⟨_, hv, heq⟩ := Option.map_eq_some_iff.mp hvalue
    cases heq
    cases v with
    | null =>
      cases hdeclared
      exact nofun
    | _ => exact nodup_criteria_of_read? ⟨_, tree, hv⟩ hdeclared

end Criteria

/-- The groups of statistics of a checklist that was read have different names, and so have the criteria of each
group. -/
theorem nodup_statistics_of_read {text : String} {names : DisplayNames} {c : Checklist}
    (h : read text names = .ok c) :
    (c.statistics.map (·.name)).Nodup ∧
      ∀ group ∈ c.statistics, (group.criteria.map (·.name)).Nodup := by
  unfold read at h
  split at h
  · rename_i d hd
    simp only [build, bind_eq_ok_iff, pure_eq_ok_iff, mapM_eq_ok_iff] at h
    obtain ⟨-, -, _, hunique, -, -, -, -, statistics, hbuilt, -, -, -, -, -, -, rfl⟩ := h
    have hname (d : String × Option StatisticDeclaration) (group : Category)
        (hgroup : buildStatistic names d = .ok group) : group.name = d.1 := by
      obtain ⟨_, -, hname, -⟩ := criteria_of_buildStatistic hgroup
      exact hname
    constructor
    · rw [names_of_build hname hbuilt]
      exact nodup_of_checkUnique hunique
    · intro group hgroup
      obtain ⟨entry, hentry, hbuild⟩ := exists_of_mem_of_forall₂ hbuilt hgroup
      obtain ⟨declared, hdeclared, -, ⟨item, hsingle⟩ | ⟨criteria, hcriteria, hnames⟩⟩ :=
        criteria_of_buildStatistic hbuild
      · rw [hsingle]
        exact List.pairwise_singleton _ _
      · rw [hnames]
        exact nodup_criteria_of_declared hd entry hentry declared hdeclared criteria hcriteria
  · cases h

end Milestone.Template
