import Mathlib.Data.List.Nodup
import Milestone.Proofs.Checklist.Reached
import Milestone.Proofs.Template.Names

/-!
# Keys of overrides

A group of statistics is overridden under its name, and a criterion under a key put together from the name of
its group and its own. A template may choose both names freely. So the names of a checklist are different where
they must be, but the keys need not be: the name of one group may read like the key of a criterion in another.
This file proves that they are different if no group has the name of one of several criteria followed by the
word between the two names.
-/

namespace Milestone

/-- The keys of the overrides that concern a group of statistics: its name, and a key for each of its criteria
unless it has just one, which shares the override of the group. -/
def Category.overrideKeys (c : Category) : List String :=
  c.name :: if c.criteria.length = 1 then [] else
    c.criteria.map fun item => SavedState.criterionKey c.name item.name

/-- The keys of the overrides that concern the statistics of a checklist. -/
def Checklist.overrideKeys (c : Checklist) : List String :=
  c.statistics.flatMap (·.overrideKeys)

/-- The groups of statistics have different names, and so have the criteria of each group. -/
structure Checklist.HasDistinctNames (c : Checklist) : Prop where
  groups : (c.statistics.map (·.name)).Nodup
  criteria : ∀ group ∈ c.statistics, (group.criteria.map (·.name)).Nodup

/-- The names are those of the template. -/
theorem Checklist.Reached.hasDistinctNames {c : Checklist} (h : c.Reached) : c.HasDistinctNames := by
  induction h with
  | read hread =>
    obtain ⟨hgroups, hcriteria⟩ := Template.nodup_statistics_of_read hread
    exact ⟨hgroups, hcriteria⟩
  | seed era state _ ih => exact ⟨ih.groups, ih.criteria⟩
  | tick version now s state _ ih =>
    have hnames (era : Era) (b : Baseline) (x : SavedState) (group : Category) :
        (group.tickStatistic era s b x).name = group.name ∧
          (group.tickStatistic era s b x).criteria.map (·.name) = group.criteria.map (·.name) := by
      unfold Category.tickStatistic
      split
      · exact ⟨rfl, by simp [Category.updateStatistic, Category.updateCriterion, Function.comp_def]⟩
      · exact ⟨rfl, rfl⟩
    constructor
    · rw [tick_statistics, List.map_map]
      simpa only [Function.comp_def, hnames] using ih.groups
    · intro group hgroup
      rw [tick_statistics] at hgroup
      obtain ⟨old, hold, rfl⟩ := List.mem_map.mp hgroup
      rw [(hnames ..).2]
      exact ih.criteria old hold

section Keys

/-- The key of a criterion is put together from two names. -/
theorem toList_criterionKey (category criterion : String) :
    (SavedState.criterionKey category criterion).toList =
      category.toList ++ (".criteria.".toList ++ criterion.toList) := by
  simp only [SavedState.criterionKey, String.toList_append, List.append_assoc]

/-- The key of a criterion is not the name of its group. -/
theorem criterionKey_ne_name (category criterion : String) :
    SavedState.criterionKey category criterion ≠ category := by
  intro heq
  have hlength := congrArg (·.toList.length) heq
  simp only [toList_criterionKey, List.length_append] at hlength
  have hword : ".criteria.".toList.length = 10 := by decide
  omega

/-- Within a group the key tells the criterion. -/
theorem criterionKey_inj {category x y : String} :
    SavedState.criterionKey category x = SavedState.criterionKey category y ↔ x = y := by
  constructor
  · intro heq
    have hlist := congrArg String.toList heq
    rw [toList_criterionKey, toList_criterionKey] at hlist
    exact String.toList_inj.mp (List.append_cancel_left (List.append_cancel_left hlist))
  · exact fun heq => heq ▸ rfl

/-- A key that starts with a name and goes on with the word for criteria may start with a longer name too. Then
this one goes on with the word as well, perhaps without its last point, since between its ends there is none. -/
theorem nil_or_word_of_append_eq {between x y : List Char}
    (h : ".criteria.".toList ++ x = between ++ (".criteria.".toList ++ y)) :
    between = [] ∨ ∃ rest, between = ".criteria".toList ++ rest := by
  have hlength : ".criteria".toList.length = 9 := by decide
  by_cases hlong : 9 ≤ between.length
  · right
    have hword : ".criteria.".toList = ".criteria".toList ++ ['.'] := by decide
    have htake : between.take 9 = ".criteria".toList := by
      have hstart := congrArg (List.take 9) h
      rw [List.take_append_of_le_length hlong, hword, List.append_assoc] at hstart
      rw [← hstart, List.take_left' hlength]
    exact ⟨between.drop 9, by rw [← htake, List.take_append_drop]⟩
  · left
    have hpoint : ∀ n < 9, ".criteria.".toList[n]? = some '.' → n = 0 := by decide
    have hat := congrArg (·[between.length]?) h
    have hshort : between.length < ".criteria.".toList.length := by
      have hten : ".criteria.".toList.length = 10 := by decide
      omega
    simp only [List.getElem?_append_left hshort, List.getElem?_append_right (Nat.le_refl _),
      Nat.sub_self] at hat
    exact List.length_eq_zero_iff.mp (hpoint between.length (by omega) hat)

/-- Two keys of criteria that read the same are of groups of the same name, or the name of one group starts
with that of the other and goes on with the word for criteria. -/
theorem criterionKey_eq_cases {a b x y : String}
    (h : SavedState.criterionKey a x = SavedState.criterionKey b y) :
    a = b ∨ (∃ rest, b = a ++ ".criteria" ++ rest) ∨ ∃ rest, a = b ++ ".criteria" ++ rest := by
  have hsplit {a b : String} {between x y : List Char} (hb : b.toList = a.toList ++ between)
      (h : ".criteria.".toList ++ x = between ++ (".criteria.".toList ++ y)) :
      a = b ∨ ∃ rest, b = a ++ ".criteria" ++ rest := by
    rcases nil_or_word_of_append_eq h with rfl | ⟨rest, rfl⟩
    · rw [List.append_nil] at hb
      exact .inl (String.toList_inj.mp hb.symm)
    · have hrest : (String.ofList rest).toList = rest := String.toList_ofList
      refine .inr ⟨String.ofList rest, String.toList_inj.mp ?_⟩
      rw [hb, String.toList_append, String.toList_append, hrest, List.append_assoc]
  have hlist := congrArg String.toList h
  rw [toList_criterionKey, toList_criterionKey, List.append_eq_append_iff] at hlist
  obtain ⟨between, hb, hrest⟩ | ⟨between, ha, hrest⟩ := hlist
  · exact (hsplit hb hrest).imp_right .inl
  · exact (hsplit ha hrest).imp Eq.symm .inr

end Keys

/-- A key of a group is its name, or that of a criterion of several. -/
theorem Category.mem_overrideKeys_iff {c : Category} {key : String} :
    key ∈ c.overrideKeys ↔ key = c.name ∨
      (c.criteria.length ≠ 1 ∧ ∃ item ∈ c.criteria, SavedState.criterionKey c.name item.name = key) := by
  rw [overrideKeys, List.mem_cons]
  split
  · rename_i hsingle
    simp [hsingle]
  · rename_i hseveral
    simp [hseveral]

/-- Within a group the keys are different. -/
theorem Category.nodup_overrideKeys {c : Category} (h : (c.criteria.map (·.name)).Nodup) :
    c.overrideKeys.Nodup := by
  rw [overrideKeys, List.nodup_cons]
  split
  · exact ⟨List.not_mem_nil, List.nodup_nil⟩
  · constructor
    · intro hmem
      obtain ⟨item, -, hkey⟩ := List.mem_map.mp hmem
      exact criterionKey_ne_name c.name item.name hkey
    · have hkeys := h.map (f := SavedState.criterionKey c.name) fun _ _ => criterionKey_inj.mp
      rwa [List.map_map] at hkeys

/-- Keys are different throughout a checklist unless the name of a group starts with that of one of several
criteria and goes on with the word for criteria. -/
theorem Checklist.HasDistinctNames.nodup_overrideKeys {c : Checklist} (h : c.HasDistinctNames)
    (hnames : ∀ group ∈ c.statistics, ∀ other ∈ c.statistics, 2 ≤ group.criteria.length →
      ∀ rest, other.name ≠ group.name ++ ".criteria" ++ rest) : c.overrideKeys.Nodup := by
  have hseveral {group : Category} {item : Item} (hitem : item ∈ group.criteria)
      (hlength : group.criteria.length ≠ 1) : 2 ≤ group.criteria.length := by
    have hpos := List.length_pos_of_mem hitem
    omega
  have hword {name other key : String} (hkey : SavedState.criterionKey name other = key) :
      key = name ++ ".criteria" ++ ("." ++ other) := by
    rw [← hkey, SavedState.criterionKey]
    refine String.toList_inj.mp ?_
    simp only [String.toList_append, List.append_assoc]
    rfl
  refine List.nodup_flatMap.mpr ⟨fun group hgroup => group.nodup_overrideKeys (h.criteria group hgroup), ?_⟩
  refine (List.pairwise_map.mp h.groups).imp_of_mem fun {g k} hg hk hne key hkg hkk => ?_
  rcases Category.mem_overrideKeys_iff.mp hkg with rfl | ⟨hg2, x, hx, hkeyx⟩ <;>
    rcases Category.mem_overrideKeys_iff.mp hkk with hname | ⟨hk2, y, hy, hkeyy⟩
  · exact hne hname
  · exact hnames k hk g hg (hseveral hy hk2) _ (hword hkeyy)
  · exact hnames g hg k hk (hseveral hx hg2) _ (hname ▸ hword hkeyx)
  · rcases criterionKey_eq_cases (hkeyx.trans hkeyy.symm) with heq | ⟨rest, heq⟩ | ⟨rest, heq⟩
    · exact hne heq
    · exact hnames g hg k hk (hseveral hx hg2) rest heq
    · exact hnames k hk g hg (hseveral hy hk2) rest heq

end Milestone
