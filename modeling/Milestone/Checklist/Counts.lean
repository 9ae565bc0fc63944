/-!
# Section counts

How many entries a section of a checklist has and how many of them are done, with and without the
hidden ones.
-/

namespace Milestone

/-- The counts of one section. -/
structure SectionCounts where
  total : Nat
  completed : Nat
  visibleTotal : Nat
  visibleCompleted : Nat
  deriving DecidableEq, Inhabited

namespace SectionCounts

/-- The counts of a section, from the marks `done` and `hidden` of its entries. -/
def ofMarks (marks : List (Bool × Bool)) : SectionCounts where
  total := marks.length
  completed := marks.countP (·.1)
  visibleTotal := marks.countP (!·.2)
  visibleCompleted := marks.countP fun m => m.1 && !m.2

end SectionCounts

/-- The counts of all sections of a checklist. -/
structure Counts where
  advancements : SectionCounts
  recipes : SectionCounts
  statistics : SectionCounts
  unlocks : SectionCounts
  custom : SectionCounts
  staged : SectionCounts
  /-- The criteria of the advancements that are no recipes, and how many are done. -/
  criteria : Nat
  completedCriteria : Nat
  deriving DecidableEq, Inhabited

/-- The counts of nothing. -/
def Counts.zero : Counts where
  advancements := .ofMarks []
  recipes := .ofMarks []
  statistics := .ofMarks []
  unlocks := .ofMarks []
  custom := .ofMarks []
  staged := .ofMarks []
  criteria := 0
  completedCriteria := 0

end Milestone
