import Milestone.Json.Value
import Milestone.Version

/-!
# Sources

The documents that are at hand for one tick. A source that is absent leaves the progress that depends
on it as it was.
-/

namespace Milestone

/-- One of the three kinds of documents. -/
inductive SourceKind where
  | advancements
  | statistics
  | unlocks
  deriving DecidableEq

/-- The name of a kind. -/
def SourceKind.name : SourceKind → String
  | advancements => "advancements"
  | statistics => "stats"
  | unlocks => "unlocks"

/-- The active world and its documents. -/
structure Sources where
  world : Option String
  advancements : Option Json.Value
  statistics : Option Json.Value
  unlocks : Option Json.Value

namespace Sources

/-- No world and no documents. -/
def none : Sources := ⟨.none, .none, .none, .none⟩

/-- The document in which an era keeps achievements or advancements. -/
def achievements (s : Sources) (era : Era) : Option Json.Value :=
  if era.achievementsInStatistics then s.statistics else s.advancements

/-- The kinds whose passes cannot run: those without a document, and in an unknown era those that
need to know it. -/
def missing (s : Sources) (era : Era) : List SourceKind :=
  (if !era.isKnown || (s.achievements era).isNone then [.advancements] else []) ++
    (if !era.isKnown || s.statistics.isNone then [.statistics] else []) ++
    (if s.unlocks.isNone then [.unlocks] else [])

end Sources

end Milestone
