import Milestone.Text.Blank
import Milestone.Text.Numeral

/-!
# Game versions and their eras

A version text is a release such as `1.12.2`, a snapshot such as `20w14a`, or something unknown. Its
era says how the game stores achievements and statistics. The era and the play time counter depend
only on the minor number of a release or the year of a snapshot.
-/

namespace Milestone

/-- A period of the game with one way of storing progress. -/
inductive Era where
  /-- Lifetime counters of all worlds, achievements among them. -/
  | legacy
  /-- Counters per world, achievements among them. -/
  | mid
  /-- Advancements on their own, counters by flat names. -/
  | hybrid
  /-- Advancements on their own, counters by category and item. -/
  | modern
  | unknown
  deriving DecidableEq, Inhabited

namespace Era

/-- The name of an era. -/
def name : Era → String
  | legacy => "legacy"
  | mid => "mid"
  | hybrid => "hybrid"
  | modern => "modern"
  | unknown => "unknown"

/-- Whether the documents of an era can be read. -/
def isKnown (era : Era) : Bool :=
  era != unknown

/-- Whether achievements are kept in the statistics document. -/
def achievementsInStatistics : Era → Bool
  | legacy | mid => true
  | _ => false

end Era

/-- What a version text says about the game. -/
inductive Release where
  /-- A release with its major and minor number. -/
  | numbered (major minor : Nat)
  /-- A development snapshot with the last two digits of its year. -/
  | snapshot (year : Nat)
  | unknown
  deriving DecidableEq

namespace Release

/-- The greatest number in a version. -/
def numberLimit : Nat := 4294967295

/-- The numbers of a release: two or three, between points. -/
def ofNumbers? (cs : List Char) : Option Release :=
  match (cs.splitOn '.').mapM (Text.unsigned? numberLimit) with
  | some [major, minor] => some (numbered major minor)
  | some [major, minor, _] => some (numbered major minor)
  | _ => none

/-- The year of a snapshot: two characters, the letter w, a week of two digits and a suffix. -/
def ofWeek? (cs : List Char) : Option Release :=
  let year := cs.takeWhile (· != 'w')
  match cs.dropWhile (· != 'w') with
  | _ :: rest =>
    let week := rest.takeWhile Char.isDigit
    if (String.ofList year).utf8ByteSize = 2 ∧ week.length = 2 ∧ week.length < rest.length then
      (Text.unsigned? numberLimit year).map snapshot
    else none
  | [] => none

/-- The release or snapshot that a text without surrounding blanks names. -/
def ofChars (cs : List Char) : Release :=
  ((ofNumbers? cs).orElse fun _ => ofWeek? cs).getD unknown

/-- The era of a release or snapshot. -/
def era : Release → Era
  | numbered 1 minor =>
    if minor ≤ 6 then .legacy
    else if minor ≤ 11 then .mid
    else if minor = 12 then .hybrid
    else .modern
  | snapshot year => if 18 ≤ year then .modern else .unknown
  | _ => .unknown

/-- Whether the modern play time counter still has its first name. -/
def countsMinutes : Release → Bool
  | numbered _ minor => minor < 17
  | snapshot year => year < 21
  | unknown => false

end Release

/-- A version text without surrounding blanks. -/
structure Version where
  raw : String
  deriving DecidableEq

namespace Version

/-- The version that a text names. -/
def ofText (s : String) : Version :=
  ⟨Text.trim s⟩

/-- The release or snapshot that a version names. -/
def release (v : Version) : Release :=
  .ofChars v.raw.toList

/-- The era of a version. -/
def era (v : Version) : Era :=
  v.release.era

/-- The address of the counter of ticks played. -/
def playTimeKey (v : Version) : String :=
  match v.era with
  | .legacy => "1100"
  | .mid | .hybrid => "stat.playOneMinute"
  | .modern =>
    if v.release.countsMinutes then "minecraft:custom/minecraft:play_one_minute"
    else "minecraft:custom/minecraft:play_time"
  | .unknown => "minecraft:custom/minecraft:play_time"

end Version

end Milestone
