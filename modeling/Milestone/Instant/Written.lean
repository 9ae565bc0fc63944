import Milestone.Instant.Basic
import Milestone.Text.Blank
import Milestone.Text.Numeral

/-!
# Written instants

Instants are written in universal time, `2016-01-15T10:00:00Z`, with as many groups of three decimals
as the nanoseconds need. They are read more freely: blanks may stand around the separators, a blank
may stand in the place of the `T`, and any offset from universal time is accepted.
-/

namespace Milestone.Instant

/-- The text of a year: four digits, or a sign and at least four outside 0 to 9999. -/
def yearChars (year : Int) : List Char :=
  if 0 ≤ year ∧ year ≤ 9999 then Text.padded 4 year.natAbs
  else (if year < 0 then '-' else '+') :: Text.padded 4 year.natAbs

/-- The decimals of a second: none, three, six or nine. -/
def decimalChars (nano : Nat) : List Char :=
  if nano = 0 then []
  else if nano % 1000000 = 0 then '.' :: Text.padded 3 (nano / 1000000)
  else if nano % 1000 = 0 then '.' :: Text.padded 6 (nano / 1000)
  else '.' :: Text.padded 9 nano

/-- The characters of an instant. -/
def chars (t : Instant) : List Char :=
  let leap := t.nano / 1000000000
  yearChars t.date.year ++ '-' :: Text.padded 2 t.date.month ++ '-' :: Text.padded 2 t.date.day ++
    'T' :: Text.padded 2 (t.second / 3600) ++ ':' :: Text.padded 2 (t.second / 60 % 60) ++
    ':' :: Text.padded 2 (t.second % 60 + leap) ++ decimalChars (t.nano % 1000000000) ++ ['Z']

/-- The text of an instant. -/
def text (t : Instant) : String :=
  String.ofList t.chars

/-- At least one and at most `width` leading digits. -/
def takeNumber (width : Nat) (cs : List Char) : Option (Nat × List Char) :=
  let ds := (cs.take width).takeWhile Char.isDigit
  if ds.isEmpty then none else some (Nat.ofDigitChars 10 ds 0, cs.drop ds.length)

/-- A number of at most two digits after blanks, between two bounds. -/
def takeField (least greatest : Nat) (cs : List Char) : Option (Nat × List Char) := do
  let (n, rest) ← takeNumber 2 (Text.dropBlanks cs)
  guard (least ≤ n ∧ n ≤ greatest)
  return (n, rest)

/-- A separator after blanks. -/
def takeMark (mark : Char) (cs : List Char) : Option (List Char) :=
  match Text.dropBlanks cs with
  | c :: rest => if c = mark then some rest else none
  | [] => none

/-- A year after blanks: up to four digits, or a sign and any number of them. -/
def takeYear (cs : List Char) : Option (Int × List Char) :=
  match Text.dropBlanks cs with
  | '-' :: rest => (takeNumber rest.length rest).map fun (n, rest) => (-(n : Int), rest)
  | '+' :: rest => (takeNumber rest.length rest).map fun (n, rest) => ((n : Int), rest)
  | rest => (takeNumber 4 rest).map fun (n, rest) => ((n : Int), rest)

/-- The nanoseconds of a decimal fraction, where there is one; digits after the ninth are dropped. -/
def takeDecimals : List Char → Option (Nat × List Char)
  | '.' :: rest => do
    let (n, tail) ← takeNumber 9 rest
    return (n * Nat.pow 10 (9 - (rest.length - tail.length)), tail.dropWhile Char.isDigit)
  | cs => some (0, cs)

/-- Two decimal digits. -/
def takeTwoDigits : List Char → Option (Nat × List Char)
  | a :: b :: rest =>
    if a.isDigit && b.isDigit then some (Nat.ofDigitChars 10 [a, b] 0, rest) else none
  | _ => none

/-- Hours and minutes of an offset as seconds. -/
def takeHoursMinutes (cs : List Char) : Option (Int × List Char) := do
  let (hours, rest) ← takeTwoDigits cs
  let (minutes, rest) ← takeTwoDigits (rest.dropWhile fun c => c == ':' || Text.isBlank c)
  guard (minutes < 60)
  return (((hours * 3600 + minutes * 60 : Nat) : Int), rest)

/-- The seconds by which local time is ahead of universal time. -/
def takeOffset (cs : List Char) : Option (Int × List Char) :=
  match cs with
  | a :: b :: c :: rest =>
    if [a, b, c].map Char.toUpper = ['U', 'T', 'C'] then some (0, rest) else takeSigned cs
  | _ => takeSigned cs
where
  takeSigned : List Char → Option (Int × List Char)
    | 'Z' :: rest | 'z' :: rest => some (0, rest)
    | '+' :: rest => takeHoursMinutes rest
    | '-' :: rest | '\u2212' :: rest => (takeHoursMinutes rest).map fun (n, rest) => (-n, rest)
    | _ => none

/-- The character between date and time. -/
def takeTimeMark : List Char → Option (List Char)
  | 'T' :: rest | 't' :: rest | ' ' :: rest => some rest
  | _ => none

/-- The instant of a written date, time and offset. -/
def ofChars? (cs : List Char) : Option Instant := do
  let (year, cs) ← takeYear cs
  let cs ← takeMark '-' cs
  let (month, cs) ← takeField 1 12 cs
  let cs ← takeMark '-' cs
  let (day, cs) ← takeField 1 31 cs
  let cs ← takeTimeMark cs
  let (hour, cs) ← takeField 0 23 cs
  let cs ← takeMark ':' cs
  let (minute, cs) ← takeField 0 59 cs
  let cs ← takeMark ':' cs
  let (second, cs) ← takeField 0 60 cs
  let (nano, cs) ← takeDecimals cs
  let (offset, cs) ← takeOffset (Text.dropBlanks cs)
  guard (Text.dropBlanks cs).isEmpty
  guard (-86400 < offset ∧ offset < 86400)
  let date ← Date.of? year month day
  let leap := second / 60
  ofLocal? date (hour * 3600 + minute * 60 + (second - leap)) (nano + leap * 1000000000) offset

/-- The instant that a text names. -/
def ofText? (s : String) : Option Instant :=
  ofChars? s.toList

end Milestone.Instant
