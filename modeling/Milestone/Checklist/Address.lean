/-!
# Statistic addresses

A statistic is addressed by a text, which the newest schema splits at its first slash into category
and item.
-/

namespace Milestone

/-- The address of a statistic. -/
structure Address where
  raw : String
  deriving DecidableEq, Inhabited

namespace Address

/-- The characters before and after the first slash. -/
def splitSlash : List Char → Option (List Char × List Char)
  | [] => none
  | '/' :: rest => some ([], rest)
  | c :: rest => (splitSlash rest).map fun (a, b) => (c :: a, b)

/-- Category and item, neither empty. -/
def path? (address : Address) : Option (String × String) := do
  let (category, item) ← splitSlash address.raw.toList
  guard (!category.isEmpty && !item.isEmpty)
  return (String.ofList category, String.ofList item)

end Address

end Milestone
