import Milestone.Counter
import Milestone.Json.Reader

/-!
# Written JSON

The texts that this library writes: objects, texts, flags, whole numbers and nulls, laid out with one
member a line and two blanks of indent a level.
-/

namespace Milestone.Json

/-- The content of a written JSON text. -/
inductive Outline where
  | null
  | bool (b : Bool)
  | counter (n : Counter)
  | string (s : String)
  | object (members : List (String × Outline))
  deriving Inhabited

/-- The lower case hexadecimal digit of a number below sixteen. -/
def hexDigit (n : Nat) : Char :=
  Nat.digitChar n

/-- A character inside a written string. -/
def escape (c : Char) : List Char :=
  if c = '"' then ['\\', '"']
  else if c = '\\' then ['\\', '\\']
  else if c = '\x08' then ['\\', 'b']
  else if c = '\x0c' then ['\\', 'f']
  else if c = '\n' then ['\\', 'n']
  else if c = '\r' then ['\\', 'r']
  else if c = '\t' then ['\\', 't']
  else if c.toNat < 0x20 then
    ['\\', 'u', '0', '0', hexDigit (c.toNat / 16), hexDigit (c.toNat % 16)]
  else [c]

/-- A text between quotes. -/
def quoted (s : String) : List Char :=
  '"' :: s.toList.flatMap escape ++ ['"']

/-- A line end and the indent of a level. -/
def newline (level : Nat) : List Char :=
  '\n' :: List.replicate (2 * level) ' '

namespace Outline

mutual

/-- The characters of a content whose first line is already indented. -/
def chars (level : Nat) : Outline → List Char
  | null => ['n', 'u', 'l', 'l']
  | bool true => ['t', 'r', 'u', 'e']
  | bool false => ['f', 'a', 'l', 's', 'e']
  | counter n => Text.signedDigits n.value
  | string s => quoted s
  | object [] => ['{', '}']
  | object (m :: ms) =>
    '{' :: memberChars (level + 1) [] (m :: ms) ++ newline level ++ ['}']

/-- The characters of members, each on a line of its own and a comma between them; `lead` stands
before the first line. -/
def memberChars (level : Nat) (lead : List Char) : List (String × Outline) → List Char
  | [] => []
  | (key, x) :: ms =>
    lead ++ newline level ++ quoted key ++ [':', ' '] ++ chars level x ++
      memberChars level [','] ms

end

/-- The text of a content. -/
def text (x : Outline) : String :=
  String.ofList (chars 0 x)

end Outline

end Milestone.Json
