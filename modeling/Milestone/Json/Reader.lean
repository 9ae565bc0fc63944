import Milestone.Json.Tree

/-!
# Reading JSON texts

A strict reader: blanks are space, tab, line feed and carriage return; numerals have no leading
zeros; control characters do not stand in strings; nothing follows the value. Reading takes a bound
on the nesting from the length of the text, which is never reached before the text is used up.
-/

namespace Milestone.Json

/-- The characters between the parts of a JSON text. -/
def isSpace (c : Char) : Bool :=
  c == ' ' || c == '\t' || c == '\n' || c == '\r'

/-- The text from the first character on that is no space. -/
def skipSpaces (cs : List Char) : List Char :=
  cs.dropWhile isSpace

/-- The value of a decimal digit. -/
def digit? (c : Char) : Option Nat :=
  if c.isDigit then some (c.toNat - 48) else none

/-- The value of a hexadecimal digit. -/
def hexDigit? (c : Char) : Option Nat :=
  if '0' ≤ c ∧ c ≤ '9' then some (c.toNat - 48)
  else if 'a' ≤ c ∧ c ≤ 'f' then some (c.toNat - 87)
  else if 'A' ≤ c ∧ c ≤ 'F' then some (c.toNat - 55)
  else none

/-- The leading decimal digits and what follows them. -/
def takeDigits : List Char → List Nat × List Char
  | [] => ([], [])
  | c :: cs =>
    match digit? c with
    | some d => let (ds, rest) := takeDigits cs; (d :: ds, rest)
    | none => ([], c :: cs)

/-- At least one decimal digit. -/
def takeDigits1 (cs : List Char) : Option (List Nat × List Char) :=
  match takeDigits cs with
  | ([], _) => none
  | (ds, rest) => some (ds, rest)

/-- The digits before the point: a zero alone, or digits that do not start with one. -/
def takeWhole : List Char → Option (List Nat × List Char)
  | '0' :: cs => some ([0], cs)
  | cs => takeDigits1 cs

/-- The fraction in front of a text, if one starts there. -/
def takeFraction : List Char → Option (Option (List Nat) × List Char)
  | '.' :: cs => (takeDigits1 cs).map fun (ds, rest) => (some ds, rest)
  | cs => some (none, cs)

/-- The digits of an exponent after its sign. -/
def takeExponentDigits (negative : Bool) (cs : List Char) :
    Option (Option (Bool × List Nat) × List Char) :=
  (takeDigits1 cs).map fun (ds, rest) => (some (negative, ds), rest)

/-- The exponent in front of a text, if one starts there. -/
def takeExponent : List Char → Option (Option (Bool × List Nat) × List Char)
  | c :: cs =>
    if c == 'e' || c == 'E' then
      match cs with
      | '-' :: rest => takeExponentDigits true rest
      | '+' :: rest => takeExponentDigits false rest
      | rest => takeExponentDigits false rest
    else some (none, c :: cs)
  | [] => some (none, [])

/-- A numeral and what follows it. -/
def takeNumeral (cs : List Char) : Option (Numeral × List Char) := do
  let (negative, cs) := match cs with
    | '-' :: rest => (true, rest)
    | _ => (false, cs)
  let (whole, cs) ← takeWhole cs
  let (fraction, cs) ← takeFraction cs
  let (exponent, cs) ← takeExponent cs
  return ({ negative, whole, fraction, exponent }, cs)

/-- A part of a string: a character, or a code unit given in hexadecimal. -/
inductive Piece where
  | char (c : Char)
  | unit (u : Nat)

/-- The character that a backslash and a letter stand for. -/
def escaped? : Char → Option Char
  | '"' => some '"'
  | '\\' => some '\\'
  | '/' => some '/'
  | 'b' => some '\x08'
  | 'f' => some '\x0c'
  | 'n' => some '\n'
  | 'r' => some '\r'
  | 't' => some '\t'
  | _ => none

/-- The pieces of a string up to its closing quote, and what follows it. -/
def takePieces : List Char → Option (List Piece × List Char)
  | [] => none
  | '"' :: rest => some ([], rest)
  | '\\' :: 'u' :: a :: b :: c :: d :: rest => do
    let unit := (((← hexDigit? a) * 16 + (← hexDigit? b)) * 16 + (← hexDigit? c)) * 16 +
      (← hexDigit? d)
    let (pieces, rest) ← takePieces rest
    return (.unit unit :: pieces, rest)
  | '\\' :: c :: rest => do
    let c ← escaped? c
    let (pieces, rest) ← takePieces rest
    return (.char c :: pieces, rest)
  | c :: rest => do
    guard (0x20 ≤ c.toNat)
    let (pieces, rest) ← takePieces rest
    return (.char c :: pieces, rest)

/-- Whether a code unit is the first of a pair. -/
def isHighSurrogate (u : Nat) : Bool :=
  0xD800 ≤ u && u < 0xDC00

/-- Whether a code unit is the second of a pair. -/
def isLowSurrogate (u : Nat) : Bool :=
  0xDC00 ≤ u && u < 0xE000

/-- The characters of a string; nothing where half a surrogate pair stands alone. -/
def pieceChars? : List Piece → Option (List Char)
  | [] => some []
  | .char c :: rest => (pieceChars? rest).map (c :: ·)
  | .unit u :: .unit v :: rest =>
    if isHighSurrogate u && isLowSurrogate v then
      (pieceChars? rest).map (Char.ofNat (0x10000 + (u - 0xD800) * 0x400 + (v - 0xDC00)) :: ·)
    else if isHighSurrogate u || isLowSurrogate u then none
    else (pieceChars? (.unit v :: rest)).map (Char.ofNat u :: ·)
  | .unit u :: rest =>
    if isHighSurrogate u || isLowSurrogate u then none
    else (pieceChars? rest).map (Char.ofNat u :: ·)

/-- A string after its opening quote: its text, if it has one, and what follows. -/
def takeString (cs : List Char) : Option (Option String × List Char) :=
  (takePieces cs).map fun (pieces, rest) => ((pieceChars? pieces).map String.ofList, rest)

/-- An object of members whose keys may lack a text. -/
def objectTree (members : List (Option String × Tree)) : Tree :=
  match members.mapM fun (key, t) => key.map (·, t) with
  | some members => .object members
  | none => .unreadable

mutual

/-- A value after spaces, and what follows it. -/
def takeTree (fuel : Nat) (cs : List Char) : Option (Tree × List Char) :=
  match fuel with
  | 0 => none
  | fuel + 1 =>
    match skipSpaces cs with
    | '{' :: rest =>
      match skipSpaces rest with
      | '}' :: rest => some (.object [], rest)
      | rest => (takeMembers fuel rest).map fun (ms, rest) => (objectTree ms, rest)
    | '[' :: rest =>
      match skipSpaces rest with
      | ']' :: rest => some (.array [], rest)
      | rest => (takeItems fuel rest).map fun (ts, rest) => (.array ts, rest)
    | '"' :: rest =>
      (takeString rest).map fun (s, rest) => ((s.map .string).getD .unreadable, rest)
    | 'n' :: 'u' :: 'l' :: 'l' :: rest => some (.null, rest)
    | 't' :: 'r' :: 'u' :: 'e' :: rest => some (.bool true, rest)
    | 'f' :: 'a' :: 'l' :: 's' :: 'e' :: rest => some (.bool false, rest)
    | rest =>
      (takeNumeral rest).map fun (t, rest) => ((t.number?.map .number).getD .unreadable, rest)

/-- The items of an array up to its closing bracket. -/
def takeItems (fuel : Nat) (cs : List Char) : Option (List Tree × List Char) :=
  match fuel with
  | 0 => none
  | fuel + 1 =>
    match takeTree fuel cs with
    | none => none
    | some (t, rest) =>
      match skipSpaces rest with
      | ']' :: rest => some ([t], rest)
      | ',' :: rest => (takeItems fuel rest).map fun (ts, rest) => (t :: ts, rest)
      | _ => none

/-- The members of an object up to its closing brace. -/
def takeMembers (fuel : Nat) (cs : List Char) :
    Option (List (Option String × Tree) × List Char) :=
  match fuel with
  | 0 => none
  | fuel + 1 =>
    match skipSpaces cs with
    | '"' :: rest =>
      match takeString rest with
      | none => none
      | some (key, rest) =>
        match skipSpaces rest with
        | ':' :: rest =>
          match takeTree fuel rest with
          | none => none
          | some (t, rest) =>
            match skipSpaces rest with
            | '}' :: rest => some ([(key, t)], rest)
            | ',' :: rest =>
              (takeMembers fuel rest).map fun (ms, rest) => ((key, t) :: ms, rest)
            | _ => none
        | _ => none
    | _ => none

end

/-- The tree of a whole text. -/
def Tree.ofChars? (cs : List Char) : Option Tree :=
  match takeTree (cs.length + 1) cs with
  | some (t, rest) => if (skipSpaces rest).isEmpty then some t else none
  | none => none

/-- The tree of a JSON text. -/
def Tree.read? (text : String) : Option Tree :=
  Tree.ofChars? text.toList

/-- The value of a JSON text. -/
def Value.read? (text : String) : Option Value :=
  (Tree.read? text).bind (Tree.value? Tree.depthLimit)

end Milestone.Json
