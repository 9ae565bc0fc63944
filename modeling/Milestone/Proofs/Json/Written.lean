import Mathlib.Data.List.DropRight
import Mathlib.Data.Option.Basic
import Milestone.Json.Outline
import Milestone.Proofs.Text.Digits

/-!
# Reading written JSON

A written text is read back as the tree of its content, whatever its strings hold. Each part is read from
in front of any other text, numerals from in front of one that does not go on with them.
-/

namespace Milestone.Json

/-- A text that does not go on with a numeral in front of it. -/
def EndsNumeral (cs : List Char) : Prop :=
  ∀ c ∈ cs.head?, c.isDigit = false ∧ c ≠ '.' ∧ c ≠ 'e' ∧ c ≠ 'E'

/-! ## Numerals -/

/-- The value of a character that is a decimal digit. -/
def digitValue (c : Char) : Nat :=
  c.toNat - 48

/-- All digits in front of a text are taken, if no numeral goes on in it. -/
theorem takeDigits_append {ds rest : List Char} (hds : ∀ c ∈ ds, c.isDigit = true)
    (hrest : EndsNumeral rest) : takeDigits (ds ++ rest) = (ds.map digitValue, rest) := by
  induction ds with
  | nil =>
    cases rest with
    | nil => rfl
    | cons c rest => simp [takeDigits, digit?, (hrest c rfl).1]
  | cons d ds ih =>
    have hd : d.isDigit = true := hds d List.mem_cons_self
    simp [takeDigits, digit?, hd, ih fun c hc => hds c (List.mem_cons_of_mem _ hc), digitValue]

/-- The digits of a number are taken as its whole part, the single zero included. -/
theorem takeWhole_digits (n : Nat) {rest : List Char} (hrest : EndsNumeral rest) :
    takeWhole (Text.digits n ++ rest) = some ((Text.digits n).map digitValue, rest) := by
  rcases Nat.eq_zero_or_pos n with rfl | hpos
  · rfl
  · have hdigits := takeDigits_append (fun _ => Text.isDigit_of_mem_digits (n := n)) hrest
    obtain ⟨c, cs, hn, hc⟩ := Text.exists_digits_eq_cons hpos
    rw [hn, List.cons_append] at hdigits
    simp [hn, takeWhole, hc, takeDigits1, hdigits]

/-- No fraction is taken where no numeral goes on. -/
theorem takeFraction_of_ends {rest : List Char} (hrest : EndsNumeral rest) :
    takeFraction rest = some (none, rest) := by
  cases rest with
  | nil => rfl
  | cons c rest => simp [takeFraction, (hrest c rfl).2.1]

/-- No exponent is taken where no numeral goes on. -/
theorem takeExponent_of_ends {rest : List Char} (hrest : EndsNumeral rest) :
    takeExponent rest = some (none, rest) := by
  cases rest with
  | nil => rfl
  | cons c rest => simp [takeExponent, (hrest c rfl).2.2.1, (hrest c rfl).2.2.2]

/-- The numeral of a whole number. -/
def Numeral.ofInt (n : Int) : Numeral where
  negative := n < 0
  whole := (Text.digits n.natAbs).map digitValue
  fraction := none
  exponent := none

/-- A written whole number is taken as its numeral, the sign included. -/
theorem takeNumeral_signedDigits (n : Int) {rest : List Char} (hrest : EndsNumeral rest) :
    takeNumeral (Text.signedDigits n ++ rest) = some (.ofInt n, rest) := by
  have hwhole := takeWhole_digits n.natAbs hrest
  have hfraction := takeFraction_of_ends hrest
  have hexponent := takeExponent_of_ends hrest
  by_cases hn : n < 0
  · simp [Text.signedDigits, hn, takeNumeral, hwhole, hfraction, hexponent, Numeral.ofInt]
  · cases hdigits : Text.digits n.natAbs with
    | nil => exact absurd hdigits (Text.digits_ne_nil _)
    | cons c cs =>
      have hc : c ≠ '-' := fun h => absurd
        (Text.isDigit_of_mem_digits (n := n.natAbs) (hdigits ▸ List.mem_cons_self)) (by rw [h]; decide)
      rw [hdigits, List.cons_append] at hwhole
      simp [Text.signedDigits, hn, hdigits, takeNumeral, hc, hwhole, hfraction, hexponent, Numeral.ofInt]

namespace Numeral

/-- Further digits make no number smaller. -/
theorem le_ofDigits (n : Nat) (ds : List Nat) : n ≤ ds.foldl (fun n d => n * 10 + d) n := by
  induction ds generalizing n with
  | nil => exact Nat.le_refl n
  | cons d ds ih => exact Nat.le_trans (by omega) (ih (n * 10 + d))

/-- Digits are all absorbed where their number fits a word. -/
theorem absorb_of_le {n : Nat} {ds : List Nat}
    (h : ds.foldl (fun n d => n * 10 + d) n ≤ wordLimit) :
    absorb n ds = (ds.foldl (fun n d => n * 10 + d) n, []) := by
  induction ds generalizing n with
  | nil => rfl
  | cons d ds ih =>
    have hle : n * 10 + d ≤ wordLimit := Nat.le_trans (le_ofDigits _ ds) h
    rw [absorb, if_pos hle, ih h, List.foldl_cons]

/-- The digits of a number stand for it. -/
theorem ofDigits_digits (n : Nat) : ofDigits ((Text.digits n).map digitValue) = n := by
  calc ofDigits ((Text.digits n).map digitValue)
      = Nat.ofDigitChars 10 (Text.digits n) 0 := by
        simp only [ofDigits, Nat.ofDigitChars_eq_foldl, List.foldl_map, digitValue,
          Nat.mul_comm _ 10]
        rfl
    _ = n := Nat.ofDigitChars_toDigits (by decide) (by decide)

/-- The numeral of a counter stands for it as a whole number. -/
theorem number?_ofInt (n : Counter) : (ofInt n.value).number? = some (.whole n.value) := by
  have hlower := n.lower
  have hupper := n.upper
  have hvalue := ofDigits_digits n.value.natAbs
  have habsorb : absorb 0 ((Text.digits n.value.natAbs).map digitValue) =
      (n.value.natAbs, []) := by
    rw [absorb_of_le, ← ofDigits, hvalue]
    rw [← ofDigits, hvalue, wordLimit]
    omega
  simp only [number?, ofInt, habsorb, List.isEmpty_nil, Bool.not_true, Bool.false_eq_true, if_false]
  by_cases hn : n.value < 0
  · have hrange : 0 < n.value.natAbs ∧ n.value.natAbs ≤ 9223372036854775808 := by omega
    have hneg : -(n.value.natAbs : Int) = n.value := by omega
    simp only [hn, decide_true, hrange, and_self, if_true, hneg]
    rfl
  · have hpos : (n.value.natAbs : Int) = n.value := by omega
    simp [hn, hpos]

end Numeral

/-! ## Strings -/

/-- The control characters that are written with a letter of their own. -/
def shortControls : List Char := ['\x08', '\x0c', '\n', '\r', '\t']

/-- The piece that a written character is read as. -/
def Piece.ofChar (c : Char) : Piece :=
  if 0x20 ≤ c.toNat ∨ c ∈ shortControls then .char c else .unit c.toNat

/-- A written hexadecimal digit is read back. -/
theorem hexDigit?_hexDigit : ∀ n < 16, hexDigit? (hexDigit n) = some n := by decide

/-- A written character is read as one piece. -/
theorem takePieces_escape (c : Char) (cs : List Char) :
    takePieces (escape c ++ cs) = (takePieces cs).map fun (ps, rest) => (.ofChar c :: ps, rest) := by
  by_cases hquote : c = '"'
  · subst hquote
    cases h : takePieces cs <;> simp [escape, takePieces, escaped?, Piece.ofChar, h]
  by_cases hslash : c = '\\'
  · subst hslash
    cases h : takePieces cs <;> simp [escape, takePieces, escaped?, Piece.ofChar, h]
  by_cases hshort : c ∈ shortControls
  · have hpiece : Piece.ofChar c = .char c := if_pos (.inr hshort)
    rw [hpiece]
    simp only [shortControls, List.mem_cons, List.not_mem_nil, or_false] at hshort
    rcases hshort with rfl | rfl | rfl | rfl | rfl <;>
      cases h : takePieces cs <;> simp [escape, takePieces, escaped?, h]
  · have hplain := hshort
    simp only [shortControls, List.mem_cons, List.not_mem_nil, or_false, not_or] at hplain
    by_cases hlow : c.toNat < 0x20
    · have hpiece : Piece.ofChar c = .unit c.toNat :=
        if_neg (not_or.mpr ⟨by omega, hshort⟩)
      have hhigh := hexDigit?_hexDigit (c.toNat / 16) (by omega)
      have hrest := hexDigit?_hexDigit (c.toNat % 16) (by omega)
      have hunit : c.toNat / 16 * 16 + c.toNat % 16 = c.toNat := Nat.div_add_mod' ..
      have hzero : hexDigit? '0' = some 0 := rfl
      cases h : takePieces cs <;>
        simp [escape, hquote, hslash, hplain, hlow, takePieces, hhigh, hrest, hzero, hunit, hpiece, h]
    · have hhigh : 0x20 ≤ c.toNat := by omega
      have hpiece : Piece.ofChar c = .char c := if_pos (.inl hhigh)
      cases h : takePieces cs <;>
        simp [escape, hquote, hslash, hplain, hlow, takePieces, hhigh, guard, hpiece, h]

/-- Written characters are read back piece by piece up to the closing quote. -/
theorem takePieces_flatMap_escape (cs rest : List Char) :
    takePieces (cs.flatMap escape ++ '"' :: rest) = some (cs.map Piece.ofChar, rest) := by
  induction cs with
  | nil => rfl
  | cons c cs ih =>
    rw [List.flatMap_cons, List.append_assoc, takePieces_escape, ih]
    rfl

/-- A code unit of a control character stands for that character, whatever follows it. -/
theorem pieceChars?_unit {c : Char} (hc : c.toNat < 0x20) (ps : List Piece) :
    pieceChars? (.unit c.toNat :: ps) = (pieceChars? ps).map (c :: ·) := by
  have hhigh : isHighSurrogate c.toNat = false := by
    simp only [isHighSurrogate, Bool.and_eq_false_iff, decide_eq_false_iff_not]
    omega
  have hlow : isLowSurrogate c.toNat = false := by
    simp only [isLowSurrogate, Bool.and_eq_false_iff, decide_eq_false_iff_not]
    omega
  match ps with
  | [] => simp [pieceChars?, hhigh, hlow]
  | .char d :: ps => simp [pieceChars?, hhigh, hlow]
  | .unit u :: ps => simp [pieceChars?, hhigh, hlow]

/-- The pieces that written characters are read as stand for those characters. -/
theorem pieceChars?_map_ofChar (cs : List Char) :
    pieceChars? (cs.map Piece.ofChar) = some cs := by
  induction cs with
  | nil => rfl
  | cons c cs ih =>
    rw [List.map_cons, Piece.ofChar]
    split
    · rw [pieceChars?, ih, Option.map_some]
    · rename_i h
      rw [pieceChars?_unit (by omega), ih, Option.map_some]

/-- A text between quotes is read back. -/
theorem takeString_quoted (s : String) (rest : List Char) :
    takeString (s.toList.flatMap escape ++ '"' :: rest) = some (some s, rest) := by
  simp only [takeString, takePieces_flatMap_escape, Option.map_some, pieceChars?_map_ofChar,
    String.ofList_toList]

/-- A quoted text in front of another opens with its quote. -/
theorem quoted_append (s : String) (rest : List Char) :
    quoted s ++ rest = '"' :: (s.toList.flatMap escape ++ '"' :: rest) := by
  simp [quoted]

/-! ## Spaces -/

/-- Once skipped, no spaces are left. -/
@[simp] theorem skipSpaces_skipSpaces (cs : List Char) :
    skipSpaces (skipSpaces cs) = skipSpaces cs :=
  List.dropWhile_idempotent isSpace cs

/-- Nothing is skipped in front of another character. -/
theorem skipSpaces_of_not {c : Char} {cs : List Char} (h : isSpace c = false) :
    skipSpaces (c :: cs) = c :: cs := by
  rw [skipSpaces, List.dropWhile_cons, if_neg (by simp [h])]

/-- A line break and the indentation after it are skipped. -/
@[simp] theorem skipSpaces_newline (level : Nat) (cs : List Char) :
    skipSpaces (newline level ++ cs) = skipSpaces cs := by
  refine List.dropWhile_append_of_pos fun c hc => ?_
  rcases List.mem_cons.mp hc with rfl | hc
  · rfl
  · rw [(List.mem_replicate.mp hc).2]
    rfl

/-- Spaces in front of a value do not matter. -/
theorem takeTree_skipSpaces (fuel : Nat) (cs : List Char) :
    takeTree fuel (skipSpaces cs) = takeTree fuel cs := by
  cases fuel with
  | zero => rfl
  | succ fuel => rw [takeTree, takeTree, skipSpaces_skipSpaces]

/-- Spaces in front of members do not matter. -/
theorem takeMembers_skipSpaces (fuel : Nat) (cs : List Char) :
    takeMembers fuel (skipSpaces cs) = takeMembers fuel cs := by
  cases fuel with
  | zero => rfl
  | succ fuel => rw [takeMembers, takeMembers, skipSpaces_skipSpaces]

/-! ## Contents -/

namespace Outline

mutual

/-- The tree that a content is read back as. -/
def tree : Outline → Tree
  | null => .null
  | bool b => .bool b
  | counter n => .number (.whole n.value)
  | string s => .string s
  | object members => .object (memberTrees members)

/-- The trees of members, each under its key. -/
def memberTrees : List (String × Outline) → List (String × Tree)
  | [] => []
  | (key, x) :: ms => (key, tree x) :: memberTrees ms

end

/-- The trees of members are made one by one. -/
theorem memberTrees_eq_map (ms : List (String × Outline)) :
    memberTrees ms = ms.map fun m => (m.1, m.2.tree) := by
  induction ms with
  | nil => rfl
  | cons m ms ih => rw [memberTrees, ih, List.map_cons]

end Outline

/-- An object whose keys can all be read is read with its members in their order. -/
theorem objectTree_some (members : List (String × Tree)) :
    objectTree (members.map fun m => (some m.1, m.2)) = .object members := by
  have h : (members.map fun m => (some m.1, m.2)).mapM
      (fun m : Option String × Tree => m.1.map (·, m.2)) = some members := by
    rw [List.mapM_map]
    exact List.mapM_pure.trans (congrArg some (List.map_id' members))
  rw [objectTree]
  simp only [h]

/-- A line break ends a numeral. -/
theorem endsNumeral_newline (level : Nat) (cs : List Char) : EndsNumeral (newline level ++ cs) := by
  intro c hc
  cases hc
  decide

/-- A value that starts with a digit or a minus sign is a numeral. -/
theorem takeTree_of_numeral {c : Char} {cs : List Char} (fuel : Nat)
    (hc : c = '-' ∨ c.isDigit = true) :
    takeTree (fuel + 1) (c :: cs) = (takeNumeral (c :: cs)).map fun (t, rest) =>
      ((t.number?.map Tree.number).getD .unreadable, rest) := by
  have hne (d : Char) (hminus : d ≠ '-') (hdigit : d.isDigit = false) : c ≠ d := by
    rintro rfl
    simp_all
  have hspace : isSpace c = false := by
    simp only [isSpace, Bool.or_eq_false_iff, beq_eq_false_iff_ne]
    exact ⟨⟨⟨hne _ (by decide) rfl, hne _ (by decide) rfl⟩, hne _ (by decide) rfl⟩,
      hne _ (by decide) rfl⟩
  rw [takeTree, skipSpaces_of_not hspace]
  simp [hne '{' (by decide) rfl, hne '[' (by decide) rfl, hne '"' (by decide) rfl,
    hne 'n' (by decide) rfl, hne 't' (by decide) rfl, hne 'f' (by decide) rfl]

open Outline

/-- The members after the first one follow a comma. -/
theorem memberChars_comma (level : Nat) (m : String × Outline) (ms : List (String × Outline)) :
    memberChars level [','] (m :: ms) = ',' :: memberChars level [] (m :: ms) := rfl

/-- What follows a member in its object ends a numeral. -/
theorem endsNumeral_memberChars (level close : Nat) (ms : List (String × Outline)) (cs : List Char) :
    EndsNumeral (memberChars level [','] ms ++ (newline close ++ cs)) := by
  cases ms with
  | nil => exact endsNumeral_newline close cs
  | cons m ms =>
    intro c hc
    cases hc
    decide

/-- The members of an object, from the quote of the first key on. -/
theorem skipSpaces_memberChars (level : Nat) (key : String) (x : Outline)
    (ms : List (String × Outline)) (cs : List Char) :
    skipSpaces (memberChars level [] ((key, x) :: ms) ++ cs) =
      '"' :: (key.toList.flatMap escape ++
        '"' :: ':' :: ' ' :: (chars level x ++ (memberChars level [','] ms ++ cs))) := by
  have hlayout : memberChars level [] ((key, x) :: ms) ++ cs =
      newline level ++ ('"' :: (key.toList.flatMap escape ++
        '"' :: ':' :: ' ' :: (chars level x ++ (memberChars level [','] ms ++ cs)))) := by
    simp [memberChars, quoted]
  rw [hlayout, skipSpaces_newline, skipSpaces_of_not rfl]

mutual

/-- A written content is read back as its tree, in front of any text that ends a numeral. The bound on the
nesting is not reached where it is more than the length of the text. -/
theorem takeTree_chars (x : Outline) (level fuel : Nat) {rest : List Char}
    (hfuel : (chars level x).length < fuel) (hrest : EndsNumeral rest) :
    takeTree fuel (chars level x ++ rest) = some (x.tree, rest) := by
  match fuel, x with
  | 0, _ => exact absurd hfuel (Nat.not_lt_zero _)
  | fuel + 1, .null => rfl
  | fuel + 1, .bool true => rfl
  | fuel + 1, .bool false => rfl
  | fuel + 1, .counter n =>
    obtain ⟨c, cs, hdigits, hc⟩ := Text.exists_signedDigits_eq_cons n.value
    have hnumeral := takeNumeral_signedDigits n.value hrest
    rw [hdigits, List.cons_append] at hnumeral
    rw [chars, hdigits, List.cons_append, takeTree_of_numeral fuel hc, hnumeral]
    simp only [Option.map_some, Numeral.number?_ofInt]
    rfl
  | fuel + 1, .string s =>
    rw [chars, quoted_append, takeTree, skipSpaces_of_not (by decide)]
    simp only [takeString_quoted]
    rfl
  | fuel + 1, .object [] => rfl
  | fuel + 1, .object ((key, y) :: ms) =>
    have hlength : (memberChars (level + 1) [] ((key, y) :: ms)).length < fuel := by
      simp only [chars, List.length_append, List.length_cons] at hfuel
      omega
    have hmembers := takeMembers_memberChars key y ms (level + 1) level fuel rest hlength
    rw [← takeMembers_skipSpaces, skipSpaces_memberChars] at hmembers
    have hlayout : chars level (.object ((key, y) :: ms)) ++ rest =
        '{' :: (memberChars (level + 1) [] ((key, y) :: ms) ++ (newline level ++ '}' :: rest)) := by
      simp [chars]
    rw [hlayout, takeTree, skipSpaces_of_not (by decide)]
    simp only [skipSpaces_memberChars]
    calc _ = some (objectTree ((memberTrees ((key, y) :: ms)).map fun m => (some m.1, m.2)), rest) :=
          congrArg (Option.map fun (ms, rest) => (objectTree ms, rest)) hmembers
      _ = some (tree (.object ((key, y) :: ms)), rest) := by rw [objectTree_some, tree]
termination_by structural fuel

/-- Written members are read back as their trees, up to the closing brace. -/
theorem takeMembers_memberChars (key : String) (x : Outline) (ms : List (String × Outline))
    (level close fuel : Nat) (rest : List Char)
    (hfuel : (memberChars level [] ((key, x) :: ms)).length < fuel) :
    takeMembers fuel (memberChars level [] ((key, x) :: ms) ++ (newline close ++ '}' :: rest)) =
      some ((memberTrees ((key, x) :: ms)).map fun m => (some m.1, m.2), rest) := by
  match fuel with
  | 0 => exact absurd hfuel (Nat.not_lt_zero _)
  | fuel + 1 =>
    have hlength : (chars level x).length < fuel ∧ (memberChars level [','] ms).length < fuel := by
      simp only [memberChars, quoted, List.length_append, List.length_cons] at hfuel
      omega
    have hvalue := takeTree_chars x level fuel hlength.1
      (endsNumeral_memberChars level close ms ('}' :: rest))
    have hspace (cs : List Char) : takeTree fuel (' ' :: cs) = takeTree fuel cs := by
      rw [← takeTree_skipSpaces, ← takeTree_skipSpaces fuel cs]
      rfl
    rw [takeMembers, skipSpaces_memberChars]
    simp only [takeString_quoted, skipSpaces_of_not (show isSpace ':' = false by decide), hspace,
      hvalue]
    match ms with
    | [] =>
      simp only [memberChars, List.nil_append, skipSpaces_newline,
        skipSpaces_of_not (show isSpace '}' = false by decide)]
      rfl
    | (next, y) :: ms =>
      rw [memberChars_comma] at hlength ⊢
      have hlater : (memberChars level [] ((next, y) :: ms)).length < fuel := by
        have hcomma := hlength.2
        rw [List.length_cons] at hcomma
        omega
      rw [List.cons_append, skipSpaces_of_not (by decide)]
      simp only [takeMembers_memberChars next y ms level close fuel rest hlater]
      rfl
termination_by structural fuel

end

/-- A written text is read back as the tree of its content. -/
theorem Tree.read?_text (x : Outline) : Tree.read? x.text = some x.tree := by
  have hend : EndsNumeral [] := fun _ hc => nomatch hc
  have h := takeTree_chars x 0 _ (Nat.lt_succ_self _) hend
  rw [List.append_nil] at h
  simp only [Tree.read?, Tree.ofChars?, Outline.text, String.toList_ofList, h]
  rfl

end Milestone.Json
