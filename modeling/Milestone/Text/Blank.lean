/-!
# Blank characters

The characters with the Unicode property White_Space, and a text without the blanks at its two
ends. Main fact: what is left after dropping blanks does not start with one.
-/

namespace Milestone.Text

/-- Whether a character has the Unicode property White_Space. -/
def isBlank (c : Char) : Bool :=
  let n := c.toNat
  (0x09 ≤ n && n ≤ 0x0D) || n == 0x20 || n == 0x85 || n == 0xA0 || n == 0x1680 ||
    (0x2000 ≤ n && n ≤ 0x200A) || n == 0x2028 || n == 0x2029 || n == 0x202F || n == 0x205F ||
    n == 0x3000

/-- The characters from the first one that is not blank. -/
def dropBlanks (cs : List Char) : List Char :=
  cs.dropWhile isBlank

/-- The characters between the first and the last one that are not blank. -/
def trimmed (cs : List Char) : List Char :=
  (dropBlanks (dropBlanks cs).reverse).reverse

/-- A text without the blanks at its two ends. -/
def trim (s : String) : String :=
  String.ofList (trimmed s.toList)

/-- Whether a text holds nothing but blanks. -/
def isBlankText (s : String) : Bool :=
  s.toList.all isBlank

/-- What is left after dropping blanks is empty or starts with a character that is not blank. -/
theorem isBlank_head_dropBlanks {cs : List Char} {c : Char} {rest : List Char}
    (h : dropBlanks cs = c :: rest) : isBlank c = false := by
  induction cs with
  | nil => simp [dropBlanks] at h
  | cons d ds ih =>
    by_cases hd : isBlank d = true
    · exact ih (by simpa [dropBlanks, hd] using h)
    · simp only [Bool.not_eq_true] at hd
      simp only [dropBlanks, List.dropWhile_cons, hd] at h
      simp only [Bool.false_eq_true, if_false, List.cons.injEq] at h
      exact h.1 ▸ hd

end Milestone.Text
