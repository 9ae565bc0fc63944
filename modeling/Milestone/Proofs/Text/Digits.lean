import Milestone.Text.Numeral

/-!
# Digits of numbers

How many digits a number has and which one it starts with. Main facts: only zero starts with a zero, and a
number that fits a width is written in exactly that width and read back from it.
-/

namespace Milestone.Text

/-- The digits of a number other than zero start with another digit than zero. -/
theorem exists_digits_eq_cons {n : Nat} (h : 0 < n) : ∃ c cs, digits n = c :: cs ∧ c ≠ '0' := by
  induction n using Nat.strongRecOn with
  | ind n ih =>
    rw [digits, Nat.toDigits_eq_if (by decide)]
    split
    · rename_i hlt
      have hdigit : ∀ d < 10, 0 < d → d.digitChar ≠ '0' := by decide
      exact ⟨_, _, rfl, hdigit n hlt h⟩
    · obtain ⟨c, cs, hdigits, hc⟩ := ih (n / 10) (by omega) (by omega)
      refine ⟨c, cs ++ [(n % 10).digitChar], ?_, hc⟩
      rw [← digits, hdigits, List.cons_append]

/-- The signed digits of a number start with a digit or a minus sign. -/
theorem exists_signedDigits_eq_cons (n : Int) :
    ∃ c cs, signedDigits n = c :: cs ∧ (c = '-' ∨ c.isDigit = true) := by
  by_cases hn : n < 0
  · exact ⟨'-', digits n.natAbs, if_pos hn, .inl rfl⟩
  · obtain ⟨c, cs, hdigits⟩ := List.exists_cons_of_ne_nil (digits_ne_nil n.natAbs)
    have hc : c.isDigit = true := isDigit_of_mem_digits (hdigits ▸ List.mem_cons_self)
    exact ⟨c, cs, (if_neg hn).trans hdigits, .inr hc⟩

/-- A padded number has digits only. -/
theorem isDigit_of_mem_padded {width n : Nat} {c : Char} (h : c ∈ padded width n) :
    c.isDigit = true := by
  rcases List.mem_append.mp h with h | h
  · rw [(List.mem_replicate.mp h).2]
    rfl
  · exact isDigit_of_mem_digits h

/-- A padded number has a digit. -/
theorem padded_ne_nil (width n : Nat) : padded width n ≠ [] := fun h =>
  digits_ne_nil n (List.append_eq_nil_iff.mp h).2

/-- A number whose digits fit the width takes exactly the width. -/
theorem length_padded {width n : Nat} (h : (digits n).length ≤ width) :
    (padded width n).length = width := by
  rw [padded, List.length_append, List.length_replicate]
  omega

/-- A number is read back from its padded digits. -/
theorem ofDigitChars_padded (width n : Nat) : Nat.ofDigitChars 10 (padded width n) 0 = n := by
  rw [padded, Nat.ofDigitChars_append, Nat.ofDigitChars_replicate_zero, Nat.mul_zero]
  exact Nat.ofDigitChars_toDigits (by decide) (by decide)

end Milestone.Text
