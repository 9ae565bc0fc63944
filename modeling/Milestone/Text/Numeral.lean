/-!
# Decimal numerals

Reading and writing whole numbers in decimal digits. A numeral may carry leading zeros; a sign is
accepted only where the reader says so. Main facts: every number is read back from its digits, and
every whole number from its signed digits.
-/

namespace Milestone.Text

/-- The decimal digits of a number, without leading zeros. -/
def digits (n : Nat) : List Char :=
  Nat.toDigits 10 n

/-- The number that a list of decimal digits stands for; nothing for an empty list or another
character. -/
def natural? (cs : List Char) : Option Nat :=
  if !cs.isEmpty && cs.all Char.isDigit then some (Nat.ofDigitChars 10 cs 0) else none

/-- A number of at most `limit`, written with an optional plus sign. -/
def unsigned? (limit : Nat) (cs : List Char) : Option Nat :=
  let body := match cs with
    | '+' :: rest => rest
    | _ => cs
  (natural? body).filter (· ≤ limit)

/-- A whole number with an optional sign. -/
def integer? (cs : List Char) : Option Int :=
  match cs with
  | '-' :: rest => (natural? rest).map fun n : Nat => -(n : Int)
  | '+' :: rest => (natural? rest).map fun n : Nat => (n : Int)
  | _ => (natural? cs).map fun n : Nat => (n : Int)

/-- The digits of a whole number, after a minus sign where it is negative. -/
def signedDigits (n : Int) : List Char :=
  if n < 0 then '-' :: digits n.natAbs else digits n.natAbs

/-- A number in at least `width` digits, with zeros in front. -/
def padded (width n : Nat) : List Char :=
  let ds := digits n
  List.replicate (width - ds.length) '0' ++ ds

/-- A number has a digit. -/
theorem digits_ne_nil (n : Nat) : digits n ≠ [] :=
  Nat.toDigits_ne_nil

/-- The digits of a number are digits. -/
theorem isDigit_of_mem_digits {n : Nat} {c : Char} (h : c ∈ digits n) : c.isDigit = true :=
  Nat.isDigit_of_mem_toDigits (by decide) (by decide) h

/-- A number is read back from its digits. -/
@[simp] theorem natural?_digits (n : Nat) : natural? (digits n) = some n := by
  have hne : (digits n).isEmpty = false := List.isEmpty_eq_false_iff.mpr (digits_ne_nil n)
  have hall : (digits n).all Char.isDigit = true :=
    List.all_eq_true.mpr fun _ hc => isDigit_of_mem_digits hc
  have hval : Nat.ofDigitChars 10 (digits n) 0 = n :=
    Nat.ofDigitChars_toDigits (by decide) (by decide)
  simp only [natural?, hne, hall, hval, Bool.not_false, Bool.and_self, if_true]

/-- A whole number is read back from its signed digits. -/
@[simp] theorem integer?_signedDigits (n : Int) : integer? (signedDigits n) = some n := by
  unfold signedDigits
  split
  · rename_i h
    have hv : -((n.natAbs : Nat) : Int) = n := by omega
    change (natural? (digits n.natAbs)).map (fun k : Nat => -(k : Int)) = some n
    rw [natural?_digits, Option.map_some, hv]
  · rename_i h
    have hv : ((n.natAbs : Nat) : Int) = n := by omega
    cases hd : digits n.natAbs with
    | nil => exact absurd hd (digits_ne_nil _)
    | cons c cs =>
      have hc : c.isDigit = true := isDigit_of_mem_digits (hd ▸ List.mem_cons_self)
      have hr : natural? (c :: cs) = some n.natAbs := hd ▸ natural?_digits _
      unfold integer?
      split
      · rename_i heq; injection heq with h1 _; subst h1; exact absurd hc (by decide)
      · rename_i heq; injection heq with h1 _; subst h1; exact absurd hc (by decide)
      · rw [hr]; simp [hv]

end Milestone.Text
