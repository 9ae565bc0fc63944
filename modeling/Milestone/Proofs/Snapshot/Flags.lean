import Mathlib.Algebra.Order.Field.Rat
import Mathlib.Tactic.NormNum
import Milestone.Snapshot.Lookup

/-!
# Flags of the game

Which values mark an advancement as done or an unlock as obtained. A flag is meant to be set by true, a number other
than zero, any text or object, or an array with items. Numbers are read as counters, though, and one with a fraction
stands for none. So a flag counts exactly if it is set and no such number: whole numbers count in any writing and
beyond the range of counters too, while 0.5 does not.
-/

namespace Milestone

/-! ## The numbers that doubles are -/

namespace Binary64

/-- The factor that the sign of a double stands for. -/
def sign (x : Binary64) : ℤ :=
  if x.negative then -1 else 1

/-- The number that a finite double is. -/
def value (x : Binary64) : ℚ :=
  x.sign * (x.parts.1 * 2 ^ x.parts.2)

theorem quotient_pos (x : Binary64) : 0 < x.quotient.2 := by
  unfold quotient
  dsimp only
  split
  · exact Nat.one_pos
  · exact Nat.pow_pos Nat.two_pos

/-- The magnitude is the quotient of its numerator and denominator. -/
theorem quotient_value (x : Binary64) :
    (x.quotient.1 : ℚ) / x.quotient.2 = x.parts.1 * 2 ^ x.parts.2 := by
  unfold quotient
  dsimp only
  split
  · rename_i he
    obtain ⟨e, he⟩ := Int.eq_ofNat_of_zero_le he
    rw [he]
    simp
  · rename_i he
    obtain ⟨e, he⟩ := Int.eq_ofNat_of_zero_le (show 0 ≤ -x.parts.2 by omega)
    rw [show x.parts.2 = -(e : ℤ) by omega]
    simp [div_eq_mul_inv]

/-- Whether a double is a given whole number is an equation between whole numbers. -/
theorem value_eq_iff {x : Binary64} {k : ℤ} :
    x.value = k ↔ (x.quotient.1 : ℤ) = x.sign * k * x.quotient.2 := by
  have hden : (x.quotient.2 : ℚ) ≠ 0 := by exact_mod_cast x.quotient_pos.ne'
  rw [value, ← quotient_value, ← Int.cast_inj (α := ℚ)]
  push_cast
  rw [← div_eq_iff hden]
  unfold sign
  split
  · push_cast
    rw [neg_one_mul, neg_one_mul, neg_eq_iff_eq_neg]
  · push_cast
    rw [one_mul, one_mul]

/-- A double is taken as a whole number exactly if it is that number. -/
theorem whole?_eq_some_iff {x : Binary64} {k : ℤ} : x.whole? = some k ↔ x.value = k := by
  have hpos : (x.quotient.2 : ℤ) ≠ 0 := by exact_mod_cast x.quotient_pos.ne'
  rw [value_eq_iff]
  unfold whole? sign
  dsimp only
  split
  · rename_i hmod
    have hnum : (x.quotient.1 : ℤ) = (x.quotient.1 / x.quotient.2 : ℕ) * x.quotient.2 := by
      exact_mod_cast (Nat.div_mul_cancel (Nat.dvd_of_mod_eq_zero hmod)).symm
    rw [hnum, Option.some.injEq, mul_left_inj' hpos]
    split <;> omega
  · rename_i hmod
    refine iff_of_false nofun fun hnum => hmod (Nat.mod_eq_zero_of_dvd ?_)
    exact Int.natCast_dvd_natCast.mp (Dvd.intro_left _ hnum.symm)

end Binary64

namespace Json

/-- The number that a number in a text is. -/
def Number.value : Number → ℚ
  | .whole n => n
  | .double x => x.value

/-- A number stands for a counter exactly if it is whole. -/
theorem Number.counter?_eq_some_iff {n : Number} {c : Counter} :
    n.counter? = some c ↔ ∃ k : ℤ, n.value = k ∧ c = .clamp k := by
  cases n with
  | whole n =>
    simp only [counter?, value, Option.some.injEq, Int.cast_inj, exists_eq_left', eq_comm]
  | double x =>
    simp only [counter?, value, Option.map_eq_some_iff, Binary64.whole?_eq_some_iff, eq_comm (a := c)]

namespace Value

/-- What is meant to set a flag: true, a number other than zero, any text or object, or an array with items. -/
def IsSet : Value → Prop
  | .null => False
  | .bool b => b = true
  | .number n => n.value ≠ 0
  | .string _ => True
  | .array items => items ≠ []
  | .object _ => True

/-- A number that is not whole. -/
def HasFraction : Value → Prop
  | .number n => ∀ k : ℤ, n.value ≠ k
  | _ => False

/-- A number with a fraction is not zero. -/
theorem HasFraction.isSet {v : Value} (h : v.HasFraction) : v.IsSet := by
  cases v with
  | number n => exact_mod_cast h 0
  | _ => exact h.elim

/-- A value is taken as a set flag exactly if it is one and has no fraction. -/
theorem isTruthy_iff (v : Value) : v.isTruthy = true ↔ v.IsSet ∧ ¬ v.HasFraction := by
  cases v with
  | number n =>
    -- no number other than zero becomes zero where it moves into the range of counters
    have hzero (k : ℤ) : Counter.clamp k ≠ 0 ↔ k ≠ 0 := by
      rw [Ne, Counter.ext_iff]
      simp only [Counter.clamp, Counter.least, Counter.greatest, Counter.value_zero]
      omega
    simp only [isTruthy, Option.any_eq_true, Number.counter?_eq_some_iff, IsSet, HasFraction, bne_iff_ne,
      not_forall, not_not]
    constructor
    · rintro ⟨c, ⟨k, hk, rfl⟩, hc⟩
      refine ⟨?_, k, hk⟩
      rw [hk]
      exact_mod_cast (hzero k).mp hc
    · rintro ⟨hset, k, hk⟩
      rw [hk] at hset
      exact ⟨_, ⟨k, hk, rfl⟩, (hzero k).mpr (by exact_mod_cast hset)⟩
  | array items => simp [isTruthy, IsSet, HasFraction]
  | _ => simp [isTruthy, IsSet, HasFraction]

end Value

end Json

open Json

/-- **A flag of the game counts exactly if it is set and no number with a fraction.** This holds of the mark of an
advancement in the later eras and of an unlock that is listed in an object. A number with a fraction is always one
that sets the flag and does not count. -/
theorem flags_count_iff (v : Value) {doc : Value} {name : String} :
    (∀ era entry, era = .hybrid ∨ era = .modern → doc.get? name = some entry → entry.get? "done" = some v →
      (Era.entryDone era doc name = true ↔ v.IsSet ∧ ¬ v.HasFraction)) ∧
    (∀ members, doc.get? "obtained" = some (.object members) → members.lookup name = some v →
      (isObtained doc name = true ↔ v.IsSet ∧ ¬ v.HasFraction)) ∧
    (v.HasFraction → v.IsSet) := by
  refine ⟨fun era entry hera hentry hdone => ?_, fun members hobtained hlookup => ?_, Value.HasFraction.isSet⟩
  · have hflag : Era.entryDone era doc name = v.isTruthy := by
      rcases hera with rfl | rfl <;> simp only [Era.entryDone, hentry, hdone, Option.any_some]
    rw [hflag, v.isTruthy_iff]
  · have hflag : isObtained doc name = v.isTruthy := by
      simp only [isObtained, hobtained, hlookup, Option.any_some]
    rw [hflag, v.isTruthy_iff]

/-- A number beyond the range of counters counts, and one that is written with a point but has no fraction. -/
theorem flags_count_iff_of_whole :
    let text := "\x7b\"a\":\x7b\"done\":18446744073709551615\x7d,\"obtained\":\x7b\"a\":-2.0\x7d\x7d"
    let done : Value := .number (.whole 18446744073709551615)
    let obtained : Value := .number (.double ⟨true, 0x4000000000000000⟩)
    let doc : Value := .object [("a", .object [("done", done)]), ("obtained", .object [("a", obtained)])]
    Document.read text = .ok doc ∧ Era.entryDone .modern doc "a" = true ∧ isObtained doc "a" = true := by
  intro text done obtained doc
  have hread : Document.read text = .ok doc := by decide +kernel
  have hdone : done.IsSet ∧ ¬ done.HasFraction := by
    refine ⟨by norm_num [done, Value.IsSet, Number.value], fun h => h 18446744073709551615 rfl⟩
  have hvalue : Number.value (.double ⟨true, 0x4000000000000000⟩) = (-2 : ℤ) :=
    Binary64.whole?_eq_some_iff.mp (by decide +kernel)
  have hobtained : obtained.IsSet ∧ ¬ obtained.HasFraction := by
    refine ⟨?_, fun h => h (-2) hvalue⟩
    change Number.value _ ≠ 0
    rw [hvalue]
    norm_num
  obtain ⟨hadvancement, -, -⟩ := @flags_count_iff done doc "a"
  obtain ⟨-, hunlock, -⟩ := @flags_count_iff obtained doc "a"
  exact ⟨hread, (hadvancement .modern (.object [("done", done)]) (.inr rfl) rfl rfl).mpr hdone,
    (hunlock [("a", obtained)] rfl rfl).mpr hobtained⟩

/-- One half is a number other than zero and sets neither flag. -/
theorem flags_of_half :
    let half : Value := .number (.double ⟨false, 0x3FE0000000000000⟩)
    let doc : Value := .object [("a", .object [("done", half)]), ("obtained", .object [("a", half)])]
    Document.read "\x7b\"a\":\x7b\"done\":0.5\x7d,\"obtained\":\x7b\"a\":0.5\x7d\x7d" = .ok doc ∧
      Number.value (.double ⟨false, 0x3FE0000000000000⟩) = 1 / 2 ∧ half.IsSet ∧
      Era.entryDone .hybrid doc "a" = false ∧ Era.entryDone .modern doc "a" = false ∧
      isObtained doc "a" = false := by
  intro half doc
  have hvalue : Number.value (.double ⟨false, 0x3FE0000000000000⟩) = 1 / 2 := by
    norm_num [Number.value, Binary64.value, Binary64.sign, Binary64.parts]
  refine ⟨by decide +kernel, hvalue, ?_, by decide +kernel, by decide +kernel, by decide +kernel⟩
  change Number.value _ ≠ 0
  rw [hvalue]
  norm_num

end Milestone
