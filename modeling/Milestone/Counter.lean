/-!
# Counters

A counter is a whole number that a signed word of 64 bits holds. Sums and differences that leave
that range stop at its nearer end. Main facts: the value of a sum or difference is the exact one
moved into the range, and an exact value already inside is kept.
-/

namespace Milestone

/-- A whole number from `-2^63` up to `2^63 - 1`. -/
structure Counter where
  value : Int
  lower : -9223372036854775808 ≤ value
  upper : value ≤ 9223372036854775807
  deriving DecidableEq

namespace Counter

/-- The least counter. -/
def least : Int := -9223372036854775808

/-- The greatest counter. -/
def greatest : Int := 9223372036854775807

/-- Two counters of one value are the same. -/
@[ext] theorem ext {a b : Counter} (h : a.value = b.value) : a = b := by
  cases a; cases b; simp_all

/-- The counter nearest to a whole number. -/
def clamp (n : Int) : Counter where
  value := max least (min greatest n)
  lower := by simp only [least]; omega
  upper := by simp only [least, greatest]; omega

/-- The counter of a whole number that is in range. -/
def ofInt? (n : Int) : Option Counter :=
  if h : -9223372036854775808 ≤ n ∧ n ≤ 9223372036854775807 then some ⟨n, h.1, h.2⟩ else none

instance : OfNat Counter n where
  ofNat := clamp n

instance : Inhabited Counter where
  default := 0

instance : LE Counter where
  le a b := a.value ≤ b.value

instance : LT Counter where
  lt a b := a.value < b.value

instance (a b : Counter) : Decidable (a ≤ b) :=
  inferInstanceAs (Decidable (a.value ≤ b.value))

instance (a b : Counter) : Decidable (a < b) :=
  inferInstanceAs (Decidable (a.value < b.value))

/-- The sum, stopped at the ends of the range. -/
def add (a b : Counter) : Counter :=
  clamp (a.value + b.value)

/-- The difference, stopped at the ends of the range. -/
def sub (a b : Counter) : Counter :=
  clamp (a.value - b.value)

instance : Add Counter where
  add := add

instance : Sub Counter where
  sub := sub

/-- The counter, or zero in place of a negative one. -/
def nonNegative (a : Counter) : Counter :=
  if a < 0 then 0 else a

/-- One for an earned mark, zero otherwise. -/
def ofFlag (flag : Bool) : Counter :=
  if flag then 1 else 0

/-- Counters are compared by their values. -/
theorem le_def {a b : Counter} : a ≤ b ↔ a.value ≤ b.value := Iff.rfl

theorem lt_def {a b : Counter} : a < b ↔ a.value < b.value := Iff.rfl

/-- A number in range is its own nearest counter. -/
theorem value_clamp {n : Int} (hl : -9223372036854775808 ≤ n) (hu : n ≤ 9223372036854775807) :
    (clamp n).value = n := by
  simp only [clamp, least, greatest]; omega

/-- A counter is the nearest one to its own value. -/
@[simp] theorem clamp_value (a : Counter) : clamp a.value = a :=
  ext (value_clamp a.lower a.upper)

/-- The value of a counter has that counter. -/
@[simp] theorem ofInt?_value (a : Counter) : ofInt? a.value = some a := by
  simp [ofInt?, a.lower, a.upper]

/-- A whole number has a counter exactly if it is the value of one. -/
theorem ofInt?_eq_some_iff {k : Int} {n : Counter} : ofInt? k = some n ↔ n.value = k := by
  constructor
  · intro h
    unfold ofInt? at h
    split at h
    · cases h
      rfl
    · cases h
  · rintro rfl
    exact ofInt?_value n

@[simp] theorem value_zero : (0 : Counter).value = 0 := rfl

@[simp] theorem value_one : (1 : Counter).value = 1 := rfl

/-- A sum is the exact one moved into the range. -/
theorem value_add (a b : Counter) : (a + b).value = max least (min greatest (a.value + b.value)) :=
  rfl

/-- A difference is the exact one moved into the range. -/
theorem value_sub (a b : Counter) : (a - b).value = max least (min greatest (a.value - b.value)) :=
  rfl

/-- A count that is not let below zero is the larger one of zero and its value. -/
theorem value_nonNegative (a : Counter) : a.nonNegative.value = max 0 a.value := by
  unfold nonNegative
  split <;> rename_i h <;> simp only [lt_def, value_zero] at h ⊢ <;> omega

end Counter

end Milestone
