/-!
# Double precision numbers

A double precision number without the not-a-number values: a sign and the place of its magnitude
among the magnitudes in increasing order, which is also the lower 63 bits of its interchange form.
Every operation is exact arithmetic on natural numbers followed by one rounding to the nearest
number, a tie going to the even place.
-/

namespace Milestone

/-- A double, by its sign and the place of its magnitude in increasing order; the last place is
infinity. -/
structure Binary64 where
  negative : Bool
  place : Nat
  deriving DecidableEq

namespace Binary64

/-- The place of infinity. -/
def infinityPlace : Nat := 0x7FF0000000000000

/-- The quotient rounded to the nearest whole number, a tie going to the even one. -/
def nearestQuotient (num den : Nat) : Nat :=
  let q := num / den
  let r := num % den
  if 2 * r < den then q else if den < 2 * r then q + 1 else q + q % 2

/-- The quotient `num / den` divided by `2 ^ e`, as numerator and denominator. -/
def scaled (num den : Nat) (e : Int) : Nat × Nat :=
  if 0 ≤ e then (num, den * Nat.pow 2 e.toNat) else (num * Nat.pow 2 (-e).toNat, den)

/-- The greatest `k` with `2 ^ k ≤ num / den`. -/
def floorLog (num den : Nat) : Int :=
  let k : Int := (num.log2 : Int) - den.log2
  let (n, d) := scaled num den k
  if n < d then k - 1 else k

/-- The double nearest to `num / den` with the given sign. -/
def ofQuotient (negative : Bool) (num den : Nat) : Binary64 :=
  if num = 0 then ⟨negative, 0⟩
  else
    let e := max (-1074) (floorLog num den - 52)
    let (n, d) := scaled num den e
    ⟨negative, min infinityPlace ((e + 1074).toNat * Nat.pow 2 52 + nearestQuotient n d)⟩

/-- The double nearest to a natural number. -/
def ofNat (n : Nat) : Binary64 :=
  ofQuotient false n 1

/-- Positive zero. -/
def zero : Binary64 := ⟨false, 0⟩

instance : Inhabited Binary64 where
  default := zero

/-- The mantissa and the exponent of two that make up the magnitude. -/
def parts (x : Binary64) : Nat × Int :=
  let unit := Nat.pow 2 52
  if x.place < unit then (x.place, -1074)
  else (unit + x.place % unit, (x.place / unit : Nat) - 1075)

/-- The magnitude of a finite double as numerator and denominator. -/
def quotient (x : Binary64) : Nat × Nat :=
  let (m, e) := x.parts
  if 0 ≤ e then (m * Nat.pow 2 e.toNat, 1) else (m, Nat.pow 2 (-e).toNat)

def isZero (x : Binary64) : Bool :=
  x.place == 0

def isInfinite (x : Binary64) : Bool :=
  infinityPlace ≤ x.place

/-- The number with the opposite sign. -/
def neg (x : Binary64) : Binary64 :=
  ⟨!x.negative, x.place⟩

/-- The rounded product of two finite doubles. -/
def mul (x y : Binary64) : Binary64 :=
  let (a, b) := x.quotient
  let (c, d) := y.quotient
  ofQuotient (x.negative != y.negative) (a * c) (b * d)

/-- The rounded quotient of two finite doubles, the second not zero. -/
def div (x y : Binary64) : Binary64 :=
  let (a, b) := x.quotient
  let (c, d) := y.quotient
  ofQuotient (x.negative != y.negative) (a * d) (b * c)

/-- The whole number that a finite double is, if it is one. -/
def whole? (x : Binary64) : Option Int :=
  let (n, d) := x.quotient
  if n % d = 0 then
    let magnitude : Int := (n / d : Nat)
    some (if x.negative then -magnitude else magnitude)
  else none

/-- The 64 bits of the interchange form. -/
def bits (x : Binary64) : Nat :=
  (if x.negative then Nat.pow 2 63 else 0) + x.place

/-- The magnitude of a finite double with the given number of decimals, rounded to the nearest and a
tie to the even one, after a minus sign where the number is negative. -/
def fixed (places : Nat) (x : Binary64) : String :=
  let (n, d) := x.quotient
  let unit := Nat.pow 10 places
  let hundredths := nearestQuotient (n * unit) d
  let whole := toString (hundredths / unit)
  let rest := (toString (hundredths % unit)).toList
  let decimals := String.ofList (List.replicate (places - rest.length) '0' ++ rest)
  (if x.negative then "-" else "") ++ whole ++ (if places = 0 then "" else "." ++ decimals)

end Binary64

end Milestone
