import Milestone.Binary64
import Milestone.Text.Numeral

/-!
# Numbers in JSON texts

A numeral of a JSON text and the number that it stands for. A numeral without fraction and exponent
stays a whole number where it fits a signed or an unsigned word of 64 bits. Any other is read as a
double in two steps: as many leading digits as an unsigned word of 64 bits holds, then one
multiplication or division by the power of ten that is left. A numeral beyond the greatest double
stands for no number.
-/

namespace Milestone.Json

/-- A number in a JSON text. -/
inductive Number where
  /-- A whole number that fits a signed or an unsigned word of 64 bits. -/
  | whole (n : Int)
  | double (x : Binary64)
  deriving DecidableEq

/-- A numeral as it is written: sign, digits before the point, digits after it, and the exponent with
its sign. -/
structure Numeral where
  negative : Bool
  whole : List Nat
  fraction : Option (List Nat)
  exponent : Option (Bool × List Nat)
  deriving DecidableEq

namespace Numeral

/-- The greatest number in an unsigned word of 64 bits. -/
def wordLimit : Nat := 18446744073709551615

/-- Appends digits to a number as long as it stays within a word; also the digits that are left. -/
def absorb (n : Nat) : List Nat → Nat × List Nat
  | [] => (n, [])
  | d :: ds => if n * 10 + d ≤ wordLimit then absorb (n * 10 + d) ds else (n, d :: ds)

/-- The value of a list of digits. -/
def ofDigits (ds : List Nat) : Nat :=
  ds.foldl (fun n d => n * 10 + d) 0

/-- Division by ten to the power 308 a number of times, as long as something is left. -/
def shrink : Nat → Binary64 → Binary64
  | 0, x => x
  | k + 1, x => if x.isZero then x else shrink k (x.div (.ofNat (Nat.pow 10 308)))

/-- A double times a power of ten, each step rounded; nothing beyond the greatest double. -/
def timesPowerOfTen (x : Binary64) (e : Int) : Option Binary64 :=
  if x.isZero then some x
  else if 308 < e then none
  else if 0 ≤ e then
    let y := x.mul (.ofNat (Nat.pow 10 e.toNat))
    if y.isInfinite then none else some y
  else
    let k := (-e).toNat
    let steps := (k - 1) / 308
    some ((shrink steps x).div (.ofNat (Nat.pow 10 (min 308 (k - 308 * steps)))))

/-- The double that a numeral with the given digits and decimal exponent stands for. -/
def double? (negative : Bool) (digits : Nat) (e : Int) : Option Number :=
  (timesPowerOfTen (.ofNat digits) e).map fun x => .double (if negative then x.neg else x)

/-- The number that a numeral stands for. -/
def number? (t : Numeral) : Option Number :=
  let (n, cut) := absorb 0 t.whole
  match t.fraction, t.exponent with
  | none, none =>
    if !cut.isEmpty then double? t.negative n cut.length
    else if !t.negative then some (.whole n)
    else if 0 < n ∧ n ≤ 9223372036854775808 then some (.whole (-n))
    else double? true n 0
  | _, _ =>
    let fraction := t.fraction.getD []
    let (m, cutFraction) := absorb n fraction
    let point : Int := (cut.length : Int) - (fraction.length - cutFraction.length : Nat)
    let shift : Int := match t.exponent with
      | none => 0
      | some (negative, ds) => if negative then -(ofDigits ds : Int) else ofDigits ds
    double? t.negative m (point + shift)

end Numeral

end Milestone.Json
