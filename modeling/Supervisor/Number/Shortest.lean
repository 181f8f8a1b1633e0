import Supervisor.Number.Digits
import Supervisor.Number.Single

/-!
# The shortest decimal of a single

Of the decimals that round to a given single, the one with the fewest digits; of several the
nearest, and of two equally near the one whose last digit is even. Whether a decimal rounds to the
single is decided by exact comparison with the two ends of its rounding interval, which belong to it
when the significand is even.
-/

set_option autoImplicit false
set_option relaxedAutoImplicit false

namespace Supervisor.Number

/-- `digits * 10 ^ exponent`. -/
structure Decimal where
  digits : Nat
  exponent : Int
deriving DecidableEq

namespace Single

/-- Compares `a * 10 ^ i` with `n * 2 ^ j`. -/
def compareScaled (a : Nat) (i : Int) (n : Nat) (j : Int) : Ordering :=
  compare (a * 10 ^ i.toNat * 2 ^ (-j).toNat) (n * 2 ^ j.toNat * 10 ^ (-i).toNat)

/-- Whether a decimal rounds to the magnitude of `x`. Below a power of two the interval is half as
wide as above it. -/
def roundsTo (x : Single) (d : Decimal) : Bool :=
  let ⟨m, q⟩ := x.magnitude
  let narrow := x.fractionField = 0 ∧ 1 < x.exponentField
  let low := if narrow then 4 * m - 1 else 4 * m - 2
  let lowSide := compareScaled d.digits d.exponent low (q - 2)
  let highSide := compareScaled d.digits d.exponent (4 * m + 2) (q - 2)
  let closed := m % 2 = 0
  (lowSide = .gt ∨ (closed ∧ lowSide = .eq)) ∧ (highSide = .lt ∨ (closed ∧ highSide = .eq))

/-- The least `k` with `num / den < 10 ^ k`. -/
def scale (num den : Nat) : Int :=
  if den ≤ num then (digits (num / den)).length
  else
    let j := (digits (den / num)).length - 1
    if num * 10 ^ j = den then 1 - (j : Int) else -(j : Int)

/-- The decimal of `count` digits that rounds to `x`, nearest first. -/
def ofCount? (x : Single) (count : Nat) : Option Decimal :=
  let num := x.magnitude.num
  let den := x.magnitude.den
  let exponent := scale num den - count
  let gridNum := num * 10 ^ (-exponent).toNat
  let gridDen := den * 10 ^ exponent.toNat
  let below := gridNum / gridDen
  let nearer := roundHalfEven gridNum gridDen
  let farther := if nearer = below then below + 1 else below
  if x.roundsTo ⟨nearer, exponent⟩ then some ⟨nearer, exponent⟩
  else if x.roundsTo ⟨farther, exponent⟩ then some ⟨farther, exponent⟩
  else none

/-- The exact value, if no short decimal were found. -/
def exact (x : Single) : Decimal :=
  let ⟨m, q⟩ := x.magnitude
  if 0 ≤ q then ⟨m * 2 ^ q.toNat, 0⟩ else ⟨m * 5 ^ (-q).toNat, q⟩

def shortest (x : Single) : Decimal :=
  ((List.range 9).findSome? fun i ↦ x.ofCount? (i + 1)).getD x.exact

/-- Significant digits without zeros at the end, and the exponent of the first of them. -/
def scientific (x : Single) : List Char × Int :=
  let d := x.shortest
  let ds := digits d.digits
  let kept := (ds.reverse.dropWhile (· == '0')).reverse
  (kept, d.exponent + (ds.length - 1 : Nat))

end Single

end Supervisor.Number
