import Supervisor.Json.Value
import Supervisor.Number.Shortest

/-!
# What JSON numbers stand for

An integer is a number without fraction and exponent that fits 64 bits; `-0` is none. A single is
read through a binary64 value: the significand keeps the leading digits that fit 64 bits, one
multiplication or division by a rounded power of ten scales it, and the result is rounded once more.
Only an integer of 64 bits is rounded to a single at once. A number beyond the largest binary64
value is refused.

A single is written with its shortest digits, positionally when its first digit has an exponent from
-6 to 12, and otherwise with a signed exponent; a value that is not finite is written as null.
-/

set_option autoImplicit false
set_option relaxedAutoImplicit false

namespace Supervisor.Json

open Number (Single Scaled Format digitValue collectBelow?)

namespace Numeral

/-- Appends digits to a significand as long as it fits 64 bits, and gives the digits left over. -/
def absorb (significand : Nat) (ds : List Char) : Nat × List Char :=
  match ds with
  | [] => (significand, [])
  | d :: rest =>
    let longer := 10 * significand + digitValue d
    if longer < 2 ^ 64 then absorb longer rest else (significand, d :: rest)

def toInt? (n : Numeral) : Option Int :=
  if n.fraction.isNone && n.exponent.isNone then
    if n.negative then
      match collectBelow? (2 ^ 63 + 1) 0 n.whole with
      | some (value + 1) => some (Int.negSucc value)
      | _ => none
    else (collectBelow? (2 ^ 64) 0 n.whole).map fun value ↦ (value : Int)
  else none

/-- The binary64 value nearest to a natural. -/
def double (n : Nat) : Scaled :=
  (Format.binary64.nearest n 1).getD ⟨0, 0⟩

/-- Multiplies by ten to a power that may be negative. Powers have at most 308 zeros; a value with
more to go is brought down step by step, and four steps lead from any significand to zero. -/
def scaleTen (steps : Nat) (x : Scaled) (exponent : Int) : Option Scaled :=
  if exponent.natAbs ≤ 308 then
    let power := double (10 ^ exponent.natAbs)
    if 0 ≤ exponent then Format.binary64.product x power else Format.binary64.quotient x power
  else if x.m = 0 then some x
  else if 0 ≤ exponent then none
  else
    match steps with
    | 0 => some ⟨0, 0⟩
    | steps + 1 =>
      (Format.binary64.quotient x (double (10 ^ 308))).bind fun x ↦
        scaleTen steps x (exponent + 308)

/-- The value of the exponent, if it fits 32 bits. -/
def Exponent.value? (e : Exponent) : Option Int :=
  (collectBelow? (2 ^ 31) 0 e.digits).map fun value ↦
    if e.sign = some '-' then -(value : Int) else value

/-- Absolute value as a binary64. -/
def toDouble? (n : Numeral) : Option Scaled :=
  let (significand, left) := absorb 0 n.whole
  let fraction := n.fraction.getD []
  let (significand, unused) := absorb significand fraction
  let exponent : Int := (left.length : Int) - (fraction.length - unused.length : Nat)
  match n.exponent with
  | none => scaleTen 4 (double significand) exponent
  | some e =>
    match Exponent.value? e with
    | some value => scaleTen 4 (double significand) (exponent + value)
    | none =>
      if significand ≠ 0 ∧ e.sign ≠ some '-' then none else some ⟨0, 0⟩

def toSingle? (n : Numeral) : Option Single :=
  match n.toInt? with
  | some value =>
    some (.ofMagnitude n.negative (Format.binary32.nearest value.natAbs 1))
  | none =>
    n.toDouble?.map fun x ↦ .ofMagnitude n.negative (Format.binary32.nearest x.num x.den)

/-- The number that writes a finite single. -/
def ofSingle (x : Single) : Numeral :=
  if x.magnitude.m = 0 then ⟨x.isNegative, ['0'], some ['0'], none⟩
  else
    let (ds, exponent) := x.scientific
    if -6 ≤ exponent ∧ exponent ≤ 12 then
      if exponent < 0 then
        ⟨x.isNegative, ['0'], some (List.replicate (-exponent - 1).toNat '0' ++ ds), none⟩
      else
        let places := exponent.toNat + 1
        let whole := ds.take places ++ List.replicate (places - ds.length) '0'
        let fraction := ds.drop places
        ⟨x.isNegative, whole, some (if fraction.isEmpty then ['0'] else fraction), none⟩
    else
      let fraction := ds.drop 1
      let sign := if exponent < 0 then '-' else '+'
      ⟨x.isNegative, ds.take 1, if fraction.isEmpty then none else some fraction,
        some ⟨some sign, Number.digits exponent.natAbs⟩⟩

end Numeral

def ofSingle (x : Single) : Json :=
  if x.isFinite then .number (.ofSingle x) else .null

end Supervisor.Json
