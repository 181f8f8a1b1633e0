import Supervisor.Number.Binary

/-!
# Single precision

A `Single` is the 32 bits of a floating-point number: a sign, eight bits of exponent and
twenty-three of fraction. The bits are kept as they are, so that two values that are not numbers may
still differ.
-/

set_option autoImplicit false
set_option relaxedAutoImplicit false

namespace Supervisor.Number

structure Single where
  bits : UInt32
deriving DecidableEq

namespace Single

def zero : Single := ⟨0⟩

def isNegative (x : Single) : Bool :=
  2 ^ 31 ≤ x.bits.toNat

def exponentField (x : Single) : Nat :=
  x.bits.toNat / 2 ^ 23 % 2 ^ 8

def fractionField (x : Single) : Nat :=
  x.bits.toNat % 2 ^ 23

def isFinite (x : Single) : Bool :=
  x.exponentField ≠ 255

/-- Absolute value of a finite number. -/
def magnitude (x : Single) : Scaled :=
  if x.exponentField = 0 then ⟨x.fractionField, -149⟩
  else ⟨2 ^ 23 + x.fractionField, (x.exponentField : Int) - 150⟩

/-- The number with the given sign and magnitude, which `Format.binary32` rounds to. No magnitude is
infinity. -/
def ofMagnitude (negative : Bool) (x : Option Scaled) : Single :=
  let magnitude :=
    match x with
    | none => 255 * 2 ^ 23
    | some ⟨m, q⟩ => if m < 2 ^ 23 then m else (q + 150).toNat * 2 ^ 23 + (m - 2 ^ 23)
  ⟨UInt32.ofNat (magnitude + if negative then 2 ^ 31 else 0)⟩

end Single

end Supervisor.Number
