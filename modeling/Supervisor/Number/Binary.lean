import Supervisor.Number.Power

/-!
# Binary floating point by exact arithmetic

A `Scaled` is `m * 2 ^ q`. A `Format` has a precision in bits and the exponents of its smallest and
largest unit in the last place; `Format.nearest` rounds a quotient of naturals to the nearest value
of the format, a half to the even neighbour, and has no answer beyond the largest value.
-/

set_option autoImplicit false
set_option relaxedAutoImplicit false

namespace Supervisor.Number

/-- `num / den` to the nearest integer, a half to the even one. -/
def roundHalfEven (num den : Nat) : Nat :=
  let quotient := num / den
  let remainder := num % den
  if 2 * remainder < den then quotient
  else if den < 2 * remainder then quotient + 1
  else quotient + quotient % 2

structure Scaled where
  m : Nat
  q : Int
deriving DecidableEq

namespace Scaled

def num (x : Scaled) : Nat :=
  x.m * 2 ^ x.q.toNat

def den (x : Scaled) : Nat :=
  2 ^ (-x.q).toNat

end Scaled

structure Format where
  precision : Nat
  lowest : Int
  highest : Int
deriving DecidableEq

namespace Format

def binary32 : Format := ⟨24, -149, 104⟩

def binary64 : Format := ⟨53, -1074, 971⟩

/-- Exponent of the leading bit of `num / den`. -/
def leadingExponent (num den : Nat) : Int :=
  let e : Int := (num.log2 : Int) - (den.log2 : Int)
  if num * 2 ^ (-e).toNat < den * 2 ^ e.toNat then e - 1 else e

def nearest (f : Format) (num den : Nat) : Option Scaled :=
  let q := max (leadingExponent num den - (f.precision - 1 : Nat)) f.lowest
  let m := roundHalfEven (num * 2 ^ (-q).toNat) (den * 2 ^ q.toNat)
  let x : Scaled := if m = 2 ^ f.precision then ⟨2 ^ (f.precision - 1), q + 1⟩ else ⟨m, q⟩
  if f.highest < x.q then none else some x

def product (f : Format) (x y : Scaled) : Option Scaled :=
  f.nearest (x.num * y.num) (x.den * y.den)

def quotient (f : Format) (x y : Scaled) : Option Scaled :=
  f.nearest (x.num * y.den) (x.den * y.num)

end Format

end Supervisor.Number
