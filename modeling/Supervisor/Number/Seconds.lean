import Supervisor.Clock
import Supervisor.Number.Binary

/-!
# Spans of time in text

A span is a decimal number of seconds: digits with a point anywhere among them, perhaps a plus sign
in front and a power of ten behind. It is rounded to the nearest binary64 value and that to the
nearest nanosecond. A number that rounds to zero in the first step is refused, and so is a span of
2^64 seconds or more.
-/

set_option autoImplicit false
set_option relaxedAutoImplicit false

namespace Supervisor.Number

/-- The digits before and after the point of a decimal and what follows. -/
def splitDecimal (cs : List Char) : List Char × List Char × List Char :=
  let whole := cs.takeWhile isDigit
  match cs.dropWhile isDigit with
  | '.' :: rest => (whole, rest.takeWhile isDigit, rest.dropWhile isDigit)
  | rest => (whole, [], rest)

/-- The value of an exponent. Digits that follow once it is 2^16 or more are passed over. -/
def exponentValue (ds : List Char) : Nat :=
  ds.foldl (fun n c ↦ if n < 2 ^ 16 then 10 * n + digitValue c else n) 0

def unsignedExponent? (ds : List Char) : Option Nat :=
  if ds ≠ [] ∧ ds.all isDigit = true then some (exponentValue ds) else none

def signedExponent? : List Char → Option Int
  | '-' :: ds => (unsignedExponent? ds).map fun n : Nat ↦ -(n : Int)
  | '+' :: ds => (unsignedExponent? ds).map fun n : Nat ↦ (n : Int)
  | ds => (unsignedExponent? ds).map fun n : Nat ↦ (n : Int)

/-- A power of ten, which may be left out. -/
def readExponent? : List Char → Option Int
  | [] => some 0
  | c :: cs => if c = 'e' ∨ c = 'E' then signedExponent? cs else none

/-- A decimal without a sign, as its digits from the first that is not zero and the power of ten of
the last. -/
def unsignedDecimal? (cs : List Char) : Option (List Char × Int) :=
  let (whole, fraction, rest) := splitDecimal cs
  if (whole ++ fraction).isEmpty then none
  else (readExponent? rest).map fun e ↦
    ((whole ++ fraction).dropWhile (· == '0'), e - fraction.length)

/-- A decimal without a minus sign. -/
def readDecimal? : List Char → Option (List Char × Int)
  | '+' :: cs => unsignedDecimal? cs
  | cs => unsignedDecimal? cs

/-- A decimal as a number and a power of ten. A number below 10^25 that is halfway between two
binary64 values has no more than 1100 digits, so of the digits after these it only matters whether
one is not zero. -/
def significand (ds : List Char) (e : Int) : Nat × Int :=
  match ds.drop 1100 with
  | [] => (ofDigits ds, e)
  | rest =>
    (10 * ofDigits (ds.take 1100) + (if rest.all (· == '0') then 0 else 1), e + rest.length - 1)

/-- A span of time. What has 26 digits before the point is too long, and what has 400 zeros behind
it rounds to zero. -/
def readSeconds? (cs : List Char) : Option Duration := do
  let (ds, e) ← readDecimal? cs
  if ds.isEmpty ∨ 25 < e + ds.length ∨ e + ds.length < -400 then none
  else
    let (n, e) := significand ds e
    let x ← Format.binary64.nearest (n * 10 ^ e.toNat) (10 ^ (-e).toNat)
    if x.m = 0 then none
    else Duration.ofNanos? (roundHalfEven (x.num * nanosPerSecond) x.den)

end Supervisor.Number
