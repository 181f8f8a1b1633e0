import Supervisor.Number.Digits

/-!
# Integers in text

An integer is a run of decimal digits, perhaps after a sign. Text for a signed word may start with
either sign, text for an unsigned word with a plus sign only. Leading zeros are allowed, and the
value has to fit the word.
-/

set_option autoImplicit false
set_option relaxedAutoImplicit false

namespace Supervisor.Number

/-- A natural below `bound`. -/
def readBelow? (bound : Nat) : List Char → Option Nat
  | '+' :: cs => ofDigitsBelow? bound cs
  | cs => ofDigitsBelow? bound cs

/-- An integer of at least `-bound` and below `bound`. -/
def readWithin? (bound : Nat) : List Char → Option Int
  | '-' :: cs => (ofDigitsBelow? (bound + 1) cs).map fun n : Nat ↦ -(n : Int)
  | cs => (readBelow? bound cs).map fun n : Nat ↦ (n : Int)

def int32? (n : Int) : Option Int32 :=
  if -2 ^ 31 ≤ n ∧ n < 2 ^ 31 then some (Int32.ofInt n) else none

def int16? (n : Int) : Option Int16 :=
  if -2 ^ 15 ≤ n ∧ n < 2 ^ 15 then some (Int16.ofInt n) else none

def readInt32? (cs : List Char) : Option Int32 :=
  (readWithin? (2 ^ 31) cs).map Int32.ofInt

def readUInt32? (cs : List Char) : Option UInt32 :=
  (readBelow? (2 ^ 32) cs).map UInt32.ofNat

/-- A count, which has to fit 64 bits. -/
def readCount? (cs : List Char) : Option Nat :=
  readBelow? (2 ^ 64) cs

end Supervisor.Number
