import Supervisor.Number.Digits

/-!
# Spans of time and points in time

A `Duration` is a whole number of nanoseconds short of 2^64 seconds. An `Instant` counts the
nanoseconds since the clock was started; the clock shows instants before 2^63 seconds only, so a
span may lead out of its range, and then `Instant.after?` has no answer.
-/

set_option autoImplicit false
set_option relaxedAutoImplicit false

namespace Supervisor

def nanosPerSecond : Nat := 1000000000

structure Duration where
  nanos : Nat
  nanos_lt : nanos < 2 ^ 64 * nanosPerSecond := by decide
deriving DecidableEq

namespace Duration

def ofNanos? (nanos : Nat) : Option Duration :=
  if h : nanos < 2 ^ 64 * nanosPerSecond then some ⟨nanos, h⟩ else none

def ofSeconds (seconds : UInt64) : Duration :=
  ⟨seconds.toNat * nanosPerSecond,
    Nat.mul_lt_mul_of_pos_right seconds.toNat_lt (by decide)⟩

def zero : Duration := { nanos := 0 }

/-- Whole seconds. -/
def seconds (d : Duration) : UInt64 :=
  UInt64.ofNat (d.nanos / nanosPerSecond)

/-- Nanoseconds beyond the whole seconds. -/
def subsecond (d : Duration) : Nat :=
  d.nanos % nanosPerSecond

/-- `value / 10 ^ places` as a decimal, without zeros at the end of its fraction. -/
def decimal (value places : Nat) : List Char :=
  let fraction := Number.padded places (value % 10 ^ places)
  let kept := (fraction.reverse.dropWhile (· == '0')).reverse
  Number.digits (value / 10 ^ places) ++ (if kept.isEmpty then [] else '.' :: kept)

/-- The largest unit of s, ms, µs and ns that leaves a whole part, with the exact fraction. -/
def text (d : Duration) : String :=
  if nanosPerSecond ≤ d.nanos then String.ofList (decimal d.nanos 9) ++ "s"
  else if 1000000 ≤ d.nanos then String.ofList (decimal d.nanos 6) ++ "ms"
  else if 1000 ≤ d.nanos then String.ofList (decimal d.nanos 3) ++ "µs"
  else String.ofList (decimal d.nanos 0) ++ "ns"

end Duration

structure Instant where
  nanos : Nat
deriving DecidableEq

namespace Instant

instance : LE Instant := ⟨fun a b ↦ a.nanos ≤ b.nanos⟩

instance (a b : Instant) : Decidable (a ≤ b) := Nat.decLe a.nanos b.nanos

/-- The instant a span later, if the clock still shows it. -/
def after? (t : Instant) (d : Duration) : Option Instant :=
  if t.nanos + d.nanos < 2 ^ 63 * nanosPerSecond then some ⟨t.nanos + d.nanos⟩ else none

/-- The instant a span later on a clock without end. -/
def later (t : Instant) (d : Duration) : Instant :=
  ⟨t.nanos + d.nanos⟩

end Instant

end Supervisor
