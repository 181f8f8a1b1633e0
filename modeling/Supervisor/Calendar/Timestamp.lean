/-!
# Points of civil time

A `Timestamp` is a date of the Gregorian calendar and a time of day in UTC, to the nanosecond. The
second 60 stands for a leap second and may stand in any minute. Years run from `firstYear` to
`lastYear`. `Timestamp.atOffset?` turns a local reading into UTC.
-/

set_option autoImplicit false
set_option relaxedAutoImplicit false

namespace Supervisor.Calendar

def firstYear : Int := -262143
def lastYear : Int := 262142

def isLeapYear (year : Int) : Bool :=
  year % 4 == 0 && (year % 100 != 0 || year % 400 == 0)

def daysInMonth (year : Int) (month : Nat) : Nat :=
  match month with
  | 2 => if isLeapYear year then 29 else 28
  | 4 | 6 | 9 | 11 => 30
  | _ => 31

structure Date where
  year : Int
  month : Nat
  day : Nat
deriving DecidableEq

namespace Date

def Exists (d : Date) : Prop :=
  firstYear ≤ d.year ∧ d.year ≤ lastYear ∧ 1 ≤ d.month ∧ d.month ≤ 12 ∧
    1 ≤ d.day ∧ d.day ≤ daysInMonth d.year d.month

instance (d : Date) : Decidable d.Exists := by
  unfold Exists
  infer_instance

def next (d : Date) : Date :=
  if d.day < daysInMonth d.year d.month then { d with day := d.day + 1 }
  else if d.month < 12 then { d with month := d.month + 1, day := 1 }
  else ⟨d.year + 1, 1, 1⟩

def previous (d : Date) : Date :=
  if 1 < d.day then { d with day := d.day - 1 }
  else if 1 < d.month then
    { d with month := d.month - 1, day := daysInMonth d.year (d.month - 1) }
  else ⟨d.year - 1, 12, 31⟩

end Date

/-- A time of day. -/
structure Clock where
  hour : Nat
  minute : Nat
  second : Nat
  nanos : Nat
deriving DecidableEq

namespace Clock

def Exists (c : Clock) : Prop :=
  c.hour < 24 ∧ c.minute < 60 ∧ c.second ≤ 60 ∧ c.nanos < 1000000000

instance (c : Clock) : Decidable c.Exists := by
  unfold Exists
  infer_instance

end Clock

structure Timestamp where
  date : Date
  clock : Clock
  date_exists : date.Exists := by decide
  clock_exists : clock.Exists := by decide
deriving DecidableEq

namespace Timestamp

/-- Midnight at the start of 1970. -/
def epoch : Timestamp := { date := ⟨1970, 1, 1⟩, clock := ⟨0, 0, 0, 0⟩ }

def of? (date : Date) (clock : Clock) : Option Timestamp :=
  if hd : date.Exists then
    if hc : clock.Exists then some ⟨date, clock, hd, hc⟩ else none
  else none

/-- The UTC time of a reading on a clock that is `offset` minutes ahead of UTC, less than a day. -/
def atOffset? (date : Date) (clock : Clock) (offset : Int) : Option Timestamp :=
  if date.Exists ∧ clock.Exists then
    let minutes : Int := clock.hour * 60 + clock.minute - offset
    let ofDay (minutes : Int) : Clock :=
      { clock with hour := minutes.toNat / 60, minute := minutes.toNat % 60 }
    if minutes < 0 then of? date.previous (ofDay (minutes + 1440))
    else if minutes < 1440 then of? date (ofDay minutes)
    else of? date.next (ofDay (minutes - 1440))
  else none

theorem of?_eq_some (t : Timestamp) : of? t.date t.clock = some t := by
  rw [of?, dif_pos t.date_exists, dif_pos t.clock_exists]

end Timestamp

end Supervisor.Calendar
