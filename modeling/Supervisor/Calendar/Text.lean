import Supervisor.Calendar.Timestamp
import Supervisor.Number.Digits
import Supervisor.Text.Blank

/-!
# Timestamps in text

A timestamp is written as date, `T`, time, a fraction of three, six or nine digits if it has one,
and `Z`. Years outside 0 to 9999 have a sign. The reader is more liberal: fields need no leading
zeros, blanks may stand before a field or a separator, the separator of date and time may be small
or a space, a fraction may have any number of digits of which nine count, and the zone is `Z`, `UTC`
or an offset of hours and minutes.
-/

set_option autoImplicit false
set_option relaxedAutoImplicit false

namespace Supervisor.Calendar

open Number (digits padded ofDigits collectBelow? isDigit)

def yearText (year : Int) : List Char :=
  if 0 ≤ year ∧ year ≤ 9999 then padded 4 year.toNat
  else
    let ds := digits year.natAbs
    (if year < 0 then '-' else '+') :: (List.replicate (4 - ds.length) '0' ++ ds)

def fractionText (nanos : Nat) : List Char :=
  if nanos = 0 then []
  else if nanos % 1000000 = 0 then '.' :: padded 3 (nanos / 1000000)
  else if nanos % 1000 = 0 then '.' :: padded 6 (nanos / 1000)
  else '.' :: padded 9 nanos

def Timestamp.text (t : Timestamp) : List Char :=
  yearText t.date.year ++ '-' :: padded 2 t.date.month ++ '-' :: padded 2 t.date.day ++
    'T' :: padded 2 t.clock.hour ++ ':' :: padded 2 t.clock.minute ++
    ':' :: padded 2 t.clock.second ++ fractionText t.clock.nanos ++ ['Z']

/-- The number that the digits at the front make, at least one and at most `most` digits, and the
rest. A number that does not fit 63 bits is refused. -/
def takeNumber? (most : Nat) (cs : List Char) : Option (Nat × List Char) :=
  let ds := (cs.take most).takeWhile isDigit
  if ds.isEmpty then none
  else (collectBelow? (2 ^ 63) 0 ds).map fun n ↦ (n, cs.drop ds.length)

/-- A field of one or two digits after blanks. -/
def takeField? (cs : List Char) : Option (Nat × List Char) :=
  takeNumber? 2 (Text.dropBlanks cs)

/-- A year of up to four digits, or of any number of digits after a sign. -/
def takeYear? (cs : List Char) : Option (Int × List Char) :=
  match Text.dropBlanks cs with
  | '-' :: cs => (takeNumber? cs.length cs).map fun (n, rest) ↦ (-(n : Int), rest)
  | '+' :: cs => (takeNumber? cs.length cs).map fun (n, rest) ↦ ((n : Int), rest)
  | cs => (takeNumber? 4 cs).map fun (n, rest) ↦ ((n : Int), rest)

/-- Blanks and then the given separator. -/
def skipSeparator? (separator : Char) (cs : List Char) : Option (List Char) :=
  match Text.dropBlanks cs with
  | c :: rest => if c = separator then some rest else none
  | [] => none

def takeDate? (cs : List Char) : Option (Date × List Char) := do
  let (year, cs) ← takeYear? cs
  let cs ← skipSeparator? '-' cs
  let (month, cs) ← takeField? cs
  let cs ← skipSeparator? '-' cs
  let (day, cs) ← takeField? cs
  return (⟨year, month, day⟩, cs)

/-- A fraction of a second in nanoseconds. -/
def takeFraction? (cs : List Char) : Option (Nat × List Char) :=
  match cs with
  | '.' :: cs =>
    let ds := (cs.take 9).takeWhile isDigit
    if ds.isEmpty then none
    else some (ofDigits ds * 10 ^ (9 - ds.length), (cs.drop ds.length).dropWhile isDigit)
  | cs => some (0, cs)

def takeClock? (cs : List Char) : Option (Clock × List Char) := do
  let (hour, cs) ← takeField? cs
  let cs ← skipSeparator? ':' cs
  let (minute, cs) ← takeField? cs
  let cs ← skipSeparator? ':' cs
  let (second, cs) ← takeField? cs
  let (nanos, cs) ← takeFraction? cs
  return (⟨hour, minute, second, nanos⟩, cs)

/-- Two digits for hours, colons or blanks, two digits for minutes. -/
def takeOffset? (cs : List Char) : Option (Int × List Char) :=
  match cs with
  | h₁ :: h₂ :: cs =>
    if isDigit h₁ && isDigit h₂ then
      match cs.dropWhile fun c ↦ c == ':' || Text.isBlank c with
      | m₁ :: m₂ :: cs =>
        let hours := ofDigits [h₁, h₂]
        let minutes := ofDigits [m₁, m₂]
        if isDigit m₁ && isDigit m₂ && minutes < 60 && hours < 24 then
          some ((hours * 60 + minutes : Nat), cs)
        else none
      | _ => none
    else none
  | _ => none

/-- The zone, as minutes ahead of UTC. -/
def takeZone? (cs : List Char) : Option (Int × List Char) :=
  match cs with
  | 'Z' :: cs | 'z' :: cs => some (0, cs)
  | '+' :: cs => takeOffset? cs
  | '-' :: cs | '−' :: cs => (takeOffset? cs).map fun (minutes, rest) ↦ (-minutes, rest)
  | cs => if (cs.take 3).map Char.toUpper = ['U', 'T', 'C'] then some (0, cs.drop 3) else none

def Timestamp.read? (cs : List Char) : Option Timestamp := do
  let (date, cs) ← takeDate? cs
  let cs ←
    match cs with
    | 'T' :: cs | 't' :: cs | ' ' :: cs => some cs
    | _ => none
  let (clock, cs) ← takeClock? cs
  let (offset, cs) ← takeZone? (Text.dropBlanks cs)
  if (Text.dropBlanks cs).isEmpty then Timestamp.atOffset? date clock offset else none

end Supervisor.Calendar
