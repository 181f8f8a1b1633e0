import Supervisor.Json.Value

/-!
# Reading JSON

`Json.read?` reads one value with blanks around it and refuses anything else after it. Numbers have
no leading zeros and digits on both sides of a point, strings hold no bare control characters. The
fuel of the inner functions only has to exceed twice the length of the text, since every second call
consumes a character.
-/

set_option autoImplicit false
set_option relaxedAutoImplicit false

namespace Supervisor.Json

open Number (isDigit)

def skipBlanks (cs : List Char) : List Char :=
  cs.dropWhile fun c ↦ c = ' ' ∨ c = '\t' ∨ c = '\n' ∨ c = '\r'

/-- A nonempty run of digits and the rest. -/
def takeDigits? (cs : List Char) : Option (List Char × List Char) :=
  match cs.takeWhile isDigit with
  | [] => none
  | ds => some (ds, cs.dropWhile isDigit)

def takeWhole? (cs : List Char) : Option (List Char × List Char) :=
  match cs with
  | '0' :: rest => some (['0'], rest)
  | _ => takeDigits? cs

def takeFraction? (cs : List Char) : Option (Option (List Char) × List Char) :=
  match cs with
  | '.' :: rest => (takeDigits? rest).map fun (ds, rest) ↦ (some ds, rest)
  | _ => some (none, cs)

def takeExponent? (cs : List Char) : Option (Option Exponent × List Char) :=
  match cs with
  | c :: rest =>
    if c = 'e' ∨ c = 'E' then
      let (sign, rest) : Option Char × List Char :=
        match rest with
        | '+' :: rest => (some '+', rest)
        | '-' :: rest => (some '-', rest)
        | _ => (none, rest)
      (takeDigits? rest).map fun (ds, rest) ↦ (some ⟨sign, ds⟩, rest)
    else some (none, cs)
  | [] => some (none, [])

def takeNumber? (cs : List Char) : Option (Numeral × List Char) := do
  let (negative, cs) : Bool × List Char :=
    match cs with
    | '-' :: rest => (true, rest)
    | _ => (false, cs)
  let (whole, cs) ← takeWhole? cs
  let (fraction, cs) ← takeFraction? cs
  let (exponent, cs) ← takeExponent? cs
  return (⟨negative, whole, fraction, exponent⟩, cs)

def hexValue? (c : Char) : Option Nat :=
  let n := c.toNat
  if 48 ≤ n ∧ n ≤ 57 then some (n - 48)
  else if 97 ≤ n ∧ n ≤ 102 then some (n - 87)
  else if 65 ≤ n ∧ n ≤ 70 then some (n - 55)
  else none

/-- What a written string is made of: characters, and sixteen-bit units given by number. -/
inductive Piece
  | char (c : Char)
  | unit (n : Nat)
deriving DecidableEq

def escape? : Char → Option Piece
  | '"' => some (.char '"')
  | '\\' => some (.char '\\')
  | '/' => some (.char '/')
  | 'b' => some (.char (Char.ofNat 0x08))
  | 'f' => some (.char (Char.ofNat 0x0c))
  | 'n' => some (.char '\n')
  | 'r' => some (.char '\r')
  | 't' => some (.char '\t')
  | _ => none

/-- The pieces up to the closing quote, and what follows it. -/
def takePieces? : List Char → Option (List Piece × List Char)
  | '"' :: rest => some ([], rest)
  | '\\' :: 'u' :: a :: b :: c :: d :: rest => do
    let n := (← hexValue? a) * 4096 + (← hexValue? b) * 256 + (← hexValue? c) * 16 + (← hexValue? d)
    let (pieces, rest) ← takePieces? rest
    return (.unit n :: pieces, rest)
  | '\\' :: c :: rest => do
    let piece ← escape? c
    let (pieces, rest) ← takePieces? rest
    return (piece :: pieces, rest)
  | c :: rest =>
    if c.toNat < 0x20 ∨ c = '\\' then none
    else (takePieces? rest).map fun (pieces, rest) ↦ (.char c :: pieces, rest)
  | [] => none

/-- The characters of the pieces. Units above U+D7FF and below U+E000 have to come in pairs. -/
def charsOf? : List Piece → Option (List Char)
  | [] => some []
  | .char c :: rest => (charsOf? rest).map (c :: ·)
  | .unit high :: .unit low :: rest =>
    if 0xd800 ≤ high ∧ high < 0xdc00 then
      if 0xdc00 ≤ low ∧ low < 0xe000 then
        (charsOf? rest).map (Char.ofNat (0x10000 + (high - 0xd800) * 1024 + (low - 0xdc00)) :: ·)
      else none
    else if 0xdc00 ≤ high ∧ high < 0xe000 then none
    else (charsOf? (.unit low :: rest)).map (Char.ofNat high :: ·)
  | .unit n :: rest =>
    if 0xd800 ≤ n ∧ n < 0xe000 then none else (charsOf? rest).map (Char.ofNat n :: ·)

/-- A string after its opening quote. -/
def takeString? (cs : List Char) : Option (Option String × List Char) :=
  (takePieces? cs).map fun (pieces, rest) ↦ ((charsOf? pieces).map String.ofList, rest)

def takeWord? (word : String) (value : Json) (cs : List Char) : Option (Json × List Char) :=
  if word.toList.isPrefixOf cs then some (value, cs.drop word.length) else none

mutual

def takeValue? (fuel : Nat) (cs : List Char) : Option (Json × List Char) :=
  match fuel with
  | 0 => none
  | fuel + 1 =>
    match skipBlanks cs with
    | '"' :: rest => (takeString? rest).map fun (s, rest) ↦ (.string s, rest)
    | '[' :: rest =>
      match skipBlanks rest with
      | ']' :: rest => some (.array [], rest)
      | rest => (takeElements? fuel rest).map fun (vs, rest) ↦ (.array vs, rest)
    | '\x7b' :: rest =>
      match skipBlanks rest with
      | '\x7d' :: rest => some (.object [], rest)
      | rest => (takeMembers? fuel rest).map fun (ms, rest) ↦ (.object ms, rest)
    | 'n' :: rest => takeWord? "null" .null ('n' :: rest)
    | 't' :: rest => takeWord? "true" (.bool true) ('t' :: rest)
    | 'f' :: rest => takeWord? "false" (.bool false) ('f' :: rest)
    | rest => (takeNumber? rest).map fun (n, rest) ↦ (.number n, rest)

def takeElements? (fuel : Nat) (cs : List Char) : Option (List Json × List Char) :=
  match fuel with
  | 0 => none
  | fuel + 1 => do
    let (v, rest) ← takeValue? fuel cs
    match skipBlanks rest with
    | ',' :: rest =>
      let (vs, rest) ← takeElements? fuel rest
      return (v :: vs, rest)
    | ']' :: rest => return ([v], rest)
    | _ => none

def takeMembers? (fuel : Nat) (cs : List Char) : Option (List (Option String × Json) × List Char) :=
  match fuel with
  | 0 => none
  | fuel + 1 => do
    match skipBlanks cs with
    | '"' :: rest =>
      let (key, rest) ← takeString? rest
      match skipBlanks rest with
      | ':' :: rest =>
        let (v, rest) ← takeValue? fuel rest
        match skipBlanks rest with
        | ',' :: rest =>
          let (ms, rest) ← takeMembers? fuel rest
          return ((key, v) :: ms, rest)
        | '\x7d' :: rest => return ([(key, v)], rest)
        | _ => none
      | _ => none
    | _ => none

end

def read? (cs : List Char) : Option Json :=
  match takeValue? (2 * cs.length + 2) cs with
  | some (v, rest) => if (skipBlanks rest).isEmpty then some v else none
  | none => none

end Supervisor.Json
