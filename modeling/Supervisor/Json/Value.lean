import Supervisor.Number.Digits
import Supervisor.Text.Quoted

/-!
# JSON values and their compact text

A `Json.Numeral` keeps the digits of a number as they were written, since what a number stands for
depends on what it is read as. A string may have been written with half of a surrogate pair; it has
no text then, but is well formed as long as nobody asks for the text.

In the compact text nothing stands between the tokens, and a string escapes only the quote, the
backslash and the controls below U+0020.
-/

set_option autoImplicit false
set_option relaxedAutoImplicit false

namespace Supervisor

namespace Json

structure Exponent where
  sign : Option Char
  digits : List Char
deriving DecidableEq

structure Numeral where
  negative : Bool
  whole : List Char
  fraction : Option (List Char) := none
  exponent : Option Exponent := none
deriving DecidableEq

end Json

inductive Json
  | null
  | bool (value : Bool)
  | number (n : Json.Numeral)
  | string (text : Option String)
  | array (elements : List Json)
  | object (members : List (Option String × Json))

namespace Json

namespace Numeral

def ofInt (n : Int) : Numeral :=
  ⟨n < 0, Number.digits n.natAbs, none, none⟩

def text (n : Numeral) : List Char :=
  let fraction :=
    match n.fraction with
    | none => []
    | some ds => '.' :: ds
  let exponent :=
    match n.exponent with
    | none => []
    | some e => 'e' :: e.sign.toList ++ e.digits
  (if n.negative then ['-'] else []) ++ n.whole ++ fraction ++ exponent

end Numeral

def ofInt (n : Int) : Json :=
  .number (.ofInt n)

def ofText (s : String) : Json :=
  .string (some s)

def escapedChar (c : Char) : List Char :=
  if c = '"' ∨ c = '\\' then ['\\', c]
  else if c.toNat = 0x08 then ['\\', 'b']
  else if c = '\t' then ['\\', 't']
  else if c = '\n' then ['\\', 'n']
  else if c.toNat = 0x0c then ['\\', 'f']
  else if c = '\r' then ['\\', 'r']
  else if c.toNat < 0x20 then
    ['\\', 'u', '0', '0', Text.hexDigit (c.toNat / 16), Text.hexDigit c.toNat]
  else [c]

def stringText (s : String) : List Char :=
  '"' :: s.toList.flatMap escapedChar ++ ['"']

mutual

def text : Json → List Char
  | .null => ['n', 'u', 'l', 'l']
  | .bool true => ['t', 'r', 'u', 'e']
  | .bool false => ['f', 'a', 'l', 's', 'e']
  | .number n => n.text
  | .string s => stringText (s.getD "")
  | .array elements => '[' :: elementsText elements ++ [']']
  | .object members => '\x7b' :: membersText members ++ ['\x7d']

def elementsText : List Json → List Char
  | [] => []
  | [v] => v.text
  | v :: vs => v.text ++ ',' :: elementsText vs

def membersText : List (Option String × Json) → List Char
  | [] => []
  | [(key, v)] => stringText (key.getD "") ++ ':' :: v.text
  | (key, v) :: members => stringText (key.getD "") ++ ':' :: v.text ++ ',' :: membersText members

end

end Json

end Supervisor
