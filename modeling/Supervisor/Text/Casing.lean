/-!
# Letter case for comparison with plain names

Names of signals and policies are plain ASCII. A text in any case can spell such a name only if the
case form of each of its characters is ASCII. For capitals that holds of the ASCII letters and of
the ten other characters of `capitalForm`, for small letters of the ASCII letters and U+212A. Any
other character is left as it is: its case form is not wholly ASCII, so no plain name can match
either way.
-/

set_option autoImplicit false
set_option relaxedAutoImplicit false

namespace Supervisor.Text

def capitalForm (c : Char) : List Char :=
  match c.toNat with
  | 0xdf => ['S', 'S']
  | 0x131 => ['I']
  | 0x17f => ['S']
  | 0xfb00 => ['F', 'F']
  | 0xfb01 => ['F', 'I']
  | 0xfb02 => ['F', 'L']
  | 0xfb03 => ['F', 'F', 'I']
  | 0xfb04 => ['F', 'F', 'L']
  | 0xfb05 => ['S', 'T']
  | 0xfb06 => ['S', 'T']
  | _ => [c.toUpper]

def capitals (cs : List Char) : List Char :=
  cs.flatMap capitalForm

def smallForm (c : Char) : Char :=
  if c.toNat = 0x212a then 'k' else c.toLower

def smalls (cs : List Char) : List Char :=
  cs.map smallForm

end Supervisor.Text
