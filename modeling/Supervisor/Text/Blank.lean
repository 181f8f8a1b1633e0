/-!
# White space

A character is blank when Unicode gives it the property White_Space. `Text.trim` removes the blanks
at both ends.
-/

set_option autoImplicit false
set_option relaxedAutoImplicit false

namespace Supervisor.Text

def isBlank (c : Char) : Bool :=
  let n := c.toNat
  (0x09 ≤ n && n ≤ 0x0d) || n == 0x20 || n == 0x85 || n == 0xa0 || n == 0x1680 ||
    (0x2000 ≤ n && n ≤ 0x200a) || n == 0x2028 || n == 0x2029 || n == 0x202f || n == 0x205f ||
    n == 0x3000

def dropBlanks (cs : List Char) : List Char :=
  cs.dropWhile isBlank

def trim (cs : List Char) : List Char :=
  (dropBlanks (dropBlanks cs).reverse).reverse

theorem trim_eq_self {cs : List Char} (first : ∀ c ∈ cs.head?, isBlank c = false)
    (last : ∀ c ∈ cs.getLast?, isBlank c = false) : trim cs = cs := by
  have keep {ds : List Char} (h : ∀ c ∈ ds.head?, isBlank c = false) : dropBlanks ds = ds := by
    cases ds with
    | nil => rfl
    | cons d ds => simp [dropBlanks, h d (by simp)]
  rw [trim, keep first, keep (by simpa using last), List.reverse_reverse]

end Supervisor.Text
