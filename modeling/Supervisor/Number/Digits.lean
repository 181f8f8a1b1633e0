import Supervisor.Number.Power

/-!
# Decimal digits

The text of a natural number has no leading zero, `padded` writes a fixed number of places, and
`ofDigitsBelow?` reads a nonempty run of digits whose value has to stay below a bound. The main
statements are `collectBelow?_eq`, that only the value counts, and `ofDigitsBelow?_digits`, that
what is written is read back.
-/

set_option autoImplicit false
set_option relaxedAutoImplicit false

namespace Supervisor.Number

/-- The character of the last decimal digit of `n`. -/
def digitChar (n : Nat) : Char :=
  Char.ofNat (48 + n % 10)

def digits (n : Nat) : List Char :=
  if n < 10 then [digitChar n] else digits (n / 10) ++ [digitChar n]
termination_by n

/-- The last `width` digits of `n`, with zeros in front. -/
def padded : Nat → Nat → List Char
  | 0, _ => []
  | width + 1, n => padded width (n / 10) ++ [digitChar n]

def isDigit (c : Char) : Bool :=
  48 ≤ c.toNat && c.toNat ≤ 57

def digitValue (c : Char) : Nat :=
  c.toNat - 48

/-- The number that a run of digits stands for. -/
def ofDigits (cs : List Char) : Nat :=
  cs.foldl (fun n c ↦ 10 * n + digitValue c) 0

/-- Appends digits to `n` as long as the number stays below the bound. -/
def collectBelow? (bound n : Nat) : List Char → Option Nat
  | [] => some n
  | c :: cs =>
    let longer := 10 * n + digitValue c
    if longer < bound then collectBelow? bound longer cs else none

def ofDigitsBelow? (bound : Nat) (cs : List Char) : Option Nat :=
  if cs ≠ [] ∧ cs.all isDigit = true then collectBelow? bound 0 cs else none

theorem isDigit_digitChar (n : Nat) : isDigit (digitChar n) = true := by
  have h : ∀ d < 10, isDigit (Char.ofNat (48 + d)) = true := by decide
  exact h (n % 10) (Nat.mod_lt _ (by decide))

theorem digitValue_digitChar (n : Nat) : digitValue (digitChar n) = n % 10 := by
  have h : ∀ d < 10, digitValue (Char.ofNat (48 + d)) = d := by decide
  exact h (n % 10) (Nat.mod_lt _ (by decide))

theorem ofDigits_append_digitChar (cs : List Char) (n : Nat) :
    ofDigits (cs ++ [digitChar n]) = 10 * ofDigits cs + n % 10 := by
  simp [ofDigits, digitValue_digitChar]

theorem digits_ne_nil (n : Nat) : digits n ≠ [] := by
  rw [digits]
  split <;> simp

theorem all_isDigit_digits (n : Nat) : (digits n).all isDigit = true := by
  induction n using digits.induct with
  | case1 n h => simp [digits, h, isDigit_digitChar]
  | case2 n h ih =>
    rw [digits, if_neg h]
    simp [ih, isDigit_digitChar]

theorem ofDigits_digits (n : Nat) : ofDigits (digits n) = n := by
  induction n using digits.induct with
  | case1 n h =>
    rw [digits, if_pos h]
    simpa [ofDigits, digitValue_digitChar] using Nat.mod_eq_of_lt h
  | case2 n h ih =>
    rw [digits, if_neg h, ofDigits_append_digitChar, ih]
    omega

theorem le_foldl_digits (n : Nat) (cs : List Char) :
    n ≤ cs.foldl (fun n c ↦ 10 * n + digitValue c) n := by
  induction cs generalizing n with
  | nil => exact Nat.le_refl n
  | cons c cs ih =>
    have := ih (10 * n + digitValue c)
    simp only [List.foldl_cons]
    omega

theorem collectBelow?_eq {bound n : Nat} (h : n < bound) (cs : List Char) :
    collectBelow? bound n cs =
      let value := cs.foldl (fun n c ↦ 10 * n + digitValue c) n
      if value < bound then some value else none := by
  induction cs generalizing n with
  | nil => simp [collectBelow?, h]
  | cons c cs ih =>
    rw [collectBelow?, List.foldl_cons]
    split
    · rename_i hlonger
      exact ih hlonger
    · rename_i hlonger
      have := le_foldl_digits (10 * n + digitValue c) cs
      simp only [if_neg (show ¬cs.foldl (fun n c ↦ 10 * n + digitValue c)
        (10 * n + digitValue c) < bound by omega)]

theorem ofDigitsBelow?_digits {bound n : Nat} (h : n < bound) :
    ofDigitsBelow? bound (digits n) = some n := by
  have hvalue : (digits n).foldl (fun n c ↦ 10 * n + digitValue c) 0 = n := ofDigits_digits n
  rw [ofDigitsBelow?, if_pos ⟨digits_ne_nil n, all_isDigit_digits n⟩, collectBelow?_eq (by omega)]
  simp only [hvalue, if_pos h]

end Supervisor.Number
