import Mathlib.Data.List.Induction
import Mathlib.Tactic.Ring
import Supervisor.Number.Integer

/-!
# How integers are written

`Digits` puts digits one after the other and says what number they come to; `Unsigned` and `Signed`
allow a sign in front. What is read from a text is the integer that the text writes, if that fits
the word (`readUInt32?_eq_some_iff`, `readInt32?_eq_some_iff`, `readCount?_eq_some_iff`).
-/

set_option autoImplicit false
set_option relaxedAutoImplicit false

namespace Supervisor.Number

/-! ### Values of digits -/

section

variable {c : Char} {cs ds : List Char} {n : ℕ}

theorem digitValue_lt (digit : isDigit c = true) : digitValue c < 10 := by
  simp only [isDigit, Bool.and_eq_true, decide_eq_true_eq] at digit
  unfold digitValue
  omega

theorem digitValue_eq_zero_iff (digit : isDigit c = true) : digitValue c = 0 ↔ c = '0' := by
  simp only [isDigit, Bool.and_eq_true, decide_eq_true_eq] at digit
  rw [Char.ext_iff, ← UInt32.toNat_inj]
  show c.toNat - 48 = 0 ↔ c.toNat = 48
  omega

theorem isDigit_zeros (n : ℕ) : ∀ c ∈ List.replicate n '0', isDigit c = true :=
  fun _ known ↦ List.eq_of_mem_replicate known ▸ rfl

theorem foldl_digits (n : ℕ) (ds : List Char) :
    ds.foldl (fun n c ↦ 10 * n + digitValue c) n = n * 10 ^ ds.length + ofDigits ds := by
  induction ds generalizing n with
  | nil => simp [ofDigits]
  | cons c ds ih =>
    rw [ofDigits, List.foldl_cons, List.foldl_cons, ih, ih (10 * 0 + _), List.length_cons,
      Nat.pow_succ]
    ring

theorem ofDigits_cons (c : Char) (ds : List Char) :
    ofDigits (c :: ds) = digitValue c * 10 ^ ds.length + ofDigits ds := by
  rw [ofDigits, List.foldl_cons, foldl_digits]
  simp

theorem ofDigits_concat (ds : List Char) (c : Char) :
    ofDigits (ds ++ [c]) = 10 * ofDigits ds + digitValue c := by
  rw [ofDigits, List.foldl_append]
  rfl

theorem ofDigits_lt (digits : ∀ c ∈ ds, isDigit c = true) : ofDigits ds < 10 ^ ds.length := by
  induction ds with
  | nil => decide
  | cons c ds ih =>
    have rest := ih fun d known ↦ digits d (List.mem_cons_of_mem c known)
    have first : digitValue c + 1 ≤ 10 := digitValue_lt (digits c List.mem_cons_self)
    calc ofDigits (c :: ds) = digitValue c * 10 ^ ds.length + ofDigits ds := ofDigits_cons c ds
      _ < (digitValue c + 1) * 10 ^ ds.length := by
          rw [Nat.succ_mul]
          omega
      _ ≤ 10 * 10 ^ ds.length := Nat.mul_le_mul_right _ first
      _ = 10 ^ (c :: ds).length := by rw [List.length_cons, Nat.pow_succ, Nat.mul_comm]

/-! ### Digits and signs -/

/-- Digits and the number that they stand for. -/
inductive Digits : List Char → ℕ → Prop
  | nil : Digits [] 0
  | concat {cs : List Char} {n d : ℕ} (front : Digits cs n) (small : d < 10) :
      Digits (cs ++ [Nat.digitChar d]) (10 * n + d)

theorem isDigit_natDigitChar {d : ℕ} (small : d < 10) :
    isDigit (Nat.digitChar d) = true ∧ digitValue (Nat.digitChar d) = d := by
  have all : ∀ d < 10, isDigit (Nat.digitChar d) = true ∧ digitValue (Nat.digitChar d) = d := by
    decide
  exact all d small

theorem natDigitChar_digitValue (digit : isDigit c = true) : Nat.digitChar (digitValue c) = c := by
  simp only [isDigit, Bool.and_eq_true, decide_eq_true_eq] at digit
  have all : ∀ n < 58, 48 ≤ n → Nat.digitChar (n - 48) = Char.ofNat n := by decide
  exact (all c.toNat (Nat.lt_succ_of_le digit.2) digit.1).trans (Char.ofNat_toNat c)

theorem digits_iff : Digits cs n ↔ (∀ c ∈ cs, isDigit c = true) ∧ ofDigits cs = n := by
  constructor
  · intro digits
    induction digits with
    | nil => exact ⟨by simp, rfl⟩
    | concat _ small ih =>
      obtain ⟨last, value⟩ := isDigit_natDigitChar small
      rw [ofDigits_concat, ih.2, value]
      exact ⟨List.forall_mem_append.mpr ⟨ih.1, by simpa using last⟩, rfl⟩
  · rintro ⟨digits, rfl⟩
    induction cs using List.reverseRecOn with
    | nil => exact .nil
    | append_singleton cs c ih =>
      obtain ⟨front, last⟩ := List.forall_mem_append.mp digits
      have digit : isDigit c = true := last c List.mem_cons_self
      have added := (ih front).concat (digitValue_lt digit)
      rwa [natDigitChar_digitValue digit, ← ofDigits_concat] at added

/-- A natural number, perhaps after a plus sign. -/
inductive Unsigned : List Char → ℕ → Prop
  | bare {cs : List Char} {n : ℕ} (digits : Digits cs n) (filled : cs ≠ []) : Unsigned cs n
  | plus {cs : List Char} {n : ℕ} (digits : Digits cs n) (filled : cs ≠ []) : Unsigned ('+' :: cs) n

/-- An integer, perhaps after a sign. -/
inductive Signed : List Char → ℤ → Prop
  | unsigned {cs : List Char} {n : ℕ} (number : Unsigned cs n) : Signed cs n
  | minus {cs : List Char} {n : ℕ} (digits : Digits cs n) (filled : cs ≠ []) :
      Signed ('-' :: cs) (-n)

theorem Digits.head_ne (digits : Digits (c :: cs) n) {mark : Char}
    (sign : isDigit mark = false := by decide) : c ≠ mark := by
  rintro rfl
  cases sign.symm.trans ((digits_iff.mp digits).1 c List.mem_cons_self)

/-- No letter comes first. -/
theorem Signed.head_le {z : ℤ} (signed : Signed (c :: cs) z) : c.toNat ≤ 57 := by
  have first {ds : List Char} {n : ℕ} (digits : Digits (c :: ds) n) : c.toNat ≤ 57 := by
    have digit := (digits_iff.mp digits).1 c List.mem_cons_self
    simp only [isDigit, Bool.and_eq_true, decide_eq_true_eq] at digit
    exact digit.2
  cases signed with
  | minus => decide
  | unsigned number =>
    cases number with
    | plus => decide
    | bare digits => exact first digits

theorem Signed.ne_nil {z : ℤ} (signed : Signed cs z) : cs ≠ [] := by
  cases signed with
  | minus => simp
  | unsigned number =>
    cases number with
    | plus => simp
    | bare _ filled => exact filled

end

/-! ### What is read -/

section

variable {cs : List Char} {bound n : ℕ} {z : ℤ}

theorem ofDigitsBelow?_eq_some_iff (pos : 0 < bound) :
    ofDigitsBelow? bound cs = some n ↔ (Digits cs n ∧ cs ≠ []) ∧ n < bound := by
  rw [ofDigitsBelow?, Option.ite_none_right_eq_some, collectBelow?_eq pos, ← ofDigits, digits_iff,
    List.all_eq_true]
  dsimp only
  rw [Option.ite_none_right_eq_some, Option.some.injEq]
  constructor
  · rintro ⟨⟨filled, digits⟩, below, rfl⟩
    exact ⟨⟨⟨digits, rfl⟩, filled⟩, below⟩
  · rintro ⟨⟨⟨digits, rfl⟩, filled⟩, below⟩
    exact ⟨⟨filled, digits⟩, below, rfl⟩

theorem readBelow?_eq_some_iff (pos : 0 < bound) :
    readBelow? bound cs = some n ↔ Unsigned cs n ∧ n < bound := by
  unfold readBelow?
  split
  next cs =>
    rw [ofDigitsBelow?_eq_some_iff pos]
    refine and_congr_left' ⟨fun ⟨digits, filled⟩ ↦ .plus digits filled, fun number ↦ ?_⟩
    cases number with
    | plus digits filled => exact ⟨digits, filled⟩
    | bare digits => exact absurd rfl digits.head_ne
  next unmarked =>
    rw [ofDigitsBelow?_eq_some_iff pos]
    refine and_congr_left' ⟨fun ⟨digits, filled⟩ ↦ .bare digits filled, fun number ↦ ?_⟩
    cases number with
    | plus => exact absurd rfl (unmarked _)
    | bare digits filled => exact ⟨digits, filled⟩

theorem readWithin?_eq_some_iff (pos : 0 < bound) :
    readWithin? bound cs = some z ↔ Signed cs z ∧ -bound ≤ z ∧ z < bound := by
  unfold readWithin?
  split
  next cs =>
    simp only [Option.map_eq_some_iff, ofDigitsBelow?_eq_some_iff (Nat.succ_pos bound)]
    constructor
    · rintro ⟨n, ⟨⟨digits, filled⟩, below⟩, rfl⟩
      exact ⟨.minus digits filled, by omega, by omega⟩
    · rintro ⟨signed, low, -⟩
      cases signed with
      | minus digits filled => exact ⟨_, ⟨⟨digits, filled⟩, by omega⟩, rfl⟩
      | unsigned number =>
        cases number with
        | bare digits => exact absurd rfl digits.head_ne
  next unmarked =>
    simp only [Option.map_eq_some_iff, readBelow?_eq_some_iff pos]
    constructor
    · rintro ⟨n, ⟨number, below⟩, rfl⟩
      exact ⟨.unsigned number, by omega, by omega⟩
    · rintro ⟨signed, -, high⟩
      cases signed with
      | minus => exact absurd rfl (unmarked _)
      | unsigned number => exact ⟨_, ⟨number, by omega⟩, rfl⟩

theorem readInt32?_eq_some_iff {n : Int32} : readInt32? cs = some n ↔ Signed cs n.toInt := by
  simp only [readInt32?, Option.map_eq_some_iff, readWithin?_eq_some_iff
    (by decide : 0 < 2 ^ 31)]
  constructor
  · rintro ⟨z, ⟨signed, low, high⟩, rfl⟩
    rwa [Int32.toInt_ofInt_of_le low high]
  · intro signed
    exact ⟨n.toInt, ⟨signed, n.le_toInt, n.toInt_lt⟩, Int32.ofInt_toInt n⟩

theorem readUInt32?_eq_some_iff {n : UInt32} : readUInt32? cs = some n ↔ Unsigned cs n.toNat := by
  simp only [readUInt32?, Option.map_eq_some_iff, readBelow?_eq_some_iff
    (by decide : 0 < 2 ^ 32)]
  constructor
  · rintro ⟨m, ⟨number, below⟩, rfl⟩
    rwa [UInt32.toNat_ofNat_of_lt' below]
  · intro number
    exact ⟨n.toNat, ⟨number, n.toNat_lt⟩, UInt32.ofNat_toNat⟩

theorem readCount?_eq_some_iff : readCount? cs = some n ↔ Unsigned cs n ∧ n < 2 ^ 64 :=
  readBelow?_eq_some_iff (by decide)

end

end Supervisor.Number
