import Mathlib.Algebra.Order.Field.Rat
import Mathlib.Data.List.TakeWhile
import Mathlib.Tactic.Ring
import Supervisor.Number.Seconds
import Supervisor.Proofs.Number.Numeral

/-!
# How decimals are written

A decimal is digits with a point anywhere among them, perhaps after a plus sign and before a power
of ten. `IsDecimal` says which texts are decimals and what they come to, and `decimal?_eq_some_iff`
that this is what is read. The one thing to know about powers of ten is that their digits count only
up to the one with which the exponent comes to 2^16 or more (`Extent`).
-/

set_option autoImplicit false
set_option relaxedAutoImplicit false

namespace Supervisor.Number

variable {c : Char} {cs ds : List Char} {n : ℕ} {e : ℤ} {q : ℚ}

/-! ### Zeros in front -/

/-- Digits without a zero in front. -/
structure Leading (ds : List Char) : Prop where
  digits : ∀ c ∈ ds, isDigit c = true
  first : ∀ c ∈ ds.head?, c ≠ '0'

theorem Leading.le_ofDigits (leading : Leading ds) (long : n < ds.length) :
    10 ^ n ≤ ofDigits ds := by
  cases ds with
  | nil => simp at long
  | cons c ds =>
    have first : digitValue c ≠ 0 :=
      mt (digitValue_eq_zero_iff (leading.digits c List.mem_cons_self)).mp (leading.first c rfl)
    calc 10 ^ n ≤ 10 ^ ds.length := Nat.pow_le_pow_right (by decide) (Nat.le_of_lt_succ long)
      _ ≤ digitValue c * 10 ^ ds.length := Nat.le_mul_of_pos_left _ (Nat.pos_of_ne_zero first)
      _ ≤ ofDigits (c :: ds) := by
          rw [ofDigits_cons]
          omega

theorem Leading.left (leading : Leading (cs ++ ds)) : Leading cs := by
  refine ⟨fun c known ↦ leading.digits c (List.mem_append_left ds known), fun c first ↦ ?_⟩
  exact leading.first c (by rw [List.head?_append, Option.mem_def.mp first]; rfl)

theorem leading_dropWhile (digits : ∀ c ∈ ds, isDigit c = true) :
    Leading (ds.dropWhile (· == '0')) := by
  constructor
  · exact fun c known ↦ digits c ((List.dropWhile_sublist _).mem known)
  · rintro c first rfl
    have stops := List.head?_dropWhile_not (· == '0') ds
    rw [Option.mem_def.mp first] at stops
    cases stops

theorem ofDigits_dropWhile (ds : List Char) :
    ofDigits (ds.dropWhile (· == '0')) = ofDigits ds := by
  induction ds with
  | nil => rfl
  | cons c ds ih =>
    rw [List.dropWhile_cons]
    split
    next zero =>
      obtain rfl : c = '0' := eq_of_beq zero
      rw [ih, ofDigits_cons, show digitValue '0' = 0 from rfl, Nat.zero_mul, Nat.zero_add]
    next => rfl

/-! ### Powers of ten -/

/-- How large an exponent is. Its digits count up to the one with which it comes to 2^16 or more,
and those after that do not. -/
inductive Extent : List Char → ℕ → Prop
  | counted {front rest : List Char} {n m : ℕ} (digits : Digits front n) (filled : front ≠ [])
      (short : n < 10 * 2 ^ 16) (passed : Digits rest m) (full : rest ≠ [] → 2 ^ 16 ≤ n) :
      Extent (front ++ rest) n

/-- A power of ten, which may be left out. -/
inductive Scale : List Char → ℤ → Prop
  | none : Scale [] 0
  | unsigned {mark : Char} {cs : List Char} {n : ℕ} (letter : mark = 'e' ∨ mark = 'E')
      (extent : Extent cs n) : Scale (mark :: cs) n
  | plus {mark : Char} {cs : List Char} {n : ℕ} (letter : mark = 'e' ∨ mark = 'E')
      (extent : Extent cs n) : Scale (mark :: '+' :: cs) n
  | minus {mark : Char} {cs : List Char} {n : ℕ} (letter : mark = 'e' ∨ mark = 'E')
      (extent : Extent cs n) : Scale (mark :: '-' :: cs) (-n)

theorem exponentValue_concat (ds : List Char) (c : Char) : exponentValue (ds ++ [c]) =
    if exponentValue ds < 2 ^ 16 then 10 * exponentValue ds + digitValue c
    else exponentValue ds := by
  rw [exponentValue, List.foldl_append]
  rfl

theorem exponentValue_of_lt (digits : ∀ c ∈ ds, isDigit c = true)
    (short : ofDigits ds < 10 * 2 ^ 16) : exponentValue ds = ofDigits ds := by
  induction ds using List.reverseRecOn with
  | nil => rfl
  | append_singleton ds c ih =>
    rw [ofDigits_concat] at short ⊢
    rw [exponentValue_concat, ih (fun d known ↦ digits d (List.mem_append_left _ known)) (by omega),
      if_pos (by omega)]

theorem exponentValue_append {rest : List Char} (digits : ∀ c ∈ ds, isDigit c = true)
    (short : ofDigits ds < 10 * 2 ^ 16) (full : rest ≠ [] → 2 ^ 16 ≤ ofDigits ds) :
    exponentValue (ds ++ rest) = ofDigits ds := by
  induction rest using List.reverseRecOn with
  | nil => rw [List.append_nil, exponentValue_of_lt digits short]
  | append_singleton rest c ih =>
    have large := full (by simp)
    rw [← List.append_assoc, exponentValue_concat, ih fun _ ↦ large, if_neg (Nat.not_lt.mpr large)]

/-- The digits that count. -/
theorem exists_front (digits : ∀ c ∈ ds, isDigit c = true) :
    ∃ front rest, ds = front ++ rest ∧ ofDigits front = exponentValue ds ∧
      exponentValue ds < 10 * 2 ^ 16 ∧ (rest ≠ [] → 2 ^ 16 ≤ exponentValue ds) := by
  induction ds using List.reverseRecOn with
  | nil => exact ⟨[], [], rfl, rfl, by decide, by simp⟩
  | append_singleton ds c ih =>
    obtain ⟨known, last⟩ := List.forall_mem_append.mp digits
    obtain ⟨front, rest, rfl, value, short, full⟩ := ih known
    have small := digitValue_lt (last c List.mem_cons_self)
    rw [exponentValue_concat]
    split
    next more =>
      obtain rfl : rest = [] := by
        by_contra filled
        exact absurd more (Nat.not_lt.mpr (full filled))
      rw [List.append_nil] at value more ⊢
      refine ⟨front ++ [c], [], (List.append_nil _).symm, ?_, by omega, by simp⟩
      rw [ofDigits_concat, value]
    next large =>
      exact ⟨front, rest ++ [c], List.append_assoc _ _ _, value, short,
        fun _ ↦ Nat.le_of_not_lt large⟩

theorem unsignedExponent?_eq_some_iff : unsignedExponent? ds = some n ↔ Extent ds n := by
  rw [unsignedExponent?, Option.ite_none_right_eq_some, Option.some.injEq, List.all_eq_true]
  constructor
  · rintro ⟨⟨filled, digits⟩, rfl⟩
    obtain ⟨front, rest, rfl, value, short, full⟩ := exists_front digits
    obtain ⟨front', rest'⟩ := List.forall_mem_append.mp digits
    refine .counted (digits_iff.mpr ⟨front', value⟩) ?_ short (digits_iff.mpr ⟨rest', rfl⟩) full
    rintro rfl
    have large := full filled
    rw [← value] at large
    exact absurd large (by decide)
  · rintro ⟨counted, filled, short, passed, full⟩
    obtain ⟨front, rfl⟩ := digits_iff.mp counted
    exact ⟨⟨by simp [filled], List.forall_mem_append.mpr ⟨front, (digits_iff.mp passed).1⟩⟩,
      exponentValue_append front short full⟩

theorem Extent.head_ne (extent : Extent (c :: cs) n) {mark : Char}
    (sign : isDigit mark = false := by decide) : c ≠ mark := by
  rintro rfl
  have read := unsignedExponent?_eq_some_iff.mpr extent
  obtain ⟨⟨-, digits⟩, -⟩ := Option.ite_none_right_eq_some.mp read
  cases sign.symm.trans (List.all_eq_true.mp digits c List.mem_cons_self)

theorem readExponent?_eq_some_iff : readExponent? cs = some e ↔ Scale cs e := by
  cases cs with
  | nil =>
    refine ⟨fun read ↦ Option.some.inj read ▸ .none, fun scale ↦ ?_⟩
    cases scale
    rfl
  | cons mark cs =>
    rw [readExponent?, Option.ite_none_right_eq_some]
    unfold signedExponent?
    constructor
    · rintro ⟨letter, read⟩
      split at read <;> obtain ⟨n, found, rfl⟩ := Option.map_eq_some_iff.mp read
      next => exact .minus letter (unsignedExponent?_eq_some_iff.mp found)
      next => exact .plus letter (unsignedExponent?_eq_some_iff.mp found)
      next => exact .unsigned letter (unsignedExponent?_eq_some_iff.mp found)
    · intro scale
      cases scale with
      | minus letter extent | plus letter extent =>
        exact ⟨letter, Option.map_eq_some_iff.mpr
          ⟨_, unsignedExponent?_eq_some_iff.mpr extent, rfl⟩⟩
      | unsigned letter extent =>
        refine ⟨letter, ?_⟩
        split
        next => exact absurd rfl extent.head_ne
        next => exact absurd rfl extent.head_ne
        next =>
          rw [unsignedExponent?_eq_some_iff.mpr extent]
          rfl

/-! ### Decimals -/

/-- A decimal and its value. -/
inductive IsDecimal : List Char → ℚ → Prop
  | written {plus whole point fraction scale : List Char} {n : ℕ} {e : ℤ}
      (sign : plus = [] ∨ plus = ['+'])
      (parted : point = [] ∧ fraction = [] ∨ point = '.' :: fraction)
      (digits : Digits (whole ++ fraction) n) (filled : whole ++ fraction ≠ [])
      (scaled : Scale scale e) :
      IsDecimal (plus ++ (whole ++ (point ++ scale))) (n * 10 ^ (e - fraction.length))

theorem Scale.head (scale : Scale cs e) : ∀ c ∈ cs.head?, isDigit c = false ∧ c ≠ '.' := by
  have letters {mark : Char} (letter : mark = 'e' ∨ mark = 'E') :
      isDigit mark = false ∧ mark ≠ '.' := by
    rcases letter with rfl | rfl <;> decide
  cases scale with
  | none => simp
  | unsigned letter | plus letter | minus letter => simpa using letters letter

theorem splitDecimal_append {whole point fraction scale : List Char}
    (digits : ∀ c ∈ whole ++ fraction, isDigit c = true)
    (parted : point = [] ∧ fraction = [] ∨ point = '.' :: fraction) (scaled : Scale scale e) :
    splitDecimal (whole ++ (point ++ scale)) = (whole, fraction, scale) := by
  obtain ⟨wholes, fractions⟩ := List.forall_mem_append.mp digits
  have stop : scale.takeWhile isDigit = [] ∧ scale.dropWhile isDigit = scale := by
    have head := scaled.head
    cases scale with
    | nil => exact ⟨rfl, rfl⟩
    | cons c scale => simp [(head c rfl).1]
  unfold splitDecimal
  rw [List.takeWhile_append_of_pos wholes, List.dropWhile_append_of_pos wholes]
  rcases parted with ⟨rfl, rfl⟩ | rfl
  · rw [List.nil_append, stop.1, stop.2, List.append_nil]
    dsimp only
    split
    next => exact absurd rfl (scaled.head _ rfl).2
    next => rfl
  · have point : isDigit '.' = false := rfl
    simp [point, List.takeWhile_append_of_pos fractions, List.dropWhile_append_of_pos fractions,
      stop]

theorem exists_splitDecimal (cs : List Char) : ∃ whole point fraction scale,
    splitDecimal cs = (whole, fraction, scale) ∧ cs = whole ++ (point ++ scale) ∧
      (point = [] ∧ fraction = [] ∨ point = '.' :: fraction) ∧
      ∀ c ∈ whole ++ fraction, isDigit c = true := by
  have parts := List.takeWhile_append_dropWhile (p := isDigit) (l := cs)
  unfold splitDecimal
  dsimp only
  split
  next rest after =>
    rw [after] at parts
    refine ⟨_, '.' :: rest.takeWhile isDigit, _, _, rfl, ?_, .inr rfl, ?_⟩
    · rw [List.cons_append, List.takeWhile_append_dropWhile, parts]
    · exact List.forall_mem_append.mpr
        ⟨fun c known ↦ List.mem_takeWhile_imp known, fun c known ↦ List.mem_takeWhile_imp known⟩
  next =>
    refine ⟨_, [], [], _, rfl, parts.symm, .inl ⟨rfl, rfl⟩, ?_⟩
    exact List.forall_mem_append.mpr ⟨fun c known ↦ List.mem_takeWhile_imp known, by simp⟩

/-- A decimal without a sign, put together from its parts, with what is read from it: its digits
from the first that is not zero, and the power of ten of the last. -/
inductive Unmarked : List Char → List Char → ℤ → Prop
  | parts {whole point fraction scale : List Char} {power : ℤ}
      (parted : point = [] ∧ fraction = [] ∨ point = '.' :: fraction)
      (digits : ∀ c ∈ whole ++ fraction, isDigit c = true) (filled : whole ++ fraction ≠ [])
      (scaled : Scale scale power) :
      Unmarked (whole ++ (point ++ scale)) ((whole ++ fraction).dropWhile (· == '0'))
        (power - fraction.length)

theorem unsignedDecimal?_eq_some_iff : unsignedDecimal? cs = some (ds, e) ↔ Unmarked cs ds e := by
  have read {whole fraction scale : List Char}
      (split : splitDecimal cs = (whole, fraction, scale)) :
      unsignedDecimal? cs = some (ds, e) ↔ whole ++ fraction ≠ [] ∧ ∃ power, Scale scale power ∧
        (whole ++ fraction).dropWhile (· == '0') = ds ∧ power - fraction.length = e := by
    simp only [unsignedDecimal?, split, Option.ite_none_left_eq_some, Option.map_eq_some_iff,
      readExponent?_eq_some_iff, List.isEmpty_iff, Prod.mk.injEq]
  constructor
  · obtain ⟨whole, point, fraction, scale, split, rfl, parted, digits⟩ := exists_splitDecimal cs
    rw [read split]
    rintro ⟨filled, power, scaled, rfl, rfl⟩
    exact .parts parted digits filled scaled
  · rintro ⟨parted, digits, filled, scaled⟩
    exact (read (splitDecimal_append digits parted scaled)).mpr ⟨filled, _, scaled, rfl, rfl⟩

theorem Unmarked.ne_plus_cons (unmarked : Unmarked cs ds e) (rest : List Char) :
    cs ≠ '+' :: rest := by
  obtain @⟨whole, point, fraction, scale, power, parted, digits, filled, -⟩ := unmarked
  intro same
  cases whole with
  | nil =>
    rcases parted with ⟨-, rfl⟩ | rfl
    · exact filled rfl
    · cases same
  | cons c whole =>
    obtain rfl : c = '+' := (List.cons.inj same).1
    exact absurd (digits '+' List.mem_cons_self) (by decide)

theorem readDecimal?_eq_some_iff : readDecimal? cs = some (ds, e) ↔
    ∃ plus rest, (plus = [] ∨ plus = ['+']) ∧ plus ++ rest = cs ∧ Unmarked rest ds e := by
  unfold readDecimal?
  constructor
  · intro read
    split at read
    next => exact ⟨['+'], _, .inr rfl, rfl, unsignedDecimal?_eq_some_iff.mp read⟩
    next => exact ⟨[], _, .inl rfl, rfl, unsignedDecimal?_eq_some_iff.mp read⟩
  · rintro ⟨plus, rest, rfl | rfl, rfl, unmarked⟩
    · split
      next marked => exact absurd marked (unmarked.ne_plus_cons _)
      next => exact unsignedDecimal?_eq_some_iff.mpr unmarked
    · exact unsignedDecimal?_eq_some_iff.mpr unmarked

/-- The value of a decimal, with its power of ten as `exponentValue` has it. -/
def decimal? (cs : List Char) : Option ℚ :=
  (readDecimal? cs).map fun parts ↦ ofDigits parts.1 * 10 ^ parts.2

theorem decimal?_eq_some_iff : decimal? cs = some q ↔ IsDecimal cs q := by
  unfold decimal?
  rw [Option.map_eq_some_iff]
  constructor
  · rintro ⟨⟨ds, e⟩, read, rfl⟩
    obtain ⟨plus, _, sign, rfl, parted, digits, filled, scaled⟩ := readDecimal?_eq_some_iff.mp read
    rw [ofDigits_dropWhile]
    exact .written sign parted (digits_iff.mpr ⟨digits, rfl⟩) filled scaled
  · rintro ⟨sign, parted, digits, filled, scaled⟩
    obtain ⟨known, rfl⟩ := digits_iff.mp digits
    refine ⟨_, readDecimal?_eq_some_iff.mpr
      ⟨_, _, sign, rfl, .parts parted known filled scaled⟩, ?_⟩
    rw [ofDigits_dropWhile]

theorem leading_of_readDecimal? (read : readDecimal? cs = some (ds, e)) : Leading ds := by
  obtain ⟨_, _, -, -, -, known, -, -⟩ := readDecimal?_eq_some_iff.mp read
  exact leading_dropWhile known

end Supervisor.Number
