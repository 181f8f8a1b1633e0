import Mathlib.Data.List.DropRight
import Supervisor.Number.Shortest
import Supervisor.Proofs.Number.Decimal
import Supervisor.Proofs.Number.Rounding

/-!
# What the shortest decimal is like

The shortest decimal of a finite single is above zero unless the single is zero
(`Single.shortest_pos`), and at most 2^128 (`Single.value_shortest_le`): it was found because it
rounds to the single, or it is the single. So there is a first significant digit
(`Single.leading_scientific`), and its exponent is at most 38 (`Single.exponent_scientific_le`).
-/

set_option autoImplicit false
set_option relaxedAutoImplicit false

namespace Supervisor.Number

/-! ### The digits of a number -/

theorem leading_digits {n : ℕ} (pos : 0 < n) : Leading (digits n) := by
  refine ⟨List.all_eq_true.mp (all_isDigit_digits n), ?_⟩
  induction n using digits.induct with
  | case1 n small =>
    rintro c first rfl
    rw [digits, if_pos small] at first
    have zero := digitValue_digitChar n
    rw [Option.some.inj first, Nat.mod_eq_of_lt small] at zero
    exact absurd zero.symm (Nat.ne_of_gt pos)
  | case2 n large ih =>
    intro c first
    refine ih (by omega) c ?_
    rw [digits, if_neg large, List.head?_append_of_ne_nil _ (digits_ne_nil _)] at first
    exact first

theorem pow_length_digits_le {n : ℕ} (pos : 0 < n) : 10 ^ ((digits n).length - 1) ≤ n := by
  have some : 0 < (digits n).length := List.length_pos_of_ne_nil (digits_ne_nil n)
  exact ((leading_digits pos).le_ofDigits (by omega)).trans_eq (ofDigits_digits n)

theorem collectBelow?_digits {bound n : ℕ} (pos : 0 < bound) :
    collectBelow? bound 0 (digits n) = if n < bound then some n else none := by
  have value : (digits n).foldl (fun n c ↦ 10 * n + digitValue c) 0 = n := ofDigits_digits n
  rw [collectBelow?_eq pos]
  simp only [value]

def Decimal.value (d : Decimal) : ℚ :=
  d.digits * 10 ^ d.exponent

namespace Single

/-! ### Comparisons -/

theorem compareScaled_ne_gt_iff (a n : ℕ) (i j : ℤ) :
    compareScaled a i n j ≠ .gt ↔ (a : ℚ) * 10 ^ i ≤ n * 2 ^ j := by
  have ten := zpow_eq_div (by decide : 0 < 10) i
  have two := zpow_eq_div Nat.two_pos j
  have ten_pos : (0 : ℚ) < (10 ^ (-i).toNat : ℕ) := by positivity
  have two_pos : (0 : ℚ) < (2 ^ (-j).toNat : ℕ) := by positivity
  rw [Nat.cast_ofNat] at ten two
  rw [compareScaled, Nat.compare_ne_gt, ten, two, ← mul_div_assoc, ← mul_div_assoc,
    div_le_div_iff₀ ten_pos two_pos]
  norm_cast

theorem compareScaled_ne_lt_iff (a n : ℕ) (i j : ℤ) :
    compareScaled a i n j ≠ .lt ↔ (n : ℚ) * 2 ^ j ≤ a * 10 ^ i := by
  have ten := zpow_eq_div (by decide : 0 < 10) i
  have two := zpow_eq_div Nat.two_pos j
  have ten_pos : (0 : ℚ) < (10 ^ (-i).toNat : ℕ) := by positivity
  have two_pos : (0 : ℚ) < (2 ^ (-j).toNat : ℕ) := by positivity
  rw [Nat.cast_ofNat] at ten two
  rw [compareScaled, Nat.compare_ne_lt, ten, two, ← mul_div_assoc, ← mul_div_assoc,
    div_le_div_iff₀ two_pos ten_pos]
  norm_cast

/-! ### The shortest decimal -/

variable {x : Single} {d : Decimal}

theorem m_magnitude_lt (x : Single) : x.magnitude.m < 2 ^ 24 := by
  have field : x.fractionField < 2 ^ 23 := Nat.mod_lt _ (by decide)
  unfold magnitude
  split
  · exact field.trans (by decide)
  · show 2 ^ 23 + x.fractionField < 2 ^ 24
    omega

theorem q_magnitude_le (finite : x.isFinite = true) : x.magnitude.q ≤ 104 := by
  have field : x.exponentField < 256 := Nat.mod_lt _ (by decide)
  have finite : x.exponentField ≠ 255 := of_decide_eq_true finite
  unfold magnitude
  split
  · show (-149 : ℤ) ≤ 104
    decide
  · show (x.exponentField : ℤ) - 150 ≤ 104
    omega

/-- A decimal that rounds to a single that is not zero is above zero, and not above the next
halfway point. -/
theorem bounds_of_roundsTo (filled : x.magnitude.m ≠ 0) (rounds : x.roundsTo d = true) :
    0 < d.value ∧ d.value ≤ (4 * x.magnitude.m + 2 : ℕ) * 2 ^ (x.magnitude.q - 2) := by
  cases same : x.magnitude with
  | mk m q =>
    rw [same] at filled
    rw [roundsTo, same] at rounds
    obtain ⟨low, high⟩ := of_decide_eq_true rounds
    dsimp only at filled low high ⊢
    constructor
    · generalize side : (if x.fractionField = 0 ∧ 1 < x.exponentField then 4 * m - 1
        else 4 * m - 2) = bound at low
      have bound_pos : (0 : ℚ) < bound := by
        rw [Nat.cast_pos, ← side]
        split <;> omega
      have above : compareScaled d.digits d.exponent bound (q - 2) ≠ .lt := by
        rintro below
        simp [below] at low
      exact (by positivity : (0 : ℚ) < bound * 2 ^ (q - 2)).trans_le
        ((compareScaled_ne_lt_iff _ _ _ _).mp above)
    · have below : compareScaled d.digits d.exponent (4 * m + 2) (q - 2) ≠ .gt := by
        rintro above
        simp [above] at high
      exact (compareScaled_ne_gt_iff _ _ _ _).mp below

theorem of_first_fit {p : Decimal → Bool} {a b : Decimal}
    (found : (if p a then some a else if p b then some b else none) = some d) : p d = true := by
  split at found
  next fits => exact Option.some.inj found ▸ fits
  split at found
  next fits => exact Option.some.inj found ▸ fits
  next => cases found

theorem value_exact (x : Single) : x.exact.value = x.magnitude.value := by
  unfold exact
  cases x.magnitude with
  | mk m q =>
    dsimp only
    split
    next whole =>
      obtain ⟨n, rfl⟩ := Int.eq_ofNat_of_zero_le whole
      simp [Decimal.value, Scaled.value]
    next =>
      obtain ⟨n, rfl⟩ : ∃ n : ℕ, q = -n := ⟨(-q).toNat, by omega⟩
      have five : (10 : ℚ) ^ n = 5 ^ n * 2 ^ n := by rw [← mul_pow]; norm_num
      simp only [Decimal.value, Scaled.value, neg_neg, Int.toNat_natCast, zpow_neg, zpow_natCast,
        five]
      push_cast
      field_simp

/-- The shortest decimal rounds to the single or is the single. -/
theorem shortest_cases (x : Single) :
    x.roundsTo x.shortest = true ∨ x.shortest = x.exact := by
  unfold shortest
  cases found : (List.range 9).findSome? fun i ↦ x.ofCount? (i + 1) with
  | none => exact .inr rfl
  | some d =>
    obtain ⟨i, -, found⟩ := List.exists_of_findSome?_eq_some found
    exact .inl (of_first_fit found)

theorem value_magnitude_pos (filled : x.magnitude.m ≠ 0) : 0 < x.magnitude.value := by
  have count : (0 : ℚ) < x.magnitude.m := by exact_mod_cast Nat.pos_of_ne_zero filled
  unfold Scaled.value
  positivity

theorem shortest_pos (filled : x.magnitude.m ≠ 0) : 0 < x.shortest.digits := by
  have pos : 0 < x.shortest.value := by
    rcases shortest_cases x with rounds | same
    · exact (bounds_of_roundsTo filled rounds).1
    · rw [same, value_exact]
      exact value_magnitude_pos filled
  by_contra none
  have zero : x.shortest.digits = 0 := by omega
  rw [Decimal.value, zero, Nat.cast_zero, zero_mul] at pos
  exact lt_irrefl _ pos

theorem value_shortest_le (filled : x.magnitude.m ≠ 0) (finite : x.isFinite = true) :
    x.shortest.value ≤ 2 ^ 128 := by
  have count := m_magnitude_lt x
  have unit := q_magnitude_le finite
  rcases shortest_cases x with rounds | same
  · have four : (4 * x.magnitude.m + 2 : ℕ) ≤ 2 ^ 26 := by omega
    calc x.shortest.value ≤ _ := (bounds_of_roundsTo filled rounds).2
      _ ≤ 2 ^ (x.magnitude.q - 2 + (26 : ℕ)) := mul_le_two_zpow _ four
      _ ≤ 2 ^ (128 : ℤ) := zpow_le_zpow_right₀ (by norm_num) (by push_cast; omega)
  · rw [same, value_exact]
    calc x.magnitude.value ≤ 2 ^ (x.magnitude.q + (24 : ℕ)) := mul_le_two_zpow _ count.le
      _ ≤ 2 ^ (128 : ℤ) := zpow_le_zpow_right₀ (by norm_num) (by push_cast; omega)

/-! ### Significant digits -/

theorem leading_scientific (filled : x.magnitude.m ≠ 0) :
    Leading x.scientific.1 ∧ x.scientific.1 ≠ [] := by
  have leading := leading_digits (shortest_pos filled)
  have kept : x.scientific.1 = (digits x.shortest.digits).rdropWhile (· == '0') := rfl
  obtain ⟨zeros, split⟩ := List.rdropWhile_prefix (· == '0') (l := digits x.shortest.digits)
  rw [kept]
  constructor
  · rw [← split] at leading
    exact leading.left
  · rw [ne_eq, List.rdropWhile_eq_nil_iff]
    intro zeros
    obtain ⟨c, ds, same⟩ := List.exists_cons_of_ne_nil (digits_ne_nil x.shortest.digits)
    have zero := zeros c (by rw [same]; exact List.mem_cons_self)
    exact leading.first c (by rw [same]; rfl) (beq_iff_eq.mp zero)

theorem exponent_scientific_le (filled : x.magnitude.m ≠ 0) (finite : x.isFinite = true) :
    x.scientific.2 ≤ 38 := by
  -- The first digit alone stands for no more than the decimal.
  have first : (10 : ℚ) ^ x.scientific.2 ≤ x.shortest.value := by
    have count : ((10 ^ ((digits x.shortest.digits).length - 1) : ℕ) : ℚ) ≤ x.shortest.digits := by
      exact_mod_cast pow_length_digits_le (shortest_pos filled)
    have exponent : x.scientific.2 =
      x.shortest.exponent + ((digits x.shortest.digits).length - 1 : ℕ) := rfl
    rw [exponent, add_comm, zpow_add₀ (by norm_num), zpow_natCast, Decimal.value]
    push_cast at count
    gcongr
  by_contra large
  have order : (10 : ℚ) ^ (39 : ℤ) ≤ 10 ^ x.scientific.2 :=
    zpow_le_zpow_right₀ (by norm_num) (by omega)
  have bound := value_shortest_le filled finite
  have gap : (2 : ℚ) ^ 128 < 10 ^ (39 : ℤ) := by norm_num
  linarith

end Single

end Supervisor.Number
