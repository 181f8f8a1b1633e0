import Supervisor.Proofs.Number.Rounding

/-!
# The nearest value of a format

`Format.Nearest` says what it means that a value of a format is nearest to a rational, with no word
about how it is found: no value of the format is nearer, and of two that are as near it is the even
one. There is one such value at the most (`Format.Nearest.eq`), and `Format.nearest` finds it
(`Format.nearest_spec`). `NearestNat` says the same of naturals.
-/

set_option autoImplicit false
set_option relaxedAutoImplicit false

namespace Supervisor.Number

/-! ### Naturals -/

/-- The natural number is nearest to the rational, or it is the even one of two that are. -/
def NearestNat (q : ℚ) (n : ℕ) : Prop :=
  |q - n| < 1 / 2 ∨ |q - n| = 1 / 2 ∧ Even n

section

variable {q : ℚ} {num den k m n : ℕ}

theorem NearestNat.abs_sub_le_half (nearest : NearestNat q n) : |q - n| ≤ 1 / 2 :=
  nearest.elim le_of_lt fun tie ↦ tie.1.le

theorem NearestNat.even (nearest : NearestNat q n) (tie : |q - n| = 1 / 2) : Even n :=
  nearest.elim (fun less ↦ absurd tie less.ne) And.right

theorem NearestNat.eq (first : NearestNat q m) (second : NearestNat q n) : m = n := by
  wlog order : m ≤ n generalizing m n with symmetric
  · exact (symmetric second first (Nat.le_of_not_le order)).symm
  by_contra ne
  have apart : (m : ℚ) + 1 ≤ n := by exact_mod_cast Nat.lt_of_le_of_ne order ne
  obtain ⟨-, above⟩ := abs_le.mp first.abs_sub_le_half
  obtain ⟨below, -⟩ := abs_le.mp second.abs_sub_le_half
  -- Only halfway between two neighbours are both as near.
  have middle : q - m = 1 / 2 := by linarith
  have next : q - n = -(1 / 2) := by linarith
  have neighbour : n = m + 1 := by
    have same : (n : ℚ) = m + 1 := by linarith
    exact_mod_cast same
  have even := first.even (by rw [middle, abs_of_pos (by norm_num)])
  have even' := second.even (by rw [next, abs_neg, abs_of_pos (by norm_num)])
  rw [neighbour, Nat.even_add_one] at even'
  exact even' even

theorem nearestNat_roundHalfEven (den_pos : 0 < den) :
    NearestNat (num / den) (roundHalfEven num den) := by
  have low := (@le_roundHalfEven_iff num den (roundHalfEven num den) den_pos).mp le_rfl
  have high := mt (@le_roundHalfEven_iff num den (roundHalfEven num den + 1) den_pos).mpr
    (Nat.not_succ_le_self _)
  generalize roundHalfEven num den = n at low high
  generalize (num / den : ℚ) = q at low high
  push_cast at high
  rw [not_or, not_lt, not_and, Nat.even_add_one, not_not] at high
  obtain ⟨within, upper⟩ := high
  rcases low with above | ⟨lower, even⟩
  · rcases lt_or_eq_of_le within with below | tie
    · refine .inl (abs_lt.mpr ⟨?_, ?_⟩) <;> linarith
    · refine .inr ⟨?_, upper tie.symm⟩
      rw [abs_of_pos] <;> linarith
  · refine .inr ⟨?_, even⟩
    rw [abs_of_neg] <;> linarith

theorem one_le_abs_sub (ne : m ≠ n) : (1 : ℚ) ≤ |(m : ℚ) - n| := by
  have counted : (1 : ℤ) ≤ |(m : ℤ) - n| := Int.one_le_abs (by omega)
  exact_mod_cast counted

/-- No other natural number is nearer. -/
theorem NearestNat.closest (nearest : NearestNat q n) (m : ℕ) : |q - n| ≤ |q - m| := by
  rcases eq_or_ne m n with rfl | ne
  · exact le_rfl
  have apart := one_le_abs_sub ne
  have near := nearest.abs_sub_le_half
  have between := abs_sub_le (m : ℚ) q n
  rw [abs_sub_comm (m : ℚ) q] at between
  linarith

/-- Another natural number that is as near is a neighbour of an even one. -/
theorem NearestNat.even_of_tie (nearest : NearestNat q n) (ne : m ≠ n)
    (tie : |q - m| = |q - n|) : Even n ∧ |(n : ℚ) - m| = 1 := by
  have apart := one_le_abs_sub ne
  have near := nearest.abs_sub_le_half
  have between := abs_sub_le (m : ℚ) q n
  rw [abs_sub_comm (m : ℚ) q] at between
  rw [abs_sub_comm (n : ℚ)]
  exact ⟨nearest.even (by linarith), by linarith⟩

end

/-! ### Values of a format -/

namespace Format

variable {f : Format} {q x y : ℚ}

/-- The rational is a value of the format. -/
def Holds (f : Format) (x : ℚ) : Prop :=
  ∃ m : ℕ, ∃ e : ℤ, m < 2 ^ f.precision ∧ f.lowest ≤ e ∧ e ≤ f.highest ∧ x = m * 2 ^ e

/-- The value of the format that is nearest to a rational. Of two that are as near, it is the one
that is an even multiple of their distance. -/
structure Nearest (f : Format) (q x : ℚ) : Prop where
  held : f.Holds x
  closest : ∀ y, f.Holds y → |q - x| ≤ |q - y|
  even : ∀ y, f.Holds y → y ≠ x → |q - y| = |q - x| → ∃ k : ℕ, x = k * (2 * |x - y|)

theorem Nearest.eq (first : f.Nearest q x) (second : f.Nearest q y) : x = y := by
  by_contra ne
  have tie : |q - x| = |q - y| :=
    le_antisymm (first.closest y second.held) (second.closest x first.held)
  obtain ⟨j, left⟩ := first.even y second.held (Ne.symm ne) tie.symm
  obtain ⟨k, right⟩ := second.even x first.held ne tie
  rw [abs_sub_comm y x] at right
  have pos : 0 < |x - y| := abs_pos.mpr (sub_ne_zero.mpr ne)
  generalize distance : |x - y| = d at left right pos
  -- Two even multiples of a distance are not at that distance.
  have spread : x - y = ((2 * j - 2 * k : ℤ) : ℚ) * d := by
    rw [left, right]
    push_cast
    ring
  rw [spread, abs_mul, abs_of_pos pos, mul_eq_right₀ pos.ne'] at distance
  have odd : |(2 * j - 2 * k : ℤ)| = 1 := by exact_mod_cast distance
  rcases (abs_eq Int.one_nonneg).mp odd with same | same <;> omega

theorem holds_zero (order : f.lowest ≤ f.highest) : f.Holds 0 :=
  ⟨0, f.lowest, Nat.pow_pos Nat.two_pos, le_rfl, order, by simp⟩

/-- A value of the format is not passed. -/
theorem Nearest.le_of_holds (nearest : f.Nearest q x) (held : f.Holds y) (within : y ≤ q) :
    y ≤ x := by
  by_contra less
  have closest := nearest.closest y held
  rw [abs_of_nonneg (by linarith), abs_of_nonneg (by linarith)] at closest
  linarith

theorem Nearest.le_two_mul (nearest : f.Nearest q x) (order : f.lowest ≤ f.highest)
    (nonneg : 0 ≤ q) : x ≤ 2 * q := by
  have closest := nearest.closest 0 (holds_zero order)
  rw [sub_zero, abs_of_nonneg nonneg] at closest
  linarith [neg_abs_le (q - x)]

/-! ### What is found -/

section

variable {num den : ℕ} {z : Scaled} (precise : 0 < f.precision) (num_pos : 0 < num)
  (den_pos : 0 < den)
include precise num_pos den_pos

/-- A value of the format counts units, or it is below a count of them that does not pass the
quotient. -/
theorem Holds.on_grid_or_below (held : f.Holds y) :
    (∃ k : ℕ, y = k * 2 ^ f.unit num den) ∨
      ∃ k : ℕ, y < k * 2 ^ f.unit num den ∧ k * 2 ^ f.unit num den ≤ (num / den : ℚ) := by
  obtain ⟨m, e, small, low, -, rfl⟩ := held
  rcases le_or_gt (f.unit num den) e with coarse | fine
  · have power := zpow_eq_natCast_mul Nat.two_pos coarse
    rw [Nat.cast_ofNat] at power
    refine .inl ⟨m * 2 ^ (e - f.unit num den).toNat, ?_⟩
    rw [power]
    push_cast
    ring
  · have leads := (leadingExponent_spec num_pos den_pos).1
    have unit : leadingExponent num den = (f.precision - 1 : ℕ) + f.unit num den := by
      unfold Format.unit at fine ⊢
      omega
    have bits : (2 : ℚ) ^ f.precision = 2 ^ (f.precision - 1) * 2 := by
      rw [← pow_succ, Nat.sub_add_cancel precise]
    have counted : (m : ℚ) < 2 ^ f.precision := by exact_mod_cast small
    refine .inr ⟨2 ^ (f.precision - 1), ?_, ?_⟩
    · calc (m : ℚ) * 2 ^ e ≤ m * 2 ^ (f.unit num den - 1) := by
            gcongr
            · norm_num
            · omega
        _ < 2 ^ f.precision * 2 ^ (f.unit num den - 1) := by gcongr
        _ = ((2 ^ (f.precision - 1) : ℕ) : ℚ) * 2 ^ f.unit num den := by
            rw [bits, zpow_sub_one₀ (by norm_num)]
            push_cast
            ring
    · rw [unit, zpow_add₀ (by norm_num), zpow_natCast] at leads
      exact_mod_cast leads

theorem div_lt_zpow_unit : (num / den : ℚ) < 2 ^ (f.precision : ℤ) * 2 ^ f.unit num den := by
  refine (leadingExponent_spec num_pos den_pos).2.trans_le ?_
  rw [← zpow_add₀ (by norm_num)]
  refine zpow_le_zpow_right₀ (by norm_num) ?_
  unfold Format.unit
  omega

variable (found : f.nearest num den = some z)
include found

theorem holds_of_nearest : f.Holds z.value := by
  have lowest : f.lowest ≤ f.unit num den := le_max_right _ _
  have bound : roundHalfEven (num * 2 ^ (-f.unit num den).toNat)
      (den * 2 ^ (f.unit num den).toNat) ≤ 2 ^ f.precision := by
    refine roundHalfEven_le (Nat.mul_pos den_pos (Nat.pow_pos Nat.two_pos)) ?_
    have within := div_lt_zpow_unit precise num_pos den_pos
    rw [zpow_natCast] at within
    rw [← div_zpow_two, div_le_iff₀ (by positivity)]
    exact_mod_cast within.le
  unfold nearest at found
  dsimp only at found
  rw [← Format.unit] at found
  split at found
  next full =>
    obtain ⟨highest, counted⟩ := Option.ite_none_left_eq_some.mp found
    cases counted
    exact ⟨_, _, Nat.pow_lt_pow_right Nat.one_lt_two (by omega), by dsimp only; omega,
      not_lt.mp highest, rfl⟩
  next less =>
    obtain ⟨highest, counted⟩ := Option.ite_none_left_eq_some.mp found
    cases counted
    exact ⟨_, _, Nat.lt_of_le_of_ne bound less, lowest, not_lt.mp highest, rfl⟩

/-- What is found is the nearest value. -/
theorem nearest_spec : f.Nearest (num / den) z.value := by
  obtain ⟨num', den', pos, quotient, value⟩ := exists_nearest precise den_pos found
  have nearest := @nearestNat_roundHalfEven num' den' pos
  rw [← quotient] at nearest
  have below (y : ℚ) (held : f.Holds y) := held.on_grid_or_below precise num_pos den_pos
  have held := holds_of_nearest precise num_pos den_pos found
  rw [value] at held ⊢
  generalize roundHalfEven num' den' = n at nearest held ⊢
  generalize f.unit num den = unit at nearest below held ⊢
  generalize (num / den : ℚ) = q at nearest below ⊢
  have unit_pos : (0 : ℚ) < 2 ^ unit := by positivity
  have scaled (k : ℕ) : |q - k * 2 ^ unit| = |q / 2 ^ unit - k| * 2 ^ unit := by
    rw [← abs_of_pos unit_pos, ← abs_mul, abs_of_pos unit_pos, sub_mul,
      div_mul_cancel₀ q unit_pos.ne']
  have onGrid (k : ℕ) : |q - n * 2 ^ unit| ≤ |q - k * 2 ^ unit| := by
    rw [scaled, scaled]
    exact mul_le_mul_of_nonneg_right (nearest.closest k) unit_pos.le
  have under {y : ℚ} {k : ℕ} (less : y < k * 2 ^ unit) (within : k * 2 ^ unit ≤ q) :
      |q - n * 2 ^ unit| < |q - y| := by
    refine (onGrid k).trans_lt ?_
    rw [abs_of_nonneg (by linarith), abs_of_pos (by linarith)]
    linarith
  refine ⟨held, fun y other ↦ ?_, fun y other ne tie ↦ ?_⟩
  · rcases below y other with ⟨k, rfl⟩ | ⟨k, less, within⟩
    · exact onGrid k
    · exact (under less within).le
  · rcases below y other with ⟨k, rfl⟩ | ⟨k, less, within⟩
    · rw [scaled, scaled] at tie
      have apart : k ≠ n := by
        rintro rfl
        exact ne rfl
      obtain ⟨⟨half, same⟩, step⟩ :=
        nearest.even_of_tie apart (mul_right_cancel₀ unit_pos.ne' tie)
      refine ⟨half, ?_⟩
      rw [← sub_mul, abs_mul, step, one_mul, abs_of_pos unit_pos, same]
      push_cast
      ring
    · exact absurd tie (under less within).ne'

end

end Format

/-! ### Values in range -/

section

variable {num den : ℕ} {f : Format} {i : ℤ}

theorem leadingExponent_le (den_pos : 0 < den) (nonneg : 0 ≤ i)
    (within : (num / den : ℚ) ≤ 2 ^ i) : Format.leadingExponent num den ≤ i := by
  rcases Nat.eq_zero_or_pos num with rfl | num_pos
  · unfold Format.leadingExponent
    dsimp only
    have zero : Nat.log2 0 = 0 := by decide
    rw [zero]
    split <;> omega
  · have leads := (leadingExponent_spec num_pos den_pos).1.trans within
    exact (zpow_le_zpow_iff_right₀ (by norm_num)).mp leads

theorem Format.unit_le (den_pos : 0 < den) (nonneg : 0 ≤ i) (lowest : f.lowest ≤ i)
    (within : (num / den : ℚ) ≤ 2 ^ i) : f.unit num den ≤ i := by
  have leads := leadingExponent_le den_pos nonneg within
  unfold Format.unit
  omega

theorem Format.isSome_nearest (den_pos : 0 < den) (nonneg : 0 ≤ i)
    (highest : i < f.highest + (f.precision - 1 : ℕ)) (lowest : f.lowest < f.highest)
    (within : (num / den : ℚ) ≤ 2 ^ i) : (f.nearest num den).isSome := by
  have leads := leadingExponent_le den_pos nonneg within
  have unit : f.unit num den < f.highest := by
    unfold Format.unit
    omega
  unfold nearest
  dsimp only
  rw [← Format.unit]
  split
  · rw [if_neg (by dsimp only; omega)]
    rfl
  · rw [if_neg (by dsimp only; omega)]
    rfl

/-- A value of at most 2^1022 is near to a binary64. -/
theorem exists_nearest (den_pos : 0 < den) (nonneg : 0 ≤ i) (small : i ≤ 1022)
    (within : (num / den : ℚ) ≤ 2 ^ i) :
    ∃ x, Format.binary64.nearest num den = some x ∧ x.value ≤ 2 ^ i := by
  have lowest : Format.binary64.lowest ≤ i := (by decide : (-1074 : ℤ) ≤ 0).trans nonneg
  obtain ⟨x, found⟩ := Option.isSome_iff_exists.mp <|
    Format.isSome_nearest (f := .binary64) den_pos nonneg (small.trans_lt (by decide)) (by decide)
      within
  exact ⟨x, found, Format.value_le_two_zpow (by decide) den_pos found
    (Format.unit_le den_pos nonneg lowest within) within⟩

end

end Supervisor.Number
