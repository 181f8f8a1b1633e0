import Mathlib.Algebra.Order.Field.Power
import Mathlib.Algebra.Order.Field.Rat
import Mathlib.Algebra.Order.Ring.Int
import Mathlib.Data.Rat.Cast.Order
import Mathlib.Tactic.FieldSimp
import Mathlib.Tactic.Linarith
import Mathlib.Tactic.NormNum
import Mathlib.Tactic.Positivity
import Mathlib.Tactic.Ring
import Supervisor.Number.Binary

/-!
# What rounding brings past a bound

Rounding is done on naturals; here its results are compared, as rationals, with what was rounded. A
half-to-even integer reaches `k` when the quotient is beyond `k - 1/2`, or on it and `k` is even
(`le_roundHalfEven_iff`). For a `Format` this is asked of a bound anywhere between two neighbours
in a binade: the rounded value passes it when the quotient passes the middle of the two
(`Format.lt_nearest_iff`).
-/

set_option autoImplicit false
set_option relaxedAutoImplicit false

namespace Supervisor.Number

/-! ### Half to even -/

section

variable {num den k : ℕ}

theorem le_roundHalfEven_iff_nat (den_pos : 0 < den) : k ≤ roundHalfEven num den ↔
    2 * (k * den) < 2 * num + den ∨ 2 * (k * den) = 2 * num + den ∧ Even k := by
  have whole := Nat.div_add_mod num den
  have part := Nat.mod_lt num den_pos
  unfold roundHalfEven
  generalize num / den = q at whole ⊢
  generalize num % den = r at whole part ⊢
  rw [Nat.mul_comm] at whole
  dsimp only
  rcases Nat.lt_trichotomy k (q + 1) with below | rfl | above
  · have order : k * den ≤ q * den := Nat.mul_le_mul_right den (by omega)
    have reached : 2 * (k * den) < 2 * num + den := by omega
    simp only [reached, true_or, iff_true]
    split_ifs <;> omega
  · have grown : (q + 1) * den = q * den + den := Nat.succ_mul q den
    rw [Nat.even_iff]
    split_ifs <;> omega
  · have order : (q + 2) * den ≤ k * den := Nat.mul_le_mul_right den (by omega)
    rw [Nat.add_mul] at order
    have short : ¬ (2 * (k * den) < 2 * num + den) := by omega
    have unequal : 2 * (k * den) ≠ 2 * num + den := by omega
    simp only [short, unequal, false_and, or_false, iff_false]
    split_ifs <;> omega

theorem le_roundHalfEven_iff (den_pos : 0 < den) : k ≤ roundHalfEven num den ↔
    (k : ℚ) - 1 / 2 < num / den ∨ (k : ℚ) - 1 / 2 = num / den ∧ Even k := by
  have pos : (0 : ℚ) < den := by exact_mod_cast den_pos
  rw [le_roundHalfEven_iff_nat den_pos, lt_div_iff₀ pos, eq_div_iff pos.ne']
  have less : 2 * (k * den) < 2 * num + den ↔ ((k : ℚ) - 1 / 2) * den < num := by
    rw [← @Nat.cast_lt ℚ]
    push_cast
    constructor <;> intro h <;> linarith
  have equal : 2 * (k * den) = 2 * num + den ↔ ((k : ℚ) - 1 / 2) * den = num := by
    rw [← @Nat.cast_inj ℚ]
    push_cast
    constructor <;> intro h <;> linarith
  rw [less, equal]

theorem le_roundHalfEven (den_pos : 0 < den) (reaches : (k : ℚ) ≤ num / den) :
    k ≤ roundHalfEven num den := by
  refine (le_roundHalfEven_iff den_pos).mpr (.inl ?_)
  linarith

theorem roundHalfEven_le (den_pos : 0 < den) (within : (num / den : ℚ) ≤ k) :
    roundHalfEven num den ≤ k := by
  by_contra beyond
  have more : k + 1 ≤ roundHalfEven num den := by omega
  rw [le_roundHalfEven_iff den_pos] at more
  push_cast at more
  rcases more with more | ⟨same, -⟩ <;> linarith

theorem roundHalfEven_pos_iff (den_pos : 0 < den) :
    0 < roundHalfEven num den ↔ (1 / 2 : ℚ) < num / den := by
  have law := @le_roundHalfEven_iff num den 1 den_pos
  norm_num at law
  rw [Nat.lt_iff_add_one_le, zero_add, law]

end

/-! ### Powers with an integer exponent -/

theorem zpow_eq_div {b : ℕ} (b_pos : 0 < b) (e : ℤ) :
    (b : ℚ) ^ e = ((b ^ e.toNat : ℕ) : ℚ) / ((b ^ (-e).toNat : ℕ) : ℚ) := by
  have ne : (b : ℚ) ≠ 0 := by exact_mod_cast b_pos.ne'
  rw [eq_div_iff (by exact_mod_cast (Nat.pow_pos b_pos).ne'), Nat.cast_pow, Nat.cast_pow,
    ← zpow_natCast, ← zpow_natCast, ← zpow_add₀ ne]
  congr 1
  omega

/-- A power as a multiple of a smaller one. -/
theorem zpow_eq_natCast_mul {b : ℕ} (b_pos : 0 < b) {i q : ℤ} (coarse : q ≤ i) :
    (b : ℚ) ^ i = ((b ^ (i - q).toNat : ℕ) : ℚ) * (b : ℚ) ^ q := by
  have ne : (b : ℚ) ≠ 0 := by exact_mod_cast b_pos.ne'
  rw [Nat.cast_pow, ← zpow_natCast, ← zpow_add₀ ne]
  congr 1
  omega

theorem two_zpow_le_pred_mul {p k : ℕ} (j : ℤ) (above : 2 ^ p < k) :
    (2 : ℚ) ^ (j + p) ≤ (k - 1) * 2 ^ j := by
  have count : ((2 ^ p : ℕ) : ℚ) + 1 ≤ k := by exact_mod_cast above
  rw [Nat.cast_pow, Nat.cast_ofNat] at count
  rw [add_comm, zpow_add₀ (by norm_num), zpow_natCast]
  gcongr
  linarith

theorem mul_le_two_zpow {p k : ℕ} (j : ℤ) (below : k ≤ 2 ^ p) :
    (k : ℚ) * 2 ^ j ≤ 2 ^ (j + p) := by
  have count : (k : ℚ) ≤ ((2 ^ p : ℕ) : ℚ) := by exact_mod_cast below
  rw [Nat.cast_pow, Nat.cast_ofNat] at count
  rw [add_comm, zpow_add₀ (by norm_num), zpow_natCast]
  gcongr

/-- The value of a scaled number. -/
def Scaled.value (x : Scaled) : ℚ :=
  x.m * 2 ^ x.q

theorem Scaled.value_nonneg (x : Scaled) : 0 ≤ x.value := by
  unfold value
  positivity

theorem Scaled.den_pos (x : Scaled) : 0 < x.den :=
  Nat.pow_pos Nat.two_pos

theorem Scaled.value_eq (x : Scaled) : x.value = x.num / x.den := by
  have power := zpow_eq_div Nat.two_pos x.q
  rw [Nat.cast_ofNat] at power
  rw [value, power, num, den, Nat.cast_mul]
  ring

section

variable {num den : ℕ}

theorem div_zpow_two (num den : ℕ) (e : ℤ) :
    (num / den : ℚ) / 2 ^ e =
      ((num * 2 ^ (-e).toNat : ℕ) : ℚ) / ((den * 2 ^ e.toNat : ℕ) : ℚ) := by
  have power := zpow_eq_div Nat.two_pos e
  rw [Nat.cast_ofNat] at power
  rw [power, Nat.cast_mul, Nat.cast_mul, div_div_div_eq]

theorem mul_pow_lt_mul_pow_iff (den_pos : 0 < den) (e : ℤ) :
    num * 2 ^ (-e).toNat < den * 2 ^ e.toNat ↔ (num / den : ℚ) < 2 ^ e := by
  have pos : (0 : ℚ) < (den * 2 ^ e.toNat : ℕ) := by
    exact_mod_cast Nat.mul_pos den_pos (Nat.pow_pos Nat.two_pos)
  rw [← div_lt_one (zpow_pos (by norm_num : (0 : ℚ) < 2) e), div_zpow_two, div_lt_one pos,
    Nat.cast_lt]

/-- The leading bit of a quotient. -/
theorem leadingExponent_spec (num_pos : 0 < num) (den_pos : 0 < den) :
    (2 : ℚ) ^ Format.leadingExponent num den ≤ num / den ∧
      (num / den : ℚ) < 2 ^ (Format.leadingExponent num den + 1) := by
  have two : (2 : ℚ) ≠ 0 := by norm_num
  have pos : (0 : ℚ) < den := by exact_mod_cast den_pos
  have num_low : (2 : ℚ) ^ num.log2 ≤ num := by exact_mod_cast Nat.log2_self_le num_pos.ne'
  have num_high : (num : ℚ) < 2 ^ (num.log2 + 1) := by exact_mod_cast Nat.lt_log2_self
  have den_low : (2 : ℚ) ^ den.log2 ≤ den := by exact_mod_cast Nat.log2_self_le den_pos.ne'
  have den_high : (den : ℚ) < 2 ^ (den.log2 + 1) := by exact_mod_cast Nat.lt_log2_self
  have low : (2 : ℚ) ^ ((num.log2 : ℤ) - den.log2 - 1) ≤ num / den := by
    rw [le_div_iff₀ pos]
    calc (2 : ℚ) ^ ((num.log2 : ℤ) - den.log2 - 1) * den
        ≤ 2 ^ ((num.log2 : ℤ) - den.log2 - 1) * 2 ^ (den.log2 + 1) :=
          mul_le_mul_of_nonneg_left den_high.le (by positivity)
      _ = 2 ^ num.log2 := by
          rw [← zpow_natCast, ← zpow_natCast, ← zpow_add₀ two]
          congr 1
          push_cast
          ring
      _ ≤ num := num_low
  have high : (num / den : ℚ) < 2 ^ ((num.log2 : ℤ) - den.log2 + 1) := by
    rw [div_lt_iff₀ pos]
    calc (num : ℚ) < 2 ^ (num.log2 + 1) := num_high
      _ = 2 ^ ((num.log2 : ℤ) - den.log2 + 1) * 2 ^ den.log2 := by
          rw [← zpow_natCast, ← zpow_natCast, ← zpow_add₀ two]
          congr 1
          push_cast
          ring
      _ ≤ 2 ^ ((num.log2 : ℤ) - den.log2 + 1) * den :=
          mul_le_mul_of_nonneg_left den_low (by positivity)
  unfold Format.leadingExponent
  dsimp only
  split
  next below =>
    rw [mul_pow_lt_mul_pow_iff den_pos] at below
    exact ⟨low, by rwa [sub_add_cancel]⟩
  next above =>
    rw [mul_pow_lt_mul_pow_iff den_pos, not_lt] at above
    exact ⟨above, high⟩

/-! ### To the nearest value -/

variable {f : Format} {x : Scaled}

/-- The unit in which a quotient is rounded. -/
def Format.unit (f : Format) (num den : ℕ) : ℤ :=
  max (leadingExponent num den - (f.precision - 1 : Nat)) f.lowest

/-- The nearest value is the nearest count of units; one that fills the next binade changes its
form only. -/
theorem Format.exists_nearest (precise : 0 < f.precision) (den_pos : 0 < den)
    (found : f.nearest num den = some x) : ∃ num' den' : ℕ, 0 < den' ∧
      (num / den : ℚ) / 2 ^ f.unit num den = num' / den' ∧
        x.value = roundHalfEven num' den' * 2 ^ f.unit num den := by
  refine ⟨_, _, Nat.mul_pos den_pos (Nat.pow_pos Nat.two_pos), div_zpow_two num den _, ?_⟩
  unfold nearest at found
  dsimp only at found
  rw [← Format.unit] at found
  split at found
  next full =>
    obtain ⟨-, counted⟩ := Option.ite_none_left_eq_some.mp found
    cases counted
    obtain ⟨bits, same⟩ := Nat.exists_eq_add_one.mpr precise
    rw [full, Scaled.value, same, Nat.add_sub_cancel, zpow_add_one₀ (by norm_num)]
    push_cast
    ring
  next =>
    obtain ⟨-, counted⟩ := Option.ite_none_left_eq_some.mp found
    cases counted
    rfl

variable (precise : 0 < f.precision) (den_pos : 0 < den) (found : f.nearest num den = some x)
include precise den_pos found

/-- A multiple of the unit is not passed by rounding. -/
theorem Format.le_value {k : ℕ} (reaches : (k : ℚ) * 2 ^ f.unit num den ≤ num / den) :
    (k : ℚ) * 2 ^ f.unit num den ≤ x.value := by
  obtain ⟨num', den', pos, quotient, value⟩ := exists_nearest precise den_pos found
  rw [← le_div_iff₀ (by positivity), quotient] at reaches
  have counted := le_roundHalfEven pos reaches
  rw [value]
  gcongr

theorem Format.value_le {k : ℕ} (within : (num / den : ℚ) ≤ k * 2 ^ f.unit num den) :
    x.value ≤ k * 2 ^ f.unit num den := by
  obtain ⟨num', den', pos, quotient, value⟩ := exists_nearest precise den_pos found
  rw [← div_le_iff₀ (by positivity), quotient] at within
  have counted := roundHalfEven_le pos within
  rw [value]
  gcongr

theorem Format.num_pos (filled : x.m ≠ 0) : 0 < num := by
  by_contra empty
  obtain rfl : num = 0 := by omega
  have value := value_le precise den_pos found (k := 0) (by simp)
  have some : 0 < x.value := by
    have count : (0 : ℚ) < x.m := by exact_mod_cast Nat.pos_of_ne_zero filled
    unfold Scaled.value
    positivity
  rw [Nat.cast_zero, zero_mul] at value
  linarith

theorem Format.two_zpow_le_value {i : ℤ} (coarse : f.unit num den ≤ i)
    (reaches : (2 : ℚ) ^ i ≤ num / den) : 2 ^ i ≤ x.value := by
  have power := zpow_eq_natCast_mul Nat.two_pos coarse
  rw [Nat.cast_ofNat] at power
  rw [power] at reaches ⊢
  exact le_value precise den_pos found reaches

theorem Format.value_le_two_zpow {i : ℤ} (coarse : f.unit num den ≤ i)
    (within : (num / den : ℚ) ≤ 2 ^ i) : x.value ≤ 2 ^ i := by
  have power := zpow_eq_natCast_mul Nat.two_pos coarse
  rw [Nat.cast_ofNat] at power
  rw [power] at within ⊢
  exact value_le precise den_pos found within

/-- Between the neighbours `k - 1` and `k` of a binade, in units of `2 ^ j`, it does not matter
where the bound is: the rounded value passes it when the quotient passes their middle. -/
theorem Format.lt_nearest_iff (num_pos : 0 < num) {j : ℤ} {k : ℕ} {bound : ℚ}
    (lowest : f.lowest ≤ j) (above : 2 ^ (f.precision - 1) < k) (below : k ≤ 2 ^ f.precision)
    (low : ((k : ℚ) - 1) * 2 ^ j ≤ bound) (high : bound < k * 2 ^ j) :
    bound < x.value ↔ ((k : ℚ) - 1 / 2) * 2 ^ j < num / den ∨
      ((k : ℚ) - 1 / 2) * 2 ^ j = num / den ∧ Even k := by
  obtain ⟨leads, next⟩ := leadingExponent_spec num_pos den_pos
  have unit_pos : (0 : ℚ) < 2 ^ j := by positivity
  have bits : ((f.precision - 1 : ℕ) : ℤ) + 1 = f.precision := by omega
  have first := two_zpow_le_pred_mul j above
  have last := mul_le_two_zpow j below
  rcases lt_trichotomy (leadingExponent num den) (j + (f.precision - 1 : ℕ)) with
    lower | same | higher
  · -- The quotient is in a binade below, and so is its value, or at the upper end of it.
    have within : (num / den : ℚ) ≤ 2 ^ (j + (f.precision - 1 : ℕ)) :=
      next.le.trans (zpow_le_zpow_right₀ (by norm_num) (by omega))
    have coarse : f.unit num den ≤ j + (f.precision - 1 : ℕ) := by
      unfold Format.unit
      omega
    have value := value_le_two_zpow precise den_pos found coarse within
    have middle : (num / den : ℚ) < (k - 1 / 2) * 2 ^ j := by linarith
    constructor
    · intro passes
      linarith
    · rintro (passes | ⟨passes, -⟩) <;> linarith
  · have unit : f.unit num den = j := by
      unfold Format.unit
      omega
    obtain ⟨num', den', pos, quotient, value⟩ := exists_nearest precise den_pos found
    rw [unit] at quotient value
    have law := @le_roundHalfEven_iff num' den' k pos
    rw [← quotient, lt_div_iff₀ unit_pos, eq_div_iff unit_pos.ne'] at law
    rw [← law, value]
    constructor
    · intro passes
      by_contra short
      have count : (roundHalfEven num' den' : ℚ) + 1 ≤ k := by exact_mod_cast not_le.mp short
      have under : (roundHalfEven num' den' : ℚ) * 2 ^ j ≤ (k - 1) * 2 ^ j := by
        gcongr
        linarith
      linarith
    · intro counted
      calc bound < k * 2 ^ j := high
        _ ≤ roundHalfEven num' den' * 2 ^ j := by gcongr
  · -- The quotient is in a binade above, and its value is not below that.
    have reaches : (2 : ℚ) ^ (j + f.precision) ≤ num / den :=
      le_trans (zpow_le_zpow_right₀ (by norm_num) (by omega)) leads
    have coarse : f.unit num den ≤ leadingExponent num den := by
      unfold Format.unit
      omega
    have value := two_zpow_le_value precise den_pos found coarse leads
    have order : (2 : ℚ) ^ (j + f.precision) ≤ 2 ^ leadingExponent num den :=
      zpow_le_zpow_right₀ (by norm_num) (by omega)
    have middle : (k - 1 / 2) * (2 : ℚ) ^ j < num / den := by linarith
    exact iff_of_true (by linarith) (.inl middle)

end

end Supervisor.Number
