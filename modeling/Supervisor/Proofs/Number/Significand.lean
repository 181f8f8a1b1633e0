import Supervisor.Proofs.Number.Decimal
import Supervisor.Proofs.Number.Nearest

/-!
# Digits that need not be counted

Which value of a format is nearest to a rational depends only on its place among the middles between
two values, and these are all multiples of one `step` (`Format.Holds.exists_middle`). Rationals that
are `Alongside` each other, on the same side of every multiple, have the same nearest value. So a
decimal is rounded as a whole although one digit stands for all that follow the 1100th
(`alongside_significand`).
-/

set_option autoImplicit false
set_option relaxedAutoImplicit false

namespace Supervisor.Number

/-- No multiple of the step lies between the two, and both or neither are a multiple. -/
structure Alongside (step q r : ℚ) : Prop where
  below : ∀ n : ℕ, q < n * step ↔ r < n * step
  above : ∀ n : ℕ, n * step < q ↔ n * step < r

/-! ### The same nearest value -/

section

variable {f : Format} {step q r x y : ℚ}

theorem Alongside.symm (along : Alongside step q r) : Alongside step r q :=
  ⟨fun n ↦ (along.below n).symm, fun n ↦ (along.above n).symm⟩

theorem abs_sub_le_abs_sub_iff (order : x < y) : |q - x| ≤ |q - y| ↔ ¬ (x + y) / 2 < q := by
  rw [← sq_le_sq, not_lt]
  constructor <;> intro near <;> nlinarith

theorem abs_sub_le_abs_sub_iff' (order : y < x) : |q - x| ≤ |q - y| ↔ ¬ q < (x + y) / 2 := by
  rw [← sq_le_sq, not_lt]
  constructor <;> intro near <;> nlinarith

theorem Alongside.abs_sub_le_iff (along : Alongside step q r) {n : ℕ}
    (middle : (x + y) / 2 = n * step) : |q - x| ≤ |q - y| ↔ |r - x| ≤ |r - y| := by
  rcases lt_trichotomy x y with order | rfl | order
  · rw [abs_sub_le_abs_sub_iff order, abs_sub_le_abs_sub_iff order, middle, along.above]
  · exact iff_of_true le_rfl le_rfl
  · rw [abs_sub_le_abs_sub_iff' order, abs_sub_le_abs_sub_iff' order, middle, along.below]

/-- Values count the smallest unit, and their middles count half of it. -/
theorem Format.Holds.exists_middle (first : f.Holds x) (second : f.Holds y) :
    ∃ n : ℕ, (x + y) / 2 = n * 2 ^ (f.lowest - 1) := by
  have counts {z : ℚ} (held : f.Holds z) : ∃ n : ℕ, z = n * 2 ^ f.lowest := by
    obtain ⟨m, e, -, low, -, rfl⟩ := held
    have power := zpow_eq_natCast_mul Nat.two_pos low
    rw [Nat.cast_ofNat] at power
    exact ⟨m * 2 ^ (e - f.lowest).toNat, by rw [power, ← mul_assoc, Nat.cast_mul]⟩
  obtain ⟨m, rfl⟩ := counts first
  obtain ⟨n, rfl⟩ := counts second
  refine ⟨m + n, ?_⟩
  rw [zpow_sub_one₀ (by norm_num)]
  push_cast
  ring

theorem Alongside.nearest (along : Alongside (2 ^ (f.lowest - 1)) q r) (nearest : f.Nearest q x) :
    f.Nearest r x := by
  refine ⟨nearest.held, fun y held ↦ ?_, fun y held ne tie ↦ nearest.even y held ne ?_⟩
  · obtain ⟨n, middle⟩ := nearest.held.exists_middle held
    exact (along.abs_sub_le_iff middle).mp (nearest.closest y held)
  · obtain ⟨n, middle⟩ := held.exists_middle nearest.held
    exact le_antisymm ((along.abs_sub_le_iff middle).mpr tie.le) (nearest.closest y held)

end

/-! ### A digit for all digits after the 1100th -/

section

variable {cs ds : List Char} {e : ℤ} {whole n : ℕ} {s t : ℚ}

theorem add_lt_natCast_iff (nonneg : 0 ≤ t) (part : t < 1) : whole + t < n ↔ whole < n := by
  constructor
  · intro less
    exact_mod_cast (le_add_of_nonneg_right nonneg).trans_lt less
  · intro less
    have next : (whole : ℚ) + 1 ≤ n := by exact_mod_cast less
    linarith

theorem natCast_lt_add_iff (nonneg : 0 ≤ t) (part : t < 1) :
    n < whole + t ↔ n < whole ∨ n = whole ∧ t ≠ 0 := by
  rcases Nat.lt_trichotomy n whole with less | rfl | more
  · have less' : (n : ℚ) < whole := by exact_mod_cast less
    exact iff_of_true (by linarith) (.inl less)
  · simp [nonneg.lt_iff_ne']
  · have next : (whole : ℚ) + 1 ≤ n := by exact_mod_cast more
    exact iff_of_false (by linarith) (by omega)

/-- A multiple of a power of a half as decimal units. -/
theorem exists_natCast_mul_zpow {places : ℕ} {unit : ℤ} (fine : unit ≤ -places) (n : ℕ) :
    ∃ k : ℕ, (n : ℚ) * 2 ^ (-places : ℤ) = k * 10 ^ unit := by
  have power := zpow_eq_natCast_mul (by decide : 0 < 10) fine
  rw [Nat.cast_ofNat] at power
  have two : (2 : ℚ) ^ (-places : ℤ) = 5 ^ places * 10 ^ (-places : ℤ) := by
    rw [show (10 : ℚ) = 5 * 2 by norm_num, mul_zpow, ← mul_assoc, ← zpow_natCast,
      ← zpow_add₀ (by norm_num), add_neg_cancel, zpow_zero, one_mul]
  refine ⟨n * (5 ^ places * 10 ^ (-places - unit).toNat), ?_⟩
  rw [two, power]
  push_cast
  ring

/-- With a unit that is small enough, what comes after the units only matters when it is nothing. -/
theorem alongside_add {places : ℕ} {unit : ℤ} (fine : unit ≤ -places) (s_nonneg : 0 ≤ s)
    (s_lt : s < 1) (t_nonneg : 0 ≤ t) (t_lt : t < 1) (zero : s = 0 ↔ t = 0) :
    Alongside (2 ^ (-places : ℤ)) ((whole + s) * 10 ^ unit) ((whole + t) * 10 ^ unit) := by
  have pos : (0 : ℚ) < 10 ^ unit := by positivity
  constructor <;> intro n <;> obtain ⟨k, same⟩ := exists_natCast_mul_zpow fine n
  · rw [same, mul_lt_mul_iff_of_pos_right pos, mul_lt_mul_iff_of_pos_right pos,
      add_lt_natCast_iff s_nonneg s_lt, add_lt_natCast_iff t_nonneg t_lt]
  · rw [same, mul_lt_mul_iff_of_pos_right pos, mul_lt_mul_iff_of_pos_right pos,
      natCast_lt_add_iff s_nonneg s_lt, natCast_lt_add_iff t_nonneg t_lt, ne_eq, zero]

theorem ofDigits_append (cs ds : List Char) :
    ofDigits (cs ++ ds) = ofDigits cs * 10 ^ ds.length + ofDigits ds := by
  rw [ofDigits, List.foldl_append, foldl_digits]
  rfl

theorem ofDigits_eq_zero_iff (digits : ∀ c ∈ ds, isDigit c = true) :
    ofDigits ds = 0 ↔ ds.all (· == '0') = true := by
  induction ds with
  | nil => decide
  | cons c ds ih =>
    have first := digitValue_eq_zero_iff (digits c List.mem_cons_self)
    have rest := ih fun d known ↦ digits d (List.mem_cons_of_mem c known)
    rw [ofDigits_cons, List.all_cons, Nat.add_eq_zero_iff, rest, Nat.mul_eq_zero, first,
      Bool.and_eq_true, beq_iff_eq]
    simp

/-- The value that a decimal is rounded at. -/
def shortened (ds : List Char) (e : ℤ) : ℚ :=
  (significand ds e).1 * 10 ^ (significand ds e).2

theorem shortened_nonneg (ds : List Char) (e : ℤ) : 0 ≤ shortened ds e :=
  mul_nonneg (Nat.cast_nonneg _) (by positivity)

theorem shortened_of_short (few : ds.length ≤ 1100) : shortened ds e = ofDigits ds * 10 ^ e := by
  rw [shortened, significand, List.drop_eq_nil_of_le few]

theorem shortened_append (heads : cs.length = 1100) (more : ds ≠ []) :
    shortened (cs ++ ds) e = (ofDigits cs + (if ds.all (· == '0') then 0 else 1 / 10 : ℚ)) *
      10 ^ (e + ds.length) := by
  obtain ⟨d, rest, rfl⟩ := List.exists_cons_of_ne_nil more
  rw [shortened, significand, ← heads, List.drop_left, List.take_left]
  dsimp only
  rw [zpow_sub_one₀ (by norm_num)]
  split <;> push_cast <;> ring

theorem ofDigits_append_mul_zpow (cs ds : List Char) (e : ℤ) :
    (ofDigits (cs ++ ds) : ℚ) * 10 ^ e =
      (ofDigits cs + ofDigits ds / 10 ^ ds.length) * 10 ^ (e + ds.length) := by
  rw [ofDigits_append, zpow_add₀ (by norm_num), zpow_natCast, Nat.cast_add, Nat.cast_mul,
    Nat.cast_pow, Nat.cast_ofNat]
  field_simp

theorem alongside_significand_append (digits : ∀ c ∈ ds, isDigit c = true)
    (heads : cs.length = 1100) (more : ds ≠ []) (within : e + (cs ++ ds).length ≤ 25) :
    Alongside (2 ^ (-1075 : ℤ)) (shortened (cs ++ ds) e) (ofDigits (cs ++ ds) * 10 ^ e) := by
  rw [List.length_append] at within
  have zero := ofDigits_eq_zero_iff digits
  have part : (ofDigits ds : ℚ) < 10 ^ ds.length := by exact_mod_cast ofDigits_lt digits
  rw [shortened_append heads more, ofDigits_append_mul_zpow]
  refine @alongside_add _ _ _ 1075 _ (by omega) ?_ ?_ (by positivity)
    ((div_lt_one (by positivity)).mpr part) ?_
  · split <;> norm_num
  · split <;> norm_num
  · rw [div_eq_zero_iff, Nat.cast_eq_zero, zero]
    simp

/-- Shortening does not take a decimal past a middle or onto it. -/
theorem alongside_significand (digits : ∀ c ∈ ds, isDigit c = true) (within : e + ds.length ≤ 25) :
    Alongside (2 ^ (-1075 : ℤ)) (shortened ds e) (ofDigits ds * 10 ^ e) := by
  rcases Nat.lt_or_ge 1100 ds.length with long | short
  · have heads : (ds.take 1100).length = 1100 := by
      rw [List.length_take]
      omega
    have more : ds.drop 1100 ≠ [] := by
      rw [ne_eq, List.drop_eq_nil_iff]
      omega
    rw [← List.take_append_drop 1100 ds] at digits within ⊢
    exact alongside_significand_append (List.forall_mem_append.mp digits).2 heads more within
  · rw [shortened_of_short short]
    exact ⟨fun _ ↦ Iff.rfl, fun _ ↦ Iff.rfl⟩

end

end Supervisor.Number
