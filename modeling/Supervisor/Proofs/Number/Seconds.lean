import Supervisor.Proofs.Number.Significand

/-!
# The time that a decimal stands for

A text is a span of time when it is a decimal that leaves something after it is rounded to binary64
and comes to the span when that is rounded to nanoseconds (`IsSeconds`); this is what is read
(`readSeconds?_eq_some_iff`). The two roundings keep a decimal apart from `vanishing`, the longest
time that comes to no nanosecond at all, so `pos_readSeconds?_iff` decides by the decimal alone
whether a span is longer than zero.
-/

set_option autoImplicit false
set_option relaxedAutoImplicit false

namespace Supervisor.Number

variable {cs ds : List Char} {e : ℤ} {q x : ℚ} {span : Duration}

/-! ### Spans -/

/-- The text is a number of seconds that comes to the span. It is rounded to a binary64, which has
53 bits and units from `2 ^ -1074` to `2 ^ 971`, and then to whole nanoseconds; nothing may be left
of it only after the second time. -/
inductive IsSeconds (cs : List Char) (span : Duration) : Prop
  | rounded {seconds x : ℚ} (written : IsDecimal cs seconds)
      (double : Format.Nearest ⟨53, -1074, 971⟩ seconds x) (some : 0 < x)
      (nanos : NearestNat (x * 10 ^ 9) span.nanos) : IsSeconds cs span

theorem Leading.zpow_le (leading : Leading ds) (filled : ds ≠ []) (e : ℤ) :
    (10 : ℚ) ^ (e + ds.length - 1) ≤ ofDigits ds * 10 ^ e := by
  obtain ⟨n, length⟩ := Nat.exists_eq_add_one.mpr (List.length_pos_of_ne_nil filled)
  have least : ((10 ^ n : ℕ) : ℚ) ≤ ofDigits ds := by
    exact_mod_cast leading.le_ofDigits (by omega)
  rw [length, Nat.cast_add_one, ← add_assoc, add_sub_cancel_right, add_comm,
    zpow_add₀ (by norm_num), zpow_natCast]
  push_cast at least
  gcongr

theorem Leading.lt_zpow (leading : Leading ds) (e : ℤ) :
    (ofDigits ds : ℚ) * 10 ^ e < 10 ^ (e + ds.length) := by
  have most : (ofDigits ds : ℚ) < ((10 ^ ds.length : ℕ) : ℚ) := by
    exact_mod_cast ofDigits_lt leading.digits
  rw [add_comm, zpow_add₀ (by norm_num), zpow_natCast]
  push_cast at most
  gcongr

/-- What is 10^25 seconds or more comes to no span. -/
theorem lt_of_nanos (double : Format.Nearest ⟨53, -1074, 971⟩ q x)
    (nanos : NearestNat (x * 10 ^ 9) span.nanos) : q < 10 ^ (25 : ℤ) := by
  by_contra long
  have held : Format.Holds ⟨53, -1074, 971⟩ (2 ^ 64) :=
    ⟨2 ^ 52, 12, by decide, by decide, by decide, by norm_num⟩
  have reached : (2 ^ 64 : ℚ) ≤ x := double.le_of_holds held (by norm_num at long ⊢; linarith)
  have near := (abs_le.mp nanos.abs_sub_le_half).2
  have short : (span.nanos : ℚ) + 1 ≤ 2 ^ 64 * 10 ^ 9 := by exact_mod_cast span.nanos_lt
  linarith

/-- What is less than 10^-400 seconds rounds to zero. -/
theorem lt_of_double (double : Format.Nearest ⟨53, -1074, 971⟩ q x) (some : 0 < x)
    (nonneg : 0 ≤ q) : 10 ^ (-401 : ℤ) ≤ q := by
  by_contra short
  obtain ⟨m, k, -, lowest, -, value⟩ := double.held
  have filled : (1 : ℚ) ≤ m := by
    have pos : m ≠ 0 := by
      rintro rfl
      simp [value] at some
    exact_mod_cast Nat.one_le_iff_ne_zero.mpr pos
  have least : (2 : ℚ) ^ (-1074 : ℤ) ≤ x := by
    rw [value]
    calc (2 : ℚ) ^ (-1074 : ℤ) ≤ 1 * 2 ^ k := by
          rw [one_mul]
          exact zpow_le_zpow_right₀ (by norm_num) lowest
      _ ≤ m * 2 ^ k := by gcongr
  have most := double.le_two_mul (by decide) nonneg
  have order : 2 * (10 : ℚ) ^ (-401 : ℤ) < 2 ^ (-1074 : ℤ) := by
    have eight : (10 : ℚ) ^ (-401 : ℤ) ≤ ((2 : ℚ) ^ (3 : ℤ)) ^ (-401 : ℤ) := by
      rw [zpow_neg, zpow_neg]
      exact inv_anti₀ (by positivity)
        (zpow_le_zpow_left₀ (by decide) (by positivity) (by norm_num))
    calc 2 * (10 : ℚ) ^ (-401 : ℤ) ≤ 2 * ((2 : ℚ) ^ (3 : ℤ)) ^ (-401 : ℤ) := by gcongr
      _ = 2 ^ (1 + 3 * -401 : ℤ) := by rw [← zpow_mul, zpow_add₀ (by norm_num), zpow_one]
      _ < 2 ^ (-1074 : ℤ) := zpow_lt_zpow_right₀ (by norm_num) (by decide)
  linarith

/-- No span is lost to the bounds on the digits. -/
theorem Leading.range (leading : Leading ds)
    (double : Format.Nearest ⟨53, -1074, 971⟩ (ofDigits ds * 10 ^ e) x) (some : 0 < x)
    (nanos : NearestNat (x * 10 ^ 9) span.nanos) :
    ds ≠ [] ∧ e + ds.length ≤ 25 ∧ -400 ≤ e + ds.length := by
  have low := lt_of_double double some (by positivity)
  have high := lt_of_nanos double nanos
  have filled : ds ≠ [] := by
    rintro rfl
    have pos : (0 : ℚ) < 10 ^ (-401 : ℤ) := by positivity
    simp only [ofDigits, List.foldl_nil, Nat.cast_zero, zero_mul] at low
    linarith
  have least := (leading.zpow_le filled e).trans_lt high
  have most := low.trans_lt (leading.lt_zpow e)
  rw [zpow_lt_zpow_iff_right₀ (by norm_num)] at least most
  exact ⟨filled, by omega, by omega⟩

/-! ### What is read -/

/-- A span is a decimal, rounded twice. -/
theorem readSeconds?_iff_exists : readSeconds? cs = some span ↔
    ∃ ds e y, readDecimal? cs = some (ds, e) ∧
      (ds ≠ [] ∧ e + ds.length ≤ 25 ∧ -400 ≤ e + ds.length) ∧
      Format.binary64.nearest ((significand ds e).1 * 10 ^ (significand ds e).2.toNat)
        (10 ^ (-(significand ds e).2).toNat) = some y ∧
      y.m ≠ 0 ∧ roundHalfEven (y.num * nanosPerSecond) y.den = span.nanos := by
  have spans {nanos : ℕ} : Duration.ofNanos? nanos = some span ↔ nanos = span.nanos := by
    unfold Duration.ofNanos?
    constructor
    · intro found
      split at found
      · cases found
        rfl
      · cases found
    · rintro rfl
      exact dif_pos span.nanos_lt
  unfold readSeconds?
  constructor
  · intro read
    obtain ⟨⟨ds, e⟩, parsed, read⟩ := Option.bind_eq_some_iff.mp read
    obtain ⟨within, read⟩ := Option.ite_none_left_eq_some.mp read
    obtain ⟨y, found, read⟩ := Option.bind_eq_some_iff.mp read
    obtain ⟨filled, read⟩ := Option.ite_none_left_eq_some.mp read
    simp only [not_or, not_lt, List.isEmpty_iff] at within
    exact ⟨ds, e, y, parsed, within, found, filled, spans.mp read⟩
  · rintro ⟨ds, e, y, parsed, within, found, filled, nanos⟩
    have outside : ¬ (ds.isEmpty = true ∨ 25 < e + ds.length ∨ e + ds.length < -400) := by
      simpa only [not_or, not_lt, List.isEmpty_iff] using within
    refine Option.bind_eq_some_iff.mpr ⟨(ds, e), parsed, ?_⟩
    refine Option.ite_none_left_eq_some.mpr ⟨outside, ?_⟩
    refine Option.bind_eq_some_iff.mpr ⟨y, found, ?_⟩
    exact Option.ite_none_left_eq_some.mpr ⟨filled, spans.mpr nanos⟩

/-- What is rounded, as a quotient. -/
theorem shortened_eq (ds : List Char) (e : ℤ) : shortened ds e =
    (((significand ds e).1 * 10 ^ (significand ds e).2.toNat : ℕ) : ℚ) /
      ((10 ^ (-(significand ds e).2).toNat : ℕ) : ℚ) := by
  have power := zpow_eq_div (by decide : 0 < 10) (significand ds e).2
  rw [Nat.cast_ofNat] at power
  rw [shortened, power, Nat.cast_mul, mul_div_assoc]

theorem Scaled.value_mul (y : Scaled) (n : ℕ) : y.value * n = ((y.num * n : ℕ) : ℚ) / y.den := by
  rw [y.value_eq, Nat.cast_mul, div_mul_eq_mul_div]

theorem Scaled.value_pos_iff {y : Scaled} : 0 < y.value ↔ y.m ≠ 0 := by
  have unit : (0 : ℚ) < 2 ^ y.q := by positivity
  rw [value, mul_pos_iff_of_pos_right unit, Nat.cast_pos, Nat.pos_iff_ne_zero]

/-- What is read as a span of time is what is written as one. -/
theorem readSeconds?_eq_some_iff : readSeconds? cs = some span ↔ IsSeconds cs span := by
  have perSecond : (nanosPerSecond : ℚ) = 10 ^ 9 := by norm_num [nanosPerSecond]
  rw [readSeconds?_iff_exists]
  constructor
  · rintro ⟨ds, e, y, parsed, ⟨-, high, -⟩, found, filled, nanos⟩
    have written : decimal? cs = some ((ofDigits ds : ℚ) * 10 ^ e) := by
      rw [decimal?, parsed]
      rfl
    have den_pos : 0 < 10 ^ (-(significand ds e).2).toNat := Nat.pow_pos (by decide)
    have num_pos := Format.num_pos (by decide) den_pos found filled
    have double := Format.nearest_spec (by decide) num_pos den_pos found
    rw [← shortened_eq] at double
    have along := alongside_significand (leading_of_readDecimal? parsed).digits high
    refine .rounded (decimal?_eq_some_iff.mp written) (along.nearest (f := .binary64) double)
      (Scaled.value_pos_iff.mpr filled) ?_
    rw [← perSecond, Scaled.value_mul, ← nanos]
    exact nearestNat_roundHalfEven y.den_pos
  · rintro ⟨written, double, some, nanos⟩
    obtain ⟨⟨ds, e⟩, parsed, rfl⟩ := Option.map_eq_some_iff.mp (decimal?_eq_some_iff.mpr written)
    have leading := leading_of_readDecimal? parsed
    have within := leading.range double some nanos
    have along := alongside_significand leading.digits within.2.1
    replace double := along.symm.nearest (f := .binary64) double
    have low := lt_of_double double some (shortened_nonneg ds e)
    have long := lt_of_nanos double nanos
    rw [shortened_eq] at double low long
    have den_pos : 0 < 10 ^ (-(significand ds e).2).toNat := Nat.pow_pos (by decide)
    obtain ⟨y, found, -⟩ := exists_nearest (i := 84) den_pos (by decide) (by decide)
      (long.le.trans (by norm_num))
    have num_pos : 0 < (significand ds e).1 * 10 ^ (significand ds e).2.toNat := by
      rw [Nat.pos_iff_ne_zero]
      intro none
      rw [none, Nat.cast_zero, zero_div] at low
      exact absurd low (not_le.mpr (by positivity))
    obtain rfl := (Format.nearest_spec (by decide) num_pos den_pos found).eq double
    refine ⟨ds, e, y, parsed, within, found, Scaled.value_pos_iff.mp some, ?_⟩
    rw [← perSecond, Scaled.value_mul] at nanos
    exact (nearestNat_roundHalfEven y.den_pos).eq nanos

/-! ### Times that vanish -/

/-- Halfway from the last binary64 value up to half a nanosecond to the next, in seconds. -/
def vanishing : ℚ :=
  9671406556917033 / 2 ^ 84

theorem lt_nearest_vanishing_iff {num den : ℕ} {y : Scaled} (num_pos : 0 < num) (den_pos : 0 < den)
    (found : Format.binary64.nearest num den = some y) :
    1 / 2 < y.value * nanosPerSecond ↔ vanishing < num / den := by
  have between := @Format.lt_nearest_iff num den .binary64 y (by decide) den_pos found num_pos (-83)
    4835703278458517 (1 / 2 / nanosPerSecond) (by decide) (by decide) (by decide)
    (by norm_num [nanosPerSecond]) (by norm_num [nanosPerSecond])
  have odd : ¬ Even 4835703278458517 := by decide
  have middle : ((4835703278458517 : ℕ) - 1 / 2 : ℚ) * 2 ^ (-83 : ℤ) = vanishing := by
    norm_num [vanishing]
  rw [middle] at between
  rw [← div_lt_iff₀ (by norm_num [nanosPerSecond]), between]
  simp [odd]

theorem exists_vanishing_eq : ∃ n : ℕ, vanishing = n * 2 ^ (-1075 : ℤ) := by
  have power := zpow_eq_natCast_mul Nat.two_pos (by decide : (-1075 : ℤ) ≤ -84)
  rw [Nat.cast_ofNat] at power
  refine ⟨9671406556917033 * 2 ^ (-84 - -1075 : ℤ).toNat, ?_⟩
  rw [Nat.cast_mul, mul_assoc, ← power]
  norm_num [vanishing]

/-- A decimal is read as no time at all when it is `vanishing` or less. -/
theorem pos_readSeconds?_iff (read : readSeconds? cs = some span) :
    ∃ seconds, decimal? cs = some seconds ∧ (0 < span.nanos ↔ vanishing < seconds) := by
  obtain ⟨ds, e, y, parsed, ⟨-, high, -⟩, found, filled, nanos⟩ := readSeconds?_iff_exists.mp read
  refine ⟨ofDigits ds * 10 ^ e, by rw [decimal?, parsed]; rfl, ?_⟩
  have den_pos : 0 < 10 ^ (-(significand ds e).2).toNat := Nat.pow_pos (by decide)
  have num_pos := Format.num_pos (by decide) den_pos found filled
  have along := alongside_significand (leading_of_readDecimal? parsed).digits high
  obtain ⟨n, counted⟩ := exists_vanishing_eq
  rw [← nanos, roundHalfEven_pos_iff y.den_pos, ← Scaled.value_mul,
    lt_nearest_vanishing_iff num_pos den_pos found, ← shortened_eq, counted, along.above]

end Supervisor.Number
