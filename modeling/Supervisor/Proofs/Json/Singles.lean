import Supervisor.Json.Numeric
import Supervisor.Proofs.Json.Tokens
import Supervisor.Proofs.Number.Nearest
import Supervisor.Proofs.Number.Shortest

/-!
# Singles as JSON numbers

A number is refused as a single only if it is too large for a binary64. One with few digits before
its point and no large exponent is not (`Numeral.InRange.isSome_toSingle?`), and a finite single is
written as such a number (`Numeral.inRange_ofSingle`): that is all that is said here, and not that
the single which is read is the one that was written.
-/

set_option autoImplicit false
set_option relaxedAutoImplicit false

namespace Supervisor

namespace Number

/-! ### Values in range -/

section

variable {x y : Scaled} {i : ℤ}

theorem exists_product (nonneg : 0 ≤ i) (small : i ≤ 1022) (within : x.value * y.value ≤ 2 ^ i) :
    ∃ z, Format.binary64.product x y = some z ∧ z.value ≤ 2 ^ i := by
  refine exists_nearest (Nat.mul_pos x.den_pos y.den_pos) nonneg small ?_
  rw [Nat.cast_mul, Nat.cast_mul, mul_div_mul_comm, ← Scaled.value_eq, ← Scaled.value_eq]
  exact within

theorem exists_quotient (nonneg : 0 ≤ i) (small : i ≤ 1022) (within : x.value ≤ 2 ^ i)
    (divisor : 1 ≤ y.value) :
    ∃ z, Format.binary64.quotient x y = some z ∧ z.value ≤ 2 ^ i := by
  have num_pos : 0 < y.num := by
    by_contra none
    have zero : y.num = 0 := by omega
    rw [Scaled.value_eq, zero, Nat.cast_zero, zero_div] at divisor
    linarith
  refine exists_nearest (Nat.mul_pos x.den_pos num_pos) nonneg small ?_
  rw [Nat.cast_mul, Nat.cast_mul, ← div_div_div_eq, ← Scaled.value_eq, ← Scaled.value_eq]
  exact (div_le_self x.value_nonneg divisor).trans within

end

end Number

namespace Json.Numeral

open Number

theorem value_double_le {n i : ℕ} (small : i ≤ 1022) (within : n ≤ 2 ^ i) :
    (double n).value ≤ 2 ^ i := by
  have bound : ((n : ℚ) / (1 : ℕ)) ≤ 2 ^ (i : ℤ) := by
    rw [Nat.cast_one, div_one, zpow_natCast]
    exact_mod_cast within
  obtain ⟨x, found, value⟩ := exists_nearest Nat.one_pos (Int.natCast_nonneg i)
    (by exact_mod_cast small) bound
  rw [double, found]
  exact_mod_cast value

theorem one_le_value_double {k : ℕ} (small : k ≤ 308) : 1 ≤ (double (10 ^ k)).value := by
  have check : ∀ k < 309, (double (10 ^ k)).den ≤ (double (10 ^ k)).num := by decide +kernel
  rw [Scaled.value_eq, one_le_div (by exact_mod_cast Scaled.den_pos _)]
  exact_mod_cast check k (Nat.lt_succ_of_le small)

theorem isSome_scaleTen_of_near {x : Scaled} {e : ℤ} (significand : x.value ≤ 2 ^ (64 : ℤ))
    (small : e ≤ 38) (near : e.natAbs ≤ 308) (steps : ℕ) : (scaleTen steps x e).isSome := by
  have scaled : scaleTen steps x e =
      if 0 ≤ e then Format.binary64.product x (double (10 ^ e.natAbs))
      else Format.binary64.quotient x (double (10 ^ e.natAbs)) := by
    cases steps <;> exact if_pos near
  rw [scaled]
  split
  next positive =>
    have power : (double (10 ^ e.natAbs)).value ≤ 2 ^ 127 := by
      refine value_double_le (by decide) ?_
      calc 10 ^ e.natAbs ≤ 10 ^ 38 := Nat.pow_le_pow_right (by decide) (by omega)
        _ ≤ 2 ^ 127 := by decide
    have within : x.value * (double (10 ^ e.natAbs)).value ≤ 2 ^ (191 : ℤ) :=
      calc x.value * (double (10 ^ e.natAbs)).value ≤ 2 ^ (64 : ℤ) * 2 ^ 127 :=
            mul_le_mul significand power (Scaled.value_nonneg _) (by positivity)
        _ = 2 ^ (191 : ℤ) := by norm_num
    obtain ⟨z, found, -⟩ := exists_product (by decide) (by decide) within
    rw [found]
    rfl
  next =>
    obtain ⟨z, found, -⟩ := exists_quotient (by decide) (by decide) significand
      (one_le_value_double near)
    rw [found]
    rfl

/-- From a significand of 64 bits no power of ten below the 39th leads to a value that is too
large. -/
theorem isSome_scaleTen {x : Scaled} {e : ℤ} (significand : x.value ≤ 2 ^ (64 : ℤ))
    (small : e ≤ 38) (steps : ℕ) : (scaleTen steps x e).isSome := by
  induction steps generalizing x e with
  | zero =>
    by_cases near : e.natAbs ≤ 308
    · exact isSome_scaleTen_of_near significand small near 0
    · have negative : ¬ 0 ≤ e := by omega
      rw [scaleTen, if_neg near, if_neg negative]
      split <;> rfl
  | succ steps ih =>
    by_cases near : e.natAbs ≤ 308
    · exact isSome_scaleTen_of_near significand small near _
    · have negative : ¬ 0 ≤ e := by omega
      obtain ⟨z, found, value⟩ := exists_quotient (by decide) (by decide) significand
        (one_le_value_double (le_refl 308))
      rw [scaleTen, if_neg near, if_neg negative]
      split
      · rfl
      · rw [found]
        exact ih value (by omega)

/-! ### Digits that are absorbed -/

theorem absorb_lt {significand : ℕ} (bits : significand < 2 ^ 64) (ds : List Char) :
    (absorb significand ds).1 < 2 ^ 64 := by
  induction ds generalizing significand with
  | nil => exact bits
  | cons d ds ih =>
    rw [absorb]
    split
    next longer => exact ih longer
    next => exact bits

/-- A number that is sure to fit is absorbed whole. -/
theorem absorb_left_of_fits {significand : ℕ} {ds : List Char} (digits : ∀ c ∈ ds, isDigit c = true)
    (fits : (significand + 1) * 10 ^ ds.length ≤ 2 ^ 64) : (absorb significand ds).2 = [] := by
  induction ds generalizing significand with
  | nil => rfl
  | cons d ds ih =>
    have digit : digitValue d < 10 := digitValue_lt (digits d List.mem_cons_self)
    have longer : (10 * significand + digitValue d + 1) * 10 ^ ds.length ≤ 2 ^ 64 :=
      calc (10 * significand + digitValue d + 1) * 10 ^ ds.length
          ≤ (significand + 1) * 10 * 10 ^ ds.length := Nat.mul_le_mul_right _ (by omega)
        _ = (significand + 1) * 10 ^ (d :: ds).length := by
            rw [List.length_cons, Nat.pow_succ, Nat.mul_assoc, Nat.mul_comm 10]
        _ ≤ 2 ^ 64 := fits
    have small : 10 * significand + digitValue d < 2 ^ 64 :=
      (Nat.le_mul_of_pos_right _ (Nat.pow_pos (by decide))).trans longer
    rw [absorb, if_pos small]
    exact ih (fun c known ↦ digits c (List.mem_cons_of_mem d known)) longer

/-- A number with few digits before the point and no large exponent. -/
structure InRange (n : Numeral) : Prop extends WellFormed n where
  short : n.whole.length ≤ 19
  small : ∀ e ∈ n.exponent, ∀ value ∈ Exponent.value? e, value ≤ 38
  negative : ∀ e ∈ n.exponent, Exponent.value? e = none → e.sign = some '-'

theorem InRange.isSome_toDouble? {n : Numeral} (inRange : n.InRange) : n.toDouble?.isSome := by
  have left : (absorb 0 n.whole).2 = [] := by
    refine absorb_left_of_fits inRange.whole.digits ?_
    calc (0 + 1) * 10 ^ n.whole.length ≤ 1 * 10 ^ 19 :=
          Nat.mul_le_mul_left _ (Nat.pow_le_pow_right (by decide) inRange.short)
      _ ≤ 2 ^ 64 := by decide
  have bits := absorb_lt (show 0 < 2 ^ 64 by decide) n.whole
  unfold toDouble?
  cases taken : absorb 0 n.whole with
  | mk head rest =>
    rw [taken] at left bits
    obtain rfl : rest = [] := left
    generalize n.fraction.getD [] = fraction
    have bits := absorb_lt bits fraction
    dsimp only [List.length_nil]
    generalize absorb head fraction = taken at bits
    have within : (double taken.1).value ≤ 2 ^ (64 : ℤ) :=
      value_double_le (by decide) (Nat.le_of_lt bits)
    split
    · exact isSome_scaleTen within (by omega) 4
    next e found =>
      split
      next value known =>
        have bound := inRange.small e found value known
        exact isSome_scaleTen within (by omega) 4
      next unknown =>
        rw [if_neg fun both ↦ both.2 (inRange.negative e found unknown)]
        rfl

theorem InRange.isSome_toSingle? {n : Numeral} (inRange : n.InRange) : n.toSingle?.isSome := by
  unfold toSingle?
  split
  · rfl
  · rw [Option.isSome_map]
    exact inRange.isSome_toDouble?

/-! ### The number that writes a single -/

variable {x : Single} {sign : Bool} {whole ds : List Char}

theorem InRange.positional (run : DigitRun whole) (leading : whole.head? = some '0' → whole = ['0'])
    (short : whole.length ≤ 19) (fraction : DigitRun ds) :
    InRange ⟨sign, whole, some ds, none⟩ where
  whole := run
  leading := leading
  fraction := by
    rintro _ ⟨⟩
    exact fraction
  exponent := by rintro _ ⟨⟩
  sign := by rintro _ ⟨⟩
  short := short
  small := by rintro _ ⟨⟩
  negative := by rintro _ ⟨⟩

theorem digitRun_digits (n : ℕ) : DigitRun (digits n) :=
  ⟨digits_ne_nil n, List.all_eq_true.mp (all_isDigit_digits n)⟩

theorem value?_digits (mark : Option Char) (n : ℕ) : Exponent.value? ⟨mark, digits n⟩ =
    if n < 2 ^ 31 then some (if mark = some '-' then -(n : ℤ) else n) else none := by
  rw [Exponent.value?, collectBelow?_digits (by decide)]
  by_cases bits : n < 2 ^ 31
  · rw [if_pos bits, if_pos bits]
    rfl
  · rw [if_neg bits, if_neg bits]
    rfl

theorem InRange.exponential {e : ℤ} {c : Char} {fraction : Option (List Char)}
    (digit : isDigit c = true) (run : ∀ ds ∈ fraction, DigitRun ds) (small : e ≤ 38) :
    InRange ⟨sign, [c], fraction,
      some ⟨some (if e < 0 then '-' else '+'), digits e.natAbs⟩⟩ where
  whole := ⟨by simp, by simpa using digit⟩
  leading first := congrArg (fun c ↦ [c]) (Option.some.inj first)
  fraction := run
  exponent := by
    rintro _ ⟨⟩
    exact digitRun_digits _
  sign := by
    rintro _ ⟨⟩ c ⟨⟩
    split
    · exact .inr rfl
    · exact .inl rfl
  short := Nat.le_add_left 1 18
  small := by
    rintro _ ⟨⟩ value known
    rw [value?_digits] at known
    obtain ⟨-, known⟩ := Option.ite_none_right_eq_some.mp known
    by_cases below : e < 0
    · rw [if_pos below, if_pos rfl] at known
      have same := Option.some.inj known
      omega
    · rw [if_neg below, if_neg (by decide)] at known
      have same := Option.some.inj known
      omega
  negative := by
    rintro _ ⟨⟩ unknown
    rw [value?_digits] at unknown
    by_cases below : e < 0
    · rw [if_pos below]
    · rw [if_pos (by omega)] at unknown
      cases unknown

theorem inRange_ofSingle (finite : x.isFinite = true) : (ofSingle x).InRange := by
  have zero : DigitRun ['0'] := ⟨by simp, List.forall_mem_singleton.mpr rfl⟩
  by_cases none : x.magnitude.m = 0
  · rw [ofSingle, if_pos none]
    exact .positional zero (fun _ ↦ rfl) (by decide) zero
  obtain ⟨leading, filled⟩ := Single.leading_scientific none
  have small := Single.exponent_scientific_le none finite
  unfold ofSingle
  rw [if_neg none]
  generalize x.scientific = parts at leading filled small
  obtain ⟨ds, e⟩ := parts
  dsimp only at leading filled small ⊢
  obtain ⟨c, cs, rfl⟩ := List.exists_cons_of_ne_nil filled
  have digit : isDigit c = true := leading.digits c List.mem_cons_self
  have first : c ≠ '0' := leading.first c rfl
  split
  next moderate =>
    split
    · exact .positional zero (fun _ ↦ rfl) (by decide)
        ⟨by simp, List.forall_mem_append.mpr ⟨isDigit_zeros _, leading.digits⟩⟩
    · have places : ∀ d ∈ (c :: cs).take (e.toNat + 1), isDigit d = true :=
        fun d known ↦ leading.digits d (List.mem_of_mem_take known)
      refine .positional ⟨by simp, List.forall_mem_append.mpr ⟨places, isDigit_zeros _⟩⟩ ?_ ?_ ?_
      · intro same
        simp [first] at same
      · simp only [List.length_append, List.length_take, List.length_replicate]
        omega
      · split
        · exact zero
        next more =>
          exact ⟨by simpa using more, fun d known ↦ leading.digits d (List.mem_of_mem_drop known)⟩
  next =>
    refine .exponential digit ?_ small
    rintro run known
    split at known
    · cases known
    next more =>
      obtain rfl := Option.some.inj known
      exact ⟨by simpa using more, fun d known ↦ leading.digits d (List.mem_cons_of_mem c known)⟩

end Json.Numeral

end Supervisor
