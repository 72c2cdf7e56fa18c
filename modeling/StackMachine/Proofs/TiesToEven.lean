import Mathlib
import StackMachine.Proofs.Nearest

/-! Rounding leads to the nearest number of a format, and on a tie to the even one. The numbers of the format are
either whole numbers of the unit that a ratio is rounded to, or they lie below the order of the ratio. Among the
former the mantissa is chosen as the nearest natural number, and the latter are no nearer than the least number of
that order, which is one of the former. A code is even exactly if its mantissa is, so the tie can be told from the
last bit of the value. Ratios that are rounded to infinity are left out. -/
namespace StackMachine

/-- One number is at least as near to a ratio as another; where the other is as near, the two are the same or the
first is even. -/
def AtLeastAsNear (q : ℚ) (even : Prop) (r s : ℚ) : Prop :=
  |r - q| ≤ |s - q| ∧ (|s - q| = |r - q| → s = r ∨ even)

namespace AtLeastAsNear

variable {q r s t : ℚ} {even : Prop}

theorem scale (near : AtLeastAsNear q even r s) {unit : ℚ} (positive : 0 < unit) :
    AtLeastAsNear (q * unit) even (r * unit) (s * unit) := by
  simp only [AtLeastAsNear, ← sub_mul, abs_mul, abs_of_pos positive]
  refine ⟨mul_le_mul_of_nonneg_right near.1 positive.le, fun tie => ?_⟩
  exact (near.2 (mul_right_cancel₀ positive.ne' tie)).imp_left (congrArg (· * unit))

theorem below (near : AtLeastAsNear q even r t) (low : s ≤ t) (high : t ≤ q) : AtLeastAsNear q even r s := by
  obtain ⟨least, tie⟩ := near
  rw [abs_of_nonpos (sub_nonpos.mpr high)] at least tie
  rw [AtLeastAsNear, abs_of_nonpos (sub_nonpos.mpr (low.trans high))]
  refine ⟨by linarith, fun equal => ?_⟩
  obtain rfl : s = t := by linarith
  exact tie equal

theorem signed (near : AtLeastAsNear q even r s) (negative : Bool) :
    AtLeastAsNear (signedRatio negative q) even (signedRatio negative r) (signedRatio negative s) := by
  simp only [AtLeastAsNear, ← signedRatio_sub, abs_signedRatio]
  exact ⟨near.1, fun tie => (near.2 tie).imp_left (congrArg (signedRatio negative))⟩

theorem le {p : ℚ} {even' : Prop} (left : AtLeastAsNear p even' r s) (right : AtLeastAsNear q even s r)
    (less : p < q) : r ≤ s := by
  have first := sq_le_sq.mpr left.1
  have second := sq_le_sq.mpr right.1
  -- The squares cancel in the sum of both.
  have product : (r - s) * (q - p) ≤ 0 := by linarith
  exact sub_nonpos.mp (nonpos_of_mul_nonpos_left product (sub_pos.mpr less))

end AtLeastAsNear

variable {num den : Nat}

theorem roundHalfEven_even (half : 2 * (num % den) = den) : Even (roundHalfEven num den) := by
  rw [Nat.even_iff]
  simp only [roundHalfEven, half, lt_irrefl, if_false]
  omega

theorem roundHalfEven_tie (positive : 0 < den) (tie : |(roundHalfEven num den : ℚ) - num / den| = 1 / 2) :
    Even (roundHalfEven num den) := by
  have divisor : (0 : ℚ) < den := by exact_mod_cast positive
  have least : 0 ≤ ((num % den : ℕ) : ℚ) / den := by positivity
  have most : ((num % den : ℕ) : ℚ) / den ≤ 1 := by
    rw [div_le_one divisor]
    exact_mod_cast (Nat.mod_lt num positive).le
  have half : ((num % den : ℕ) : ℚ) / den = 1 / 2 := by
    rw [ratio_parts num positive] at tie
    rcases roundHalfEven_cases num den with ⟨down, -⟩ | ⟨up, -⟩
    · rw [down, sub_add_cancel_left, abs_neg, abs_of_nonneg least] at tie
      exact tie
    · rw [up, Nat.cast_succ, add_sub_add_left_eq_sub, abs_of_nonneg (sub_nonneg.mpr most)] at tie
      linarith
  refine roundHalfEven_even ?_
  rw [div_eq_div_iff divisor.ne' two_ne_zero, one_mul, mul_comm] at half
  exact_mod_cast half

theorem roundHalfEven_nearest (num : Nat) (positive : 0 < den) (n : ℤ) :
    AtLeastAsNear (num / den) (Even (roundHalfEven num den)) (roundHalfEven num den) n := by
  have error := roundHalfEven_error num positive
  by_cases same : n = roundHalfEven num den
  · rw [same, Int.cast_natCast]
    exact ⟨le_rfl, fun _ => .inl rfl⟩
  -- Another integer is at least one away from the rounded one, and so at least a half from the ratio.
  have apart : 1 ≤ |(n : ℚ) - roundHalfEven num den| := by
    exact_mod_cast Int.one_le_abs (sub_ne_zero.mpr same)
  have far : 1 / 2 ≤ |(n : ℚ) - num / den| := by
    have path := abs_sub_le (n : ℚ) (num / den) (roundHalfEven num den)
    rw [abs_sub_comm ((num : ℚ) / den)] at path
    linarith
  exact ⟨error.trans far, fun tie => .inr (roundHalfEven_tie positive (by linarith))⟩

namespace Format

variable {format : Format} {m : Nat} {p : Int} {s : ℚ}

/-- A number of the format is a whole number of units, or of a lower order than those that need the unit. -/
theorem Holds.on_grid (holds : format.Holds m p) (e : Int) :
    (∃ n : ℤ, (m : ℚ) * 2 ^ p = n * 2 ^ e) ∨ p < e ∧ (m : ℚ) * 2 ^ p ≤ 2 ^ (e + format.precision - 1) := by
  obtain coarse | fine := le_or_gt e p
  · obtain ⟨k, apart⟩ := Int.eq_ofNat_of_zero_le (sub_nonneg.mpr coarse)
    refine .inl ⟨m * 2 ^ k, ?_⟩
    rw [← sub_add_cancel p e, apart, zpow_add₀ two_ne_zero, zpow_natCast]
    push_cast
    ring
  · refine .inr ⟨fine, ?_⟩
    have bits : (m : ℚ) ≤ 2 ^ format.precision := by exact_mod_cast holds.bits.le
    calc (m : ℚ) * 2 ^ p ≤ 2 ^ format.precision * 2 ^ p := by gcongr
      _ = 2 ^ (format.precision + p) := by rw [zpow_add₀ two_ne_zero, zpow_natCast]
      _ ≤ 2 ^ (e + format.precision - 1) := zpow_le_zpow_right₀ one_le_two (by omega)

theorem mantissa_nearest_unit (format : Format) (num : Nat) (positive : 0 < den) (n : ℤ) :
    AtLeastAsNear (num / den) (Even (format.mantissa num den))
      (format.mantissa num den * 2 ^ format.place num den) (n * 2 ^ format.place num den) := by
  have unit : (0 : ℚ) < 2 ^ format.place num den := by positivity
  have near := (roundHalfEven_nearest (raise num (-format.place num den))
    (raise_pos positive (format.place num den)) n).scale unit
  rwa [raise_ratio positive, div_mul_cancel₀ _ unit.ne'] at near

theorem mantissa_nearest (filled : num ≠ 0) (positive : 0 < den) (bits : 0 < format.precision)
    (has : format.Has s) :
    AtLeastAsNear (num / den) (Even (format.mantissa num den))
      (format.mantissa num den * 2 ^ format.place num den) s := by
  have grid := mantissa_nearest_unit format num positive
  obtain rfl | ⟨m, p, holds, rfl⟩ := has
  · simpa using grid 0
  obtain ⟨n, same⟩ | ⟨lower, below⟩ := holds.on_grid (format.place num den)
  · rw [same]
    exact grid n
  · -- The unit is not the least one, so the ratio has all its bits and reaches the order above.
    have place := place_eq_log format filled positive
    have least := holds.least
    have ratio : (0 : ℚ) < (num : ℚ) / den := by positivity
    have reached : (2 : ℚ) ^ (format.place num den + format.precision - 1) ≤ num / den := by
      refine le_trans (le_of_eq ?_) (Int.zpow_log_le_self Nat.one_lt_two ratio)
      rw [Nat.cast_ofNat]
      congr 1
      omega
    have first := grid (2 ^ (format.precision - 1) : ℕ)
    rw [Int.cast_natCast, ← Holds.leading_power bits] at first
    exact first.below below reached

end Format

namespace Value

variable {x : Number} {q : ℚ}

/-- The value is finite and no finite value is nearer to a ratio; of two values that are equally near it is the
one whose last bit is zero. -/
def IsNearest (v : Value) (q : ℚ) : Prop :=
  ∃ r, v.number.toRat? = some r ∧ ∀ (w : Value) (s : ℚ), w.number.toRat? = some s → AtLeastAsNear q (Even v.code) r s

theorem even_nearestCode {num den : Nat} (filled : num ≠ 0) (fits : Format.binary32.overflows num den = false) :
    Even (nearestCode num den) ↔ Even (Format.binary32.mantissa num den) := by
  rw [nearestCode_eq filled fits, Nat.even_iff, Nat.even_iff, orderStep]
  omega

theorem has_of_toRat? {w : Value} {s : ℚ} (finite : w.number.toRat? = some s) :
    ∃ negative t, 0 ≤ t ∧ Format.binary32.Has t ∧ s = signedRatio negative t := by
  obtain ⟨negative, num, den, number, rfl⟩ := Number.finite_of_toRat? finite
  exact ⟨negative, num / den, by positivity, (number_has number).2, rfl⟩

theorem isNearest_of_has {v : Value} {r : ℚ} {negative : Bool} (least : 0 ≤ q)
    (read : v.number.toRat? = some (signedRatio negative r))
    (near : ∀ t, Format.binary32.Has t → AtLeastAsNear q (Even v.code) r t) :
    v.IsNearest (signedRatio negative q) := by
  refine ⟨_, read, fun w s finite => ?_⟩
  obtain ⟨other, t, size, has, rfl⟩ := has_of_toRat? finite
  by_cases sign : other = negative
  · rw [sign]
    exact (near t has).signed negative
  · -- Under the other sign the number lies beyond zero.
    have opposite : signedRatio other t = signedRatio negative (-t) := by
      cases other <;> cases negative <;> simp_all [signedRatio]
    rw [opposite]
    exact ((near 0 (.inl rfl)).below (neg_nonpos.mpr size) least).signed negative

theorem ofNumber_isNearest (number : x.IsRatio q) (below : q < 2 ^ 127) (negative : Bool) :
    (ofNumber (if negative then x.negate else x)).IsNearest (signedRatio negative q) := by
  have least := number.nonneg
  obtain ⟨num, den, rfl, positive, rfl⟩ := number
  rw [ofNumber_signed]
  have code := (ofCode_parts ((nearestCode_le num positive).trans_lt (by decide)) negative).1
  by_cases filled : num = 0
  · have empty : nearestCode num den = 0 := by rw [nearestCode, if_pos filled]
    rw [empty]
    refine isNearest_of_has least (toRat?_ofCode_zero negative) fun t _ => ?_
    rw [filled, Nat.cast_zero, zero_div]
    refine ⟨by simp, fun tie => .inl ?_⟩
    simpa using tie
  have fits : Format.binary32.overflows num den = false :=
    Format.overflows_of_lt filled positive (by decide) below
  refine isNearest_of_has (r := Format.binary32.mantissa num den * 2 ^ Format.binary32.place num den) least ?_
    fun t has => ?_
  · obtain ⟨zero, code⟩ | ⟨m, p, holds, code, same⟩ := nearestCode_rounded filled positive fits
    · rw [code, zero, Nat.cast_zero, zero_mul, toRat?_ofCode_zero]
    · rw [code, ← same, toRat?_ofCode holds]
  · rw [code, even_nearestCode filled fits]
    exact Format.mantissa_nearest filled positive (by decide) has

end Value
end StackMachine
