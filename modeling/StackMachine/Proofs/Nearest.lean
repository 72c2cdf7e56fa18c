import Mathlib
import StackMachine.Proofs.Rounding

/-! How far rounding goes. A ratio is moved by half a unit of its last bit kept, at most, and the result is
a number of the format; a number of the format stays where it is. The other way round, whatever lies within
half a unit of a number of the format is rounded to that number, where below a power of two the unit is half
as large. Numbers here are not negative: `Number.IsRatio x q` says that `x` is the ratio `q`. Only ratios
that stay below the last order of the format are looked at; past it lies infinity. -/
namespace StackMachine

variable {num den : Nat}

theorem roundHalfEven_cases (num den : Nat) :
    roundHalfEven num den = num / den ∧ 2 * (num % den) ≤ den ∨
      roundHalfEven num den = num / den + 1 ∧ den ≤ 2 * (num % den) := by
  simp only [roundHalfEven]
  split_ifs <;> omega

theorem ratio_parts (num : Nat) (positive : 0 < den) :
    (num : ℚ) / den = (num / den : ℕ) + (num % den : ℕ) / (den : ℚ) := by
  have divisor : (den : ℚ) ≠ 0 := by exact_mod_cast positive.ne'
  rw [div_eq_iff divisor, add_mul, div_mul_cancel₀ _ divisor]
  exact_mod_cast (Nat.div_add_mod' num den).symm

theorem roundHalfEven_error (num : Nat) (positive : 0 < den) :
    |(roundHalfEven num den : ℚ) - num / den| ≤ 1 / 2 := by
  have divisor : (0 : ℚ) < den := by exact_mod_cast positive
  have bound : ((num % den : ℕ) : ℚ) / den ≤ 1 := by
    rw [div_le_one divisor]
    exact_mod_cast (Nat.mod_lt num positive).le
  have least : 0 ≤ ((num % den : ℕ) : ℚ) / den := by positivity
  rw [ratio_parts num positive, abs_le]
  rcases roundHalfEven_cases num den with ⟨down, low⟩ | ⟨up, high⟩
  · have half : ((num % den : ℕ) : ℚ) / den ≤ 1 / 2 := by
      rw [div_le_div_iff₀ divisor two_pos, one_mul, mul_comm]
      exact_mod_cast low
    rw [down]
    constructor <;> linarith
  · have half : 1 / 2 ≤ ((num % den : ℕ) : ℚ) / den := by
      rw [div_le_div_iff₀ two_pos divisor, one_mul, mul_comm]
      exact_mod_cast high
    rw [up]
    push_cast
    constructor <;> linarith

theorem roundHalfEven_eq {n : Nat} (positive : 0 < den) (close : |(num : ℚ) / den - n| < 1 / 2) :
    roundHalfEven num den = n := by
  have apart : |((roundHalfEven num den : ℤ) - n : ℚ)| < 1 := by
    have error := roundHalfEven_error num positive
    rw [abs_lt] at close ⊢
    rw [abs_le] at error
    push_cast
    constructor <;> linarith
  have same : |(roundHalfEven num den : ℤ) - n| < 1 := by exact_mod_cast apart
  rw [Int.abs_lt_one_iff] at same
  omega

theorem raise_ratio (positive : 0 < den) (e : Int) :
    (raise num (-e) : ℚ) / raise den e = num / den / 2 ^ e := by
  have divisor : (den : ℚ) ≠ 0 := by exact_mod_cast positive.ne'
  obtain ⟨n, rfl | rfl⟩ := e.eq_nat_or_neg
  · simp [raise_eq, div_div]
  · simp [raise_eq, div_mul_eq_mul_div]

namespace Format

variable {format : Format} {m : Nat} {p : Int} {q : ℚ}

/-- The exponent of the last bit kept is that of the leading bit, less the bits behind it. -/
theorem place_eq_log (format : Format) (filled : num ≠ 0) (positive : 0 < den) :
    format.place num den = max format.minExponent (Int.log 2 ((num : ℚ) / den) + 1 - format.precision) := by
  rw [place, binaryOrder_eq_log filled positive.ne']

theorem mantissa_scaled (format : Format) (num : Nat) (positive : 0 < den) :
    |(format.mantissa num den : ℚ) - num / den / 2 ^ format.place num den| ≤ 1 / 2 := by
  rw [mantissa, ← raise_ratio positive]
  exact roundHalfEven_error _ (raise_pos positive _)

theorem mantissa_error (positive : 0 < den) :
    |(format.mantissa num den : ℚ) * 2 ^ format.place num den - num / den| ≤
      2 ^ format.place num den / 2 := by
  have unit : (0 : ℚ) < 2 ^ format.place num den := by positivity
  have scaled := mul_le_mul_of_nonneg_right (mantissa_scaled format num positive)
    unit.le
  rw [← abs_of_pos unit, ← abs_mul, abs_of_pos unit, sub_mul, div_mul_cancel₀ _ unit.ne'] at scaled
  linarith

theorem ratio_lt_unit (filled : num ≠ 0) (positive : 0 < den) :
    (num : ℚ) / den < 2 ^ (format.place num den + format.precision) := by
  refine (Int.lt_zpow_succ_log_self Nat.one_lt_two _).trans_le ?_
  rw [Nat.cast_ofNat]
  refine zpow_le_zpow_right₀ one_le_two ?_
  rw [place_eq_log _ filled positive]
  omega

theorem mantissa_le (format : Format) (filled : num ≠ 0) (positive : 0 < den) :
    format.mantissa num den ≤ 2 ^ format.precision := by
  have unit : (0 : ℚ) < 2 ^ format.place num den := by positivity
  have below : (num : ℚ) / den / 2 ^ format.place num den < 2 ^ format.precision := by
    rw [div_lt_iff₀ unit, ← zpow_natCast, ← zpow_add₀ two_ne_zero, add_comm]
    exact ratio_lt_unit filled positive
  have scaled := (abs_le.mp (mantissa_scaled format num positive)).2
  have next : (format.mantissa num den : ℚ) < 2 ^ format.precision + 1 := by linarith
  exact Nat.le_of_lt_add_one (by exact_mod_cast next)

theorem le_mantissa (filled : num ≠ 0) (positive : 0 < den) (bits : 0 < format.precision)
    (above : format.place num den ≠ format.minExponent) :
    2 ^ (format.precision - 1) ≤ format.mantissa num den := by
  have unit : (0 : ℚ) < 2 ^ format.place num den := by positivity
  have ratio : (0 : ℚ) < (num : ℚ) / den := by positivity
  have place := place_eq_log format filled positive
  have leading : (2 : ℚ) ^ (format.precision - 1) ≤ num / den / 2 ^ format.place num den := by
    have log := Int.zpow_log_le_self Nat.one_lt_two ratio
    rw [le_div_iff₀ unit, ← zpow_natCast, ← zpow_add₀ two_ne_zero]
    refine le_trans (le_of_eq ?_) log
    rw [Nat.cast_ofNat]
    congr 1
    omega
  have scaled := (abs_le.mp (mantissa_scaled format num positive)).1
  have next : (2 : ℚ) ^ (format.precision - 1) < format.mantissa num den + 1 := by linarith
  exact Nat.le_of_lt_add_one (by exact_mod_cast next)

def Has (format : Format) (q : ℚ) : Prop := q = 0 ∨ ∃ m p, format.Holds m p ∧ (m : ℚ) * 2 ^ p = q

theorem has_scaled {n : Nat} (short : n < 2 ^ format.precision)
    (low : format.minExponent + format.precision ≤ 1) {e : Nat} (high : e ≤ format.maxExponent) :
    format.Has (n * 2 ^ e) := by
  by_cases filled : n = 0
  · exact .inl (by simp [filled])
  have order : n.log2 < format.precision := (Nat.log2_lt filled).mpr short
  have least : 2 ^ n.log2 ≤ n := Nat.log2_self_le filled
  have next : n < 2 ^ (n.log2 + 1) := Nat.lt_log2_self
  obtain ⟨k, behind⟩ : ∃ k, format.precision = n.log2 + 1 + k := ⟨_, (Nat.add_sub_of_le order).symm⟩
  refine .inr ⟨n * 2 ^ k, e - k, ⟨by positivity, ?_, .inl ?_, by omega, by omega⟩, ?_⟩
  · rw [behind, pow_add]
    exact Nat.mul_lt_mul_of_pos_right next (Nat.two_pow_pos k)
  · rw [behind, Nat.add_right_comm, Nat.add_sub_cancel, pow_add]
    exact Nat.mul_le_mul_right _ least
  · rw [zpow_sub₀ two_ne_zero, zpow_natCast, zpow_natCast, Nat.cast_mul, Nat.cast_pow, Nat.cast_ofNat, mul_assoc,
      mul_div_cancel₀ _ (by positivity)]

theorem has_natural {n : Nat} (short : n < 2 ^ format.precision)
    (low : format.minExponent + format.precision ≤ 1) (high : 0 ≤ format.maxExponent) : format.Has n := by
  simpa using has_scaled short low (e := 0) high

theorem has_scaled_of_le {n : Nat} (most : n ≤ 2 ^ format.precision) (bits : 0 < format.precision)
    (low : format.minExponent + format.precision ≤ 1) {e : Nat} (high : e + format.precision ≤ format.maxExponent) :
    format.Has (n * 2 ^ e) := by
  obtain rfl | less := Nat.eq_or_lt_of_le most
  · have power := has_scaled (Nat.one_lt_two_pow bits.ne') low (e := format.precision + e) (by omega)
    rwa [Nat.cast_one, one_mul, pow_add, ← Nat.cast_ofNat, ← Nat.cast_pow] at power
  · exact has_scaled less low (by omega)

theorem Has.scaled {n : Nat} (has : format.Has n) (high : 0 ≤ format.maxExponent) :
    ∃ s e : Nat, s < 2 ^ format.precision ∧ e ≤ format.maxExponent ∧ n = s * 2 ^ e := by
  obtain zero | ⟨m, p, holds, same⟩ := has
  · exact ⟨0, 0, by positivity, high, by simpa using zero⟩
  obtain ⟨k, rfl | rfl⟩ := p.eq_nat_or_neg
  · exact ⟨m, k, holds.bits, holds.greatest, by exact_mod_cast same.symm⟩
  · -- Below the point there are no powers to take out, but no more bits than the mantissa has.
    have less : (n : ℚ) ≤ m := by
      rw [← same]
      exact mul_le_of_le_one_right m.cast_nonneg (zpow_le_one_of_nonpos₀ one_le_two (by omega))
    have less : n ≤ m := by exact_mod_cast less
    exact ⟨n, 0, less.trans_lt holds.bits, high, by simp⟩

theorem has_of_dvd {n s e : Nat} (divides : 2 ^ e ∣ n) (most : n ≤ s * 2 ^ e) (short : s < 2 ^ format.precision)
    (low : format.minExponent + format.precision ≤ 1) (high : e ≤ format.maxExponent) : format.Has n := by
  obtain ⟨k, rfl⟩ := divides
  rw [Nat.mul_comm] at most ⊢
  have few : k < 2 ^ format.precision := (Nat.le_of_mul_le_mul_right most (by positivity)).trans_lt short
  exact_mod_cast has_scaled few low high

/-- The rounded ratio is a number of the format, with the bits and the exponent that it has there. A
mantissa that has rounded up to the next power of two is written with the next exponent. -/
theorem rounded_holds (filled : num ≠ 0) (positive : 0 < den) (bits : 0 < format.precision)
    (fits : format.overflows num den = false) (nonzero : format.mantissa num den ≠ 0) :
    ∃ m p, format.Holds m p ∧ (m : ℚ) * 2 ^ p = format.mantissa num den * 2 ^ format.place num den ∧
      (p = format.place num den ∧ m = format.mantissa num den ∨
        p = format.place num den + 1 ∧ m = 2 ^ (format.precision - 1) ∧
          format.mantissa num den = 2 * m) := by
  have least : format.minExponent ≤ format.place num den := le_max_left ..
  have most := mantissa_le format filled positive
  have double : 2 ^ format.precision = 2 * 2 ^ (format.precision - 1) := by
    rw [← pow_succ', Nat.sub_add_cancel bits]
  simp only [overflows, Nat.shiftLeft_eq, one_mul, Bool.or_eq_false_iff, decide_eq_false_iff_not,
    not_lt, Bool.and_eq_false_iff, beq_eq_false_iff_ne] at fits
  obtain ⟨greatest, last⟩ := fits
  by_cases carry : format.mantissa num den = 2 ^ format.precision
  · refine ⟨2 ^ (format.precision - 1), format.place num den + 1, ⟨by positivity, ?_, .inl le_rfl, ?_, ?_⟩,
      ?_, .inr ⟨rfl, rfl, carry.trans double⟩⟩
    · rw [double]
      have := Nat.two_pow_pos (format.precision - 1)
      omega
    · omega
    · have := last.resolve_right (fun other => other carry)
      omega
    · rw [carry, double, zpow_add_one₀ two_ne_zero]
      push_cast
      ring
  · refine ⟨_, _, ⟨nonzero, lt_of_le_of_ne most carry, ?_, least, greatest⟩, rfl, .inl ⟨rfl, rfl⟩⟩
    by_cases above : format.place num den = format.minExponent
    · exact .inr above
    · exact .inl (le_mantissa filled positive bits above)

theorem overflows_of_lt (filled : num ≠ 0) (positive : 0 < den)
    (orders : format.minExponent < format.maxExponent)
    (below : (num : ℚ) / den < 2 ^ (format.maxExponent + format.precision - 1)) :
    format.overflows num den = false := by
  have ratio : (0 : ℚ) < (num : ℚ) / den := by positivity
  have order : Int.log 2 ((num : ℚ) / den) < format.maxExponent + format.precision - 1 := by
    rw [← Int.lt_zpow_iff_log_lt Nat.one_lt_two ratio]
    exact_mod_cast below
  have place : format.place num den < format.maxExponent := by
    rw [place_eq_log _ filled positive]
    omega
  simp [overflows, place.ne, place.le]

theorem mantissa_eq {n : Nat} (positive : 0 < den)
    (low : (n - 1 / 2) * 2 ^ format.place num den < (num : ℚ) / den)
    (high : (num : ℚ) / den < (n + 1 / 2) * 2 ^ format.place num den) : format.mantissa num den = n := by
  have unit : (0 : ℚ) < 2 ^ format.place num den := by positivity
  refine roundHalfEven_eq (raise_pos positive _) ?_
  rw [raise_ratio positive, abs_lt, lt_sub_iff_add_lt, lt_div_iff₀ unit, sub_lt_iff_lt_add,
    div_lt_iff₀ unit]
  constructor <;> linarith

namespace Holds

theorem leading_power (bits : 0 < format.precision) (p : Int) :
    (2 : ℚ) ^ (p + format.precision - 1) = (2 ^ (format.precision - 1) : ℕ) * 2 ^ p := by
  rw [Nat.cast_pow, Nat.cast_ofNat, ← zpow_natCast, ← zpow_add₀ two_ne_zero]
  congr 1
  omega

theorem order_lt (holds : format.Holds m p) (positive : 0 < q) (close : q < m * 2 ^ p + 2 ^ p / 2) :
    Int.log 2 q < p + format.precision := by
  have unit : (0 : ℚ) < 2 ^ p := by positivity
  have most : (m : ℚ) + 1 ≤ 2 ^ format.precision := by exact_mod_cast holds.bits
  rw [← Int.lt_zpow_iff_log_lt Nat.one_lt_two positive, Nat.cast_ofNat, zpow_add₀ two_ne_zero, zpow_natCast]
  nlinarith

/-- Half a unit below a number of the format another order begins only if the number is a power of two. -/
theorem eq_power (holds : format.Holds m p) (bits : 0 < format.precision) (above : p ≠ format.minExponent)
    (close : m * 2 ^ p - 2 ^ p / 2 < q) (under : q < 2 ^ (p + format.precision - 1)) :
    m = 2 ^ (format.precision - 1) := by
  have unit : (0 : ℚ) < 2 ^ p := by positivity
  have leading := holds.leading.resolve_right above
  rw [leading_power bits] at under
  refine le_antisymm ?_ leading
  by_contra other
  have next : ((2 ^ (format.precision - 1) : ℕ) : ℚ) + 1 ≤ m := by exact_mod_cast Nat.lt_of_not_le other
  nlinarith

/-- What lies within half a unit of a number of the format is rounded to it. Below a power of two the units
are half as large, so there it has to lie within a quarter. -/
theorem absorbs (holds : format.Holds m p) (filled : num ≠ 0) (positive : 0 < den)
    (bits : 0 < format.precision) (close : |(num : ℚ) / den - m * 2 ^ p| < 2 ^ p / 2)
    (edge : m = 2 ^ (format.precision - 1) → m * 2 ^ p - 2 ^ p / 4 < (num : ℚ) / den) :
    format.place num den = p ∧ format.mantissa num den = m ∨
      m = 2 ^ (format.precision - 1) ∧ format.place num den + 1 = p ∧ format.mantissa num den = 2 * m := by
  have unit : (0 : ℚ) < 2 ^ p := by positivity
  have ratio : (0 : ℚ) < (num : ℚ) / den := by positivity
  have place := place_eq_log format filled positive
  have least := holds.least
  obtain ⟨low, high⟩ := abs_lt.mp close
  have order := holds.order_lt ratio (by linarith)
  by_cases here : format.place num den = p
  · refine .inl ⟨here, mantissa_eq positive ?_ ?_⟩ <;> rw [here] <;> linarith
  · -- The ratio is below the number, which is the least of its order.
    have lower : Int.log 2 ((num : ℚ) / den) < p + format.precision - 1 := by omega
    have under : (num : ℚ) / den < 2 ^ (p + format.precision - 1) := by
      have log := (Int.lt_zpow_iff_log_lt Nat.one_lt_two ratio).mpr lower
      exact_mod_cast log
    have power := holds.eq_power bits (by omega) (by linarith) under
    have quarter := edge power
    rw [leading_power bits, ← power] at under
    have half : (2 : ℚ) ^ (p + format.precision - 2) = m * 2 ^ p / 2 := by
      rw [power, ← leading_power bits, eq_div_iff two_ne_zero, ← zpow_add_one₀ two_ne_zero]
      congr 1
      omega
    have one : (1 : ℚ) ≤ m := by exact_mod_cast Nat.pos_of_ne_zero holds.filled
    have order : p + format.precision - 2 ≤ Int.log 2 ((num : ℚ) / den) := by
      rw [← Int.zpow_le_iff_le_log Nat.one_lt_two ratio, Nat.cast_ofNat, half]
      nlinarith
    have next : format.place num den + 1 = p := by omega
    have halved : (2 : ℚ) ^ p = 2 * 2 ^ format.place num den := by
      rw [← next, zpow_add_one₀ two_ne_zero, mul_comm]
    rw [halved] at quarter under
    refine .inr ⟨power, next, mantissa_eq positive ?_ ?_⟩ <;> push_cast <;> linarith

end Holds
end Format

namespace Number

variable {x y : Number} {q r : ℚ}

/-- A number that is not negative, as a ratio. -/
def IsRatio (x : Number) (q : ℚ) : Prop :=
  ∃ num den : ℕ, x = .finite false num den ∧ 0 < den ∧ (num : ℚ) / den = q

theorem isRatio_ofNat (n : Nat) : (ofNat n).IsRatio n := ⟨n, 1, rfl, one_pos, by simp⟩

theorem IsRatio.nonneg (number : x.IsRatio q) : 0 ≤ q := by
  obtain ⟨num, den, -, -, rfl⟩ := number
  positivity

theorem IsRatio.add (left : x.IsRatio q) (right : y.IsRatio r) : (x.add y).IsRatio (q + r) := by
  obtain ⟨a, b, rfl, positive, rfl⟩ := left
  obtain ⟨c, d, rfl, positive', rfl⟩ := right
  have sum : signed false (a * d) + signed false (c * b) = (a * d + c * b : ℕ) := by simp [signed]
  refine ⟨a * d + c * b, b * d, ?_, Nat.mul_pos positive positive', ?_⟩
  · have plus : ¬((a * d + c * b : ℕ) : ℤ) < 0 := Int.not_lt.mpr (Int.natCast_nonneg _)
    simp only [Number.add, sum, plus, Int.natAbs_natCast, Bool.and_false, decide_false, ite_self]
  · have divisor : (b : ℚ) ≠ 0 := by exact_mod_cast positive.ne'
    have divisor' : (d : ℚ) ≠ 0 := by exact_mod_cast positive'.ne'
    push_cast
    field_simp

theorem IsRatio.sub (left : x.IsRatio q) (right : y.IsRatio r) (below : r ≤ q) :
    (x.sub y).IsRatio (q - r) := by
  obtain ⟨a, b, rfl, positive, rfl⟩ := left
  obtain ⟨c, d, rfl, positive', rfl⟩ := right
  rw [div_le_div_iff₀ (by exact_mod_cast positive') (by exact_mod_cast positive)] at below
  have less : c * b ≤ a * d := by exact_mod_cast below
  have difference : signed false (a * d) + signed true (c * b) = (a * d - c * b : ℕ) := by
    simp only [signed, if_true, Bool.false_eq_true, if_false]
    omega
  refine ⟨a * d - c * b, b * d, ?_, Nat.mul_pos positive positive', ?_⟩
  · have plus : ¬((a * d - c * b : ℕ) : ℤ) < 0 := Int.not_lt.mpr (Int.natCast_nonneg _)
    simp only [Number.sub, Number.negate, Number.add, Bool.not_false, difference, plus, Int.natAbs_natCast,
      Bool.false_and, decide_false, ite_self]
  · have divisor : (b : ℚ) ≠ 0 := by exact_mod_cast positive.ne'
    have divisor' : (d : ℚ) ≠ 0 := by exact_mod_cast positive'.ne'
    rw [Nat.cast_sub less]
    push_cast
    field_simp

theorem IsRatio.mul (left : x.IsRatio q) (right : y.IsRatio r) : (x.mul y).IsRatio (q * r) := by
  obtain ⟨a, b, rfl, positive, rfl⟩ := left
  obtain ⟨c, d, rfl, positive', rfl⟩ := right
  refine ⟨a * c, b * d, rfl, Nat.mul_pos positive positive', ?_⟩
  push_cast
  exact mul_div_mul_comm ..

theorem IsRatio.div (left : x.IsRatio q) (right : y.IsRatio r) (filled : r ≠ 0) :
    (x.div y).IsRatio (q / r) := by
  obtain ⟨a, b, rfl, positive, rfl⟩ := left
  obtain ⟨c, d, rfl, positive', rfl⟩ := right
  have nonzero : c ≠ 0 := by
    rintro rfl
    simp at filled
  refine ⟨a * d, b * c, by simp [Number.div, nonzero], Nat.mul_pos positive (Nat.pos_of_ne_zero nonzero), ?_⟩
  push_cast
  rw [div_div_div_eq]

end Number

namespace Format

variable {format : Format} {x : Number} {q : ℚ}

theorem nearest_of_has (has : format.Has q) (number : x.IsRatio q) : (format.nearest x).IsRatio q := by
  obtain ⟨num, den, rfl, positive, rfl⟩ := number
  obtain zero | ⟨m, p, holds, same⟩ := has
  · have empty : num = 0 := by
      rw [div_eq_zero_iff] at zero
      exact_mod_cast zero.resolve_right (by exact_mod_cast positive.ne')
    exact ⟨0, 1, by simp [nearest, empty], one_pos, by simp [empty]⟩
  · have divisor : (den : ℚ) ≠ 0 := by exact_mod_cast positive.ne'
    have filled : raise m p ≠ 0 := (raise_pos (Nat.pos_of_ne_zero holds.filled) p).ne'
    have lower : 0 < raise 1 (-p) := raise_pos one_pos _
    have cross : raise m p * den = num * raise 1 (-p) := by
      rw [← raise_div_raise, div_eq_div_iff (by exact_mod_cast lower.ne') divisor] at same
      exact_mod_cast same
    refine ⟨raise m p, raise 1 (-p), ?_, lower, by rw [raise_div_raise, same]⟩
    rw [nearest, if_neg (filled_of_same filled positive cross),
      ← overflows_congr filled lower positive cross, holds.overflows]
    simp only [← place_congr filled lower positive cross, ← mantissa_congr filled lower positive cross,
      holds.place, holds.mantissa, Bool.false_eq_true, if_false]

theorem nearest_cases (bits : 0 < format.precision) (orders : format.minExponent < format.maxExponent)
    (number : x.IsRatio q) :
    format.nearest x = .infinite false ∧ 2 ^ (format.maxExponent + format.precision - 1) ≤ q ∨
      ∃ r, (format.nearest x).IsRatio r ∧ format.Has r ∧
        |r - q| ≤ 2 ^ max format.minExponent (Int.log 2 q + 1 - format.precision) / 2 := by
  obtain ⟨num, den, rfl, positive, rfl⟩ := number
  by_cases filled : num = 0
  · refine .inr ⟨0, ⟨0, 1, by simp [nearest, filled], one_pos, by simp⟩, .inl rfl, ?_⟩
    rw [filled, Nat.cast_zero, zero_div, sub_zero, abs_zero]
    positivity
  by_cases fits : format.overflows num den
  · refine .inl ⟨by simp [nearest, filled, fits], ?_⟩
    by_contra below
    rw [overflows_of_lt filled positive orders (not_le.mp below)] at fits
    cases fits
  · rw [Bool.not_eq_true] at fits
    refine .inr ⟨format.mantissa num den * 2 ^ format.place num den, ⟨_, _, ?_, raise_pos one_pos _,
      raise_div_raise ..⟩, ?_, ?_⟩
    · simp only [nearest, filled, fits, Bool.false_eq_true, if_false]
    · by_cases zero : format.mantissa num den = 0
      · exact .inl (by simp [zero])
      · obtain ⟨m, p, holds, same, -⟩ := rounded_holds filled positive bits fits zero
        exact .inr ⟨m, p, holds, same⟩
    · rw [← place_eq_log _ filled positive]
      exact mantissa_error positive

/-- Where all bits are kept, half a unit is a fixed part of the ratio. -/
theorem half_unit_le (positive : 0 < q) (normal : 2 ^ (format.minExponent + format.precision - 1) ≤ q) :
    (2 : ℚ) ^ max format.minExponent (Int.log 2 q + 1 - format.precision) / 2 ≤
      q / 2 ^ format.precision := by
  have order : format.minExponent + format.precision - 1 ≤ Int.log 2 q := by
    rw [← Int.zpow_le_iff_le_log Nat.one_lt_two positive]
    exact_mod_cast normal
  have log : (2 : ℚ) ^ Int.log 2 q ≤ q := by exact_mod_cast Int.zpow_log_le_self Nat.one_lt_two positive
  rw [max_eq_right (by omega), zpow_sub₀ two_ne_zero, zpow_add_one₀ two_ne_zero, zpow_natCast,
    mul_div_right_comm, mul_div_cancel_right₀ _ two_ne_zero]
  gcongr

end Format

def signedRatio (negative : Bool) (q : ℚ) : ℚ := if negative then -q else q

theorem abs_signedRatio (negative : Bool) (q : ℚ) : |signedRatio negative q| = |q| := by
  cases negative <;> simp [signedRatio]

theorem signedRatio_sub (negative : Bool) (q r : ℚ) :
    signedRatio negative (q - r) = signedRatio negative q - signedRatio negative r := by
  cases negative with
  | false => rfl
  | true => exact neg_sub' q r

theorem signedRatio_natural (negative : Bool) (n : Nat) :
    signedRatio negative n = (Number.signed negative n : ℤ) := by
  cases negative <;> simp [signedRatio, Number.signed]

theorem Number.natAbs_signed (negative : Bool) (n : Nat) : (signed negative n).natAbs = n := by
  cases negative <;> simp [signed]

def Number.toRat? : Number → Option ℚ
  | .finite negative num den => some (signedRatio negative (num / den))
  | _ => none

theorem Number.finite_of_toRat? {x : Number} {q : ℚ} (number : x.toRat? = some q) :
    ∃ negative num den, x = .finite negative num den ∧ signedRatio negative (num / den) = q := by
  cases x with
  | nan => cases number
  | infinite negative => cases number
  | finite negative num den => exact ⟨negative, num, den, rfl, Option.some_inj.mp number⟩

namespace Value

variable {m : Nat} {p : Int} {x : Number} {q : ℚ}

theorem ofCode_parts {code : Nat} (bound : code < 0x80000000) (negative : Bool) :
    (ofCode negative code).code = code ∧ (ofCode negative code).negative = negative := by
  cases negative
  · have pattern : (ofCode false code).bits.toNat = code := by
      simp [ofCode]
      omega
    simp [Value.code, Value.negative, pattern]
    omega
  · have pattern : (ofCode true code).bits.toNat = 0x80000000 + code := by
      simp [ofCode]
      omega
    simp [Value.code, Value.negative, pattern]
    omega

theorem code_lt_infinity (holds : Format.binary32.Holds m p) :
    (p + 149).toNat * orderStep + m < infinityCode := by
  obtain ⟨-, bits, -, -, greatest⟩ := holds
  simp only [Format.binary32] at bits greatest
  rw [orderStep, infinityCode]
  omega

theorem number_ofCode (holds : Format.binary32.Holds m p) (negative : Bool) :
    (ofCode negative ((p + 149).toNat * orderStep + m)).number =
      .finite negative (raise m p) (raise 1 (-p)) := by
  have finite := code_lt_infinity holds
  obtain ⟨code, sign⟩ := ofCode_parts (finite.trans (by decide)) negative
  have filled := holds.filled
  obtain ⟨n, e, read, again, counted⟩ := number_finite (code ▸ finite) (by rw [code]; omega)
  obtain ⟨-, bits, leading, least, -⟩ := holds
  obtain ⟨-, bits', leading', least', -⟩ := again
  simp only [Format.binary32] at bits leading least bits' leading' least'
  rw [code, orderStep] at counted
  have exponent : e = p := by omega
  have mantissa : n = m := by omega
  rw [read, sign, exponent, mantissa]

theorem toRat?_ofCode (holds : Format.binary32.Holds m p) (negative : Bool) :
    (ofCode negative ((p + 149).toNat * orderStep + m)).number.toRat? =
      some (signedRatio negative (m * 2 ^ p)) := by
  rw [number_ofCode holds, Number.toRat?, raise_div_raise]

theorem number_ofCode_zero (negative : Bool) : (ofCode negative 0).number = .finite negative 0 (1 <<< 149) := by
  cases negative <;> decide

theorem toRat?_ofCode_zero (negative : Bool) :
    (ofCode negative 0).number.toRat? = some (signedRatio negative 0) := by
  rw [number_ofCode_zero, Number.toRat?]
  simp

theorem ofNumber_signed (negative : Bool) (num den : Nat) :
    ofNumber (if negative then (Number.finite false num den).negate else .finite false num den) =
      ofCode negative (nearestCode num den) := by
  cases negative <;> rfl

theorem ofNumber_congr {y : Number} (number : x.IsRatio q) (other : y.IsRatio q) (negative : Bool) :
    ofNumber (if negative then x.negate else x) = ofNumber (if negative then y.negate else y) := by
  obtain ⟨a, b, rfl, positive, rfl⟩ := number
  obtain ⟨c, d, rfl, positive', same⟩ := other
  rw [div_eq_div_iff (by exact_mod_cast positive'.ne') (by exact_mod_cast positive.ne')] at same
  rw [ofNumber_signed, ofNumber_signed, nearestCode_congr positive' positive (by exact_mod_cast same)]

theorem number_ofNumber (has : Format.binary32.Has q) (number : x.IsRatio q) (negative : Bool) :
    ∃ num den : ℕ, (ofNumber (if negative then x.negate else x)).number = .finite negative num den ∧ 0 < den ∧
      (num : ℚ) / den = q := by
  obtain rfl | ⟨m, p, holds, rfl⟩ := has
  · have zero : (Number.finite false 0 1).IsRatio 0 := ⟨0, 1, rfl, one_pos, by simp⟩
    refine ⟨0, 1 <<< 149, ?_, by decide, by simp⟩
    rw [ofNumber_congr number zero, ofNumber_signed]
    exact number_ofCode_zero negative
  · have written : (Number.finite false (raise m p) (raise 1 (-p))).IsRatio (m * 2 ^ p) :=
      ⟨_, _, rfl, raise_pos one_pos _, raise_div_raise m p⟩
    refine ⟨raise m p, raise 1 (-p), ?_, raise_pos one_pos _, raise_div_raise m p⟩
    rw [ofNumber_congr number written, ofNumber_signed, nearestCode_raise holds, number_ofCode holds]

theorem ofNumber_exact (has : Format.binary32.Has q) (number : x.IsRatio q) (negative : Bool) :
    (ofNumber (if negative then x.negate else x)).number.toRat? = some (signedRatio negative q) := by
  obtain ⟨num, den, read, -, rfl⟩ := number_ofNumber has number negative
  rw [read, Number.toRat?]

theorem nearestCode_eq {num den : Nat} (filled : num ≠ 0)
    (fits : Format.binary32.overflows num den = false) :
    nearestCode num den = (Format.binary32.place num den + 149).toNat * orderStep +
      Format.binary32.mantissa num den := by
  simp only [nearestCode, filled, fits]
  simp [Format.binary32]

theorem ofNumber_absorbed (holds : Format.binary32.Holds m p) (number : x.IsRatio q) (above : 0 < q)
    (close : |q - m * 2 ^ p| < 2 ^ p / 2) (edge : m = 2 ^ 23 → m * 2 ^ p - 2 ^ p / 4 < q)
    (negative : Bool) :
    (ofNumber (if negative then x.negate else x)).number.toRat? =
      some (signedRatio negative (m * 2 ^ p)) := by
  obtain ⟨num, den, rfl, positive, rfl⟩ := number
  have filled : num ≠ 0 := by
    rintro rfl
    simp at above
  have greatest := holds.greatest
  have bits := holds.bits
  rw [ofNumber_signed, ← toRat?_ofCode holds negative]
  congr 3
  obtain ⟨place, mantissa⟩ | ⟨power, place, mantissa⟩ :=
    holds.absorbs filled positive (by decide) close edge
  · have fits : Format.binary32.overflows num den = false := by
      simp only [Format.overflows, place, mantissa, Nat.shiftLeft_eq]
      simp
      omega
    rw [nearestCode_eq filled fits, place, mantissa]
  · have least : -149 ≤ Format.binary32.place num den := le_max_left ..
    have fits : Format.binary32.overflows num den = false := by
      simp only [Format.overflows]
      simp
      omega
    have power : m = 2 ^ 23 := power
    rw [nearestCode_eq filled fits, mantissa, orderStep]
    omega

theorem nearestCode_rounded {num den : Nat} (filled : num ≠ 0) (positive : 0 < den)
    (fits : Format.binary32.overflows num den = false) :
    Format.binary32.mantissa num den = 0 ∧ nearestCode num den = 0 ∨
      ∃ m p, Format.binary32.Holds m p ∧ nearestCode num den = (p + 149).toNat * orderStep + m ∧
        (m : ℚ) * 2 ^ p = Format.binary32.mantissa num den * 2 ^ Format.binary32.place num den := by
  have code := nearestCode_eq filled fits
  by_cases zero : Format.binary32.mantissa num den = 0
  · have bottom : Format.binary32.place num den = -149 := by
      by_contra above
      have leading := Format.le_mantissa filled positive (by decide) above
      rw [zero] at leading
      exact absurd leading (by decide)
    rw [zero, bottom] at code
    exact .inl ⟨zero, code⟩
  · obtain ⟨m, p, holds, same, exponent⟩ := Format.rounded_holds filled positive (by decide) fits zero
    refine .inr ⟨m, p, holds, ?_, same⟩
    have least : -149 ≤ Format.binary32.place num den := le_max_left ..
    rw [code, orderStep]
    obtain ⟨rfl, rfl⟩ | ⟨rfl, power, double⟩ := exponent
    · rfl
    · have power : m = 2 ^ 23 := power
      omega

theorem ofNumber_error (number : x.IsRatio q) (below : q < 2 ^ 127) (negative : Bool) :
    ∃ r, (ofNumber (if negative then x.negate else x)).number.toRat? = some (signedRatio negative r) ∧
      |r - q| ≤ 2 ^ max (-149) (Int.log 2 q - 23) / 2 := by
  obtain ⟨num, den, rfl, positive, rfl⟩ := number
  rw [ofNumber_signed]
  by_cases filled : num = 0
  · refine ⟨0, by rw [nearestCode, if_pos filled, toRat?_ofCode_zero], ?_⟩
    rw [filled, Nat.cast_zero, zero_div, sub_zero, abs_zero]
    positivity
  have place : Format.binary32.place num den = max (-149) (Int.log 2 ((num : ℚ) / den) - 23) := by
    rw [Format.place_eq_log _ filled positive, Format.binary32]
    dsimp only
    omega
  refine ⟨Format.binary32.mantissa num den * 2 ^ Format.binary32.place num den, ?_, ?_⟩
  · obtain ⟨zero, code⟩ | ⟨m, p, holds, code, same⟩ := nearestCode_rounded filled positive
      (Format.overflows_of_lt filled positive (by decide) below)
    · rw [code, zero, Nat.cast_zero, zero_mul, toRat?_ofCode_zero]
    · rw [code, ← same, toRat?_ofCode holds]
  · rw [← place]
    exact Format.mantissa_error positive

theorem nearestCode_le (num : Nat) {den : Nat} (positive : 0 < den) : nearestCode num den ≤ infinityCode := by
  by_cases filled : num = 0
  · simp [nearestCode, filled]
  by_cases fits : Format.binary32.overflows num den
  · simp [nearestCode, filled, fits]
  · rw [Bool.not_eq_true] at fits
    obtain ⟨-, code⟩ | ⟨m, p, holds, code, -⟩ := nearestCode_rounded filled positive fits
    · simp [code]
    · exact code ▸ (code_lt_infinity holds).le

theorem ofNumber_valued (number : x.IsRatio q) (negative : Bool) :
    (ofNumber (if negative then x.negate else x)).isNaN = false := by
  obtain ⟨num, den, rfl, positive, -⟩ := number
  have bound := nearestCode_le num positive
  rw [ofNumber_signed, ← Bool.not_eq_true, isNaN_iff,
    (ofCode_parts (bound.trans_lt (by decide)) negative).1]
  exact not_lt.mpr bound

theorem ofNumber_negative (number : x.IsRatio q) (negative : Bool) :
    (ofNumber (if negative then x.negate else x)).negative = negative := by
  obtain ⟨num, den, rfl, positive, -⟩ := number
  rw [ofNumber_signed]
  exact (ofCode_parts ((nearestCode_le num positive).trans_lt (by decide)) negative).2

theorem number_has {v : Value} {negative : Bool} {num den : Nat} (finite : v.number = .finite negative num den) :
    0 < den ∧ Format.binary32.Has (num / den) := by
  have bound : v.code < infinityCode := by
    by_contra other
    rw [number] at finite
    split_ifs at finite
    omega
  by_cases filled : v.code = 0
  · have read : v.number = .finite v.negative 0 (1 <<< 149) := by
      rw [number, filled]
      rfl
    rw [read] at finite
    cases finite
    exact ⟨by decide, .inl (by simp)⟩
  · obtain ⟨m, p, read, holds, -⟩ := number_finite bound filled
    rw [read] at finite
    cases finite
    exact ⟨raise_pos one_pos _, .inr ⟨m, p, holds, (raise_div_raise m p).symm⟩⟩

end Value
end StackMachine
