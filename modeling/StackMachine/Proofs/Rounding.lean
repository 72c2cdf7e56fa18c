import Mathlib
import StackMachine.Value

/-! What rounding depends on. A ratio may be written in many ways, and all of them are rounded alike:
the order of a ratio is the integer part of its logarithm, and its mantissa and place follow from it.
A number of the format is rounded to itself, so the value nearest to what a value stands for is that
value again. Patterns without a value stand for nothing and are left out. -/
namespace StackMachine

variable {num den num' den' : Nat}

theorem raise_eq (n : Nat) (k : Int) : raise n k = n * 2 ^ k.toNat := Nat.shiftLeft_eq ..

theorem raise_pos {n : Nat} (positive : 0 < n) (k : Int) : 0 < raise n k := by
  rw [raise_eq]
  positivity

theorem raise_le_raise {a b : Nat} {k : Int} : raise a k ≤ raise b (-k) ↔ (a : ℚ) * 2 ^ k ≤ b := by
  obtain ⟨n, rfl | rfl⟩ := k.eq_nat_or_neg
  · simp only [raise_eq, Int.toNat_natCast, Int.toNat_neg_natCast, pow_zero, mul_one, zpow_natCast]
    norm_cast
  · simp only [raise_eq, neg_neg, Int.toNat_natCast, Int.toNat_neg_natCast, pow_zero, mul_one,
      zpow_neg, zpow_natCast, ← div_eq_mul_inv]
    rw [div_le_iff₀ (by positivity)]
    norm_cast

theorem log_eq {q : ℚ} {k : Int} (low : 2 ^ k ≤ q) (high : q < 2 ^ (k + 1)) : Int.log 2 q = k := by
  have positive : 0 < q := lt_of_lt_of_le (by positivity) low
  have least : k ≤ Int.log 2 q := (Int.zpow_le_iff_le_log Nat.one_lt_two positive).mp low
  have greatest : Int.log 2 q < k + 1 := (Int.lt_zpow_iff_log_lt Nat.one_lt_two positive).mp high
  omega

theorem ratio_bounds (filled : num ≠ 0) (positive : den ≠ 0) :
    (2 : ℚ) ^ ((num.log2 : Int) - den.log2 - 1) ≤ num / den ∧
      (num : ℚ) / den < 2 ^ ((num.log2 : Int) - den.log2 + 1) := by
  have lowNum : (2 : ℚ) ^ num.log2 ≤ num := by exact_mod_cast Nat.log2_self_le filled
  have highNum : (num : ℚ) < 2 ^ (num.log2 + 1) := by exact_mod_cast Nat.lt_log2_self
  have lowDen : (2 : ℚ) ^ den.log2 ≤ den := by exact_mod_cast Nat.log2_self_le positive
  have highDen : (den : ℚ) < 2 ^ (den.log2 + 1) := by exact_mod_cast Nat.lt_log2_self
  have divisor : (0 : ℚ) < den := by positivity
  constructor
  · rw [le_div_iff₀ divisor, sub_sub, zpow_sub₀ two_ne_zero, div_mul_eq_mul_div,
      div_le_iff₀ (by positivity)]
    exact_mod_cast mul_le_mul lowNum highDen.le divisor.le (by positivity)
  · rw [div_lt_iff₀ divisor, sub_add_eq_add_sub, zpow_sub₀ two_ne_zero, div_mul_eq_mul_div,
      lt_div_iff₀ (by positivity)]
    exact_mod_cast mul_lt_mul highNum lowDen (by positivity) (by positivity)

theorem binaryOrder_eq_log (filled : num ≠ 0) (positive : den ≠ 0) :
    binaryOrder num den = Int.log 2 ((num : ℚ) / den) := by
  obtain ⟨low, high⟩ := ratio_bounds filled positive
  have divisor : (0 : ℚ) < den := by positivity
  have reached : raise den ((num.log2 : Int) - den.log2) ≤ raise num (-((num.log2 : Int) - den.log2)) ↔
      (2 : ℚ) ^ ((num.log2 : Int) - den.log2) ≤ num / den := by
    rw [raise_le_raise, le_div_iff₀ divisor, mul_comm]
  rw [binaryOrder]
  simp only [reached]
  split_ifs with attained
  · exact (log_eq attained high).symm
  · refine (log_eq low ?_).symm
    rw [sub_add_cancel]
    exact lt_of_not_ge attained

theorem filled_of_same (filled : num ≠ 0) (positive' : 0 < den') (same : num * den' = num' * den) :
    num' ≠ 0 := by
  rintro rfl
  simp [filled, positive'.ne'] at same

theorem binaryOrder_congr (filled : num ≠ 0) (filled' : num' ≠ 0) (positive : 0 < den)
    (positive' : 0 < den') (same : num * den' = num' * den) :
    binaryOrder num den = binaryOrder num' den' := by
  rw [binaryOrder_eq_log filled positive.ne', binaryOrder_eq_log filled' positive'.ne']
  congr 1
  rw [div_eq_div_iff (by positivity) (by positivity)]
  exact_mod_cast same

theorem roundHalfEven_mul {k : Nat} (positive : 0 < k) :
    roundHalfEven (num * k) (den * k) = roundHalfEven num den := by
  simp only [roundHalfEven, Nat.mul_div_mul_right _ _ positive, Nat.mul_mod_mul_right, ← Nat.mul_assoc,
    Nat.mul_lt_mul_right positive]

theorem roundHalfEven_congr (positive : 0 < den) (positive' : 0 < den')
    (same : num * den' = num' * den) : roundHalfEven num den = roundHalfEven num' den' := by
  rw [← roundHalfEven_mul positive', same, Nat.mul_comm den den', roundHalfEven_mul positive]

theorem raise_div_raise (m : Nat) (p : Int) :
    (raise m p : ℚ) / (raise 1 (-p) : ℕ) = m * 2 ^ p := by
  obtain ⟨n, rfl | rfl⟩ := p.eq_nat_or_neg <;> simp [raise_eq, div_eq_mul_inv]

theorem binaryOrder_raise {m : Nat} (filled : m ≠ 0) (p : Int) :
    binaryOrder (raise m p) (raise 1 (-p)) = m.log2 + p := by
  have low : (2 : ℚ) ^ m.log2 ≤ m := by exact_mod_cast Nat.log2_self_le filled
  have high : (m : ℚ) < 2 ^ (m.log2 + 1) := by exact_mod_cast Nat.lt_log2_self
  rw [binaryOrder_eq_log (raise_pos (Nat.pos_of_ne_zero filled) p).ne' (raise_pos one_pos _).ne',
    raise_div_raise]
  refine log_eq ?_ ?_
  · rw [zpow_add₀ two_ne_zero, zpow_natCast]
    gcongr
  · rw [add_right_comm, zpow_add₀ two_ne_zero]
    gcongr
    exact_mod_cast high

namespace Format

variable {format : Format}

section Ratio

variable (filled : num ≠ 0) (positive : 0 < den) (positive' : 0 < den')
  (same : num * den' = num' * den)
include filled positive positive' same

theorem place_congr : format.place num den = format.place num' den' := by
  have filled' := filled_of_same filled positive' same
  simp only [place, binaryOrder_congr filled filled' positive positive' same]

theorem mantissa_congr : format.mantissa num den = format.mantissa num' den' := by
  simp only [mantissa, place_congr filled positive positive' same]
  refine roundHalfEven_congr (raise_pos positive _) (raise_pos positive' _) ?_
  simp only [raise_eq]
  linear_combination (2 ^ (-format.place num' den').toNat * 2 ^ (format.place num' den').toNat) * same

theorem overflows_congr : format.overflows num den = format.overflows num' den' := by
  simp only [overflows, place_congr filled positive positive' same,
    mantissa_congr filled positive positive' same]

end Ratio

/-- `m * 2 ^ p` is a number of the format with all the bits that it has there. -/
structure Holds (format : Format) (m : Nat) (p : Int) : Prop where
  filled : m ≠ 0
  bits : m < 2 ^ format.precision
  leading : 2 ^ (format.precision - 1) ≤ m ∨ p = format.minExponent
  least : format.minExponent ≤ p
  greatest : p ≤ format.maxExponent

variable {m : Nat} {p : Int}

theorem Holds.place (holds : format.Holds m p) : format.place (raise m p) (raise 1 (-p)) = p := by
  have order : m.log2 < format.precision := (Nat.log2_lt holds.filled).mpr holds.bits
  have least := holds.least
  rw [Format.place, binaryOrder_raise holds.filled]
  rcases holds.leading with leading | last
  · have kept : format.precision - 1 ≤ m.log2 := (Nat.le_log2 holds.filled).mpr leading
    omega
  · omega

theorem Holds.mantissa (holds : format.Holds m p) :
    format.mantissa (raise m p) (raise 1 (-p)) = m := by
  have scaled : roundHalfEven (m * (2 ^ p.toNat * 2 ^ (-p).toNat)) (1 * (2 ^ p.toNat * 2 ^ (-p).toNat)) =
      roundHalfEven m 1 := roundHalfEven_mul (by positivity)
  simp only [Format.mantissa, holds.place]
  rw [raise_eq, raise_eq, raise_eq, raise_eq, mul_assoc, mul_assoc, mul_comm (2 ^ (-p).toNat), scaled]
  simp [roundHalfEven, Nat.mod_one]

theorem Holds.overflows (holds : format.Holds m p) :
    format.overflows (raise m p) (raise 1 (-p)) = false := by
  have bits := holds.bits
  have greatest := holds.greatest
  simp only [Format.overflows, holds.place, holds.mantissa, Nat.shiftLeft_eq]
  simp
  omega

end Format

namespace Value

theorem nearestCode_congr (positive : 0 < den) (positive' : 0 < den')
    (same : num * den' = num' * den) : nearestCode num den = nearestCode num' den' := by
  by_cases filled : num = 0
  · have filled' : num' = 0 := by
      rw [filled, Nat.zero_mul, eq_comm, Nat.mul_eq_zero] at same
      exact same.resolve_right positive.ne'
    simp [nearestCode, filled, filled']
  · have filled' := filled_of_same filled positive' same
    simp only [nearestCode, filled, filled', if_false,
      Format.overflows_congr filled positive positive' same,
      Format.place_congr filled positive positive' same,
      Format.mantissa_congr filled positive positive' same]

/-- The code of a number of the format counts its orders and its units. -/
theorem nearestCode_raise {m : Nat} {p : Int} (holds : Format.binary32.Holds m p) :
    nearestCode (raise m p) (raise 1 (-p)) = (p + 149).toNat * orderStep + m := by
  have filled : raise m p ≠ 0 := (raise_pos (Nat.pos_of_ne_zero holds.filled) p).ne'
  simp only [nearestCode, filled, if_false, holds.overflows, holds.place, holds.mantissa]
  simp [Format.binary32]

theorem ofCode_code (v : Value) : ofCode v.negative v.code = v := by
  have bound := v.bits.toNat_lt
  have bits : (if v.negative then 0x80000000 else 0) + v.code = v.bits.toNat := by
    by_cases upper : 0x80000000 ≤ v.bits.toNat <;> simp [negative, code, upper] <;> omega
  simp [ofCode, bits]

theorem number_finite {v : Value} (finite : v.code < infinityCode) (filled : v.code ≠ 0) :
    ∃ m p, v.number = .finite v.negative (raise m p) (raise 1 (-p)) ∧
      Format.binary32.Holds m p ∧ v.code = (p + 149).toNat * orderStep + m := by
  have parts := Nat.div_add_mod v.code orderStep
  have below : v.code % orderStep < orderStep := Nat.mod_lt _ (by decide)
  have bound : v.code / orderStep < 255 := by
    rw [Nat.div_lt_iff_lt_mul (by decide)]
    exact finite
  rw [number, if_neg finite.ne, if_neg (Nat.not_lt.mpr finite.le)]
  generalize v.code / orderStep = order at *
  generalize v.code % orderStep = part at *
  rw [orderStep] at *
  by_cases least : order = 0
  · refine ⟨part, -149, ?_, ?_, ?_⟩
    · simp [least, raise]
    · refine ⟨?_, ?_, .inr rfl, le_rfl, ?_⟩ <;> simp [Format.binary32] <;> omega
    · simp
      omega
  · refine ⟨0x800000 + part, order - 150, ?_, ?_, ?_⟩
    · have up : ((order : Int) - 150).toNat = order - 150 := by omega
      simp [least, raise, up]
    · refine ⟨?_, ?_, .inl ?_, ?_, ?_⟩ <;> simp [Format.binary32] <;> omega
    · omega

theorem isNaN_iff {v : Value} : v.isNaN = true ↔ infinityCode < v.code := by
  rw [isNaN, beq_iff_eq, number]
  by_cases infinite : v.code = infinityCode
  · simp [infinite]
  · by_cases beyond : infinityCode < v.code
    · simp [infinite, beyond]
    · simp only [infinite, beyond, if_false, iff_false]
      split <;> simp

theorem ofNumber_number {v : Value} (valued : v.isNaN = false) : ofNumber v.number = v := by
  rw [← Bool.not_eq_true, isNaN_iff, Nat.not_lt] at valued
  rcases Nat.lt_or_eq_of_le valued with finite | infinite
  · by_cases filled : v.code = 0
    · have zero := ofCode_code v
      rw [filled] at zero
      simp [number, filled, infinityCode, ofNumber, nearestCode, zero]
    · obtain ⟨m, p, read, holds, code⟩ := number_finite finite filled
      rw [read, ofNumber, nearestCode_raise holds, ← code, ofCode_code]
  · rw [number, if_pos infinite, ofNumber, infinity, ← infinite, ofCode_code]

end Value
end StackMachine
