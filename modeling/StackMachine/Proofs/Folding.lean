import Mathlib
import StackMachine.Proofs.Grammar
import StackMachine.Proofs.ValueText

/-! How far a numeral may drift while its digits are folded. The drift is counted in steps of a 2⁻⁵²th part of
the number meant: a rounding in binary64 adds one, sums and exact factors add none. A digit before the point costs
two roundings, and so does one behind it, where the powers of ten are exact as long as the places are few. So
what stands in a buffer is read within a 2⁻⁴⁶th part of what it says. -/
namespace StackMachine

namespace Number

/-- A number is another up to so many 2⁻⁵²th parts of it. -/
def Approximates (x : Number) (k : Nat) (q : ℚ) : Prop := ∃ r, x.IsRatio r ∧ |r - q| ≤ k * (q / 2 ^ 52)

variable {x y : Number} {k l : Nat} {q r : ℚ}

theorem IsRatio.approximates (number : x.IsRatio q) : x.Approximates 0 q := ⟨q, number, by simp⟩

theorem Approximates.nonneg (close : x.Approximates k q) : 0 ≤ q := by
  obtain ⟨r, number, error⟩ := close
  obtain rfl | positive := Nat.eq_zero_or_pos k
  · have same : r - q = 0 := by simpa using error
    linarith [number.nonneg]
  · have least := (abs_nonneg _).trans error
    have positive : (0 : ℚ) < k := by exact_mod_cast positive
    linarith [nonneg_of_mul_nonneg_right least positive]

theorem Approximates.mono (close : x.Approximates k q) (most : k ≤ l) : x.Approximates l q := by
  have least := close.nonneg
  obtain ⟨r, number, error⟩ := close
  refine ⟨r, number, error.trans ?_⟩
  gcongr

theorem Approximates.add (left : x.Approximates k q) (right : y.Approximates k r) :
    (x.add y).Approximates k (q + r) := by
  obtain ⟨a, number, error⟩ := left
  obtain ⟨b, other, error'⟩ := right
  refine ⟨a + b, number.add other, ?_⟩
  calc |a + b - (q + r)| = |(a - q) + (b - r)| := by ring_nf
    _ ≤ |a - q| + |b - r| := abs_add_le _ _
    _ ≤ k * (q / 2 ^ 52) + k * (r / 2 ^ 52) := add_le_add error error'
    _ = k * ((q + r) / 2 ^ 52) := by ring

theorem Approximates.mul (close : x.Approximates k q) (factor : y.IsRatio r) :
    (x.mul y).Approximates k (q * r) := by
  obtain ⟨a, number, error⟩ := close
  refine ⟨a * r, number.mul factor, ?_⟩
  calc |a * r - q * r| = |a - q| * r := by rw [← sub_mul, abs_mul, abs_of_nonneg factor.nonneg]
    _ ≤ k * (q / 2 ^ 52) * r := mul_le_mul_of_nonneg_right error factor.nonneg
    _ = k * (q * r / 2 ^ 52) := by ring

end Number

namespace Numeral

variable {x : Number} {k n : Nat} {q : ℚ}

def Moderate (q : ℚ) : Prop := q = 0 ∨ 1 / 2 ^ 64 ≤ q ∧ q ≤ 2 ^ 128

theorem moderate_decimal {places : Nat} (few : places ≤ 6) (small : n < 10 ^ 38) :
    Moderate ((n : ℚ) / 10 ^ places) := by
  obtain rfl | positive := Nat.eq_zero_or_pos n
  · exact .inl (by simp)
  have least : (1 : ℚ) ≤ n := by exact_mod_cast positive
  have most : (n : ℚ) ≤ 10 ^ 38 := by exact_mod_cast small.le
  have ten : (1 : ℚ) ≤ 10 ^ places := one_le_pow₀ (by norm_num)
  have million : (10 : ℚ) ^ places ≤ 10 ^ 6 := pow_le_pow_right₀ (by norm_num) few
  refine .inr ⟨?_, ?_⟩
  · rw [le_div_iff₀ (by positivity)]
    linarith
  · rw [div_le_iff₀ (by positivity)]
    linarith

/-- A rounding adds one to the drift. -/
theorem fold_approximates (close : x.Approximates k q) (few : k ≤ 2 ^ 50) (moderate : Moderate q) :
    (fold x).Approximates (k + 1) q := by
  obtain ⟨r, number, error⟩ := close
  obtain rfl | ⟨low, high⟩ := moderate
  · have zero : r = 0 := by simpa using error
    rw [zero] at number
    exact ⟨0, Format.nearest_of_has (.inl rfl) number, by simp⟩
  -- The drift so far is less than the number itself, so its double bounds what is rounded.
  have few : (k : ℚ) ≤ 2 ^ 50 := by exact_mod_cast few
  have drift : k * (q / 2 ^ 52) ≤ q / 4 := by nlinarith
  obtain ⟨least, most⟩ := abs_le.mp (error.trans drift)
  have tiny : (2 : ℚ) ^ (Format.binary64.minExponent + Format.binary64.precision - 1) ≤ 1 / 2 ^ 65 := by
    have small : (2 : ℚ) ^ (-1022 : ℤ) ≤ 2 ^ (-65 : ℤ) := zpow_le_zpow_right₀ one_le_two (by decide)
    norm_num [Format.binary64] at small ⊢
    exact small
  have huge : (2 : ℚ) ^ 129 ≤ 2 ^ (Format.binary64.maxExponent + Format.binary64.precision - 1) := by
    rw [← zpow_natCast]
    exact zpow_le_zpow_right₀ one_le_two (by decide)
  obtain ⟨-, beyond⟩ | ⟨s, rounded, -, half⟩ :=
    Format.binary64.nearest_cases (by decide) (by decide) number
  · linarith
  · have unit := half.trans (Format.binary64.half_unit_le (by linarith) (by linarith))
    refine ⟨s, rounded, ?_⟩
    have step : r / 2 ^ Format.binary64.precision ≤ q / 2 ^ 52 := by
      change r / 2 ^ 53 ≤ q / 2 ^ 52
      linarith
    calc |s - q| ≤ |s - r| + |r - q| := abs_sub_le _ _ _
      _ ≤ q / 2 ^ 52 + k * (q / 2 ^ 52) := add_le_add (unit.trans step) error
      _ = (k + 1 : ℕ) * (q / 2 ^ 52) := by push_cast; ring

variable {p : Progress} {negative : Bool} {whole part : List Char} {codes : List Value}

theorem le_ofDigitChars (n : Nat) (chars : List Char) : n ≤ Nat.ofDigitChars 10 chars n := by
  rw [Nat.ofDigitChars_eq_ofDigitChars_zero]
  exact (Nat.le_mul_of_pos_left n (by positivity)).trans (Nat.le_add_right ..)

theorem digits_unpointed (bare : p.point = false) (chars : List Char) :
    (p.digits chars).fraction = p.fraction ∧ (p.digits chars).scale = p.scale := by
  induction chars generalizing p with
  | nil => exact ⟨rfl, rfl⟩
  | cons c chars ih =>
    obtain ⟨fraction, scale⟩ := ih (p := p.digit (digitOf c)) (by rwa [digit_point])
    rw [digits_cons, fraction, scale]
    simp [Progress.digit, bare]

theorem digits_pointed (point : p.point = true) (chars : List Char) : (p.digits chars).whole = p.whole := by
  induction chars generalizing p with
  | nil => rfl
  | cons c chars ih =>
    rw [digits_cons, ih (by rwa [digit_point])]
    simp [Progress.digit, point]

theorem digit_whole (bare : p.point = false) (close : p.whole.Approximates k n) (few : k + 2 ≤ 2 ^ 50)
    {d : Nat} (small : 10 * n + d < 10 ^ 38) :
    (p.digit d).whole.Approximates (k + 2) (10 * n + d : ℕ) := by
  have shifted := close.mul (Number.isRatio_ofNat 10)
  have moderate := moderate_decimal (n := 10 * n) (Nat.zero_le 6) (by omega)
  have moderate' := moderate_decimal (Nat.zero_le 6) small
  rw [pow_zero, div_one] at moderate moderate'
  rw [← Nat.cast_mul, mul_comm n] at shifted
  have first := fold_approximates shifted (by omega) moderate
  have digit := (Number.isRatio_ofNat d).approximates.mono (Nat.zero_le (k + 1))
  have sum := first.add digit
  rw [← Nat.cast_add] at sum
  have second := fold_approximates sum (by omega) moderate'
  simpa [Progress.digit, bare] using second

theorem digits_whole (bare : p.point = false) (close : p.whole.Approximates k n)
    (few : k + 2 * whole.length ≤ 2 ^ 50) (small : Nat.ofDigitChars 10 whole n < 10 ^ 38) :
    (p.digits whole).whole.Approximates (k + 2 * whole.length) (Nat.ofDigitChars 10 whole n) := by
  induction whole generalizing p k n with
  | nil => exact close
  | cons c chars ih =>
    rw [List.length_cons] at few ⊢
    rw [Nat.ofDigitChars_cons] at small ⊢
    have next := digit_whole bare close (by omega) ((le_ofDigitChars ..).trans_lt small)
    have later := ih (by rwa [digit_point]) next (by omega) small
    rw [digits_cons]
    exact later.mono (by omega)

theorem digit_part {j d : Nat} (point : p.point = true) (scale : p.scale.IsRatio (10 ^ j : ℕ))
    (close : p.fraction.Approximates k (n / 10 ^ j)) (few : k + 2 ≤ 2 ^ 50) (places : j + 1 ≤ 6)
    (small : 10 * n + d < 10 ^ 38) :
    (p.digit d).scale.IsRatio (10 ^ (j + 1) : ℕ) ∧
      (p.digit d).fraction.Approximates (k + 2) ((10 * n + d : ℕ) / 10 ^ (j + 1)) := by
  have power : (10 : ℕ) ^ (j + 1) < 2 ^ 53 :=
    (Nat.pow_le_pow_right (by decide) places).trans_lt (by decide)
  have grown : (fold (p.scale.mul (.ofNat 10))).IsRatio (10 ^ (j + 1) : ℕ) := by
    refine Format.nearest_of_has (Format.has_natural power (by decide) (by decide)) ?_
    rw [pow_succ, Nat.cast_mul]
    exact scale.mul (Number.isRatio_ofNat 10)
  have filled : ((10 ^ (j + 1) : ℕ) : ℚ) ≠ 0 := by positivity
  have digit := fold_approximates ((Number.isRatio_ofNat d).div grown filled).approximates (by decide) (by
    rw [Nat.cast_pow]
    exact moderate_decimal places (by omega))
  have sum := (close.mono (Nat.le_succ k)).add (digit.mono (Nat.le_add_left 1 k))
  have value : (n : ℚ) / 10 ^ j + d / (10 ^ (j + 1) : ℕ) = (10 * n + d : ℕ) / 10 ^ (j + 1) := by
    push_cast
    field_simp
    ring
  rw [value] at sum
  have folded := fold_approximates sum (by omega) (moderate_decimal places small)
  simp only [Progress.digit, point, if_true]
  exact ⟨grown, folded⟩

theorem digits_part {j : Nat} (point : p.point = true) (scale : p.scale.IsRatio (10 ^ j : ℕ))
    (close : p.fraction.Approximates k (n / 10 ^ j)) (few : k + 2 * part.length ≤ 2 ^ 50)
    (places : j + part.length ≤ 6) (small : Nat.ofDigitChars 10 part n < 10 ^ 38) :
    (p.digits part).fraction.Approximates (k + 2 * part.length)
      (Nat.ofDigitChars 10 part n / 10 ^ (j + part.length)) := by
  induction part generalizing p k n j with
  | nil => exact close
  | cons c chars ih =>
    rw [List.length_cons] at few places ⊢
    rw [Nat.ofDigitChars_cons] at small ⊢
    obtain ⟨grown, next⟩ := digit_part point scale close (by omega) (by omega)
      ((le_ofDigitChars ..).trans_lt small)
    have later := ih (by rwa [digit_point]) grown next (by omega) (by omega) small
    rw [digits_cons, ← Nat.add_assoc, Nat.add_right_comm]
    exact later.mono (by omega)

theorem read_whole (kind : Kind) (all : ∀ c ∈ whole, c.isDigit) (short : whole.length ≤ 31)
    (small : Decimal.ofDigitChars whole < 10 ^ 38)
    (spelled : body codes = (Value.signChars negative ++ whole).map charCode) :
    ∃ x : Number, read kind codes = .ok (Value.ofNumber (if negative then x.negate else x)) ∧
      x.Approximates 64 (Decimal.ofDigitChars whole) := by
  have close : ({ negative : Progress }.digits whole).whole.Approximates (0 + 2 * whole.length)
      (Decimal.ofDigitChars whole) :=
    digits_whole rfl (Number.isRatio_ofNat 0).approximates (by omega) small
  have fraction := (digits_unpointed (p := { negative }) rfl whole).1
  rw [read, spelled, readFrom_whole negative all]
  simp only [Progress.value, digits_negative]
  cases kind with
  | integer => exact ⟨_, rfl, close.mono (by omega)⟩
  | real =>
    refine ⟨_, rfl, ?_⟩
    have sum := close.add ((Number.isRatio_ofNat 0).approximates.mono (Nat.zero_le (0 + 2 * whole.length)))
    have moderate := moderate_decimal (Nat.zero_le 6) small
    rw [Nat.cast_zero, add_zero] at sum
    rw [pow_zero, div_one] at moderate
    rw [fraction]
    exact (fold_approximates sum (by omega) moderate).mono (by omega)

theorem read_pointed (all : ∀ c ∈ whole ++ part, c.isDigit) (short : whole.length ≤ 31)
    (small : Decimal.ofDigitChars whole < 10 ^ 31) (few : part.length ≤ 6)
    (below : Decimal.ofDigitChars part < 10 ^ 6)
    (spelled : body codes = (Value.signChars negative ++ (whole ++ '.' :: part)).map charCode) :
    ∃ x : Number, read .real codes = .ok (Value.ofNumber (if negative then x.negate else x)) ∧
      x.Approximates 64 (Decimal.ofDigitChars whole + Decimal.ofDigitChars part / 10 ^ part.length) := by
  have taken := readFrom_pointed negative all
  -- The state at the point is kept as a name: unfolded, it would repeat all digits before the point.
  obtain ⟨front, defined⟩ : ∃ front : Progress,
    front = { { negative : Progress }.digits whole with point := true } := ⟨_, rfl⟩
  have point : front.point = true := by rw [defined]
  have sign : front.negative = negative := by rw [defined, digits_negative]
  have before : front.whole = ({ negative : Progress }.digits whole).whole := by rw [defined]
  rw [← defined] at taken
  have close : ({ negative : Progress }.digits whole).whole.Approximates (0 + 2 * whole.length)
      (Decimal.ofDigitChars whole) :=
    digits_whole rfl (Number.isRatio_ofNat 0).approximates (by omega) (small.trans (by decide))
  obtain ⟨empty, one⟩ := digits_unpointed (p := { negative }) rfl whole
  have scale : front.scale.IsRatio (10 ^ 0 : ℕ) := by
    rw [defined, one]
    exact Number.isRatio_ofNat 1
  have nothing : front.fraction.Approximates 0 ((0 : ℕ) / 10 ^ 0) := by
    rw [defined, empty, pow_zero, div_one]
    exact (Number.isRatio_ofNat 0).approximates
  have behind := digits_part point scale nothing (by omega) (by omega)
    (below.trans (by decide))
  rw [Nat.zero_add, Nat.zero_add] at behind
  -- Two roundings for each of 31 digits before the point, and fewer behind it.
  have sum := (close.mono (by omega : _ ≤ 62)).add (behind.mono (by omega : _ ≤ 62))
  have value : (Decimal.ofDigitChars whole : ℚ) + Decimal.ofDigitChars part / 10 ^ part.length =
      (Decimal.ofDigitChars whole * 10 ^ part.length + Decimal.ofDigitChars part : ℕ) / 10 ^ part.length := by
    push_cast
    field_simp
  have bound : Decimal.ofDigitChars whole * 10 ^ part.length + Decimal.ofDigitChars part < 10 ^ 38 := by
    have power : 10 ^ part.length ≤ 10 ^ 6 := Nat.pow_le_pow_right (by decide) few
    nlinarith
  have moderate := moderate_decimal few bound
  rw [← value] at moderate
  refine ⟨_, ?_, (fold_approximates sum (by decide) moderate).mono (by decide)⟩
  rw [read, spelled, taken]
  simp only [Progress.value, digits_negative, sign, digits_pointed point, before]

end Numeral

namespace Value

variable {x : Number} {k : Nat} {q : ℚ}

/-- A small drift does not move a value. -/
theorem ofNumber_drifted (has : Format.binary32.Has q) (close : x.Approximates k q) (few : k ≤ 2 ^ 20)
    (negative : Bool) :
    (ofNumber (if negative then x.negate else x)).number.toRat? = some (signedRatio negative q) := by
  obtain ⟨r, number, error⟩ := close
  obtain rfl | ⟨m, p, holds, rfl⟩ := has
  · have zero : r = 0 := by simpa using error
    rw [zero] at number
    exact ofNumber_exact (.inl rfl) number negative
  · have unit : (0 : ℚ) < 2 ^ p := by positivity
    have one : (1 : ℚ) ≤ m := by exact_mod_cast Nat.pos_of_ne_zero holds.filled
    have most : (m : ℚ) ≤ 2 ^ 24 := by exact_mod_cast holds.bits.le
    have few : (k : ℚ) ≤ 2 ^ 20 := by exact_mod_cast few
    have drift : (k : ℚ) * (m * 2 ^ p / 2 ^ 52) ≤ 2 ^ p / 2 ^ 8 := by
      calc (k : ℚ) * (m * 2 ^ p / 2 ^ 52) ≤ 2 ^ 20 * (2 ^ 24 * 2 ^ p / 2 ^ 52) := by gcongr
        _ = 2 ^ p / 2 ^ 8 := by ring
    have near := abs_le.mp (error.trans drift)
    have least : (2 : ℚ) ^ p ≤ m * 2 ^ p := le_mul_of_one_le_left unit.le one
    refine ofNumber_absorbed holds number ?_ ?_ (fun _ => ?_) negative
    · linarith
    · rw [abs_lt]
      constructor <;> linarith
    · linarith

end Value
end StackMachine
