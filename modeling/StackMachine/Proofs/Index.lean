import Mathlib
import StackMachine.Fault
import StackMachine.Proofs.TiesToEven

/-! Natural numbers as values and back. What a pattern stands for is read off its fields: a sign, eight bits of
exponent and 23 bits of fraction. A value names an index exactly if it stands for a natural number up to `2 ^ 32`, and
the index is that number. The other way round a number is rounded to the nearest value, so what comes back is the
number itself exactly if it has no more than 24 significant bits. Every number up to `2 ^ 24` is of this kind, and
every multiple of four up to `2 ^ 26`. -/
namespace StackMachine

theorem ratio_eq_natural_iff {num den n : ℕ} (positive : 0 < den) :
    (num : ℚ) / den = n ↔ num % den = 0 ∧ num / den = n := by
  have divisor : (den : ℚ) ≠ 0 := by exact_mod_cast positive.ne'
  rw [div_eq_iff divisor]
  constructor
  · intro same
    obtain rfl : num = n * den := by exact_mod_cast same
    exact ⟨Nat.mul_mod_left n den, Nat.mul_div_cancel n positive⟩
  · rintro ⟨whole, rfl⟩
    exact_mod_cast (Nat.div_mul_cancel (Nat.dvd_of_mod_eq_zero whole)).symm

theorem signedRatio_eq_natural_iff {negative : Bool} {q : ℚ} (least : 0 ≤ q) (n : ℕ) :
    signedRatio negative q = n ↔ q = n ∧ (negative = false ∨ q = 0) := by
  cases negative with
  | false => simp [signedRatio]
  | true =>
    have size : (0 : ℚ) ≤ n := n.cast_nonneg
    simp only [signedRatio, if_true, Bool.true_eq_false, false_or]
    constructor
    · intro same
      constructor <;> linarith
    · rintro ⟨same, zero⟩
      linarith

theorem signedRatio_eq_mul (negative : Bool) (q : ℚ) : signedRatio negative q = (if negative then -1 else 1) * q := by
  cases negative <;> simp [signedRatio]

namespace Format

variable {n : ℕ}

theorem binary32_has_of_le (most : n ≤ 2 ^ 24) : binary32.Has n := by
  have has : binary32.Has (n * 2 ^ 0) := has_scaled_of_le most (by decide) (by decide) (by decide)
  rwa [pow_zero, mul_one] at has

theorem binary32_has_of_aligned (aligned : Value.slotSize ∣ n) (most : n ≤ 2 ^ 26) : binary32.Has n := by
  obtain ⟨k, rfl⟩ := aligned
  rw [Value.slotSize] at most ⊢
  have few : k ≤ 2 ^ 24 := by omega
  have has : binary32.Has (k * 2 ^ 2) := has_scaled_of_le few (by decide) (by decide) (by decide)
  rw [Nat.mul_comm]
  exact_mod_cast has

/-- Up to the greatest index the numbers of the format are those of at most 24 significant bits. -/
theorem binary32_has_iff (bound : n ≤ Value.maxIndex) :
    binary32.Has n ↔ ∃ s e : ℕ, s < 2 ^ 24 ∧ n = s * 2 ^ e := by
  constructor
  · intro has
    obtain ⟨s, e, short, -, same⟩ := has.scaled (by decide)
    exact ⟨s, e, short, same⟩
  · rintro ⟨s, e, short, rfl⟩
    by_cases filled : s = 0
    · exact .inl (by simp [filled])
    · have power : 2 ^ e ≤ 2 ^ 32 := (Nat.le_mul_of_pos_left _ (Nat.pos_of_ne_zero filled)).trans bound
      have few : e ≤ 32 := (Nat.pow_le_pow_iff_right Nat.one_lt_two).mp power
      have high : (e : ℤ) ≤ binary32.maxExponent := (Int.ofNat_le.mpr few).trans (by decide)
      have has : binary32.Has (s * 2 ^ e) := has_scaled short (by decide) high
      exact_mod_cast has

end Format

namespace Value

variable {v : Value} {n : ℕ}

def exponentField (v : Value) : ℕ := (v.bits.toBitVec.extractLsb' 23 8).toNat

def fractionField (v : Value) : ℕ := (v.bits.toBitVec.extractLsb' 0 23).toNat

/-- The real number of a pattern, by its fields. The greatest exponent is kept for the infinities and for what has
no value; under the least one the bit before the fraction is zero. -/
def real? (v : Value) : Option ℚ :=
  let sign : ℚ := if v.bits.toBitVec.msb then -1 else 1
  if v.exponentField = 255 then none
  else if v.exponentField = 0 then some (sign * (v.fractionField / 2 ^ 23) * 2 ^ (-126 : ℤ))
  else some (sign * (1 + v.fractionField / 2 ^ 23) * 2 ^ ((v.exponentField : ℤ) - 127))

theorem negative_eq_msb (v : Value) : v.negative = v.bits.toBitVec.msb := by
  rw [negative, BitVec.msb_eq_decide]
  rfl

theorem code_div_orderStep (v : Value) : v.code / orderStep = v.exponentField := by
  rw [code, orderStep, exponentField, BitVec.extractLsb'_toNat, Nat.shiftRight_eq_div_pow, UInt32.toNat_toBitVec]
  omega

theorem code_mod_orderStep (v : Value) : v.code % orderStep = v.fractionField := by
  rw [code, orderStep, fractionField, BitVec.extractLsb'_toNat, Nat.shiftRight_eq_div_pow, UInt32.toNat_toBitVec]
  omega

theorem code_lt_infinityCode_iff (v : Value) : v.code < infinityCode ↔ v.exponentField ≠ 255 := by
  have bound : v.code < 0x80000000 := Nat.mod_lt _ (by decide)
  rw [← code_div_orderStep, orderStep, infinityCode]
  omega

theorem toRat?_number (v : Value) : v.number.toRat? = v.real? := by
  rw [real?, ← negative_eq_msb]
  by_cases last : v.exponentField = 255
  · have beyond : infinityCode ≤ v.code := not_lt.mp fun less => (code_lt_infinityCode_iff v).mp less last
    rw [if_pos last, number]
    obtain infinite | above := Nat.eq_or_lt_of_le beyond
    · rw [if_pos infinite.symm]
      rfl
    · rw [if_neg above.ne', if_pos above]
      rfl
  · have finite := (code_lt_infinityCode_iff v).mpr last
    rw [if_neg last, number, if_neg finite.ne, if_neg finite.not_gt, code_div_orderStep, code_mod_orderStep]
    by_cases first : v.exponentField = 0
    · rw [if_pos first, if_pos first, Number.toRat?, signedRatio_eq_mul, mul_assoc, Nat.shiftLeft_eq]
      congr 2
      norm_num
      ring
    · -- The fields count from the leading bit, the number from the last one.
      have shifted : ((orderStep + v.fractionField : ℕ) : ℚ) * 2 ^ ((v.exponentField : ℤ) - 150) =
          (1 + v.fractionField / 2 ^ 23) * 2 ^ ((v.exponentField : ℤ) - 127) := by
        have unit : (v.exponentField : ℤ) - 127 = v.exponentField - 150 + 23 := by ring
        rw [unit, zpow_add₀ two_ne_zero, orderStep]
        push_cast
        ring
      have scaled := raise_div_raise (orderStep + v.fractionField) (v.exponentField - 150)
      have up : ((v.exponentField : ℤ) - 150).toNat = v.exponentField - 150 := by omega
      have down : (-((v.exponentField : ℤ) - 150)).toNat = 150 - v.exponentField := by omega
      rw [raise, raise, up, down, shifted] at scaled
      rw [if_neg first, if_neg first, Number.toRat?, scaled, signedRatio_eq_mul, mul_assoc]

theorem toIndex?_eq_some_iff : v.toIndex? = some n ↔ v.number.toRat? = some (n : ℚ) ∧ n ≤ maxIndex := by
  cases known : v.number with
  | nan => simp [toIndex?, known, Number.toRat?]
  | infinite negative => simp [toIndex?, known, Number.toRat?]
  | finite negative num den =>
    have positive := (number_has known).1
    have least : (0 : ℚ) ≤ num / den := by positivity
    have empty : (num : ℚ) / den = 0 ↔ num = 0 := by simp [positive.ne']
    simp only [toIndex?, known, Number.toRat?, Option.ite_none_right_eq_some, Option.some_inj,
      signedRatio_eq_natural_iff least, ratio_eq_natural_iff positive, empty]
    constructor
    · rintro ⟨⟨whole, sign, bound⟩, rfl⟩
      exact ⟨⟨⟨whole, rfl⟩, sign⟩, bound⟩
    · rintro ⟨⟨⟨whole, rfl⟩, sign⟩, bound⟩
      exact ⟨⟨whole, sign, bound⟩, rfl⟩

theorem expectIndex_eq_ok_iff {operation : String} : v.expectIndex operation = .ok n ↔ v.toIndex? = some n := by
  rw [expectIndex]
  cases v.toIndex? <;> simp

theorem expectIndex_eq_error_iff {operation : String} :
    v.expectIndex operation = .error (.invalidOperand operation v) ↔ v.toIndex? = none := by
  rw [expectIndex]
  cases v.toIndex? <;> simp

theorem expectIndex_of_toIndex? (names : v.toIndex? = some n) (operation : String) :
    v.expectIndex operation = .ok n := expectIndex_eq_ok_iff.mpr names

theorem toIndex?_of_expectIndex {operation : String} (named : v.expectIndex operation = .ok n) :
    v.toIndex? = some n := expectIndex_eq_ok_iff.mp named

theorem isRatio_number_ofNat (has : Format.binary32.Has n) : (ofNat n).number.IsRatio n :=
  number_ofNumber has (Number.isRatio_ofNat n) false

theorem toIndex?_ofNat_iff (bound : n ≤ maxIndex) : (ofNat n).toIndex? = some n ↔ Format.binary32.Has n := by
  rw [toIndex?_eq_some_iff, and_iff_left bound]
  constructor
  · intro number
    obtain ⟨negative, t, least, has, same⟩ := has_of_toRat? number
    rwa [((signedRatio_eq_natural_iff least n).mp same.symm).1] at has
  · intro has
    exact ofNumber_exact has (Number.isRatio_ofNat n) false

theorem toIndex?_ofNat_of_le (bound : n ≤ 2 ^ 24) : (ofNat n).toIndex? = some n :=
  (toIndex?_ofNat_iff (bound.trans (by decide))).mpr (Format.binary32_has_of_le bound)

theorem toIndex?_ofNat_of_aligned (aligned : slotSize ∣ n) (bound : n ≤ 2 ^ 26) : (ofNat n).toIndex? = some n :=
  (toIndex?_ofNat_iff (bound.trans (by decide))).mpr (Format.binary32_has_of_aligned aligned bound)

theorem ofNat_isNearest (word : n < Word.limit) : (ofNat n).IsNearest n := by
  have below : (n : ℚ) < 2 ^ 127 := by exact_mod_cast word.trans (by decide)
  exact ofNumber_isNearest (Number.isRatio_ofNat n) below false

theorem ofNat_mono {a b : ℕ} (most : a ≤ b) (word : b < Word.limit) :
    ∃ r s, (ofNat a).number.toRat? = some r ∧ (ofNat b).number.toRat? = some s ∧ r ≤ s := by
  obtain ⟨r, read, near⟩ := ofNat_isNearest (most.trans_lt word)
  obtain ⟨s, read', near'⟩ := ofNat_isNearest word
  refine ⟨r, s, read, read', ?_⟩
  obtain rfl | less := Nat.eq_or_lt_of_le most
  · exact (Option.some_inj.mp (read.symm.trans read')).le
  · exact (near _ _ read').le (near' _ _ read) (by exact_mod_cast less)

/-- Conversion to and from an index. Whatever its bits are, a value is accepted exactly if the real number of its
fields is a natural number up to `2 ^ 32`, which is then the index; zero may have either sign. Any other value is an
invalid operand. A number of 64 bits is converted to the nearest value, on a tie to the one whose last bit is zero, and
a greater number never to a lesser value. So a number comes back from its value exactly if it is in range and has at
most 24 significant bits, as every number up to `2 ^ 24` and every multiple of four up to `2 ^ 26`. -/
theorem index_conversion_exact :
    (∀ (v : Value) (operation : String) (n : ℕ),
        v.expectIndex operation = .ok n ↔ v.real? = some (n : ℚ) ∧ n ≤ 2 ^ 32) ∧
      (∀ (v : Value) (operation : String), (∀ n : ℕ, v.real? = some (n : ℚ) → 2 ^ 32 < n) →
        v.expectIndex operation = .error (.invalidOperand operation v)) ∧
      (∀ n < 2 ^ 64, (ofNat n).negative = false ∧ ∃ r, (ofNat n).real? = some r ∧
        ∀ (w : Value) (s : ℚ), w.real? = some s → AtLeastAsNear n (Even (ofNat n).code) r s) ∧
      (∀ a b : ℕ, a ≤ b → b < 2 ^ 64 → ∃ r s, (ofNat a).real? = some r ∧ (ofNat b).real? = some s ∧ r ≤ s) ∧
      (∀ (n : ℕ) (operation : String),
        (ofNat n).expectIndex operation = .ok n ↔ n ≤ 2 ^ 32 ∧ ∃ s e : ℕ, s < 2 ^ 24 ∧ n = s * 2 ^ e) ∧
      ∀ (n : ℕ) (operation : String), n ≤ 2 ^ 24 ∨ 4 ∣ n ∧ n ≤ 2 ^ 26 → (ofNat n).expectIndex operation = .ok n := by
  simp only [← toRat?_number]
  have accepted (v : Value) (operation : String) (n : ℕ) :
      v.expectIndex operation = .ok n ↔ v.number.toRat? = some (n : ℚ) ∧ n ≤ 2 ^ 32 := by
    rw [expectIndex_eq_ok_iff]
    exact toIndex?_eq_some_iff
  refine ⟨accepted, fun v operation outside => ?_, fun n word => ⟨?_, ofNat_isNearest word⟩,
    fun a b most word => ofNat_mono most word, fun n operation => ?_, fun n operation kind => ?_⟩
  · rw [expectIndex_eq_error_iff]
    by_contra named
    obtain ⟨n, named⟩ := Option.ne_none_iff_exists'.mp named
    obtain ⟨number, bound⟩ := toIndex?_eq_some_iff.mp named
    exact (outside n number).not_ge bound
  · exact ofNumber_negative (Number.isRatio_ofNat n) false
  · constructor
    · intro named
      have bound := ((accepted ..).mp named).2
      rw [expectIndex_eq_ok_iff, toIndex?_ofNat_iff bound] at named
      exact ⟨bound, (Format.binary32_has_iff bound).mp named⟩
    · rintro ⟨bound, short⟩
      rw [expectIndex_eq_ok_iff, toIndex?_ofNat_iff bound]
      exact (Format.binary32_has_iff bound).mpr short
  · rw [expectIndex_eq_ok_iff]
    obtain small | ⟨aligned, most⟩ := kind
    · exact toIndex?_ofNat_of_le small
    · exact toIndex?_ofNat_of_aligned aligned most

/-- The greatest index, negative zero, the value right above the greatest index, two ties, of which one goes down and
one up, and two numbers that come back: one with 24 bits right below the greatest index and one of 26 bits. -/
theorem index_conversion_at_bounds :
    (⟨0x4f800000⟩ : Value).expectIndex "load" = .ok (2 ^ 32) ∧
      (⟨0x80000000⟩ : Value).expectIndex "load" = .ok 0 ∧
      (⟨0x4f800001⟩ : Value).expectIndex "load" = .error (.invalidOperand "load" ⟨0x4f800001⟩) ∧
      (∃ r, (ofNat 16777219).real? = some r ∧ ∀ (w : Value) (s : ℚ), w.real? = some s →
        AtLeastAsNear (16777219 : ℕ) (Even (ofNat 16777219).code) r s) ∧
      (∃ r s, (ofNat 16777217).real? = some r ∧ (ofNat 16777219).real? = some s ∧ r ≤ s) ∧
      (ofNat 4294967040).expectIndex "load" = .ok 4294967040 ∧ (ofNat 67108860).expectIndex "load" = .ok 67108860 := by
  obtain ⟨accepted, refused, nearest, monotone, returned, carried⟩ := index_conversion_exact
  have above : (⟨0x4f800001⟩ : Value).real? = some (4294967808 : ℕ) := by decide +kernel
  refine ⟨(accepted ..).mpr ⟨by decide +kernel, le_rfl⟩, (accepted ..).mpr ⟨by decide +kernel, by decide⟩,
    refused _ _ fun n number => ?_, (nearest _ (by decide)).2, monotone _ _ (by decide) (by decide),
    (returned ..).mpr ⟨by decide, 16777215, 8, by decide, by decide⟩, carried _ _ (.inr ⟨by decide, by decide⟩)⟩
  obtain rfl : 4294967808 = n := by exact_mod_cast Option.some_inj.mp (above.symm.trans number)
  decide

end Value
end StackMachine
