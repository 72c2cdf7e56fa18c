import Mathlib
import StackMachine.Proofs.IntegerText
import StackMachine.Proofs.Sequence

/-! Division and remainder. The operands of a remainder are cut to integers of 64 bits, of which a value keeps 24.
Yet a remainder is a multiple of the lower of the two powers of two that its operands are multiples of, and it is no
greater than the operand with that power. So it has no more bits than that operand, and no rounding changes it. Both
operators refuse a zero divisor, and the remainder refuses one pair more: minus one under the lower end of the
range. -/
namespace StackMachine

namespace Format

variable {format : Format} {a b : Nat}

theorem has_mod (left : format.Has a) (right : format.Has b) (filled : b ≠ 0)
    (low : format.minExponent + format.precision ≤ 1) (high : 0 ≤ format.maxExponent) :
    format.Has (a % b : ℕ) := by
  have least : a % b ≤ a := Nat.mod_le a b
  have less : a % b ≤ b := (Nat.mod_lt a (Nat.pos_of_ne_zero filled)).le
  obtain ⟨s, e, short, order, rfl⟩ := left.scaled high
  obtain ⟨t, f, short', order', rfl⟩ := right.scaled high
  have ends (d : Nat) (most : d ≤ e) (most' : d ≤ f) : 2 ^ d ∣ s * 2 ^ e % (t * 2 ^ f) :=
    (Nat.dvd_mod_iff (Dvd.dvd.mul_left (Nat.pow_dvd_pow 2 most') t)).mpr
      (Dvd.dvd.mul_left (Nat.pow_dvd_pow 2 most) s)
  obtain lower | lower := Nat.le_total e f
  · exact has_of_dvd (ends e le_rfl lower) least short low order
  · exact has_of_dvd (ends f lower le_rfl) less short' low order'

end Format

section TowardZero

variable {q : ℚ}

theorem towardZero_nonneg (least : 0 ≤ q) : 0 ≤ towardZero q := by
  rw [towardZero, if_pos least]
  exact Int.floor_nonneg.mpr least

/-- Below zero the integer part is the integer above. -/
theorem towardZero_le_iff {i : ℤ} (below : i < 0) : towardZero q ≤ i ↔ q ≤ i := by
  obtain least | less := le_or_gt 0 q
  · have above : (i : ℚ) < q := (Int.cast_lt_zero.mpr below).trans_le least
    exact iff_of_false (below.trans_le (towardZero_nonneg least)).not_ge above.not_ge
  · rw [towardZero, if_neg less.not_ge]
    exact Int.ceil_le

theorem towardZero_nonpos (most : q ≤ 0) : towardZero q ≤ 0 := by
  obtain rfl | less := most.eq_or_lt
  · simp [towardZero]
  · rw [towardZero, if_neg less.not_ge]
    exact Int.ceil_le.mpr (by simpa using most)

theorem lt_towardZero {i : ℤ} (above : (i : ℚ) < q) (below : i < 0) : i < towardZero q :=
  not_le.mp fun most => above.not_ge ((towardZero_le_iff below).mp most)

theorem towardZero_lt {i : ℤ} (below : q < i) (positive : 0 < i) : towardZero q < i := by
  obtain least | less := le_or_gt 0 q
  · rw [towardZero, if_pos least]
    exact Int.floor_lt.mpr below
  · exact (towardZero_nonpos less.le).trans_lt positive

end TowardZero

namespace Number

/-- A number has an integer for its integer part. What has no value counts as zero. -/
def CutsTo (x : Number) (i : ℤ) : Prop := x = .nan ∧ i = 0 ∨ ∃ q, x.toRat? = some q ∧ towardZero q = i

/-- A number is no greater than a ratio. Below all ratios is the one infinity. -/
def AtMost (x : Number) (r : ℚ) : Prop := x = .infinite true ∨ ∃ q, x.toRat? = some q ∧ q ≤ r

end Number

namespace Value

variable {v : Value} {q : ℚ}

theorem isZero_iff : v.isZero ↔ v = ⟨0⟩ ∨ v = ⟨0x80000000⟩ := by
  constructor
  · intro zero
    have empty : v.code = 0 := by
      by_contra filled
      obtain finite | beyond := Nat.lt_or_ge v.code infinityCode
      · obtain ⟨m, p, read, holds, -⟩ := number_finite finite filled
        rw [isZero, read, Number.isZero, beq_iff_eq] at zero
        exact (raise_pos (Nat.pos_of_ne_zero holds.filled) p).ne' zero
      · rw [isZero, number] at zero
        split_ifs at zero <;> first | omega | cases zero
    rw [← ofCode_code v, empty]
    cases v.negative with
    | false => exact .inl rfl
    | true => exact .inr rfl
  · rintro (rfl | rfl) <;> decide

theorem toInteger_inside (number : v.number.toRat? = some q) (inside : |q| < 2 ^ 63) :
    v.toInteger = towardZero q ∧ minInteger < v.toInteger := by
  obtain ⟨low, high⟩ := abs_lt.mp inside
  have lowest : ((minInteger : ℤ) : ℚ) = -2 ^ 63 := by norm_num [minInteger]
  have above : minInteger < towardZero q := lt_towardZero (lowest ▸ low) (by decide)
  have under : towardZero q < 2 ^ 63 := towardZero_lt (by exact_mod_cast high) (by decide)
  rw [minInteger] at above
  rw [(toInteger_finite number).1, minInteger, maxInteger]
  omega

theorem toInteger_eq_iff {i : ℤ} (low : minInteger < i) (high : i < maxInteger) :
    v.toInteger = i ↔ v.number.CutsTo i := by
  cases known : v.number with
  | nan => simp [toInteger, known, Number.CutsTo, Number.toRat?, eq_comm]
  | infinite negative =>
    have other : v.toInteger ≠ i := by
      rw [toInteger, known]
      cases negative with
      | false => exact high.ne'
      | true => exact low.ne
    simp [other, Number.CutsTo, Number.toRat?]
  | finite negative num den =>
    have number : v.number.toRat? = some (signedRatio negative (num / den)) := by rw [known, Number.toRat?]
    rw [(toInteger_finite number).1]
    simp only [Number.CutsTo, Number.toRat?, reduceCtorEq, false_and, false_or, Option.some_inj, exists_eq_left']
    omega

theorem toInteger_eq_min_iff : v.toInteger = minInteger ↔ v.number.AtMost (-2 ^ 63) := by
  cases known : v.number with
  | nan => simp [toInteger, known, Number.AtMost, Number.toRat?, minInteger]
  | infinite negative =>
    cases negative <;> simp [toInteger, known, Number.AtMost, Number.toRat?, minInteger, maxInteger]
  | finite negative num den =>
    have number : v.number.toRat? = some (signedRatio negative (num / den)) := by rw [known, Number.toRat?]
    have cut := towardZero_le_iff (q := signedRatio negative (num / den)) (i := minInteger) (by decide)
    have lowest : ((minInteger : ℤ) : ℚ) = -2 ^ 63 := by norm_num [minInteger]
    rw [lowest] at cut
    simp only [Number.AtMost, Number.toRat?, reduceCtorEq, false_or, Option.some_inj, exists_eq_left', ← cut,
      (toInteger_finite number).1, minInteger, maxInteger]
    omega

theorem toRat?_ofInt {i : ℤ} (has : Format.binary32.Has i.natAbs) : (ofInt i).number.toRat? = some (i : ℚ) := by
  have exactly := ofNumber_exact has (Number.isRatio_ofNat i.natAbs) (decide (i < 0))
  have written : (if decide (i < 0) then (Number.ofNat i.natAbs).negate else .ofNat i.natAbs) = .ofInt i := by
    rw [Number.ofInt]
    cases decide (i < 0) <;> rfl
  have same : Number.signed (decide (i < 0)) i.natAbs = i := by
    rw [Number.signed]
    split_ifs with below <;> simp only [decide_eq_true_eq] at below <;> omega
  rwa [written, signedRatio_natural, same] at exactly

end Value

namespace BinaryOperator

variable {a b : Value}

theorem remainder?_eq_none_iff : remainder? a.toInteger b.toInteger = none ↔
    b.number.CutsTo 0 ∨ a.number.AtMost (-2 ^ 63) ∧ b.number.CutsTo (-1) := by
  rw [← Value.toInteger_eq_iff (by decide) (by decide), ← Value.toInteger_eq_min_iff,
    ← Value.toInteger_eq_iff (by decide) (by decide)]
  simp [remainder?, or_iff_not_imp_left]

theorem divide_refused_iff :
    apply .divide a b = .error (.divisionByZero "divide") ↔ b = ⟨0⟩ ∨ b = ⟨0x80000000⟩ := by
  rw [← Value.isZero_iff, apply]
  cases b.isZero <;> simp [name]

theorem modulo_refused_iff : apply .modulo a b = .error (.divisionByZero "modulo") ↔
    b.number.CutsTo 0 ∨ a.number.AtMost (-2 ^ 63) ∧ b.number.CutsTo (-1) := by
  rw [← remainder?_eq_none_iff, apply]
  cases remainder? a.toInteger b.toInteger <;> simp [name]

theorem apply_cases (op : BinaryOperator) (a b : Value) :
    op.apply a b = .error (.divisionByZero op.name) ∨ ∃ v, op.apply a b = .ok v := by
  cases op with
  | add => exact .inr ⟨_, rfl⟩
  | subtract => exact .inr ⟨_, rfl⟩
  | multiply => exact .inr ⟨_, rfl⟩
  | divide =>
    rw [apply]
    cases b.isZero <;> simp
  | modulo =>
    rw [apply]
    cases remainder? a.toInteger b.toInteger <;> simp

end BinaryOperator

namespace Machine

variable {config : Config} {m : Machine} {a b : Value} {below : List Value} {p q : ℚ}

theorem binary_refused_iff (form : m.WellFormed) (live : m.stack.live = below ++ [a, b]) (op : BinaryOperator)
    (fault : Fault) : (Op.binary op).apply m = .error fault m ↔ op.apply a b = .error fault := by
  rw [binary_apply form live]
  cases op.apply a b <;> simp

/-- What is refused as a division by zero. Whatever two values are on top, in any machine, a quotient is refused
exactly if the divisor is one of the two zeros. A remainder is refused exactly if the integer part of the divisor is
zero, or if it is minus one and the dividend is at the lower end of the 64-bit range or below. A refusal leaves the
machine as it was; in all other cases the result takes the place of the operands. -/
theorem division_by_zero_iff (addressable : config.Addressable) (reachable : Reachable config m)
    (live : m.stack.live = below ++ [a, b]) :
    ((Op.binary .divide).apply m = .error (.divisionByZero "divide") m ↔ b = ⟨0⟩ ∨ b = ⟨0x80000000⟩) ∧
      ((Op.binary .modulo).apply m = .error (.divisionByZero "modulo") m ↔
        b.number.CutsTo 0 ∨ a.number.AtMost (-2 ^ 63) ∧ b.number.CutsTo (-1)) ∧
      ∀ op, (Op.binary op).apply m = .error (.divisionByZero op.name) m ∨
        ∃ v, (Op.binary op).apply m = .ok .next (m.keeping (v :: below.reverse)) := by
  have form := reachable.wellFormed addressable
  refine ⟨?_, ?_, fun op => ?_⟩
  · rw [binary_refused_iff form live, BinaryOperator.divide_refused_iff]
  · rw [binary_refused_iff form live, BinaryOperator.modulo_refused_iff]
  · obtain refused | ⟨v, result⟩ := op.apply_cases a b
    · exact .inl ((binary_refused_iff form live op _).mpr refused)
    · exact .inr ⟨v, by rw [binary_apply form live, result]⟩

/-- Infinity over a fraction. The quotient is taken; the remainder is refused, since the integer part of the divisor
is minus one. -/
theorem infinity_over_fraction :
    let a : Value := ⟨0xff800000⟩
    let b : Value := ⟨0xbfc00000⟩
    let m := [Op.push a, .push b].foldl (fun m op => Action.after op.apply m) (fresh ⟨2, 0, 0⟩)
    m.stack.live = [a, b] ∧ (Op.binary .modulo).apply m = .error (.divisionByZero "modulo") m ∧
      ∃ v, (Op.binary .divide).apply m = .ok .next (m.keeping [v]) := by
  intro a b m
  have addressable : Config.Addressable ⟨2, 0, 0⟩ := ⟨by decide, by decide⟩
  have reachable : Reachable ⟨2, 0, 0⟩ m := Reachable.fresh.operations _
  have live : m.stack.live = [] ++ [a, b] := by decide +kernel
  obtain ⟨divide, modulo, others⟩ := division_by_zero_iff addressable reachable live
  have cut : b.number.CutsTo (-1) := .inr ⟨-3 / 2, by decide +kernel, by norm_num [towardZero]⟩
  have filled : ¬(b = ⟨0⟩ ∨ b = ⟨0x80000000⟩) := by decide
  have lowest : a.number.AtMost (-2 ^ 63) := .inl (by decide +kernel)
  refine ⟨live, modulo.mpr (.inr ⟨lowest, cut⟩), (others .divide).resolve_left fun refused => ?_⟩
  exact filled (divide.mp refused)

/-- What is refused though the divisor is not zero: minus one under minus two to the 63. -/
theorem remainder_refused_at_lower_end :
    let a : Value := ⟨0xdf000000⟩
    let b : Value := ⟨0xbf800000⟩
    let m := [Op.push a, .push b].foldl (fun m op => Action.after op.apply m) (fresh ⟨2, 0, 0⟩)
    m.stack.live = [a, b] ∧ ¬b.number.CutsTo 0 ∧
      (Op.binary .modulo).apply m = .error (.divisionByZero "modulo") m := by
  intro a b m
  have addressable : Config.Addressable ⟨2, 0, 0⟩ := ⟨by decide, by decide⟩
  have reachable : Reachable ⟨2, 0, 0⟩ m := Reachable.fresh.operations _
  have live : m.stack.live = [] ++ [a, b] := by decide +kernel
  refine ⟨live, ?_, ?_⟩
  · rw [← Value.toInteger_eq_iff (by decide) (by decide)]
    decide +kernel
  · rw [binary_refused_iff (reachable.wellFormed addressable) live]
    decide +kernel

/-- A remainder is exact. Take any two finite values on top whose numbers are less than two to the 63 in size, the
upper one with an integer part other than zero. The remainder of their integer parts takes their place: an integer
that is smaller than the divisor, of the sign of the dividend or zero, and less than the dividend by a multiple of
the divisor. -/
theorem modulo_exact (addressable : config.Addressable) (reachable : Reachable config m)
    (live : m.stack.live = below ++ [a, b]) (dividend : a.number.toRat? = some p) (divisor : b.number.toRat? = some q)
    (inside : |p| < 2 ^ 63) (inside' : |q| < 2 ^ 63) (filled : towardZero q ≠ 0) :
    ∃ (v : Value) (r : ℤ), (Op.binary .modulo).apply m = .ok .next (m.keeping (v :: below.reverse)) ∧
      v.number.toRat? = some (r : ℚ) ∧ (∃ k : ℤ, towardZero p = k * towardZero q + r) ∧
      |r| < |towardZero q| ∧ (0 ≤ p → 0 ≤ r) ∧ (p ≤ 0 → r ≤ 0) := by
  have form := reachable.wellFormed addressable
  obtain ⟨left, low⟩ := Value.toInteger_inside dividend inside
  obtain ⟨right, -⟩ := Value.toInteger_inside divisor inside'
  have result : BinaryOperator.modulo.apply a b = .ok (.ofInt ((towardZero p).tmod (towardZero q))) := by
    rw [BinaryOperator.apply, BinaryOperator.remainder?, if_neg (by simp [right, filled, low.ne']), left, right]
  have has : Format.binary32.Has ((towardZero p).tmod (towardZero q)).natAbs := by
    rw [Int.natAbs_tmod]
    exact Format.has_mod (Value.toInteger_finite dividend).2 (Value.toInteger_finite divisor).2
      (Int.natAbs_ne_zero.mpr filled) (by decide) (by decide)
  refine ⟨_, (towardZero p).tmod (towardZero q), ?_, Value.toRat?_ofInt has, ?_, ?_, ?_, ?_⟩
  · rw [binary_apply form live, result]
  · exact ⟨(towardZero p).tdiv (towardZero q), (Int.tdiv_mul_add_tmod ..).symm⟩
  · rw [← Int.natCast_natAbs, ← Int.natCast_natAbs, Int.natAbs_tmod]
    exact_mod_cast Nat.mod_lt _ (Int.natAbs_pos.mpr filled)
  · exact fun least => Int.tmod_nonneg _ (towardZero_nonneg least)
  · intro most
    have other := Int.tmod_nonneg (towardZero q) (neg_nonneg.mpr (towardZero_nonpos most))
    rwa [Int.neg_tmod, neg_nonneg] at other

/-- Two values with all their 24 bits, the greater one right below two to the 63: the remainder has 53 bits, of which
the last thirty are zero. -/
theorem modulo_of_long_integers :
    let a : Value := ⟨0x5effffff⟩
    let b : Value := ⟨0xda7fcfc7⟩
    let m := [Op.push a, .push b].foldl (fun m op => Action.after op.apply m) (fresh ⟨2, 0, 0⟩)
    m.stack.live = [a, b] ∧ ∃ (v : Value) (r : ℤ), (Op.binary .modulo).apply m = .ok .next (m.keeping [v]) ∧
      v.number.toRat? = some (r : ℚ) ∧ (∃ k : ℤ, 16777215 * 2 ^ 39 = k * (-16764871 * 2 ^ 30) + r) ∧
      |r| < 16764871 * 2 ^ 30 ∧ 0 ≤ r := by
  intro a b m
  have addressable : Config.Addressable ⟨2, 0, 0⟩ := ⟨by decide, by decide⟩
  have reachable : Reachable ⟨2, 0, 0⟩ m := Reachable.fresh.operations _
  have live : m.stack.live = [] ++ [a, b] := by decide +kernel
  have dividend : a.number.toRat? = some (16777215 * 2 ^ 39) := by decide +kernel
  have divisor : b.number.toRat? = some (-16764871 * 2 ^ 30) := by decide +kernel
  have cut : towardZero (16777215 * 2 ^ 39) = 16777215 * 2 ^ 39 := by decide +kernel
  have cut' : towardZero (-16764871 * 2 ^ 30) = -16764871 * 2 ^ 30 := by decide +kernel
  obtain ⟨v, r, applied, value, multiple, less, sign, -⟩ := modulo_exact addressable reachable live dividend divisor
    (by decide +kernel) (by decide +kernel) (by rw [cut']; decide)
  rw [cut, cut'] at multiple
  rw [cut'] at less
  exact ⟨live, v, r, applied, value, multiple, less, sign (by norm_num)⟩

end Machine
end StackMachine
