import Mathlib
import StackMachine.Proofs.Folding
import StackMachine.Proofs.TextBuffer

/-! Integers as text. What is written is the integer part, clamped to the 64-bit range; it may have 19 digits, more
than binary64 keeps. Yet the integer part of a value is itself a value, and so is the power of two that ends the
range, and the drift of 19 digits is far from the halfway mark to the next value. So the integer part is read
back, and the greatest integer of the range as the power of two above it. -/
namespace StackMachine

theorem Format.binary32_has_floor {q : ℚ} (has : Format.binary32.Has q) : Format.binary32.Has ⌊q⌋₊ := by
  obtain rfl | ⟨m, p, holds, rfl⟩ := has
  · exact .inl (by simp)
  obtain ⟨k, rfl | rfl⟩ := p.eq_nat_or_neg
  · have natural : (m : ℚ) * 2 ^ (k : ℤ) = (m * 2 ^ k : ℕ) := by push_cast; rfl
    rw [natural, Nat.floor_natCast, ← natural]
    exact .inr ⟨m, k, holds, rfl⟩
  · -- A negative exponent leaves no more bits than the mantissa has.
    have less : (m : ℚ) * 2 ^ (-k : ℤ) ≤ m :=
      mul_le_of_le_one_right m.cast_nonneg (zpow_le_one_of_nonpos₀ one_le_two (by omega))
    have floor : ⌊(m : ℚ) * 2 ^ (-k : ℤ)⌋₊ ≤ m := Nat.floor_le_of_le less
    exact Format.has_natural (floor.trans_lt holds.bits) (by decide) (by decide)

def towardZero (q : ℚ) : ℤ := if 0 ≤ q then ⌊q⌋ else ⌈q⌉

/-- The integer part of a number, no further from zero than two to the 63. -/
def Number.clamped : Number → ℚ
  | .nan => 0
  | .infinite negative => signedRatio negative (2 ^ 63)
  | .finite negative num den => max (-2 ^ 63) (min (2 ^ 63) (towardZero (signedRatio negative (num / den))))

theorem towardZero_signed {q : ℚ} (least : 0 ≤ q) (negative : Bool) :
    towardZero (signedRatio negative q) = Number.signed negative ⌊q⌋₊ := by
  have floor : ⌊q⌋ = (⌊q⌋₊ : ℤ) := (Int.natCast_floor_eq_floor least).symm
  cases negative with
  | false => simp [towardZero, signedRatio, Number.signed, least, floor]
  | true =>
    obtain rfl | positive := least.eq_or_lt
    · simp [towardZero, signedRatio, Number.signed]
    · simp [towardZero, signedRatio, Number.signed, positive, floor, Int.ceil_neg]

theorem Value.toInteger_finite {v : Value} {q : ℚ} (number : v.number.toRat? = some q) :
    v.toInteger = max minInteger (min maxInteger (towardZero q)) ∧ Format.binary32.Has (towardZero q).natAbs := by
  obtain ⟨negative, num, den, known, rfl⟩ := Number.finite_of_toRat? number
  have has := Format.binary32_has_floor (number_has known).2
  have cut := towardZero_signed (q := num / den) (by positivity) negative
  rw [Nat.floor_div_eq_div] at has cut
  rw [cut, Number.natAbs_signed, toInteger, known]
  exact ⟨rfl, has⟩

/-- The integer that is written is the number cut and clamped, but one less at the upper end of the range. -/
theorem Value.toInteger_clamped {v : Value} (valued : v.isNaN = false) :
    ∃ t : ℕ, Format.binary32.Has t ∧ v.number.clamped = signedRatio (decide (v.toInteger < 0)) t ∧
      t ≤ 2 ^ 63 ∧ (v.toInteger.natAbs = t ∨ v.toInteger.natAbs + 1 = t ∧ t = 2 ^ 63) := by
  have last : Format.binary32.Has (2 ^ 63 : ℕ) :=
    .inr ⟨2 ^ 23, 40, ⟨by decide, by decide, .inl (by decide), by decide, by decide⟩, by norm_num⟩
  cases number : v.number with
  | nan => simp [Value.isNaN, number] at valued
  | infinite negative =>
    refine ⟨2 ^ 63, last, ?_, le_rfl, ?_⟩
    · cases negative <;> norm_num [Number.clamped, Value.toInteger, number, minInteger, maxInteger, signedRatio]
    · cases negative <;> simp [Value.toInteger, number, minInteger, maxInteger]
  | finite negative num den =>
    have finite : v.number.toRat? = some (signedRatio negative (num / den)) := by rw [number, Number.toRat?]
    obtain ⟨written, part⟩ := toInteger_finite finite
    have clamp : v.number.clamped =
        (max (-2 ^ 63) (min (2 ^ 63) (towardZero (signedRatio negative (num / den)))) : ℤ) := by
      rw [number, Number.clamped]
      push_cast
      rfl
    generalize towardZero (signedRatio negative (num / den)) = i at *
    generalize v.toInteger = j at *
    rw [minInteger, maxInteger] at written
    refine ⟨min i.natAbs (2 ^ 63), ?_, ?_, Nat.min_le_right .., by omega⟩
    · obtain small | large := Nat.le_total i.natAbs (2 ^ 63)
      · rwa [Nat.min_eq_left small]
      · rwa [Nat.min_eq_right large]
    · rw [← number, clamp, signedRatio_natural]
      refine congrArg Int.cast ?_
      simp only [Number.signed, decide_eq_true_eq]
      split_ifs <;> omega

theorem Value.natAbs_toInteger_le (v : Value) : v.toInteger.natAbs ≤ 2 ^ 63 := by
  rw [toInteger, minInteger, maxInteger]
  split
  case h_1 => decide
  case h_2 negative number => cases negative <;> decide
  case h_3 => omega

theorem Value.integerText_length_le (v : Value) : v.integerText.length ≤ 20 := by
  have bound := v.natAbs_toInteger_le
  have digits : (Decimal.digitChars v.toInteger.natAbs).length ≤ 19 :=
    (Decimal.digitCount_le (by decide)).mpr (by omega)
  have sign := signChars_length_le (decide (v.toInteger < 0))
  rw [integerText, integerChars, List.length_append]
  omega

theorem Numeral.read_integerText {v : Value} (valued : v.isNaN = false) :
    ∃ w, read .integer (buffer v.integerText) = .ok w ∧ w.number.toRat? = some v.number.clamped := by
  obtain ⟨t, has, clamp, most, written⟩ := Value.toInteger_clamped valued
  have all : ∀ c ∈ Decimal.digitChars v.toInteger.natAbs, c.isDigit :=
    fun _ member => Decimal.isDigit_of_mem_digitChars member
  have length := v.integerText_length_le
  have spelled : body (buffer v.integerText) = v.integerText.map charCode := by
    have word : IsWord .integer v.integerText := .whole _ all
    rw [body_buffer word.filled, List.take_of_length_le (by omega)]
  rw [Value.integerText, Value.integerChars, List.length_append] at length
  obtain ⟨x, known, close⟩ := read_whole .integer all (by omega) (by
    rw [Decimal.ofDigitChars_digitChars]
    omega) spelled
  rw [Decimal.ofDigitChars_digitChars] at close
  have near : x.Approximates 65 t := by
    obtain same | ⟨next, top⟩ := written
    · rw [same] at close
      exact close.mono (by decide)
    · -- The one that is missing at the top is less than the drift.
      obtain ⟨r, number, error⟩ := close
      have one : (t : ℚ) = v.toInteger.natAbs + 1 := by exact_mod_cast next.symm
      have large : (t : ℚ) = 2 ^ 63 := by exact_mod_cast top
      refine ⟨r, number, ?_⟩
      rw [abs_le] at error ⊢
      push_cast at error ⊢
      constructor <;> linarith
  exact ⟨_, known, clamp ▸ Value.ofNumber_drifted has near (by decide) _⟩

namespace Machine

variable {config : Config} {m : Machine} {v : Value} {below : List Value}

/-- Integers survive as text. Take any machine with a small heap that has room for a buffer and with one free
slot on the stack. Whatever value is on top, if it is a number at all: it can be written as an integer and read
again, and what is then on top is the number cut toward zero and clamped to the 64-bit range, with everything
below as it was. -/
theorem integer_text_round_trip (addressable : config.Addressable) (reachable : Reachable config m)
    (small : m.heap.size ≤ 2 ^ 26) (free : 128 ≤ m.heap.largestFreeRun)
    (room : m.stack.pointer < m.stack.capacity) (live : m.stack.live = below ++ [v])
    (valued : v.isNaN = false) :
    ∃ next w, Runs m [.integerToText, .push (.ofNat 32), .textToInteger] next ∧
      next.stack.live = below ++ [w] ∧ w.number.toRat? = some v.number.clamped := by
  obtain ⟨w, read, number⟩ := Numeral.read_integerText valued
  obtain ⟨next, runs, stack⟩ := runs_format_parse (reachable.wellFormed addressable)
    (reachable.aligned addressable) small free room live .integer read
  exact ⟨next, w, runs, stack, number⟩

/-- Infinity, in a heap that the buffer fills: its text ends in a seven, and a power of two is read. -/
theorem infinity_read_at_clamp :
    let v : Value := ⟨0x7f800000⟩
    let m := [Op.push (.ofNat 9), .push v].foldl (fun m op => Action.after op.apply m) (fresh ⟨3, 128, 0⟩)
    m.stack.live = [.ofNat 9, v] ∧
      ∃ next w, Runs m [.integerToText, .push (.ofNat 32), .textToInteger] next ∧
        next.stack.live = [.ofNat 9, w] ∧ w.number.toRat? = some (2 ^ 63) := by
  intro v m
  have addressable : Config.Addressable ⟨3, 128, 0⟩ := ⟨by decide, by decide⟩
  have reachable : Reachable ⟨3, 128, 0⟩ m := Reachable.fresh.operations _
  have live : m.stack.live = [.ofNat 9] ++ [v] := by decide +kernel
  exact ⟨live, integer_text_round_trip addressable reachable (by decide +kernel) (by decide +kernel)
    (by decide +kernel) live (by decide +kernel)⟩

end Machine
end StackMachine
