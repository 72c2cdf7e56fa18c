import Mathlib
import StackMachine.Proofs.Folding
import StackMachine.Proofs.TextBuffer

/-! Reals as text with six places. The millionths are rounded once when they are written; whole numbers have none,
so they lose nothing but zeros where the buffer cuts them, and all other values are short enough for the buffer.
From sixteen on, neighbours among the values are so far apart that half a millionth and the drift of reading do
not lead from one to the other; below, the last rounding adds less than another half. -/
namespace StackMachine

theorem Decimal.six_places {n : Nat} (small : n < 10 ^ 6) :
    let part := zeros (6 - (digitChars n).length) ++ digitChars n
    part.length = 6 ∧ (∀ c ∈ part, c.isDigit) ∧ ofDigitChars part = n := by
  have short : (digitChars n).length ≤ 6 := (digitCount_le (by decide)).mpr small
  refine ⟨?_, fun c member => ?_, ?_⟩
  · rw [List.length_append, zeros_length]
    omega
  · obtain front | back := List.mem_append.mp member
    · exact isDigit_of_mem_zeros front
    · exact isDigit_of_mem_digitChars back
  · rw [ofDigitChars_append, ofDigitChars_zeros, ofDigitChars_digitChars, Nat.zero_mul, Nat.zero_add]

theorem Value.fixedChars_parts (num den : Nat) :
    ∃ part, fixedChars 6 num den =
        Decimal.digitChars (roundHalfEven (num * 10 ^ 6) den / 10 ^ 6) ++ '.' :: part ∧
      part.length = 6 ∧ (∀ c ∈ part, c.isDigit) ∧
      Decimal.ofDigitChars part = roundHalfEven (num * 10 ^ 6) den % 10 ^ 6 := by
  have power : Decimal.tenPow 6 = 10 ^ 6 := Decimal.tenPow_eq 6
  refine ⟨_, ?_, Decimal.six_places (Nat.mod_lt _ (by decide))⟩
  rw [fixedChars, power]
  -- Left in place, the remainder would be computed when the two rows of digits are compared.
  generalize Decimal.digitChars (roundHalfEven (num * 10 ^ 6) den % 10 ^ 6) = part
  rw [List.append_assoc, List.cons_append]

theorem roundHalfEven_millionths (num : Nat) {den : Nat} (positive : 0 < den) :
    |(roundHalfEven (num * 10 ^ 6) den : ℚ) / 10 ^ 6 - num / den| ≤ 1 / 2 / 10 ^ 6 := by
  have error := abs_le.mp (roundHalfEven_error (num * 10 ^ 6) positive)
  push_cast [mul_div_right_comm] at error
  rw [abs_le]
  constructor <;> linarith

namespace Numeral

variable {part : List Char}

theorem take_pointed (sign whole part : List Char) (fits : sign.length + whole.length ≤ 31) :
    (sign ++ (whole ++ '.' :: part)).take 31 = sign ++ whole ∨
      ∃ n, (sign ++ (whole ++ '.' :: part)).take 31 = sign ++ (whole ++ '.' :: part.take n) := by
  obtain full | free := Nat.eq_or_lt_of_le fits
  · refine .inl ?_
    rw [← List.append_assoc, List.take_append_of_le_length (by rw [List.length_append]; omega),
      List.take_of_length_le (by rw [List.length_append]; omega)]
  · obtain ⟨n, rest⟩ : ∃ n, 31 - (sign ++ whole).length = n + 1 := by
      rw [List.length_append]
      exact ⟨30 - (sign.length + whole.length), by omega⟩
    refine .inr ⟨n, ?_⟩
    rw [← List.append_assoc, List.take_append, List.take_of_length_le (by rw [List.length_append]; omega),
      rest, List.take_succ_cons, List.append_assoc]

theorem ofDigitChars_take (zero : Decimal.ofDigitChars part = 0) (n : Nat) :
    Decimal.ofDigitChars (part.take n) = 0 := by
  have parts := Decimal.ofDigitChars_append (part.take n) (part.drop n)
  rw [List.take_append_drop, zero, Decimal.tenPow_eq] at parts
  have power : 0 < 10 ^ (part.drop n).length := by positivity
  have product : Decimal.ofDigitChars (part.take n) * 10 ^ (part.drop n).length = 0 := by omega
  exact (Nat.mul_eq_zero.mp product).resolve_right power.ne'

theorem isDigit_fixed (n : Nat) (all : ∀ c ∈ part, c.isDigit) :
    ∀ c ∈ Decimal.digitChars n ++ part, c.isDigit := fun c member =>
  (List.mem_append.mp member).elim Decimal.isDigit_of_mem_digitChars (all c)

theorem body_fixed (negative : Bool) (n : Nat) (all : ∀ c ∈ part, c.isDigit) :
    body (buffer (Value.signChars negative ++ (Decimal.digitChars n ++ '.' :: part))) =
      ((Value.signChars negative ++ (Decimal.digitChars n ++ '.' :: part)).take 31).map charCode :=
  body_buffer (IsWord.pointed negative (isDigit_fixed n all)).filled

theorem read_fixed_whole (negative : Bool) {n : Nat} (small : n < 10 ^ 30) (all : ∀ c ∈ part, c.isDigit)
    (six : part.length = 6) (zero : Decimal.ofDigitChars part = 0) :
    ∃ x : Number, read .real (buffer (Value.signChars negative ++ (Decimal.digitChars n ++ '.' :: part))) =
        .ok (Value.ofNumber (if negative then x.negate else x)) ∧ x.Approximates 64 n := by
  have digits : (Decimal.digitChars n).length ≤ 30 := (Decimal.digitCount_le (by decide)).mpr small
  have sign := Value.signChars_length_le negative
  have value := Decimal.ofDigitChars_digitChars n
  have spelled := body_fixed negative n all
  obtain cut | ⟨k, cut⟩ := take_pointed (Value.signChars negative) (Decimal.digitChars n) part (by omega)
  · rw [cut] at spelled
    have read := read_whole .real (fun _ member => Decimal.isDigit_of_mem_digitChars member) (by omega)
      (by rw [value]; omega) spelled
    rwa [value] at read
  · rw [cut] at spelled
    have back := ofDigitChars_take zero k
    have read := read_pointed (isDigit_fixed n fun c member => all c (List.mem_of_mem_take member)) (by omega)
      (by rw [value]; omega) ((List.length_take_le' ..).trans six.le) (by rw [back]; decide) spelled
    rwa [value, back, Nat.cast_zero, zero_div, add_zero] at read

theorem read_fixed_short (negative : Bool) {n : Nat} (small : n < 10 ^ 8) (all : ∀ c ∈ part, c.isDigit)
    (six : part.length = 6) (below : Decimal.ofDigitChars part < 10 ^ 6) :
    ∃ x : Number, read .real (buffer (Value.signChars negative ++ (Decimal.digitChars n ++ '.' :: part))) =
        .ok (Value.ofNumber (if negative then x.negate else x)) ∧
      x.Approximates 64 (n + Decimal.ofDigitChars part / 10 ^ 6) := by
  have digits : (Decimal.digitChars n).length ≤ 8 := (Decimal.digitCount_le (by decide)).mpr small
  have sign := Value.signChars_length_le negative
  have value := Decimal.ofDigitChars_digitChars n
  have spelled := body_fixed negative n all
  rw [List.take_of_length_le (by simp only [List.length_append, List.length_cons]; omega)] at spelled
  have read := read_pointed (isDigit_fixed n all) (by omega) (by rw [value]; omega) six.le below spelled
  rwa [value, six] at read

end Numeral

namespace Value

variable {x : Number} {m : Nat} {p : Int} {r : ℚ}

theorem lt_of_broken (holds : Format.binary32.Holds m p) (broken : ∀ n : ℕ, (n : ℚ) ≠ m * 2 ^ p) :
    (m : ℚ) * 2 ^ p < 2 ^ 23 := by
  have below : p < 0 := by
    by_contra least
    obtain ⟨k, rfl⟩ := Int.eq_ofNat_of_zero_le (not_lt.mp least)
    exact broken (m * 2 ^ k) (by push_cast; rfl)
  have unit : (2 : ℚ) ^ p ≤ 2 ^ (-1 : ℤ) := zpow_le_zpow_right₀ one_le_two (by omega)
  have most : (m : ℚ) < 2 ^ 24 := by exact_mod_cast holds.bits
  calc (m : ℚ) * 2 ^ p ≤ m * 2 ^ (-1 : ℤ) := by gcongr
    _ = m / 2 := by rw [zpow_neg_one, div_eq_mul_inv]
    _ < 2 ^ 23 := by linarith

/-- From sixteen on, values that are not whole are so far apart that millionths tell them from each other. -/
theorem ofNumber_above_sixteen (holds : Format.binary32.Holds m p) (broken : ∀ n : ℕ, (n : ℚ) ≠ m * 2 ^ p)
    (large : 16 ≤ (m : ℚ) * 2 ^ p) (number : x.IsRatio r) (close : |r - m * 2 ^ p| < 1 / 2 ^ 20)
    (negative : Bool) :
    (ofNumber (if negative then x.negate else x)).number.toRat? = some (signedRatio negative (m * 2 ^ p)) := by
  have most : (m : ℚ) < 2 ^ 24 := by exact_mod_cast holds.bits
  have unit : (0 : ℚ) < 2 ^ p := by positivity
  have order : -20 < p := by
    have least : (2 : ℚ) ^ (-20 : ℤ) < 2 ^ p := by
      rw [show (2 : ℚ) ^ (-20 : ℤ) = 16 / 2 ^ 24 by norm_num, div_lt_iff₀ (by positivity)]
      nlinarith
    exact (zpow_lt_zpow_iff_right₀ one_lt_two).mp least
  have step : (1 : ℚ) / 2 ^ 20 ≤ 2 ^ p / 2 := by
    have least : (2 : ℚ) ^ (-19 : ℤ) ≤ 2 ^ p := zpow_le_zpow_right₀ one_le_two (by omega)
    norm_num at least ⊢
    linarith
  refine ofNumber_absorbed holds number ?_ (close.trans_le step) (fun power => ?_) negative
  · have low := (abs_lt.mp close).1
    norm_num at low
    linarith
  · -- The powers of two among them are whole.
    obtain ⟨k, exponent⟩ : ∃ k : ℕ, p + 23 = k := ⟨(p + 23).toNat, by omega⟩
    refine absurd ?_ (broken (2 ^ k))
    rw [power, Nat.cast_pow, Nat.cast_pow, Nat.cast_ofNat, ← zpow_natCast, ← zpow_natCast,
      ← zpow_add₀ two_ne_zero, ← exponent]
    congr 1
    norm_num
    ring

/-- Below sixteen the rounding to a value moves less than half a millionth. -/
theorem ofNumber_below_sixteen (number : x.IsRatio r) (small : r < 16) (negative : Bool) :
    ∃ s, (ofNumber (if negative then x.negate else x)).number.toRat? = some (signedRatio negative s) ∧
      |s - r| ≤ 1 / 2 ^ 21 := by
  obtain ⟨s, rounded, error⟩ := ofNumber_error number (small.trans (by norm_num)) negative
  refine ⟨s, rounded, error.trans ?_⟩
  have order : Int.log 2 r ≤ 3 := by
    obtain zero | above := number.nonneg.eq_or_lt
    · rw [← zero, Int.log_zero_right]
      decide
    · have below : Int.log 2 r < 4 := by
        rw [← Int.lt_zpow_iff_log_lt Nat.one_lt_two above]
        norm_num
        exact small
      omega
  have unit : (2 : ℚ) ^ max (-149) (Int.log 2 r - 23) ≤ 2 ^ (-20 : ℤ) :=
    zpow_le_zpow_right₀ one_le_two (by omega)
  norm_num at unit ⊢
  linarith

/-- Between sixteen and the value next below it there is room for a rounding to millionths. -/
theorem le_of_lt_sixteen (holds : Format.binary32.Holds m p) (small : (m : ℚ) * 2 ^ p < 16) :
    (m : ℚ) * 2 ^ p ≤ 16 - 1 / 2 ^ 20 := by
  by_cases fine : p < -20
  · have unit : (2 : ℚ) ^ p ≤ 2 ^ (-21 : ℤ) := zpow_le_zpow_right₀ one_le_two (by omega)
    have most : (m : ℚ) ≤ 2 ^ 24 := by exact_mod_cast holds.bits.le
    calc (m : ℚ) * 2 ^ p ≤ 2 ^ 24 * 2 ^ (-21 : ℤ) := by gcongr
      _ ≤ 16 - 1 / 2 ^ 20 := by norm_num
  · obtain ⟨k, exponent⟩ : ∃ k : ℕ, p + 20 = k := ⟨(p + 20).toNat, by omega⟩
    have scaled : (m : ℚ) * 2 ^ p = (m * 2 ^ k : ℕ) / 2 ^ 20 := by
      rw [show p = (k : ℤ) - 20 by omega, zpow_sub₀ two_ne_zero]
      push_cast
      norm_num
      ring
    rw [scaled] at small ⊢
    have units : m * 2 ^ k < 16 * 2 ^ 20 := by
      rw [div_lt_iff₀ (by positivity)] at small
      exact_mod_cast small
    have units : ((m * 2 ^ k : ℕ) : ℚ) + 1 ≤ 16 * 2 ^ 20 := by exact_mod_cast units
    rw [div_le_iff₀ (by positivity)]
    linarith

theorem ofNumber_millionths (holds : Format.binary32.Holds m p) (broken : ∀ n : ℕ, (n : ℚ) ≠ m * 2 ^ p)
    (number : x.IsRatio r) (error : |r - m * 2 ^ p| ≤ 1 / 2 / 10 ^ 6 + (m * 2 ^ p + 1) / 2 ^ 46)
    (negative : Bool) :
    ∃ s, (ofNumber (if negative then x.negate else x)).number.toRat? = some (signedRatio negative s) ∧
      |s - m * 2 ^ p| < 1 / 10 ^ 6 ∧ (16 ≤ (m : ℚ) * 2 ^ p → s = m * 2 ^ p) := by
  have small := lt_of_broken holds broken
  by_cases large : 16 ≤ (m : ℚ) * 2 ^ p
  · have close : |r - m * 2 ^ p| < 1 / 2 ^ 20 := error.trans_lt (by linarith)
    exact ⟨_, ofNumber_above_sixteen holds broken large number close negative, by simp, fun _ => rfl⟩
  · have gap := le_of_lt_sixteen holds (not_le.mp large)
    have near := abs_le.mp error
    obtain ⟨s, rounded, half⟩ := ofNumber_below_sixteen number (by linarith) negative
    have last := abs_le.mp half
    refine ⟨s, rounded, ?_, fun above => absurd above large⟩
    rw [abs_lt]
    constructor <;> linarith

end Value

namespace Numeral

variable {v : Value} {negative : Bool} {num den : Nat}

theorem read_fixed_fraction (negative : Bool) (positive : 0 < den) (small : (num : ℚ) / den < 2 ^ 23)
    {part : List Char} (six : part.length = 6) (all : ∀ c ∈ part, c.isDigit)
    (behind : Decimal.ofDigitChars part = roundHalfEven (num * 10 ^ 6) den % 10 ^ 6) :
    ∃ (x : Number) (r : ℚ), read .real (buffer (Value.signChars negative ++
        (Decimal.digitChars (roundHalfEven (num * 10 ^ 6) den / 10 ^ 6) ++ '.' :: part))) =
        .ok (Value.ofNumber (if negative then x.negate else x)) ∧ x.IsRatio r ∧
      |r - num / den| ≤ 1 / 2 / 10 ^ 6 + (num / den + 1) / 2 ^ 46 := by
  have rounded := roundHalfEven_millionths num positive
  generalize roundHalfEven (num * 10 ^ 6) den = units at *
  have value : ((units / 10 ^ 6 : ℕ) : ℚ) + (units % 10 ^ 6 : ℕ) / 10 ^ 6 = units / 10 ^ 6 := by
    have parts : (units : ℚ) = 10 ^ 6 * (units / 10 ^ 6 : ℕ) + (units % 10 ^ 6 : ℕ) := by
      exact_mod_cast (Nat.div_add_mod units (10 ^ 6)).symm
    rw [parts]
    ring
  have bound := abs_le.mp rounded
  have few : units / 10 ^ 6 < 10 ^ 8 := by
    have below : (units : ℚ) < 10 ^ 8 * 10 ^ 6 := by linarith
    exact Nat.div_lt_of_lt_mul (by rw [mul_comm]; exact_mod_cast below)
  obtain ⟨x, known, r, number, drift⟩ := read_fixed_short negative few all six (by
    rw [behind]
    exact Nat.mod_lt _ (by decide))
  rw [behind, value] at drift
  refine ⟨x, r, known, number, ?_⟩
  calc |r - num / den| ≤ |r - units / 10 ^ 6| + |(units : ℚ) / 10 ^ 6 - num / den| := abs_sub_le _ _ _
    _ ≤ (num / den + 1) / 2 ^ 46 + 1 / 2 / 10 ^ 6 := by
      refine add_le_add (drift.trans ?_) rounded
      push_cast
      linarith
    _ = 1 / 2 / 10 ^ 6 + (num / den + 1) / 2 ^ 46 := add_comm _ _

theorem read_fixedText (finite : v.number = .finite negative num den) (bounded : (num : ℚ) / den < 10 ^ 30) :
    ∃ w r, read .real (buffer v.fixedText) = .ok w ∧ w.number.toRat? = some (signedRatio negative r) ∧
      |r - num / den| < 1 / 10 ^ 6 ∧ (16 ≤ (num : ℚ) / den → r = num / den) := by
  obtain ⟨positive, has⟩ := Value.number_has finite
  obtain ⟨part, text, six, all, behind⟩ := Value.fixedChars_parts num den
  have written : v.fixedText = Value.signChars negative ++
      (Decimal.digitChars (roundHalfEven (num * 10 ^ 6) den / 10 ^ 6) ++ '.' :: part) := by
    rw [Value.fixedText, finite]
    exact congrArg _ text
  rw [written]
  by_cases whole : ∃ n : ℕ, (n : ℚ) = num / den
  · -- A whole number is written exactly, and what the cut takes are zeros.
    obtain ⟨n, same⟩ := whole
    have units : roundHalfEven (num * 10 ^ 6) den = n * 10 ^ 6 := by
      refine roundHalfEven_eq positive ?_
      push_cast
      rw [mul_div_right_comm, ← same, sub_self, abs_zero]
      norm_num
    rw [units, Nat.mul_mod_left] at behind
    rw [units, Nat.mul_div_cancel _ (by decide)]
    rw [← same] at has bounded ⊢
    obtain ⟨x, known, close⟩ := read_fixed_whole negative (by exact_mod_cast bounded) all six behind
    exact ⟨_, n, known, Value.ofNumber_drifted has close (by decide) negative, by simp, fun _ => rfl⟩
  · obtain zero | ⟨m, p, holds, same⟩ := has
    · exact absurd ⟨0, by rw [zero, Nat.cast_zero]⟩ whole
    rw [← same] at whole ⊢
    have broken : ∀ n : ℕ, (n : ℚ) ≠ m * 2 ^ p := not_exists.mp whole
    obtain ⟨x, r, known, number, error⟩ := read_fixed_fraction negative positive
      (same ▸ Value.lt_of_broken holds broken) six all behind
    rw [← same] at error
    obtain ⟨s, rounded, close, exactly⟩ := Value.ofNumber_millionths holds broken number error negative
    exact ⟨_, s, known, rounded, close, exactly⟩

end Numeral

namespace Machine

variable {config : Config} {m : Machine} {v : Value} {below : List Value}

/-- Reals survive as text. On the same machines, any finite value below ten to the thirty can be written with six
places and read again; what is then on top differs by less than a millionth, and from sixteen on not at all. -/
theorem float_text_round_trip (addressable : config.Addressable) (reachable : Reachable config m)
    (small : m.heap.size ≤ 2 ^ 26) (free : 128 ≤ m.heap.largestFreeRun)
    (room : m.stack.pointer < m.stack.capacity) (live : m.stack.live = below ++ [v])
    {q : ℚ} (finite : v.number.toRat? = some q) (bounded : |q| < 10 ^ 30) :
    ∃ next w r, Runs m [.floatToText, .push (.ofNat 32), .textToFloat] next ∧
      next.stack.live = below ++ [w] ∧ w.number.toRat? = some r ∧ |r - q| < 1 / 10 ^ 6 ∧
      (16 ≤ |q| → r = q) := by
  cases number : v.number with
  | nan => rw [number] at finite; cases finite
  | infinite negative => rw [number] at finite; cases finite
  | finite negative num den =>
    rw [number, Number.toRat?] at finite
    cases finite
    have least : (0 : ℚ) ≤ num / den := by positivity
    rw [abs_signedRatio, abs_of_nonneg least] at bounded
    obtain ⟨w, r, read, rounded, close, same⟩ := Numeral.read_fixedText number bounded
    obtain ⟨next, runs, stack⟩ := runs_format_parse (reachable.wellFormed addressable)
      (reachable.aligned addressable) small free room live .real read
    refine ⟨next, w, _, runs, stack, rounded, ?_, fun large => ?_⟩
    · rwa [← signedRatio_sub, abs_signedRatio]
    · rw [abs_signedRatio, abs_of_nonneg least] at large
      rw [same large]

/-- The value next above sixteen has more places than are written, and is read exactly. -/
theorem value_above_sixteen_read_exactly :
    let v : Value := ⟨0x41800001⟩
    let m := [Op.push (.ofNat 9), .push v].foldl (fun m op => Action.after op.apply m) (fresh ⟨3, 128, 0⟩)
    v.number.toRat? = some (16 + 1 / 2 ^ 19) ∧
      ∃ next w, Runs m [.floatToText, .push (.ofNat 32), .textToFloat] next ∧
        next.stack.live = [.ofNat 9, w] ∧ w.number.toRat? = some (16 + 1 / 2 ^ 19) := by
  intro v m
  have addressable : Config.Addressable ⟨3, 128, 0⟩ := ⟨by decide, by decide⟩
  have reachable : Reachable ⟨3, 128, 0⟩ m := Reachable.fresh.operations _
  have live : m.stack.live = [.ofNat 9] ++ [v] := by decide +kernel
  have number : v.number = .finite false 8388609 524288 := by decide +kernel
  have finite : v.number.toRat? = some (16 + 1 / 2 ^ 19) := by
    norm_num [number, Number.toRat?, signedRatio]
  obtain ⟨next, w, r, runs, stack, read, -, same⟩ := float_text_round_trip addressable reachable
    (by decide +kernel) (by decide +kernel) (by decide +kernel) live finite (by norm_num [abs_lt])
  rw [same (by rw [abs_of_pos (by norm_num)]; norm_num)] at read
  exact ⟨finite, next, w, runs, stack, read⟩

end Machine
end StackMachine
