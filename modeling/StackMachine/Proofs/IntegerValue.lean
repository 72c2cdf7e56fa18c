import Mathlib
import StackMachine.Proofs.Folding
import StackMachine.Proofs.TextBuffer
import StackMachine.Proofs.TiesToEven

/-! The value of integer text. Digits are folded in binary64, which has all natural numbers below `2 ^ 53`. As long
as the number that the digits spell stays below that, so does every number on the way, and both roundings of a digit
change nothing, however many zeros come first. One rounding is left, from the number that was spelled to a value: it
leads to the nearest value, which up to `2 ^ 24` is the number itself. -/
namespace StackMachine

namespace Numeral

variable {p : Progress} {n : Nat} {whole : List Char} {codes : List Value}

theorem digit_exact (bare : p.point = false) (number : p.whole.IsRatio n) {d : Nat}
    (small : 10 * n + d < 2 ^ 53) : (p.digit d).whole.IsRatio (10 * n + d : ℕ) := by
  have has {k : Nat} (most : k < 2 ^ 53) : Format.binary64.Has k :=
    Format.has_natural most (by decide) (by decide)
  have tenfold := number.mul (Number.isRatio_ofNat 10)
  rw [← Nat.cast_mul, mul_comm n] at tenfold
  have shifted : (fold (p.whole.mul (.ofNat 10))).IsRatio (10 * n : ℕ) :=
    Format.nearest_of_has (has (by omega)) tenfold
  have sum := shifted.add (Number.isRatio_ofNat d)
  rw [← Nat.cast_add] at sum
  simp only [Progress.digit, bare, Bool.false_eq_true, if_false]
  exact Format.nearest_of_has (has small) sum

theorem digits_exact (bare : p.point = false) (number : p.whole.IsRatio n)
    (small : Nat.ofDigitChars 10 whole n < 2 ^ 53) :
    (p.digits whole).whole.IsRatio (Nat.ofDigitChars 10 whole n) := by
  induction whole generalizing p n with
  | nil => exact number
  | cons c chars ih =>
    rw [Nat.ofDigitChars_cons] at small ⊢
    have next := digit_exact bare number ((le_ofDigitChars ..).trans_lt small)
    rw [digits_cons]
    exact ih (by rwa [digit_point]) next small

theorem read_integer (negative : Bool) (all : ∀ c ∈ whole, c.isDigit)
    (small : Decimal.ofDigitChars whole < 2 ^ 53)
    (spelled : body codes = (Value.signChars negative ++ whole).map charCode) :
    ∃ x : Number, read .integer codes = .ok (Value.ofNumber (if negative then x.negate else x)) ∧
      x.IsRatio (Decimal.ofDigitChars whole) := by
  have exactly : ({ negative : Progress }.digits whole).whole.IsRatio (Decimal.ofDigitChars whole) :=
    digits_exact rfl (Number.isRatio_ofNat 0) small
  refine ⟨_, ?_, exactly⟩
  rw [read, spelled, readFrom_whole negative all]
  simp only [Progress.value, digits_negative]

end Numeral

namespace Machine

variable {config : Config} {m : Machine} {negative : Bool} {digits : List Char} {rest : List Value}

/-- Integer text has the value that it spells. Take digits of any number, with or without a sign before them, that
spell a number below `2 ^ 53`, and behind them nothing, or a zero and then anything. The text is replaced by the
value nearest to that number under its sign, where a tie goes to the even value and the sign stays also on zero; up
to `2 ^ 24` it is the number itself. -/
theorem integer_text_value (addressable : config.Addressable) (reachable : Reachable config m)
    (presents : m.Presents ((Value.signChars negative ++ digits).map Numeral.charCode ++ rest))
    (all : ∀ c ∈ digits, c.isDigit) (ended : ∀ v ∈ rest.head?, v.isZero)
    (small : Decimal.ofDigitChars digits < 2 ^ 53) :
    ∃ v, textToInteger m = .ok v (m.keeping (v :: m.stack.values.drop 2)) ∧
      v.IsNearest (signedRatio negative (Decimal.ofDigitChars digits)) ∧ v.negative = negative ∧
      (Decimal.ofDigitChars digits ≤ 2 ^ 24 →
        v.number.toRat? = some (signedRatio negative (Decimal.ofDigitChars digits))) := by
  have run : textToInteger m = _ := reader_presented (reachable.wellFormed addressable) presents .integer
  have word : Numeral.IsWord .integer (Value.signChars negative ++ digits) := .whole negative all
  obtain ⟨x, read, number⟩ := Numeral.read_integer negative all small (Numeral.body_spelled word.filled ended)
  have below : (Decimal.ofDigitChars digits : ℚ) < 2 ^ 127 := by exact_mod_cast small.trans (by norm_num)
  rw [read] at run
  exact ⟨_, run, Value.ofNumber_isNearest number below negative, Value.ofNumber_negative number negative,
    fun most => Value.ofNumber_exact (Format.binary32_has_of_le most) number negative⟩

/-- A number halfway between two values, with a sign and zeros before it, ended by a zero and followed by what is no
number. -/
theorem tie_text_value :
    let digits := ['0', '0', '1', '6', '7', '7', '7', '2', '1', '9']
    let rest : List Value := [⟨0x80000000⟩, ⟨0x7fc01234⟩]
    let codes := ('-' :: digits).map Numeral.charCode ++ rest
    let m := (codes.map Op.push ++ [Op.push (.ofNat 0), .store 13, .push (.ofNat 0), .push (.ofNat 13)]).foldl
      (fun m op => Action.after op.apply m) (fresh ⟨14, 52, 0⟩)
    m.Presents codes ∧ ∃ v next, textToInteger m = .ok v next ∧ v.IsNearest (-16777219) ∧ v.negative = true := by
  intro digits rest codes m
  have addressable : Config.Addressable ⟨14, 52, 0⟩ := ⟨by decide, by decide⟩
  have reachable : Reachable ⟨14, 52, 0⟩ m := Reachable.fresh.operations _
  have live : m.stack.live = [.ofNat 0, .ofNat 13] := by decide +kernel
  have presents : m.Presents ((Value.signChars true ++ digits).map Numeral.charCode ++ rest) :=
    ⟨[], .ofNat 0, .ofNat 13, 0, live, by decide +kernel, by decide +kernel, by decide +kernel, by decide +kernel⟩
  have spelled : Decimal.ofDigitChars digits = 16777219 := by decide +kernel
  obtain ⟨v, taken, nearest, sign, -⟩ := integer_text_value addressable reachable presents (by simp [digits])
    (by simp [rest]; decide) (by rw [spelled]; decide)
  rw [spelled] at nearest
  exact ⟨presents, v, _, taken, by simpa [signedRatio] using nearest, sign⟩

end Machine
end StackMachine
