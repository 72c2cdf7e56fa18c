import Mathlib
import StackMachine.Value.Text
import StackMachine.Proofs.Nearest

/-! Values come back from their texts. A decimal written out in full is read as the same number, with
the power of ten multiplied out. The digits that are written for a value were tried with the reader when
they were chosen, and where no few digits do, all digits are written, which are exact. So every value
is read back bit for bit, and what has no value is read back as the one pattern that its name denotes.
How many digits are written is not said here. -/
namespace StackMachine

namespace Decimal

theorem tenPow_eq (n : Nat) : tenPow n = 10 ^ n := rfl

theorem digitCount_pos (n : Nat) : 0 < digitCount n :=
  List.length_pos_iff.mpr (digitChars_ne_nil n)

theorem digitCount_le {n k : Nat} (positive : 0 < k) : digitCount n ≤ k ↔ n < 10 ^ k :=
  Nat.length_toDigits_le_iff (by decide) positive

theorem lt_digitCount (n : Nat) : n < 10 ^ digitCount n := (digitCount_le (digitCount_pos n)).mp le_rfl

theorem digitCount_mul {n : Nat} (filled : n ≠ 0) (k : Nat) :
    digitCount (n * tenPow k) = digitCount n + k := by
  induction k with
  | zero => simp [tenPow_eq]
  | succ k ih =>
    have positive : 0 < n * tenPow k := Nat.mul_pos (Nat.pos_of_ne_zero filled) (by simp [tenPow_eq])
    have next := Nat.toDigits_append_toDigits (b := 10) (d := 0) (by decide) positive (by decide)
    have longer : n * tenPow (k + 1) = 10 * (n * tenPow k) + 0 := by
      simp only [tenPow_eq, pow_succ]
      ring
    rw [digitCount, digitChars, longer, ← next, List.length_append]
    exact congrArg (· + 1) ih

theorem ofDigitChars_append (front back : List Char) :
    ofDigitChars (front ++ back) = ofDigitChars front * tenPow back.length + ofDigitChars back := by
  simp only [ofDigitChars, Nat.ofDigitChars_append]
  rw [Nat.ofDigitChars_eq_ofDigitChars_zero, tenPow_eq, Nat.mul_comm]

@[simp] theorem ofDigitChars_zeros (n : Nat) : ofDigitChars (zeros n) = 0 := by
  simp [ofDigitChars, zeros, Nat.ofDigitChars_replicate_zero]

@[simp] theorem zeros_length (n : Nat) : (zeros n).length = n := List.length_replicate

theorem isDigit_of_mem_zeros {n : Nat} {c : Char} (member : c ∈ zeros n) : c.isDigit := by
  rw [List.eq_of_mem_replicate member]
  rfl

theorem ofChars?_whole {chars : List Char} (digits : ∀ c ∈ chars, c.isDigit) (filled : chars ≠ []) :
    ofChars? chars = some ⟨ofDigitChars chars, 0⟩ := by
  have all : chars.takeWhile Char.isDigit = chars := List.takeWhile_eq_self_iff.mpr digits
  have ended : chars.dropWhile Char.isDigit = [] := List.dropWhile_eq_nil_iff.mpr digits
  simp [ofChars?, all, ended, filled]

theorem ofChars?_point {whole part : List Char} (digits : ∀ c ∈ whole ++ part, c.isDigit)
    (filled : whole ++ part ≠ []) :
    ofChars? (whole ++ '.' :: part) = some ⟨ofDigitChars (whole ++ part), -part.length⟩ := by
  have front : ∀ c ∈ whole, c.isDigit := fun c member => digits c (List.mem_append_left _ member)
  have back : ∀ c ∈ part, c.isDigit := fun c member => digits c (List.mem_append_right _ member)
  have point : ¬Char.isDigit '.' := by decide
  have before : (whole ++ '.' :: part).takeWhile Char.isDigit = whole := by
    simp [List.takeWhile_append_of_pos front, List.takeWhile_cons_of_neg point]
  have behind : (whole ++ '.' :: part).dropWhile Char.isDigit = '.' :: part := by
    simp [List.dropWhile_append_of_pos front, List.dropWhile_cons_of_neg point]
  have all : part.takeWhile Char.isDigit = part := List.takeWhile_eq_self_iff.mpr back
  have ended : part.dropWhile Char.isDigit = [] := List.dropWhile_eq_nil_iff.mpr back
  simp only [ofChars?, before, behind, all, ended]
  simp_all

def plain (d : Decimal) : Decimal := ⟨d.num, min d.exponent 0⟩

theorem mem_positional {d : Decimal} {c : Char} (member : c ∈ d.positional) :
    c.isDigit ∨ c = '.' := by
  have digits {c : Char} (member : c ∈ digitChars d.digits) : c.isDigit :=
    isDigit_of_mem_digitChars member
  simp only [positional] at member
  split_ifs at member
  · rcases List.mem_append.mp member with member | member
    · exact .inl (digits member)
    · exact .inl (isDigit_of_mem_zeros member)
  · rcases List.mem_append.mp member with member | member
    · exact .inl (digits (List.mem_of_mem_take member))
    · rcases List.mem_cons.mp member with rfl | member
      · exact .inr rfl
      · exact .inl (digits (List.mem_of_mem_drop member))
  · simp only [List.cons_append, List.mem_cons, List.mem_append] at member
    rcases member with rfl | rfl | member | member
    · exact .inl rfl
    · exact .inr rfl
    · exact .inl (isDigit_of_mem_zeros member)
    · exact .inl (digits member)

theorem ofChars?_positional (d : Decimal) : ofChars? d.positional = some d.plain := by
  have digits : ∀ c ∈ digitChars d.digits, c.isDigit := fun _ member =>
    isDigit_of_mem_digitChars member
  have filled := digitChars_ne_nil d.digits
  simp only [positional]
  split_ifs with whole inside
  · have all : ∀ c ∈ digitChars d.digits ++ zeros d.exponent.toNat, c.isDigit := fun c member =>
      (List.mem_append.mp member).elim (digits c) isDigit_of_mem_zeros
    have exponent : min d.exponent 0 = 0 := by omega
    rw [ofChars?_whole all (by simp [filled]), ofDigitChars_append]
    simp [plain, num, exponent]
  · have split : (digitChars d.digits).take ((digitChars d.digits).length - (-d.exponent).toNat) ++
        (digitChars d.digits).drop ((digitChars d.digits).length - (-d.exponent).toNat) =
          digitChars d.digits := List.take_append_drop ..
    have up : d.exponent.toNat = 0 := by omega
    rw [ofChars?_point (by rw [split]; exact digits) (by rw [split]; exact filled), split]
    simp [plain, num, up, tenPow_eq]
    omega
  · have all : ∀ c ∈ ['0'] ++ (zeros ((-d.exponent).toNat - (digitChars d.digits).length) ++
        digitChars d.digits), c.isDigit := by
      intro c member
      simp only [List.mem_append, List.mem_singleton] at member
      rcases member with rfl | member | member
      · rfl
      · exact isDigit_of_mem_zeros member
      · exact digits c member
    have up : d.exponent.toNat = 0 := by omega
    have zero : ofDigitChars ['0'] = 0 := rfl
    have joined : '0' :: '.' :: zeros ((-d.exponent).toNat - (digitChars d.digits).length) ++
        digitChars d.digits = ['0'] ++ '.' ::
          (zeros ((-d.exponent).toNat - (digitChars d.digits).length) ++ digitChars d.digits) := by simp
    rw [joined, ofChars?_point all (by simp), ofDigitChars_append, ofDigitChars_append]
    simp [plain, num, up, tenPow_eq, zero]
    omega

end Decimal

namespace Value

variable {v : Value} {num den : Nat}

theorem ofDecimal_eq (negative : Bool) {d : Decimal}
    (low : -45 ≤ (Decimal.digitCount d.digits : Int) + d.exponent)
    (high : (Decimal.digitCount d.digits : Int) + d.exponent ≤ 39) :
    ofDecimal negative d = ofNumber (.finite negative d.num d.den) := by
  by_cases empty : d.digits = 0
  · simp [ofDecimal, empty, Decimal.num, ofNumber, nearestCode]
  · simp [ofDecimal, empty, Int.not_lt.mpr low, Int.not_lt.mpr high]

theorem ofDecimal_plain (negative : Bool) (d : Decimal) :
    ofDecimal negative d.plain = ofDecimal negative d := by
  by_cases empty : d.digits = 0
  · simp [ofDecimal, Decimal.plain, Decimal.num, empty]
  have num : d.plain.num = d.num := by
    have zero : (min d.exponent 0).toNat = 0 := by omega
    simp [Decimal.num, Decimal.plain, zero, Decimal.tenPow_eq]
  have den : d.plain.den = d.den := by
    have same : (-min d.exponent 0).toNat = (-d.exponent).toNat := by omega
    simp only [Decimal.den, Decimal.plain, same]
  have filled : d.plain.digits ≠ 0 := by simp [Decimal.plain, Decimal.num, empty, Decimal.tenPow_eq]
  have order : (Decimal.digitCount d.plain.digits : Int) + d.plain.exponent =
      Decimal.digitCount d.digits + d.exponent := by
    simp only [Decimal.plain, Decimal.num, Decimal.digitCount_mul empty]
    omega
  simp only [ofDecimal, num, den, filled, order, empty]

theorem ofUnsigned?_positional (negative : Bool) (d : Decimal) :
    ofUnsigned? negative d.positional = some (ofDecimal negative d) := by
  simp only [ofUnsigned?, Decimal.ofChars?_positional, ofDecimal_plain]

theorem ofDecimal_chosen {lower upper d : Decimal} {near : Bool}
    (chosen : (if ofDecimal v.negative upper = v then
        if ofDecimal v.negative lower = v && near then some lower else some upper
      else if ofDecimal v.negative lower = v then some lower else none) = some d) :
    ofDecimal v.negative d = v := by
  split_ifs at chosen with upperReads both lowerReads <;> simp_all

theorem ofDecimal_neighbour {count : Nat} {d : Decimal} (found : neighbour? v num den count = some d) :
    ofDecimal v.negative d = v := ofDecimal_chosen found

theorem ten_pow (k : Nat) : 10 ^ k = 2 ^ k * 5 ^ k := by
  rw [← mul_pow]
  rfl

theorem expansion_raise (m : Nat) (p : Int) :
    expansion (raise m p) (raise 1 (-p)) =
      ⟨m * 2 ^ p.toNat * 5 ^ (-p).toNat, -((-p).toNat : Int)⟩ := by
  have log : (raise 1 (-p)).log2 = (-p).toNat := by simp [raise_eq, Nat.log2_two_pow]
  rw [expansion, log, raise_eq]
  rfl

/-- All digits of a number of the format lie between the places where the reader looks. -/
theorem expansion_order {m : Nat} {p : Int} (holds : Format.binary32.Holds m p) :
    -45 ≤ (Decimal.digitCount (expansion (raise m p) (raise 1 (-p))).digits : Int) +
        (expansion (raise m p) (raise 1 (-p))).exponent ∧
      (Decimal.digitCount (expansion (raise m p) (raise 1 (-p))).digits : Int) +
        (expansion (raise m p) (raise 1 (-p))).exponent ≤ 39 := by
  obtain ⟨filled, bits, -, least, greatest⟩ := holds
  simp only [Format.binary32] at bits least greatest
  have up : 2 ^ p.toNat ≤ 2 ^ 104 := Nat.pow_le_pow_right (by decide) (by omega)
  have down : 2 ^ (-p).toNat ≤ 2 ^ 149 := Nat.pow_le_pow_right (by decide) (by omega)
  have positive : 0 < m * 2 ^ p.toNat := by positivity
  have few : m * 2 ^ p.toNat < 10 ^ 39 :=
    (Nat.mul_lt_mul_of_lt_of_le bits up (by positivity)).trans (by decide)
  simp only [expansion_raise]
  generalize (-p).toNat = k at *
  generalize m * 2 ^ p.toNat = n at *
  constructor
  · by_contra short
    have above : Decimal.digitCount (n * 5 ^ k) + 46 ≤ k := by omega
    have excess : 10 ^ k < 10 ^ k := calc
      10 ^ k = 2 ^ k * 5 ^ k := ten_pow k
      _ ≤ 2 ^ 149 * (n * 5 ^ k) := Nat.mul_le_mul down (Nat.le_mul_of_pos_left _ positive)
      _ < 10 ^ 46 * 10 ^ Decimal.digitCount (n * 5 ^ k) :=
        Nat.mul_lt_mul_of_le_of_lt (by decide) (Decimal.lt_digitCount _) (by decide)
      _ = 10 ^ (Decimal.digitCount (n * 5 ^ k) + 46) := by rw [pow_add, mul_comm]
      _ ≤ 10 ^ k := Nat.pow_le_pow_right (by decide) above
    exact excess.false
  · have below : n * 5 ^ k < 10 ^ (39 + k) := calc
      n * 5 ^ k < 10 ^ 39 * 5 ^ k := Nat.mul_lt_mul_of_pos_right few (by positivity)
      _ ≤ 10 ^ 39 * 10 ^ k := Nat.mul_le_mul_left _ (Nat.pow_le_pow_left (by decide) k)
      _ = 10 ^ (39 + k) := (pow_add ..).symm
    have digits := (Decimal.digitCount_le (by omega)).mpr below
    omega

theorem ofDecimal_expansion (finite : v.code < infinityCode) (filled : v.code ≠ 0) {negative : Bool}
    (read : v.number = .finite negative num den) : ofDecimal v.negative (expansion num den) = v := by
  obtain ⟨m, p, written, holds, -⟩ := number_finite finite filled
  have valued : v.isNaN = false := by
    rw [← Bool.not_eq_true, isNaN_iff]
    omega
  have again := ofNumber_number valued
  rw [read] at written again
  cases written
  obtain ⟨low, high⟩ := expansion_order holds
  have same : (expansion (raise m p) (raise 1 (-p))).num * raise 1 (-p) =
      raise m p * (expansion (raise m p) (raise 1 (-p))).den := by
    rw [expansion_raise]
    simp only [Decimal.num, Decimal.den, Decimal.tenPow_eq, raise_eq, Int.toNat_neg_natCast, neg_neg,
      Int.toNat_natCast, ten_pow]
    ring
  rw [ofDecimal_eq _ low high, ofNumber,
    nearestCode_congr (by simp [Decimal.den, Decimal.tenPow_eq]) (raise_pos one_pos _) same]
  exact again

theorem ofDecimal_shortest (finite : v.code < infinityCode) (filled : v.code ≠ 0) {negative : Bool}
    (read : v.number = .finite negative num den) : ofDecimal v.negative (shortest v num den) = v := by
  rw [shortest]
  cases found : (List.range 9).findSome? fun i => neighbour? v num den (i + 1) with
  | none => exact ofDecimal_expansion finite filled read
  | some d =>
    obtain ⟨i, -, tried⟩ := List.exists_of_findSome?_eq_some found
    exact ofDecimal_neighbour tried

theorem ofText?_signed (negative : Bool) {chars : List Char} (bare : ∀ c ∈ chars, c ≠ '-' ∧ c ≠ '+') :
    ofText? (String.ofList (signChars negative ++ chars)) = ofUnsigned? negative chars := by
  rw [ofText?, String.toList_ofList]
  cases negative with
  | true => rfl
  | false =>
    cases chars with
    | nil => rfl
    | cons c rest =>
      obtain ⟨minus, plus⟩ := bare c List.mem_cons_self
      simp only [signChars, Bool.false_eq_true, if_false, List.nil_append]
      split
      · simp_all
      · simp_all
      · rfl

theorem ofText?_positional (negative : Bool) (d : Decimal) :
    ofText? (String.ofList (signChars negative ++ d.positional)) = some (ofDecimal negative d) := by
  rw [ofText?_signed, ofUnsigned?_positional]
  intro c member
  rcases Decimal.mem_positional member with digit | rfl
  · constructor <;> rintro rfl <;> revert digit <;> decide
  · decide

theorem ofUnsigned?_inf (negative : Bool) :
    ofUnsigned? negative "inf".toList = some (infinity negative) := by
  cases negative <;> decide +kernel

theorem ofText?_nan : ofText? (String.ofList "NaN".toList) = some nan := by decide +kernel

/-- Every value is read back from its text, bit for bit. -/
theorem ofText?_text (valued : v.isNaN = false) : ofText? v.text = some v := by
  have same := ofCode_code v
  rw [← Bool.not_eq_true, isNaN_iff, Nat.not_lt] at valued
  rcases Nat.lt_or_eq_of_le valued with finite | infinite
  · by_cases filled : v.code = 0
    · have read : v.number = .finite v.negative 0 (1 <<< 149) := by
        simp [number, filled, infinityCode]
      rw [filled] at same
      rw [text, textChars, read]
      simp only [if_true, ofText?_positional]
      simp [ofDecimal, same]
    · obtain ⟨m, p, read, holds, -⟩ := number_finite finite filled
      have nonzero : raise m p ≠ 0 := (raise_pos (Nat.pos_of_ne_zero holds.filled) p).ne'
      rw [text, textChars, read]
      simp only [nonzero, if_false, ofText?_positional, ofDecimal_shortest finite filled read]
  · have read : v.number = .infinite v.negative := if_pos infinite
    rw [infinite] at same
    rw [text, textChars, read]
    exact (ofText?_signed v.negative (by simp)).trans
      ((ofUnsigned?_inf v.negative).trans (congrArg some same))

example : ofText? (text ⟨0x39800000⟩) = some ⟨0x39800000⟩ ∧ text ⟨0x39800000⟩ = "0.00024414063" := by
  decide +kernel

theorem ofText?_text_nan (nan : v.isNaN = true) : ofText? v.text = some .nan := by
  rw [isNaN, beq_iff_eq] at nan
  rw [text, textChars, nan]
  exact ofText?_nan

/-- The text is read as the number of the value, or as no number where the value has none. -/
def Denotes (chars : List Char) (v : Value) : Prop :=
  ∃ w, ofText? (.ofList chars) = some w ∧ (v.sameNumber w = true ∨ v.isNaN = true ∧ w.isNaN = true)

theorem textChars_denotes (v : Value) : Denotes v.textChars v := by
  cases valued : v.isNaN with
  | false => exact ⟨v, ofText?_text valued, .inl (by simp [sameNumber, valued])⟩
  | true => exact ⟨.nan, ofText?_text_nan valued, .inr ⟨valued, by decide +kernel⟩⟩

theorem ofText?_integerChars {i : Int} (few : i.natAbs < 10 ^ 39) :
    ofText? (.ofList (integerChars i)) = some (ofNumber (.finite (decide (i < 0)) i.natAbs 1)) := by
  have digits : (⟨i.natAbs, 0⟩ : Decimal).positional = Decimal.digitChars i.natAbs := by
    simp [Decimal.positional, Decimal.zeros]
  have short : Decimal.digitCount i.natAbs ≤ 39 := (Decimal.digitCount_le (by decide)).mpr few
  rw [integerChars, ← digits, ofText?_positional, ofDecimal_eq _ (by simp) (by simpa using short)]
  simp [Decimal.num, Decimal.den, Decimal.tenPow_eq]

/-- Whole numbers are read back from their integer part. Only the sign of zero is lost. -/
theorem integerText_denotes (integral : v.isIntegral = true) (few : v.toInteger.natAbs < 10 ^ 9) :
    Denotes v.integerText v := by
  have far : v.toInteger.natAbs < 10 ^ 39 := few.trans (by decide)
  refine ⟨_, ofText?_integerChars far, .inl ?_⟩
  cases number : v.number with
  | nan => simp [isIntegral, number, Number.isIntegral] at integral
  | infinite negative => simp [isIntegral, number, Number.isIntegral] at integral
  | finite negative num den =>
    have valued : v.isNaN = false := by simp [isNaN, number]
    have positive : 0 < den := (number_has number).1
    have whole : num / den * den = num := by
      refine Nat.div_mul_cancel (Nat.dvd_of_mod_eq_zero ?_)
      simpa [isIntegral, number, Number.isIntegral] using integral
    have cut : v.toInteger = Number.signed negative (num / den) := by
      rw [toInteger, number] at few ⊢
      simp only [minInteger, maxInteger] at few ⊢
      omega
    rw [cut, Number.natAbs_signed]
    obtain empty | filled := Nat.eq_zero_or_pos (num / den)
    · have zero : v.isZero = true := by
        rw [isZero, number, ← whole, empty, Nat.zero_mul]
        rfl
      have read : (ofNumber (.finite (decide (Number.signed negative (num / den) < 0)) (num / den) 1)).isZero =
          true := by
        rw [empty]
        cases negative <;> decide +kernel
      simp [sameNumber, valued, zero, read]
    · have sign : decide (Number.signed negative (num / den) < 0) = negative := by
        generalize num / den = n at filled
        cases negative <;> simp [Number.signed, filled]
      have same : ofNumber (.finite negative (num / den) 1) = v := by
        rw [ofNumber, nearestCode_congr one_pos positive (by omega : num / den * den = num * 1), ← ofNumber,
          ← number, ofNumber_number valued]
      simp [sameNumber, valued, sign, same]

end Value
end StackMachine
