import Mathlib
import StackMachine.Numeral
import StackMachine.Proofs.Nearest
import StackMachine.Proofs.Transfer

/-! The words that numerals are made of. `Numeral.IsWord` gives them by their parts: a sign that may be
missing, digits that may be missing too, and for reals a point with more digits behind it. A step of the reader
takes a sign at the very front, a point once and digits anywhere, and nothing else, so the codes that are read to
their end are the character codes of such words; what is known when they have been read is what the digits were
folded to. Values that are no small whole number are no character code of a word. Folding keeps every part of the
number at a value, so what is read is one, and where no point is read the fraction stays nothing and the two kinds
agree. The operations on texts in the heap are the reader on the codes before the first zero. -/
namespace StackMachine

namespace Numeral

variable {kind : Kind} {first : Bool} {p q : Progress} {v : Value} {c : Char} {word whole part : List Char}
  {codes rest : List Value}

def charCode (c : Char) : Value := Value.ofNat c.toNat

/-- An optional sign and digits, and for reals an optional point with digits behind it. -/
inductive IsWord : Kind → List Char → Prop
  | whole {kind : Kind} {digits : List Char} (negative : Bool) (all : ∀ c ∈ digits, c.isDigit) :
      IsWord kind (Value.signChars negative ++ digits)
  | pointed {whole part : List Char} (negative : Bool) (all : ∀ c ∈ whole ++ part, c.isDigit) :
      IsWord .real (Value.signChars negative ++ (whole ++ '.' :: part))

theorem code?_eq_some {n : Nat} (filled : n ≠ 0) (small : n ≤ 2 ^ 24) :
    code? v = some n ↔ v = Value.ofNat n := by
  constructor
  · intro read
    rw [code?] at read
    split at read
    case h_1 num den number =>
      split at read
      case isTrue divides =>
        cases read
        have positive : 0 < den := by
          rw [Nat.pos_iff_ne_zero]
          rintro rfl
          simp at filled
        have same : num * 1 = num / den * den := by
          rw [mul_one, Nat.div_mul_cancel (Nat.dvd_of_mod_eq_zero divides)]
        have valued : v.isNaN = false := by simp [Value.isNaN, number]
        rw [← Value.ofNumber_number valued, number]
        exact congrArg (Value.ofCode false) (Value.nearestCode_congr positive one_pos same)
      case isFalse => cases read
    case h_2 => cases read
  · rintro rfl
    have named := Value.toIndex?_ofNat_of_le small
    rw [Value.toIndex?] at named
    split at named
    case h_1 negative num den number =>
      split at named
      case isTrue whole =>
        obtain ⟨divides, plus, -⟩ := whole
        cases named
        have nonzero : num ≠ 0 := by
          rintro rfl
          simp at filled
        -- Among indices only zero may carry a sign.
        rw [plus.resolve_right nonzero] at number
        simp [code?, number, divides]
      case isFalse => cases named
    case h_2 => cases named

theorem toNat_le (c : Char) : c.toNat ≤ 2 ^ 24 := by
  have valid : c.toNat < 0xd800 ∨ 0xdfff < c.toNat ∧ c.toNat < 0x110000 := c.valid
  omega

theorem code?_charCode (filled : c.toNat ≠ 0) : code? (charCode c) = some c.toNat :=
  (code?_eq_some filled (toNat_le c)).mpr rfl

theorem eq_charCode (filled : c.toNat ≠ 0) (read : code? v = some c.toNat) : v = charCode c :=
  (code?_eq_some filled (toNat_le c)).mp read

theorem isZero_charCode (filled : c.toNat ≠ 0) : (charCode c).isZero = false := by
  have read := code?_charCode filled
  rw [code?] at read
  split at read
  case h_1 num den number =>
    rw [Value.isZero, number, Number.isZero, beq_eq_false_iff_ne]
    rintro rfl
    simp at read
    omega
  case h_2 => cases read

theorem isDigit_iff : c.isDigit = true ↔ '0'.toNat ≤ c.toNat ∧ c.toNat ≤ '9'.toNat := by
  simp [Char.isDigit, UInt32.le_iff_toNat_le]

def digitOf (c : Char) : Nat := c.toNat - '0'.toNat

def Progress.digits (p : Progress) (chars : List Char) : Progress :=
  chars.foldl (fun p c => p.digit (digitOf c)) p

/-- What the reader takes: the sign in the first place, one point in a real, and digits. -/
theorem step_ok_iff : p.step kind first v = .ok q ↔
    first = true ∧ v = charCode '-' ∧ q = { p with negative := true } ∨
      kind = .real ∧ p.point = false ∧ v = charCode '.' ∧ q = { p with point := true } ∨
        ∃ c, c.isDigit ∧ v = charCode c ∧ q = p.digit (digitOf c) := by
  constructor
  · intro taken
    rw [Progress.step] at taken
    split at taken
    case h_1 => cases taken
    case h_2 n read =>
      split_ifs at taken with sign atFirst point seen digit
      · cases taken
        subst sign
        exact .inl ⟨atFirst, eq_charCode (by decide) read, rfl⟩
      · cases taken
        obtain ⟨rfl, real⟩ := point
        exact .inr (.inl ⟨real, Bool.not_eq_true _ ▸ seen, eq_charCode (by decide) read, rfl⟩)
      · cases taken
        have small : n ≤ 57 := digit.2
        have named : (Char.ofNat n).toNat = n := by
          rw [Char.toNat_ofNat, if_pos (.inl (by omega))]
        refine .inr (.inr ⟨Char.ofNat n, isDigit_iff.mpr (by rwa [named]), ?_, by rw [digitOf, named]⟩)
        have low : 48 ≤ n := digit.1
        exact eq_charCode (by omega) (by rw [read, named])
  · rintro (⟨rfl, rfl, rfl⟩ | ⟨rfl, fresh, rfl, rfl⟩ | ⟨c, digit, rfl, rfl⟩)
    · rw [Progress.step, code?_charCode (by decide)]
      simp
    · rw [Progress.step, code?_charCode (by decide)]
      simp [fresh]
    · obtain ⟨low, high⟩ := isDigit_iff.mp digit
      have low' : 48 ≤ c.toNat := low
      have high' : c.toNat ≤ 57 := high
      have sign : c.toNat ≠ '-'.toNat := by change _ ≠ 45; omega
      have point : c.toNat ≠ '.'.toNat := by change _ ≠ 46; omega
      rw [Progress.step, code?_charCode (by omega)]
      simp only [sign, point, if_false, false_and, low, high, and_self, if_true, digitOf]

theorem readFrom_cons_ok :
    readFrom kind first p (v :: rest) = .ok q ↔
      ∃ next, p.step kind first v = .ok next ∧ readFrom kind false next rest = .ok q := by
  rw [readFrom]
  cases p.step kind first v <;> simp

theorem digits_cons (p : Progress) (c : Char) (chars : List Char) :
    p.digits (c :: chars) = (p.digit (digitOf c)).digits chars := rfl

@[simp] theorem digit_point (p : Progress) (d : Nat) : (p.digit d).point = p.point := by
  rw [Progress.digit]
  split <;> rfl

@[simp] theorem digit_negative (p : Progress) (d : Nat) : (p.digit d).negative = p.negative := by
  rw [Progress.digit]
  split <;> rfl

@[simp] theorem digits_point (p : Progress) (chars : List Char) : (p.digits chars).point = p.point := by
  induction chars generalizing p with
  | nil => rfl
  | cons c chars ih => rw [digits_cons, ih, digit_point]

@[simp] theorem digits_negative (p : Progress) (chars : List Char) :
    (p.digits chars).negative = p.negative := by
  induction chars generalizing p with
  | nil => rfl
  | cons c chars ih => rw [digits_cons, ih, digit_negative]

theorem readFrom_digits (kind : Kind) (p : Progress) (all : ∀ c ∈ whole, c.isDigit) (rest : List Value) :
    readFrom kind false p (whole.map charCode ++ rest) = readFrom kind false (p.digits whole) rest := by
  induction whole generalizing p with
  | nil => rfl
  | cons c chars ih =>
    have taken : p.step kind false (charCode c) = .ok (p.digit (digitOf c)) :=
      step_ok_iff.mpr (.inr (.inr ⟨c, all c List.mem_cons_self, rfl, rfl⟩))
    rw [List.map_cons, List.cons_append, readFrom, taken, digits_cons]
    exact ih _ fun d member => all d (List.mem_cons_of_mem c member)

theorem readFrom_point (fresh : p.point = false) (rest : List Value) :
    readFrom .real first p (charCode '.' :: rest) = readFrom .real false { p with point := true } rest := by
  rw [readFrom, step_ok_iff.mpr (.inr (.inl ⟨rfl, fresh, rfl, rfl⟩))]

theorem readFrom_ok (read : readFrom kind false p codes = .ok q) :
    ∃ whole : List Char, (∀ c ∈ whole, c.isDigit) ∧
      (codes = whole.map charCode ∧ q = p.digits whole ∨
        kind = .real ∧ p.point = false ∧ ∃ part : List Char, (∀ c ∈ part, c.isDigit) ∧
          codes = (whole ++ '.' :: part).map charCode ∧
          q = { p.digits whole with point := true }.digits part) := by
  induction codes generalizing p with
  | nil =>
    cases read
    exact ⟨[], by simp, .inl ⟨rfl, rfl⟩⟩
  | cons v rest ih =>
    obtain ⟨next, taken, later⟩ := readFrom_cons_ok.mp read
    obtain ⟨whole, all, parts⟩ := ih later
    obtain ⟨⟨⟩, -⟩ | ⟨real, fresh, rfl, rfl⟩ | ⟨c, digit, rfl, rfl⟩ := step_ok_iff.mp taken
    · -- Behind the point there is no second one, so the rest is digits only.
      obtain ⟨rfl, rfl⟩ | ⟨-, again, -⟩ := parts
      · exact ⟨[], by simp, .inr ⟨real, fresh, whole, all, rfl, rfl⟩⟩
      · cases again
    · refine ⟨c :: whole, by simpa using ⟨digit, all⟩, ?_⟩
      obtain ⟨rfl, rfl⟩ | ⟨real, fresh, part, allPart, rfl, rfl⟩ := parts
      · exact .inl ⟨rfl, rfl⟩
      · exact .inr ⟨real, digit_point p _ ▸ fresh, part, allPart, rfl, rfl⟩

theorem readFrom_minus (p : Progress) (rest : List Value) :
    readFrom kind true p (charCode '-' :: rest) = readFrom kind false { p with negative := true } rest := by
  rw [readFrom, step_ok_iff.mpr (.inl ⟨rfl, rfl, rfl⟩)]

theorem readFrom_unsigned (p : Progress) (bare : codes.head? ≠ some (charCode '-')) :
    readFrom kind true p codes = readFrom kind false p codes := by
  cases codes with
  | nil => rfl
  | cons v rest =>
    have other : code? v ≠ some '-'.toNat := fun read =>
      bare (congrArg some (eq_charCode (by decide) read))
    have same : p.step kind true v = p.step kind false v := by
      simp only [Progress.step]
      cases read : code? v with
      | none => rfl
      | some n =>
        have other : n ≠ '-'.toNat := fun same => other (read.trans (congrArg some same))
        simp only [other, if_false]
    rw [readFrom, readFrom, same]

theorem charCode_injective : Function.Injective charCode := by
  intro c d same
  have named : some c.toNat = some d.toNat := by
    rw [← Value.toIndex?_ofNat_of_le (toNat_le c), ← Value.toIndex?_ofNat_of_le (toNat_le d)]
    exact congrArg Value.toIndex? same
  exact Char.toNat_inj.mp (Option.some.inj named)

theorem head_charCode {chars : List Char} (bare : '-' ∉ chars) :
    (chars.map charCode).head? ≠ some (charCode '-') := by
  intro front
  obtain ⟨c, member, same⟩ := List.mem_map.mp (List.mem_of_head? front)
  rw [charCode_injective same] at member
  exact bare member

theorem readFrom_signed (negative : Bool) {chars : List Char} (bare : '-' ∉ chars) :
    readFrom kind true {} ((Value.signChars negative ++ chars).map charCode) =
      readFrom kind false { negative } (chars.map charCode) := by
  cases negative with
  | true => exact readFrom_minus {} _
  | false => exact readFrom_unsigned {} (head_charCode bare)

theorem minus_of_digits (all : ∀ c ∈ whole, c.isDigit) : '-' ∉ whole := fun member =>
  absurd (all _ member) (by decide)

theorem readFrom_whole (negative : Bool) (all : ∀ c ∈ whole, c.isDigit) :
    readFrom kind true {} ((Value.signChars negative ++ whole).map charCode) =
      .ok ({ negative : Progress }.digits whole) := by
  have digits := readFrom_digits kind { negative } all []
  rw [List.append_nil] at digits
  rw [readFrom_signed negative (minus_of_digits all), digits]
  rfl

theorem readFrom_pointed (negative : Bool) (all : ∀ c ∈ whole ++ part, c.isDigit) :
    readFrom .real true {} ((Value.signChars negative ++ (whole ++ '.' :: part)).map charCode) =
      .ok ({ { negative : Progress }.digits whole with point := true }.digits part) := by
  have front : ∀ c ∈ whole, c.isDigit := fun c member => all c (List.mem_append_left _ member)
  have back : ∀ c ∈ part, c.isDigit := fun c member => all c (List.mem_append_right _ member)
  have bare : '-' ∉ whole ++ '.' :: part := by
    simpa using ⟨minus_of_digits front, minus_of_digits back⟩
  have digits := readFrom_digits .real { { negative : Progress }.digits whole with point := true } back []
  rw [List.append_nil] at digits
  rw [readFrom_signed negative bare, List.map_append, readFrom_digits .real _ front, List.map_cons,
    readFrom_point (by simp), digits]
  rfl

theorem readFrom_accepts : (∃ q, readFrom kind true {} codes = .ok q) ↔
    ∃ word, IsWord kind word ∧ codes = word.map charCode := by
  constructor
  · rintro ⟨q, read⟩
    have signed (negative : Bool) {p : Progress} {rest : List Value}
        (later : readFrom kind false p rest = .ok q) :
        ∃ word, IsWord kind word ∧ (Value.signChars negative).map charCode ++ rest = word.map charCode := by
      obtain ⟨whole, all, ⟨rfl, -⟩ | ⟨rfl, -, part, allPart, rfl, -⟩⟩ := readFrom_ok later
      · exact ⟨_, .whole negative all, (List.map_append ..).symm⟩
      · refine ⟨_, .pointed negative fun c member => ?_, (List.map_append ..).symm⟩
        exact (List.mem_append.mp member).elim (all c) (allPart c)
    by_cases sign : codes.head? = some (charCode '-')
    · obtain ⟨rest, rfl⟩ := List.head?_eq_some_iff.mp sign
      exact signed true (readFrom_minus {} rest ▸ read)
    · exact signed false (readFrom_unsigned {} sign ▸ read)
  · rintro ⟨word, spelled, rfl⟩
    cases spelled with
    | whole negative all => exact ⟨_, readFrom_whole negative all⟩
    | pointed negative all => exact ⟨_, readFrom_pointed negative all⟩

theorem readFrom_induction {P : Progress → Prop} (start : P p)
    (kept : ∀ p q first v, P p → p.step kind first v = .ok q → P q)
    (read : readFrom kind first p codes = .ok q) : P q := by
  induction codes generalizing p first with
  | nil =>
    cases read
    exact start
  | cons v rest ih =>
    obtain ⟨next, taken, later⟩ := readFrom_cons_ok.mp read
    exact ih (kept p next first v start taken) later

def NotNegative (x : Number) : Prop := x = .infinite false ∨ ∃ q, x.IsRatio q

/-- What folding leads to: infinity, or a number of the format. -/
def Settled (x : Number) : Prop := x = .infinite false ∨ ∃ q, x.IsRatio q ∧ Format.binary64.Has q

variable {x y : Number}

theorem Settled.notNegative (settled : Settled x) : NotNegative x :=
  settled.imp_right fun ⟨q, number, _⟩ => ⟨q, number⟩

theorem settled_ofNat {n : Nat} (short : n < 2 ^ 53) : Settled (.ofNat n) :=
  .inr ⟨n, Number.isRatio_ofNat n, Format.has_natural short (by decide) (by decide)⟩

theorem NotNegative.fold (notNegative : NotNegative x) : Settled (fold x) := by
  obtain rfl | ⟨q, number⟩ := notNegative
  · exact .inl rfl
  · obtain ⟨beyond, -⟩ | ⟨r, rounded, has, -⟩ :=
      Format.binary64.nearest_cases (by decide) (by decide) number
    · exact .inl beyond
    · exact .inr ⟨r, rounded, has⟩

theorem NotNegative.add (left : NotNegative x) (right : NotNegative y) : NotNegative (x.add y) := by
  obtain rfl | ⟨q, number⟩ := left <;> obtain rfl | ⟨r, other⟩ := right
  · exact .inl rfl
  · obtain ⟨num, den, rfl, -⟩ := other
    exact .inl rfl
  · obtain ⟨num, den, rfl, -⟩ := number
    exact .inl rfl
  · exact .inr ⟨_, number.add other⟩

theorem NotNegative.mul_ten (notNegative : NotNegative x) : NotNegative (x.mul (.ofNat 10)) := by
  obtain rfl | ⟨q, number⟩ := notNegative
  · exact .inl rfl
  · exact .inr ⟨_, number.mul (Number.isRatio_ofNat 10)⟩

def IsScale (x : Number) : Prop := x = .infinite false ∨ ∃ q, x.IsRatio q ∧ 1 ≤ q

theorem IsScale.grow (scale : IsScale x) : IsScale (fold (x.mul (.ofNat 10))) := by
  obtain rfl | ⟨q, number, least⟩ := scale
  · exact .inl rfl
  · obtain ⟨beyond, -⟩ | ⟨r, rounded, -, error⟩ := Format.binary64.nearest_cases (by decide) (by decide)
      (number.mul (Number.isRatio_ofNat 10))
    · exact .inl beyond
    · refine .inr ⟨r, rounded, ?_⟩
      have tenfold : (1 : ℚ) ≤ q * (10 : ℕ) := by push_cast; linarith
      have normal : (2 : ℚ) ^ (Format.binary64.minExponent + Format.binary64.precision - 1) ≤ 1 :=
        zpow_le_one_of_nonpos₀ one_le_two (by decide)
      have unit := error.trans (Format.binary64.half_unit_le (by linarith) (normal.trans tenfold))
      have low := (abs_le.mp unit).1
      norm_num [Format.binary64] at low
      linarith

theorem IsScale.notNegative_div (scale : IsScale x) (d : Nat) : NotNegative ((Number.ofNat d).div x) := by
  obtain rfl | ⟨q, number, least⟩ := scale
  · exact .inr ⟨0, 0, 1, rfl, one_pos, by simp⟩
  · exact .inr ⟨_, (Number.isRatio_ofNat d).div number (by linarith)⟩

/-- Whatever digits have been read, the parts of the number have values. -/
structure Progress.Sound (p : Progress) : Prop where
  whole : Settled p.whole
  fraction : Settled p.fraction
  scale : IsScale p.scale

theorem sound_empty : ({} : Progress).Sound where
  whole := settled_ofNat (by decide)
  fraction := settled_ofNat (by decide)
  scale := .inr ⟨(1 : ℕ), Number.isRatio_ofNat 1, by simp⟩

theorem Progress.Sound.digit (sound : p.Sound) (d : Nat) : (p.digit d).Sound := by
  have natural : NotNegative (.ofNat d) := .inr ⟨d, Number.isRatio_ofNat d⟩
  rw [Progress.digit]
  split
  · have scale := sound.scale.grow
    exact ⟨sound.whole, (sound.fraction.notNegative.add (scale.notNegative_div d).fold.notNegative).fold,
      scale⟩
  · exact ⟨(sound.whole.notNegative.mul_ten.fold.notNegative.add natural).fold, sound.fraction, sound.scale⟩

theorem Progress.Sound.step (sound : p.Sound) (taken : p.step kind first v = .ok q) : q.Sound := by
  obtain ⟨-, -, rfl⟩ | ⟨-, -, -, rfl⟩ | ⟨c, -, -, rfl⟩ := step_ok_iff.mp taken
  · exact ⟨sound.whole, sound.fraction, sound.scale⟩
  · exact ⟨sound.whole, sound.fraction, sound.scale⟩
  · exact sound.digit _

theorem readFrom_sound (read : readFrom kind true {} codes = .ok q) : q.Sound :=
  readFrom_induction sound_empty (fun _ _ _ _ sound taken => sound.step taken) read

theorem Settled.valued (settled : Settled x) (negative : Bool) :
    (Value.ofNumber (if negative then x.negate else x)).isNaN = false := by
  obtain rfl | ⟨q, number, -⟩ := settled
  · cases negative <;> decide
  · exact Value.ofNumber_valued number negative

theorem Progress.Sound.valued (sound : p.Sound) (kind : Kind) : (p.value kind).isNaN = false := by
  cases kind with
  | integer => exact sound.whole.valued p.negative
  | real => exact (sound.whole.notNegative.add sound.fraction.notNegative).fold.valued p.negative

theorem Settled.add_zero (settled : Settled x) (negative : Bool) :
    Value.ofNumber (if negative then (fold (x.add (.ofNat 0))).negate else fold (x.add (.ofNat 0))) =
      Value.ofNumber (if negative then x.negate else x) := by
  obtain rfl | ⟨q, number, has⟩ := settled
  · rfl
  · have sum : (x.add (.ofNat 0)).IsRatio q := by
      simpa using number.add (Number.isRatio_ofNat 0)
    exact Value.ofNumber_congr (Format.nearest_of_has has sum) number negative

def Progress.Unpointed (p : Progress) : Prop := p.point = false ∧ p.fraction = .ofNat 0

theorem Progress.Unpointed.step (unpointed : p.Unpointed) (taken : p.step .integer first v = .ok q) :
    q.Unpointed := by
  obtain ⟨-, -, rfl⟩ | ⟨⟨⟩, -⟩ | ⟨c, -, -, rfl⟩ := step_ok_iff.mp taken
  · exact unpointed
  · refine ⟨(digit_point ..).trans unpointed.1, ?_⟩
    simp [Progress.digit, unpointed.1, unpointed.2]

theorem readFrom_kinds (bare : ∀ v ∈ codes, v ≠ charCode '.') :
    readFrom .real first p codes = readFrom .integer first p codes := by
  induction codes generalizing p first with
  | nil => rfl
  | cons v rest ih =>
    have other : code? v ≠ some '.'.toNat := fun read =>
      bare v List.mem_cons_self (eq_charCode (by decide) read)
    have same : p.step .real first v = p.step .integer first v := by
      simp only [Progress.step]
      cases read : code? v with
      | none => rfl
      | some n =>
        have other : n ≠ '.'.toNat := fun same => other (read.trans (congrArg some same))
        simp only [other, false_and, if_false]
    rw [readFrom, readFrom, same]
    cases p.step .integer first v with
    | error cause => rfl
    | ok next => exact ih fun w member => bare w (List.mem_cons_of_mem v member)

theorem value_kinds (read : readFrom .integer true {} codes = .ok q) : q.value .real = q.value .integer := by
  have unpointed : q.Unpointed :=
    readFrom_induction ⟨rfl, rfl⟩ (fun _ _ _ _ unpointed taken => unpointed.step taken) read
  simp only [Progress.value, unpointed.2]
  exact (readFrom_sound read).whole.add_zero q.negative

theorem read_kinds (bare : ∀ v ∈ body codes, v ≠ charCode '.') : read .real codes = read .integer codes := by
  rw [read, read, readFrom_kinds bare]
  cases known : readFrom .integer true {} (body codes) with
  | error cause => rfl
  | ok q => exact congrArg Except.ok (value_kinds known)

theorem read_accepts : (∃ v, read kind codes = .ok v) ↔
    ∃ word, IsWord kind word ∧ body codes = word.map charCode := by
  rw [← readFrom_accepts, read]
  cases readFrom kind true {} (body codes) <;> simp

theorem read_valued (known : read kind codes = .ok v) : v.isNaN = false := by
  rw [read] at known
  split at known
  case h_1 q read =>
    cases known
    exact (readFrom_sound read).valued kind
  case h_2 => cases known

theorem read_error {fault : Fault} (failed : read kind codes = .error fault) :
    ∃ text cause, fault = .malformedNumeral text cause := by
  rw [read] at failed
  split at failed
  case h_1 => cases failed
  case h_2 cause _ =>
    cases failed
    exact ⟨_, cause, rfl⟩

end Numeral

def Action.ending {ε σ α : Type} : EStateM.Result ε σ α → Except ε α
  | .ok a _ => .ok a
  | .error e _ => .error e

namespace Machine

variable {config : Config} {m : Machine} {codes : List Value}

def reader : Numeral.Kind → Action Machine Value
  | .integer => textToInteger
  | .real => textToFloat

/-- The two values on top of the stack name a range of the heap, and these codes are in it. -/
def Presents (m : Machine) (codes : List Value) : Prop :=
  ∃ below top count address, m.stack.live = below ++ [top, count] ∧ top.toIndex? = some address ∧
    count.toIndex? = some codes.length ∧ address + codes.length * Value.slotSize ≤ m.heap.size ∧
    m.heap.slotsAt address codes.length = codes

theorem parseText_presented (form : m.WellFormed) (presents : m.Presents codes) (kind : Numeral.Kind)
    (operation : String) : Step.parseText kind operation m =
      (Numeral.read kind codes).map fun v => (v, m.keeping (v :: m.stack.values.drop 2)) := by
  obtain ⟨below, top, count, address, stack, named, counted, inside, slots⟩ := presents
  have live : m.stack.values = count :: top :: below.reverse := OperandStack.values_of_live stack
  obtain ⟨sized, checked⟩ := form.range_checked inside operation
  rw [Step.parseText, live]
  simp only [Value.expectIndex_of_toIndex? counted, Value.expectIndex_of_toIndex? named, sized, checked, slots,
    bind, Except.bind]
  cases Numeral.read kind codes <;> rfl

theorem reader_presented (form : m.WellFormed) (presents : m.Presents codes) (kind : Numeral.Kind) :
    reader kind m = Action.answer m
      ((Numeral.read kind codes).map fun v => (v, m.keeping (v :: m.stack.values.drop 2))) := by
  have run (operation : String) := parseText_run kind operation form.size form.fits form.capacity
  simp only [form.stack, parseText_presented form presents] at run
  cases kind with
  | integer => exact run _
  | real => exact run _

/-- Texts are read by their grammar. Whatever the codes in the range, the operation for a kind succeeds exactly
when the codes before the first zero are those of a word of the kind, and its value is then a number; otherwise
the text is malformed and nothing has changed. The codes behind the zero make no difference, nor does the rest
of the machine; and where no point stands before the zero, both kinds end in the same way. -/
theorem text_accepted_by_grammar (addressable : config.Addressable) (reachable : Reachable config m)
    (presents : m.Presents codes) :
    (∀ kind,
      ((∃ v next, reader kind m = .ok v next) ↔
        ∃ word, Numeral.IsWord kind word ∧ Numeral.body codes = word.map Numeral.charCode) ∧
      (∀ v next, reader kind m = .ok v next →
        v.isNaN = false ∧ next = m.keeping (v :: m.stack.values.drop 2)) ∧
      (∀ fault next, reader kind m = .error fault next →
        next = m ∧ ∃ text cause, fault = .malformedNumeral text cause) ∧
      ∀ config' : Config, config'.Addressable → ∀ m' codes', Reachable config' m' → m'.Presents codes' →
        Numeral.body codes' = Numeral.body codes →
        Action.ending (reader kind m') = Action.ending (reader kind m)) ∧
    ((∀ v ∈ Numeral.body codes, v ≠ Numeral.charCode '.') → textToInteger m = textToFloat m) := by
  have run := reader_presented (reachable.wellFormed addressable) presents
  refine ⟨fun kind => ⟨?_, ?_, ?_, ?_⟩, fun bare => ?_⟩
  · rw [run, ← Numeral.read_accepts]
    cases Numeral.read kind codes <;> simp [Action.answer, Except.map]
  · intro v next taken
    rw [run] at taken
    cases known : Numeral.read kind codes with
    | error fault => rw [known] at taken; cases taken
    | ok w =>
      rw [known] at taken
      cases taken
      exact ⟨Numeral.read_valued known, rfl⟩
  · intro fault next failed
    rw [run] at failed
    cases known : Numeral.read kind codes with
    | error cause =>
      rw [known] at failed
      cases failed
      exact ⟨rfl, Numeral.read_error known⟩
    | ok w => rw [known] at failed; cases failed
  · intro config' addressable' m' codes' reachable' presents' same
    rw [run, reader_presented (reachable'.wellFormed addressable') presents', Numeral.read, Numeral.read, same]
    cases Numeral.readFrom kind true {} (Numeral.body codes) <;> rfl
  · have integer := run .integer
    have real := run .real
    rw [Numeral.read_kinds bare] at real
    exact integer.trans real.symm

/-- A negative number, ended by a zero with a sign of its own and a value that is no number behind it. -/
theorem text_ended_by_negative_zero :
    let codes : List Value := [Numeral.charCode '-', Numeral.charCode '7', ⟨0x80000000⟩, ⟨0x7fc01234⟩]
    let m := (codes.map Op.push ++ [Op.push (.ofNat 0), .store 4, .push (.ofNat 0), .push (.ofNat 4)]).foldl
      (fun m op => Action.after op.apply m) (fresh ⟨5, 16, 0⟩)
    m.Presents codes ∧
      (∃ v next, textToInteger m = .ok v next ∧ v.isNaN = false ∧ next = m.keeping [v]) ∧
      textToInteger m = textToFloat m := by
  intro codes m
  have addressable : Config.Addressable ⟨5, 16, 0⟩ := ⟨by decide, by decide⟩
  have reachable : Reachable ⟨5, 16, 0⟩ m := Reachable.fresh.operations _
  have live : m.stack.live = [.ofNat 0, .ofNat 4] := by decide +kernel
  have presents : m.Presents codes :=
    ⟨[], .ofNat 0, .ofNat 4, 0, live, by decide +kernel, by decide +kernel, by decide +kernel, by decide +kernel⟩
  have digit : ∀ c ∈ ['7'], c.isDigit := by simp
  have word : Numeral.IsWord .integer ['-', '7'] := .whole true digit
  obtain ⟨kinds, same⟩ := text_accepted_by_grammar addressable reachable presents
  obtain ⟨accepts, valued, -, -⟩ := kinds .integer
  obtain ⟨v, next, taken⟩ := accepts.mpr ⟨['-', '7'], word, by decide +kernel⟩
  obtain ⟨number, kept⟩ := valued v next taken
  rw [OperandStack.values, live] at kept
  exact ⟨presents, ⟨v, next, taken, number, kept⟩, same (by decide +kernel)⟩

end Machine
end StackMachine
