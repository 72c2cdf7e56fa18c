import StackMachine.Value
import StackMachine.Number.Decimal

/-! The texts of a value. `text` is the shortest decimal that reads back as the value, written
without an exponent; `integerText` is the integer part; `fixedText` has six places. `ofText?` reads
decimal text and rounds it once, from all its digits. -/
namespace StackMachine.Value

/-- The value nearest to a decimal number. Above `10 ^ 39` lies infinity and below `10 ^ (-46)`
lies zero, whatever the digits. -/
def ofDecimal (negative : Bool) (d : Decimal) : Value :=
  let order : Int := Decimal.digitCount d.digits + d.exponent
  if d.digits = 0 || order < -45 then ofCode negative 0
  else if 39 < order then infinity negative
  else ofNumber (.finite negative d.num d.den)

def ofName? (negative : Bool) (chars : List Char) : Option Value :=
  match String.ofList (chars.map Char.toLower) with
  | "inf" => some (infinity negative)
  | "infinity" => some (infinity negative)
  | "nan" => some (ofCode negative nan.code)
  | _ => none

def ofUnsigned? (negative : Bool) (chars : List Char) : Option Value :=
  match Decimal.ofChars? chars with
  | some d => some (ofDecimal negative d)
  | none => ofName? negative chars

def ofText? (text : String) : Option Value :=
  match text.toList with
  | '-' :: rest => ofUnsigned? true rest
  | '+' :: rest => ofUnsigned? false rest
  | rest => ofUnsigned? false rest

/-- The least `k` with `num / den < 10 ^ k`, for ratios that are at least `10 ^ (-45)`. -/
def decimalOrder (num den : Nat) : Int :=
  (Decimal.digitCount (num * Decimal.tenPow 45 / den) : Int) - 45

/-- Of the two neighbours of `num / den` with `count` digits, the nearer one that reads back as
`v`; the upper one if both are equally near. -/
def neighbour? (v : Value) (num den count : Nat) : Option Decimal :=
  let order := decimalOrder num den
  let exponent := order - count
  let top := num * Decimal.tenPow (-exponent).toNat
  let unit := den * Decimal.tenPow exponent.toNat
  let lower : Decimal := ⟨top / unit, exponent⟩
  let upper : Decimal :=
    if top / unit + 1 = Decimal.tenPow count then ⟨1, order⟩ else ⟨top / unit + 1, exponent⟩
  if ofDecimal v.negative upper = v then
    if ofDecimal v.negative lower = v && 2 * (top % unit) < unit then some lower else some upper
  else if ofDecimal v.negative lower = v then some lower
  else none

def expansion (num den : Nat) : Decimal := ⟨num * Nat.pow 5 den.log2, -(den.log2 : Int)⟩

/-- The decimal with the fewest digits that reads back as `v`, whose size is `num / den`. -/
def shortest (v : Value) (num den : Nat) : Decimal :=
  ((List.range 9).findSome? fun i => neighbour? v num den (i + 1)).getD (expansion num den)

def signChars (negative : Bool) : List Char := if negative then ['-'] else []

def textChars (v : Value) : List Char :=
  match v.number with
  | .nan => "NaN".toList
  | .infinite negative => signChars negative ++ "inf".toList
  | .finite negative num den =>
      signChars negative ++ (if num = 0 then ⟨0, 0⟩ else shortest v num den).positional

def text (v : Value) : String := String.ofList v.textChars

def integerChars (i : Int) : List Char := signChars (decide (i < 0)) ++ Decimal.digitChars i.natAbs

def integerText (v : Value) : List Char := integerChars v.toInteger

/-- A ratio with a number of decimal places, rounded to the nearest, a tie to the even digit. -/
def fixedChars (places num den : Nat) : List Char :=
  let units := roundHalfEven (num * Decimal.tenPow places) den
  let whole := Decimal.digitChars (units / Decimal.tenPow places)
  let part := Decimal.digitChars (units % Decimal.tenPow places)
  whole ++ '.' :: Decimal.zeros (places - part.length) ++ part

def fixedText (v : Value) : List Char :=
  match v.number with
  | .nan => "nan".toList
  | .infinite negative => signChars negative ++ "inf".toList
  | .finite negative num den => signChars negative ++ fixedChars 6 num den

end StackMachine.Value
