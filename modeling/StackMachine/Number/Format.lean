import StackMachine.Number.Exact

/-! Binary floating-point formats. A format keeps `precision` significant bits; its numbers are
`m * 2 ^ e` with `minExponent ≤ e ≤ maxExponent`. `Format.nearest` rounds an exact ratio once, to
the nearest such number and to an even `m` on a tie; past the last number lies infinity.
Encodings into words are left to the modules that have words. -/
namespace StackMachine

/-- The natural number nearest to `num / den`, an even one on a tie. -/
def roundHalfEven (num den : Nat) : Nat :=
  let whole := num / den
  let rest := num % den
  if 2 * rest < den then whole
  else if den < 2 * rest then whole + 1
  else whole + whole % 2

/-- `n` times two to the power `k`, for `k` at least zero; `n` itself below. -/
def raise (n : Nat) (k : Int) : Nat := n <<< k.toNat

/-- The greatest `k` such that `2 ^ k` is at most `num / den`. -/
def binaryOrder (num den : Nat) : Int :=
  let guess : Int := (num.log2 : Int) - den.log2
  if raise den guess ≤ raise num (-guess) then guess else guess - 1

structure Format where
  precision : Nat
  minExponent : Int
  maxExponent : Int
  deriving DecidableEq, Repr

namespace Format

def binary32 : Format := ⟨24, -149, 104⟩

def binary64 : Format := ⟨53, -1074, 971⟩

/-- The exponent of the last bit kept of `num / den`. -/
def place (format : Format) (num den : Nat) : Int :=
  max format.minExponent (binaryOrder num den + 1 - format.precision)

/-- `num / den` in units of its last bit kept. -/
def mantissa (format : Format) (num den : Nat) : Nat :=
  let e := format.place num den
  roundHalfEven (raise num (-e)) (raise den e)

def overflows (format : Format) (num den : Nat) : Bool :=
  let e := format.place num den
  decide (format.maxExponent < e) ||
    (e == format.maxExponent && format.mantissa num den == 1 <<< format.precision)

def nearest (format : Format) : Number → Number
  | .nan => .nan
  | .infinite negative => .infinite negative
  | .finite negative num den =>
      if num = 0 then .finite negative 0 1
      else if format.overflows num den then .infinite negative
      else
        let e := format.place num den
        .finite negative (raise (format.mantissa num den) e) (raise 1 (-e))

end Format
end StackMachine
