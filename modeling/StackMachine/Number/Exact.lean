/-! Exact signed numbers: a ratio of natural numbers with a sign of its own, so that zero has two
signs, together with the two infinities and the outcome of a calculation that has no value.
Arithmetic here never rounds. Where a result has to fit a format is the business of
`StackMachine.Number.Format`. -/
namespace StackMachine

/-- `finite negative num den` is the number `± num / den`, with `den` positive. -/
inductive Number where
  | nan
  | infinite (negative : Bool)
  | finite (negative : Bool) (num den : Nat)
  deriving DecidableEq, Repr, Inhabited

namespace Number

def ofNat (n : Nat) : Number := .finite false n 1

def ofInt (i : Int) : Number := .finite (decide (i < 0)) i.natAbs 1

def negate : Number → Number
  | .nan => .nan
  | .infinite negative => .infinite !negative
  | .finite negative num den => .finite (!negative) num den

def signed (negative : Bool) (n : Nat) : Int := if negative then -(n : Int) else n

/-- A sum that vanishes is negative only if both parts are. -/
def add : Number → Number → Number
  | .nan, _ => .nan
  | _, .nan => .nan
  | .infinite a, .infinite b => if a = b then .infinite a else .nan
  | .infinite a, .finite .. => .infinite a
  | .finite .., .infinite b => .infinite b
  | .finite a p q, .finite b r s =>
      let sum := signed a (p * s) + signed b (r * q)
      .finite (if sum = 0 then a && b else decide (sum < 0)) sum.natAbs (q * s)

def sub (x y : Number) : Number := add x y.negate

def mul : Number → Number → Number
  | .nan, _ => .nan
  | _, .nan => .nan
  | .infinite a, .infinite b => .infinite (a != b)
  | .infinite a, .finite b r _ => if r = 0 then .nan else .infinite (a != b)
  | .finite a p _, .infinite b => if p = 0 then .nan else .infinite (a != b)
  | .finite a p q, .finite b r s => .finite (a != b) (p * r) (q * s)

/-- Zero divided by zero has no value; any other number divided by zero is infinite. -/
def div : Number → Number → Number
  | .nan, _ => .nan
  | _, .nan => .nan
  | .infinite _, .infinite _ => .nan
  | .infinite a, .finite b .. => .infinite (a != b)
  | .finite a .., .infinite b => .finite (a != b) 0 1
  | .finite a p q, .finite b r s =>
      if r = 0 then (if p = 0 then .nan else .infinite (a != b))
      else .finite (a != b) (p * s) (q * r)

def isIntegral : Number → Bool
  | .finite _ num den => num % den == 0
  | _ => false

def isZero : Number → Bool
  | .finite _ num _ => num == 0
  | _ => false

def atLeastZero : Number → Bool
  | .nan => false
  | .infinite negative => !negative
  | .finite negative num _ => !negative || num == 0

end Number
end StackMachine
