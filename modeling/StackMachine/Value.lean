import StackMachine.Number.Format

/-! The one value of the machine: a 32-bit pattern read as a binary32 number. Patterns are moved
about unchanged; arithmetic decodes them, calculates exactly and rounds once. A value is stored in
a slot of four bytes, lowest byte first. -/
namespace StackMachine

structure Value where
  bits : UInt32
  deriving DecidableEq, Repr, Inhabited

namespace Value

/-- The pattern without its sign bit. -/
def code (v : Value) : Nat := v.bits.toNat % 0x80000000

def negative (v : Value) : Bool := decide (0x80000000 ≤ v.bits.toNat)

/-- The code of infinity; larger codes are the patterns without a value. -/
def infinityCode : Nat := 0x7F800000

def orderStep : Nat := 0x800000

/-- Codes below `2 ^ 24` count units of `2 ^ (-149)`; each later run of `2 ^ 23` codes doubles the
unit. -/
def number (v : Value) : Number :=
  if v.code = infinityCode then .infinite v.negative
  else if infinityCode < v.code then .nan
  else
    let order := v.code / orderStep
    let part := v.code % orderStep
    if order = 0 then .finite v.negative part (1 <<< 149)
    else .finite v.negative ((orderStep + part) <<< (order - 150)) (1 <<< (150 - order))

def ofCode (negative : Bool) (code : Nat) : Value :=
  ⟨UInt32.ofNat ((if negative then 0x80000000 else 0) + code)⟩

def nan : Value := ofCode false 0x7FC00000

def infinity (negative : Bool) : Value := ofCode negative infinityCode

def zero : Value := ofCode false 0

/-- The code of the binary32 number nearest to `num / den`. Codes grow with the numbers, and a
mantissa that rounds up to the next power of two carries into the order by itself. -/
def nearestCode (num den : Nat) : Nat :=
  if num = 0 then 0
  else if Format.binary32.overflows num den then infinityCode
  else
    let e := Format.binary32.place num den
    (e - Format.binary32.minExponent).toNat * orderStep + Format.binary32.mantissa num den

def ofNumber : Number → Value
  | .nan => nan
  | .infinite negative => infinity negative
  | .finite negative num den => ofCode negative (nearestCode num den)

def ofNat (n : Nat) : Value := ofNumber (.ofNat n)

def ofInt (i : Int) : Value := ofNumber (.ofInt i)

def isNaN (v : Value) : Bool := v.number == .nan

def isIntegral (v : Value) : Bool := v.number.isIntegral

def isZero (v : Value) : Bool := v.number.isZero

/-- Equality of numbers: the two zeros are equal, and what has no value equals nothing. -/
def sameNumber (v w : Value) : Bool := !v.isNaN && (v == w || (v.isZero && w.isZero))

def add (v w : Value) : Value := ofNumber (v.number.add w.number)

def sub (v w : Value) : Value := ofNumber (v.number.sub w.number)

def mul (v w : Value) : Value := ofNumber (v.number.mul w.number)

def div (v w : Value) : Value := ofNumber (v.number.div w.number)

def minInteger : Int := -0x8000000000000000

def maxInteger : Int := 0x7FFFFFFFFFFFFFFF

/-- Cut toward zero and clamped to signed 64-bit integers; zero without a value. -/
def toInteger (v : Value) : Int :=
  match v.number with
  | .nan => 0
  | .infinite negative => if negative then minInteger else maxInteger
  | .finite negative num den => max minInteger (min maxInteger (Number.signed negative (num / den)))

/-- The integer part as a value. The sign stays, also on zero. -/
def truncate (v : Value) : Value :=
  match v.number with
  | .finite negative num den => ofNumber (.finite negative (num / den) 1)
  | _ => v

def sign (v : Value) : Value := if v.number.atLeastZero then ofInt 1 else ofInt (-1)

def maxIndex : Nat := 0x100000000

/-- The natural number, up to `maxIndex`, that a value stands for. -/
def toIndex? (v : Value) : Option Nat :=
  match v.number with
  | .finite negative num den =>
      if num % den = 0 ∧ (negative = false ∨ num = 0) ∧ num / den ≤ maxIndex then some (num / den)
      else none
  | _ => none

def slotSize : Nat := 4

def toBytes (v : Value) : List UInt8 :=
  [v.bits.toNat, v.bits.toNat / 0x100, v.bits.toNat / 0x10000, v.bits.toNat / 0x1000000].map
    UInt8.ofNat

def ofBytes (bytes : List UInt8) : Value :=
  ⟨UInt32.ofNat (bytes.foldr (fun byte rest => byte.toNat + 0x100 * rest) 0)⟩

@[simp] theorem toBytes_length (v : Value) : v.toBytes.length = slotSize := rfl

theorem ofBytes_toBytes (v : Value) : ofBytes v.toBytes = v := by
  have bound := v.bits.toNat_lt
  obtain ⟨bits⟩ := v
  simp only [ofBytes, toBytes, List.map_cons, List.map_nil, List.foldr_cons, List.foldr_nil,
    UInt8.toNat_ofNat']
  congr 1
  apply UInt32.toNat_inj.mp
  simp only [UInt32.toNat_ofNat']
  simp at bound
  omega

end Value
end StackMachine
