import StackMachine.Fault

/-! Numbers as text, one character code to a value. Text ends at the first code that is zero.
Integers are an optional minus sign and digits, reals may have a point among the digits; no digits
at all is zero. Digits are folded in binary64, and the result is rounded to a value. -/
namespace StackMachine.Numeral

inductive Kind where
  | integer
  | real
  deriving DecidableEq, Repr, Inhabited

def bufferSlots : Nat := 32

/-- The character code that a value is, for whole numbers above zero. -/
def code? (v : Value) : Option Nat :=
  match v.number with
  | .finite false num den => if num % den = 0 then some (num / den) else none
  | _ => none

def body (codes : List Value) : List Value := codes.takeWhile (!·.isZero)

def replacement : Char := Char.ofNat 0xFFFD

def describe (v : Value) : Char :=
  match code? v with
  | some n => if n.isValidChar then Char.ofNat n else replacement
  | none => replacement

/-- What has been read: the sign, whether a point was seen, the digits before it, and the digits
after it with the power of ten of the last of them. -/
structure Progress where
  negative : Bool := false
  point : Bool := false
  whole : Number := .ofNat 0
  fraction : Number := .ofNat 0
  scale : Number := .ofNat 1
  deriving DecidableEq, Repr, Inhabited

def fold (n : Number) : Number := Format.binary64.nearest n

def Progress.digit (p : Progress) (d : Nat) : Progress :=
  if p.point then
    let scale := fold (p.scale.mul (.ofNat 10))
    { p with scale := scale, fraction := fold (p.fraction.add (fold ((Number.ofNat d).div scale))) }
  else { p with whole := fold ((fold (p.whole.mul (.ofNat 10))).add (.ofNat d)) }

/-- Take one code. A sign may only be the first. -/
def Progress.step (p : Progress) (kind : Kind) (first : Bool) (v : Value) :
    Except NumeralError Progress :=
  match code? v with
  | none => .error .notCode
  | some n =>
      if n = '-'.toNat then
        if first then .ok { p with negative := true } else .error .lateSign
      else if n = '.'.toNat ∧ kind = .real then
        if p.point then .error .secondPoint else .ok { p with point := true }
      else if '0'.toNat ≤ n ∧ n ≤ '9'.toNat then .ok (p.digit (n - '0'.toNat))
      else .error .unexpected

def readFrom (kind : Kind) (first : Bool) (p : Progress) :
    List Value → Except NumeralError Progress
  | [] => .ok p
  | v :: rest =>
      match p.step kind first v with
      | .ok q => readFrom kind false q rest
      | .error e => .error e

def Progress.value (p : Progress) (kind : Kind) : Value :=
  let size := match kind with
    | .integer => p.whole
    | .real => fold (p.whole.add p.fraction)
  Value.ofNumber (if p.negative then size.negate else size)

def read (kind : Kind) (codes : List Value) : Except Fault Value :=
  match readFrom kind true {} (body codes) with
  | .ok p => .ok (p.value kind)
  | .error e => .error (.malformedNumeral ((body codes).map describe) e)

/-- The text of a value: its integer part, or six places. -/
def render (kind : Kind) (v : Value) : List Char :=
  match kind with
  | .integer => v.integerText
  | .real => v.fixedText

/-- The codes of a text in a buffer. One slot at least stays zero behind them. -/
def buffer (text : List Char) : List Value :=
  let codes := (text.take (bufferSlots - 1)).map fun c => Value.ofNat c.toNat
  codes ++ List.replicate (bufferSlots - codes.length) Value.zero

theorem buffer_length (text : List Char) : (buffer text).length = bufferSlots := by
  simp only [buffer, bufferSlots, List.length_append, List.length_map, List.length_take,
    List.length_replicate]
  omega

end StackMachine.Numeral
