import StackMachine.Number.Decimal
import StackMachine.Word

/-! Counts in text: an optional plus sign and digits that make a 64-bit word. -/
namespace StackMachine.Text

def dropPlus : List Char → List Char
  | '+' :: rest => rest
  | chars => chars

def count? (word : String) : Option UInt64 :=
  let digits := dropPlus word.toList
  if digits.isEmpty || !digits.all Char.isDigit then none
  else
    let n := Decimal.ofDigitChars digits
    if n < Word.limit then some (UInt64.ofNat n) else none

def countText (n : UInt64) : String := String.ofList (Decimal.digitChars n.toNat)

theorem dropPlus_digitChars (n : Nat) : dropPlus (Decimal.digitChars n) = Decimal.digitChars n := by
  unfold dropPlus
  split
  · rename_i rest signed
    have digit := Decimal.isDigit_of_mem_digitChars (n := n) (c := '+') (by simp [signed])
    exact absurd digit (by decide)
  · rfl

theorem count?_countText (n : UInt64) : count? (countText n) = some n := by
  have bound : n.toNat < Word.limit := n.toNat_lt
  have digits : (Decimal.digitChars n.toNat).all Char.isDigit = true :=
    List.all_eq_true.mpr fun _ member => Decimal.isDigit_of_mem_digitChars member
  have filled : (Decimal.digitChars n.toNat).isEmpty = false := by
    simp [Decimal.digitChars_ne_nil]
  simp only [count?, countText, String.toList_ofList, dropPlus_digitChars, filled, digits]
  simp [bound]

def padded (width n : Nat) : List Char :=
  let digits := Decimal.digitChars n
  List.replicate (width - digits.length) ' ' ++ digits

end StackMachine.Text
