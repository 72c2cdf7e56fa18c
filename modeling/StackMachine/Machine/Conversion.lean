import StackMachine.Machine.Basic
import StackMachine.Numeral

/-! Conversion between numbers and text on the heap. Text read stays where it is; text written goes
to a new buffer, which belongs to the program from then on. -/
namespace StackMachine.Machine

def slotsFrom (heap : Heap) (address i : Nat) : Nat → Except Fault (List Value)
  | 0 => .ok []
  | n + 1 => do
      let source ← slotAddress address i
      let v ← heap.readSlot source
      let rest ← slotsFrom heap address (i + 1) n
      return v :: rest

/-- Replace an address and, above it, a length by the number that the text there denotes. -/
def parseText (kind : Numeral.Kind) (operation : String) : Action Machine Value := do
  require operation 2
  let length ← (← operand 0).expectIndex operation
  let address ← (← operand 1).expectIndex operation
  let size ← Value.slotBytes length operation
  let heap := (← get).heap
  heap.checkRange address size
  let codes ← slotsFrom heap address 0 length
  let v ← Numeral.read kind codes
  let _ ← pop
  let _ ← pop
  push v
  return v

def writeUp (address i : Nat) : List Value → Action Machine Unit
  | [] => return ()
  | v :: rest => do
      let target ← slotAddress address i
      onHeap (Heap.writeSlot target v)
      writeUp address (i + 1) rest

/-- Replace a value by the address of a new buffer with its text. -/
def formatText (kind : Numeral.Kind) (operation : String) : Action Machine Nat := do
  require operation 1
  let v ← operand 0
  let size ← Value.slotBytes Numeral.bufferSlots operation
  let address ← onHeap (Heap.allocate size)
  writeUp address 0 (Numeral.buffer (Numeral.render kind v))
  let _ ← pop
  push (Value.ofNat address)
  return address

def textToInteger : Action Machine Value := parseText .integer "text_to_integer"

def textToFloat : Action Machine Value := parseText .real "text_to_float"

def integerToText : Action Machine Nat := formatText .integer "integer_to_text"

def floatToText : Action Machine Nat := formatText .real "float_to_text"

end StackMachine.Machine
