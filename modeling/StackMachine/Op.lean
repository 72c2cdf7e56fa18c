import StackMachine.Machine.Arithmetic
import StackMachine.Machine.Memory
import StackMachine.Machine.Reference
import StackMachine.Machine.Frame
import StackMachine.Machine.Conversion

/-! The operations of a trace and what they do to a machine. Counts are 64-bit words. -/
namespace StackMachine

inductive Op where
  | push (v : Value)
  | binary (op : BinaryOperator)
  | sign
  | allocate
  | free
  | store (slots : UInt64)
  | load (slots : UInt64)
  | copy
  | move
  | hook (index : UInt64)
  | readHook (index : UInt64)
  | loadBasePointer
  | enter
  | leave (args locals : UInt64)
  | setReturn
  | getReturn
  | textToInteger
  | textToFloat
  | integerToText
  | floatToText
  | floatToInteger
  | integerToFloat
  | halt
  deriving DecidableEq, Repr, Inhabited

inductive Flow where
  | next
  | halt
  deriving DecidableEq, Repr, Inhabited

namespace Op

def effect : Op → Action Machine Unit
  | .push v => Machine.push v
  | .binary op => Machine.binary op
  | .sign => Machine.sign
  | .allocate => discard Machine.allocate
  | .free => Machine.free
  | .store slots => Machine.store slots.toNat
  | .load slots => Machine.load slots.toNat
  | .copy => Machine.copy
  | .move => Machine.move
  | .hook index => Machine.hook index.toNat
  | .readHook index => Machine.readHook index.toNat
  | .loadBasePointer => Machine.loadBasePointer
  | .enter => Machine.enter
  | .leave args locals => Machine.leave args.toNat locals.toNat
  | .setReturn => Machine.setReturn
  | .getReturn => Machine.getReturn
  | .textToInteger => discard Machine.textToInteger
  | .textToFloat => discard Machine.textToFloat
  | .integerToText => discard Machine.integerToText
  | .floatToText => discard Machine.floatToText
  | .floatToInteger => Machine.floatToInteger
  | .integerToFloat => Machine.integerToFloat
  | .halt => pure ()

def flow : Op → Flow
  | .halt => .halt
  | _ => .next

def apply (op : Op) : Action Machine Flow := do
  op.effect
  return op.flow

end Op
end StackMachine
