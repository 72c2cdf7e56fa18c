import StackMachine.Fault

/-! The heap: an arena of bytes, a map of the bytes that are taken, and a table of the live blocks,
kept in the order of their addresses. A request is served at the first run of free bytes that is
long enough. Bytes are cleared when they are freed and handed out as they are. Reading and writing
ask only that the bytes exist. -/
namespace StackMachine

structure Block where
  address : Nat
  size : Nat
  deriving DecidableEq, Repr, Inhabited

namespace Block

def stop (b : Block) : Nat := b.address + b.size

/-- Enter a block into a table, in place of one at the same address. -/
def insert (b : Block) : List Block → List Block
  | [] => [b]
  | c :: rest =>
      if b.address < c.address then b :: c :: rest
      else if b.address = c.address then b :: rest
      else c :: insert b rest

def sizeAt? (table : List Block) (address : Nat) : Option Nat :=
  (table.find? (·.address == address)).map (·.size)

def erase (table : List Block) (address : Nat) : List Block :=
  table.filter (·.address != address)

end Block

structure Heap where
  bytes : Array UInt8
  taken : Array Bool
  live : List Block
  deriving DecidableEq, Repr, Inhabited

namespace Heap

def empty (size : Nat) : Heap := ⟨Array.replicate size 0, Array.replicate size false, []⟩

def size (h : Heap) : Nat := h.bytes.size

/-- The end of the first run of `size` free bytes, where `run` free bytes end at `position`. -/
def runEnd (size : Nat) : (position run : Nat) → List Bool → Option Nat
  | _, _, [] => none
  | position, run, taken :: rest =>
      let run := if taken then 0 else run + 1
      if run = size then some (position + 1) else runEnd size (position + 1) run rest

/-- The greatest of `best` and the runs of free bytes, where `run` of them are behind. -/
def longestRun (best run : Nat) : List Bool → Nat
  | [] => best
  | taken :: rest =>
      let run := if taken then 0 else run + 1
      longestRun (max best run) run rest

def largestFreeRun (h : Heap) : Nat := longestRun 0 0 h.taken.toList

def allocatedBytes (h : Heap) : Nat := h.live.foldr (fun b total => b.size + total) 0

/-- Take `size` bytes and give their address. No bytes are at address zero and are not held. -/
def allocate (size : Nat) : Action Heap Nat := do
  if size = 0 then return 0
  let h ← get
  match runEnd size 0 0 h.taken.toList with
  | none => throw (.noFreeMemory size h.largestFreeRun)
  | some stop =>
    let address ← Word.sub stop size
    let taken ← Cells.overwrite h.taken address (List.replicate size true)
    set (⟨h.bytes, taken, Block.insert ⟨address, size⟩ h.live⟩ : Heap)
    return address

def free (address size : Nat) : Action Heap Unit := do
  if size = 0 then return ()
  let h ← get
  if Block.sizeAt? h.live address = some size then
    let taken ← Cells.overwrite h.taken address (List.replicate size false)
    let bytes ← Cells.overwrite h.bytes address (List.replicate size 0)
    set (⟨bytes, taken, Block.erase h.live address⟩ : Heap)
  else throw (.invalidFree address size)

def checkRange (h : Heap) (address length : Nat) : Except Fault Unit :=
  match Word.add? address length with
  | some stop => if stop ≤ h.size then .ok () else outside
  | none => outside
where
  outside : Except Fault Unit :=
    .error (.invalidAddress .heap (Word.saturatingAdd address length - 1) h.size)

def read (h : Heap) (address length : Nat) : Except Fault (List UInt8) := do
  h.checkRange address length
  Cells.slice h.bytes address length

def write (address : Nat) (data : List UInt8) : Action Heap Unit := do
  let h ← get
  h.checkRange address data.length
  let bytes ← Cells.overwrite h.bytes address data
  set (⟨bytes, h.taken, h.live⟩ : Heap)

def readSlot (h : Heap) (address : Nat) : Except Fault Value := do
  let bytes ← h.read address Value.slotSize
  return Value.ofBytes bytes

def writeSlot (address : Nat) (v : Value) : Action Heap Unit := write address v.toBytes

end Heap
end StackMachine
