import StackMachine.View.Window
import StackMachine.Heap

/-! The heap pane: the use of the heap, and for every live block its bytes slot by slot with the
values that they hold. -/
namespace StackMachine.View

inductive HeapRow where
  | usage (used size largestFree : Nat)
  | empty
  | block (b : Block)
  | slot (address : Nat) (bytes : Option (List UInt8))
  deriving DecidableEq, Repr, Inhabited

/-- The addresses of the slots of a block, the last of which may reach behind it. -/
def slotAddresses (b : Block) : List Nat :=
  (List.range ((b.size + (Value.slotSize - 1)) / Value.slotSize)).map fun i =>
    b.address + i * Value.slotSize

def blockRows (h : Heap) (b : Block) : List HeapRow :=
  .block b :: (slotAddresses b).map fun address =>
    .slot address (h.read address Value.slotSize).toOption

def heapRows (h : Heap) : List HeapRow :=
  .usage h.allocatedBytes h.size h.largestFreeRun ::
    ((if h.live.isEmpty then [.empty] else []) ++ h.live.flatMap (blockRows h))

/-- What a row reads, piece by piece. -/
def HeapRow.reading : HeapRow → List String
  | .usage used size largestFree => [s!"used {used} / {size} bytes │ largest free {largestFree}"]
  | .empty => ["(no allocations)"]
  | .block b =>
      ["0x", .ofList (Text.paddedHex 8 b.address), " | ",
        s!"{b.size} bytes ({b.size / Value.slotSize} slots)"]
  | .slot address (some bytes) =>
      ["  0x", .ofList (Text.paddedHex 8 address), ": "] ++
        bytes.map (fun byte => .ofList (Text.paddedHex 2 byte.toNat ++ [' '])) ++
        ["→ ", .ofList (valueChars (Value.ofBytes bytes))]
  | .slot address none => ["  0x", .ofList (Text.paddedHex 8 address), ": ", "?? ?? ?? ?? "]

/-- The styles of the pieces. A block that an error lies in has its address marked. -/
def HeapRow.styles (errorAddress : Option Nat) : HeapRow → List Style
  | .block b =>
      let inBlock := match errorAddress with
        | some address => b.address ≤ address && address < b.stop
        | none => false
      let style := if inBlock then Palette.bold Palette.error else Palette.plain Palette.comment
      [style, style, {}, Palette.plain Palette.primary]
  | .slot _ (some bytes) =>
      List.replicate (bytes.length + 4) (Palette.plain Palette.comment) ++
        [Palette.plain Palette.number]
  | .slot _ none => List.replicate 4 (Palette.plain Palette.comment)
  | _ => [{}]

def HeapRow.ground : HeapRow → Style
  | .usage .. | .empty => Palette.plain Palette.comment
  | _ => {}

def HeapRow.row (errorAddress : Option Nat) (row : HeapRow) : Row :=
  ⟨styledPieces row.reading (row.styles errorAddress), row.ground⟩

def drawHeap (screen : Screen) (area : Area) (h : Heap) (errorAddress : Option Nat)
    (focused : Bool) (scroll : ListScroll) : Screen × ListScroll :=
  drawList screen area " Heap Memory " focused scroll ((heapRows h).map (·.row errorAddress))

end StackMachine.View
