import Mathlib
import StackMachine.View.HeapView
import StackMachine.Proofs.Alignment
import StackMachine.Proofs.Ledger
import StackMachine.Proofs.Numbered
import StackMachine.Proofs.ValueText

/-! The rows of the heap pane. A block is cut into slots of four bytes, and the pane asks for all bytes of the
last one, whether they belong to the block or not. Machines hand out whole slots only, so the slots of a block
tile it: they can all be read, and together the rows show the bytes that are taken, each one once and in order. -/
namespace StackMachine

namespace Heap

variable {h : Heap} {taken : List Bool} {address n : Nat}

theorem Sound.free_count (sound : h.Sound) : h.allocatedBytes + h.taken.toList.count false = h.size := by
  rw [sound.allocatedBytes_eq_count, List.count_true_add_count_false, Array.length_toList, sound.mapSize]

theorem FreeAt.le_count (free : FreeAt taken address n) : n ≤ taken.count false := by
  rw [← List.replicate_sublist_iff]
  have run : (taken.drop address).take n = List.replicate n false := by
    refine List.ext_getElem? fun i => ?_
    by_cases inside : i < n
    · rw [List.getElem?_take_of_lt inside, List.getElem?_drop, free _ (by omega) (by omega),
        List.getElem?_replicate_of_lt inside]
    · have short := List.length_take_le n (taken.drop address)
      have filled : (List.replicate n false).length = n := List.length_replicate
      rw [List.getElem?_eq_none (by omega), List.getElem?_eq_none (by omega)]
  rw [← run]
  exact (List.take_sublist _ _).trans (List.drop_sublist _ _)

theorem Sound.largestFreeRun_le (sound : h.Sound) : h.largestFreeRun ≤ h.size - h.allocatedBytes := by
  obtain ⟨address, free⟩ := h.largestFreeRun_isGreatest.1
  have counted := free.le_count
  have whole := sound.free_count
  omega

end Heap

/-- Consecutive slots, with the positions of their bytes, are one run of bytes. -/
theorem Cells.slots_tile {α : Type} (cells : Array α) (start width : Nat) {count : Nat}
    (inside : start + count * width ≤ cells.size) :
    ((List.range count).flatMap fun i =>
      (cells.extract (start + i * width) (start + i * width + width)).toList.zipIdx (start + i * width)) =
        (cells.extract start (start + count * width)).toList.zipIdx start := by
  induction count with
  | zero => simp
  | succ count ih =>
    rw [Nat.succ_mul] at inside
    have joined : cells.extract start (start + count * width) ++
        cells.extract (start + count * width) (start + count * width + width) =
          cells.extract start (start + (count + 1) * width) := by
      rw [Array.extract_append_extract, Nat.succ_mul]
      congr 1 <;> omega
    have length : (cells.extract start (start + count * width)).toList.length = count * width := by
      rw [Array.length_toList, Array.size_extract]
      omega
    rw [List.range_succ, List.flatMap_append, ih (by omega), ← joined, Array.toList_append,
      List.zipIdx_append, length, List.flatMap_singleton]

theorem Cells.mem_zipIdx_extract {α : Type} {cells : Array α} {start stop i : Nat} {x : α} :
    (x, i) ∈ (cells.extract start stop).toList.zipIdx start ↔ (start ≤ i ∧ i < stop) ∧ cells[i]? = some x := by
  rw [List.mk_mem_zipIdx_iff_le_and_getElem?_sub, Array.getElem?_toList, Array.getElem?_extract, and_assoc]
  refine and_congr_right fun low => ?_
  rw [Nat.add_sub_cancel' low]
  split_ifs with inside
  · exact ⟨fun found => ⟨by omega, found⟩, And.right⟩
  · refine ⟨fun found => absurd found (by simp), fun ⟨high, found⟩ => ?_⟩
    have present := (Array.getElem?_eq_some_iff.mp found).1
    omega

namespace Text

theorem question_notMem_toDigits {b : Nat} (base : 1 < b) (n : Nat) : '?' ∉ Nat.toDigits b n := by
  induction n using Nat.strongRecOn with
  | ind n ih =>
    rw [Nat.toDigits_eq_if base]
    split_ifs with single
    · rw [List.mem_singleton]
      exact (Nat.digitChar_ne '?' (by decide)).symm
    · have smaller : n / b < n := Nat.div_lt_self (by omega) base
      rw [List.mem_append, not_or, List.mem_singleton]
      exact ⟨ih _ smaller, (Nat.digitChar_ne '?' (by decide)).symm⟩

theorem question_notMem_paddedHex (width n : Nat) : '?' ∉ paddedHex width n := by
  have digits := question_notMem_toDigits (b := 16) (by decide) n
  simp [paddedHex, hexDigits, digits]

end Text

namespace Value

theorem question_notMem_signChars (negative : Bool) : '?' ∉ signChars negative := by
  cases negative <;> decide

theorem question_notMem_textChars (v : Value) : '?' ∉ v.textChars := by
  have sign := question_notMem_signChars
  have digits (d : Decimal) : '?' ∉ d.positional := fun member => by
    rcases Decimal.mem_positional member with digit | point
    · exact absurd digit (by decide)
    · exact absurd point (by decide)
  rw [textChars]
  split <;> simp [sign, digits]

theorem question_notMem_integerText (v : Value) : '?' ∉ v.integerText := by
  have digits := Text.question_notMem_toDigits (b := 10) (by decide) v.toInteger.natAbs
  rw [integerText, integerChars, List.mem_append, not_or]
  exact ⟨question_notMem_signChars _, digits⟩

end Value

namespace View

variable {h : Heap} {b : Block}

theorem question_notMem_valueChars (v : Value) : '?' ∉ valueChars v := by
  rw [valueChars]
  split
  · exact v.question_notMem_integerText
  · exact v.question_notMem_textChars

theorem valueChars_denotes (v : Value) : Value.Denotes (valueChars v) v := by
  rw [valueChars]
  split
  case isTrue whole =>
    rw [Bool.and_eq_true, decide_eq_true_eq] at whole
    exact Value.integerText_denotes whole.1 whole.2
  case isFalse => exact v.textChars_denotes

theorem HeapRow.row_text (errorAddress : Option Nat) (row : HeapRow) :
    (row.row errorAddress).spans.flatMap (·.text) = row.reading.flatMap String.toList := by
  refine styledPieces_text ?_
  cases row with
  | slot address bytes =>
    cases bytes with
    | none => rfl
    | some bytes => simp [reading, styles]
  | _ => rfl

theorem HeapRow.slot_text (errorAddress : Option Nat) (address : Nat) (bytes : List UInt8) :
    ∃ front shown, ((HeapRow.slot address (some bytes)).row errorAddress).spans.flatMap (·.text) =
      front ++ "→ ".toList ++ shown ∧ Value.Denotes shown (Value.ofBytes bytes) := by
  have last : ["→ ", String.ofList (valueChars (Value.ofBytes bytes))].flatMap String.toList =
      "→ ".toList ++ valueChars (Value.ofBytes bytes) := by simp
  rw [row_text, reading, List.flatMap_append, last, ← List.append_assoc]
  exact ⟨_, _, rfl, valueChars_denotes _⟩

def HeapRow.shown : HeapRow → List (UInt8 × Nat)
  | .slot address (some bytes) => bytes.zipIdx address
  | _ => []

theorem blockRows_eq (sound : h.Sound) (aligned : h.Aligned) (words : h.size < Word.limit) (member : b ∈ h.live) :
    blockRows h b = .block b :: (List.range (b.size / Value.slotSize)).map fun i =>
      .slot (b.address + i * Value.slotSize)
        (some (h.bytes.extract (b.address + i * Value.slotSize)
          (b.address + i * Value.slotSize + Value.slotSize)).toList) := by
  have inside := sound.inside b member
  obtain ⟨-, slots, whole⟩ := aligned b member
  rw [Block.stop, whole] at inside
  have count : (b.size + (Value.slotSize - 1)) / Value.slotSize = b.size / Value.slotSize := by
    simp only [Value.slotSize] at whole ⊢
    omega
  rw [blockRows, slotAddresses, count, List.map_map]
  congr 1
  refine List.map_congr_left fun i counted => ?_
  rw [List.mem_range, whole] at counted
  have fits : b.address + i * Value.slotSize + Value.slotSize ≤ h.size := by
    simp only [Value.slotSize] at counted inside ⊢
    omega
  rw [Function.comp_apply, Heap.read_inside fits words]
  rfl

theorem blockRows_shown (sound : h.Sound) (aligned : h.Aligned) (words : h.size < Word.limit) (member : b ∈ h.live) :
    (blockRows h b).flatMap HeapRow.shown = (h.bytes.extract b.address b.stop).toList.zipIdx b.address := by
  have whole : b.size / Value.slotSize * Value.slotSize = b.size := Nat.div_mul_cancel (aligned b member).2
  have inside := sound.inside b member
  rw [Block.stop, ← whole] at inside
  have tiled := Cells.slots_tile h.bytes b.address Value.slotSize inside
  rw [whole] at tiled
  rw [blockRows_eq sound aligned words member, List.flatMap_cons, List.flatMap_map, Block.stop, ← tiled]
  rfl

theorem heapRows_shown (sound : h.Sound) (aligned : h.Aligned) (words : h.size < Word.limit) :
    (heapRows h).flatMap HeapRow.shown =
      h.bytes.toList.zipIdx.filter fun entry => h.taken[entry.2]? = some true := by
  have blocks : (heapRows h).flatMap HeapRow.shown =
      h.live.flatMap fun b => (h.bytes.extract b.address b.stop).toList.zipIdx b.address := by
    have quiet : (if h.live.isEmpty then [HeapRow.empty] else []).flatMap HeapRow.shown = [] := by
      split <;> rfl
    rw [heapRows, List.flatMap_cons, List.flatMap_append, quiet, List.flatMap_assoc]
    exact List.flatMap_congr fun b member => blockRows_shown sound aligned words member
  rw [blocks]
  refine eq_of_increasing Prod.snd ?_ ((zipIdx_increasing _ 0).filter _) fun ⟨x, i⟩ => ?_
  · refine List.pairwise_flatMap.mpr ⟨fun b _ => zipIdx_increasing _ _, sound.ordered.imp fun order => ?_⟩
    rintro ⟨x, i⟩ low ⟨y, j⟩ high
    have before := (Cells.mem_zipIdx_extract.mp low).1.2
    have behind := (Cells.mem_zipIdx_extract.mp high).1.1
    exact before.trans_le (order.trans behind)
  · rw [List.mem_flatMap, List.mem_filter, List.mk_mem_zipIdx_iff_getElem?, Array.getElem?_toList, decide_eq_true_eq,
      sound.agrees]
    constructor
    · rintro ⟨b, member, entry⟩
      obtain ⟨covers, held⟩ := Cells.mem_zipIdx_extract.mp entry
      exact ⟨held, b, member, covers⟩
    · rintro ⟨held, b, member, covers⟩
      exact ⟨b, member, Cells.mem_zipIdx_extract.mpr ⟨covers, held⟩⟩

theorem HeapRow.question_notMem_reading {row : HeapRow} (known : ∀ address, row ≠ .slot address none) :
    '?' ∉ row.reading.flatMap String.toList := by
  have decimal := fun n => Text.question_notMem_toDigits (b := 10) (by decide) n
  have hex := Text.question_notMem_paddedHex
  have itself (s : String) : toString s = s := rfl
  cases row with
  | slot address bytes =>
    cases bytes with
    | none => exact absurd rfl (known address)
    | some bytes =>
      rw [reading]
      simp [hex, question_notMem_valueChars]
  | _ =>
    rw [reading]
    simp [decimal, hex, itself]

theorem heapRows_eq (sound : h.Sound) (aligned : h.Aligned) (words : h.size < Word.limit) :
    heapRows h = HeapRow.usage h.allocatedBytes h.size h.largestFreeRun ::
      ((if h.live = [] then [HeapRow.empty] else []) ++ h.live.flatMap fun b =>
        HeapRow.block b :: (List.range (b.size / Value.slotSize)).map fun i =>
          HeapRow.slot (b.address + i * Value.slotSize)
            (some (h.bytes.extract (b.address + i * Value.slotSize)
              (b.address + i * Value.slotSize + Value.slotSize)).toList)) := by
  rw [heapRows]
  simp only [List.isEmpty_iff]
  congr 2
  exact List.flatMap_congr fun b member => blockRows_eq sound aligned words member

theorem heapRows_known (sound : h.Sound) (aligned : h.Aligned) (words : h.size < Word.limit) {row : HeapRow}
    (member : row ∈ heapRows h) (address : Nat) : row ≠ .slot address none := by
  rw [heapRows_eq sound aligned words] at member
  rintro rfl
  simp at member

/-- In every machine that operations lead to, the first row counts the bytes that are taken, which with the free
ones are all, and the longest free run. The blocks follow in the order of their addresses, each made of whole
slots: a heading, and for every slot its address, its four bytes and the value that they decode to, in a text that
is read as its number. Together the rows show exactly the bytes that the map takes, each one once and in order, and
nothing is shown as unknown. -/
theorem heap_pane_shows_taken_bytes {m : Machine} {config : Config} (addressable : config.Addressable)
    (reachable : Machine.Reachable config m) (errorAddress : Option Nat) :
    let h := m.heap
    let text := fun row : HeapRow => (row.row errorAddress).spans.flatMap (·.text)
    (h.allocatedBytes + h.taken.toList.count false = config.heapSize ∧
      h.largestFreeRun ≤ config.heapSize - h.allocatedBytes ∧
      IsGreatest {n | ∃ address, Heap.FreeAt h.taken.toList address n} h.largestFreeRun) ∧
    h.live.Pairwise (fun b c => b.address + b.size ≤ c.address) ∧
    (∀ b ∈ h.live, 0 < b.size ∧ 4 ∣ b.size ∧ b.address + b.size ≤ config.heapSize) ∧
    heapRows h = HeapRow.usage h.allocatedBytes config.heapSize h.largestFreeRun ::
      ((if h.live = [] then [HeapRow.empty] else []) ++ h.live.flatMap fun b =>
        HeapRow.block b :: (List.range (b.size / 4)).map fun i =>
          HeapRow.slot (b.address + i * 4)
            (some (h.bytes.extract (b.address + i * 4) (b.address + i * 4 + 4)).toList)) ∧
    (heapRows h).flatMap HeapRow.shown =
      h.bytes.toList.zipIdx.filter (fun entry => h.taken[entry.2]? = some true) ∧
    (heapRows h).map text = (heapRows h).map (fun row => row.reading.flatMap String.toList) ∧
    (∀ address bytes, HeapRow.slot address (some bytes) ∈ heapRows h →
      ∃ front shown, text (.slot address (some bytes)) = front ++ "→ ".toList ++ shown ∧
        Value.Denotes shown (Value.ofBytes bytes)) ∧
    ∀ row ∈ heapRows h, '?' ∉ text row := by
  intro h text
  have form := reachable.wellFormed addressable
  have sound : h.Sound := form.heap
  have aligned : h.Aligned := reachable.aligned addressable
  have words : h.size < Word.limit := form.size.trans (by decide)
  rw [← (reachable.sizes addressable).2.1]
  refine ⟨⟨sound.free_count, sound.largestFreeRun_le, h.largestFreeRun_isGreatest⟩, sound.ordered,
    fun b member => ⟨sound.filled b member, (aligned b member).2, sound.inside b member⟩,
    heapRows_eq sound aligned words, heapRows_shown sound aligned words, ?_,
    fun address bytes _ => HeapRow.slot_text errorAddress address bytes, fun row member => ?_⟩
  · simp only [text, HeapRow.row_text]
  · simp only [text, HeapRow.row_text]
    exact HeapRow.question_notMem_reading (heapRows_known sound aligned words member)

/-- A block of two slots behind a hole: its first slot was written to, and half of the free bytes lie before it. -/
theorem block_behind_hole_shown :
    let m := [Op.push (.ofNat 1), .allocate, .push (.ofNat 2), .allocate, .push (.ofNat 42), .push (.ofNat 4),
      .store 1, .push (.ofNat 1), .push (.ofNat 0), .free].foldl (fun m op => Action.after op.apply m)
        (Machine.fresh ⟨8, 16, 0⟩)
    heapRows m.heap = [.usage 8 16 4, .block ⟨4, 8⟩, .slot 4 (some [0, 0, 40, 66]), .slot 8 (some [0, 0, 0, 0])] ∧
      (heapRows m.heap).flatMap HeapRow.shown =
        [(0, 4), (0, 5), (40, 6), (66, 7), (0, 8), (0, 9), (0, 10), (0, 11)] ∧
      ((heapRows m.heap).map fun row => (row.row none).spans.flatMap (·.text)) =
        ["used 8 / 16 bytes │ largest free 4".toList, "0x00000004 | 8 bytes (2 slots)".toList,
          "  0x00000004: 00 00 28 42 → 42".toList, "  0x00000008: 00 00 00 00 → 0".toList] := by
  intro m
  obtain ⟨-, -, -, rows, shown, texts, -, -⟩ := heap_pane_shows_taken_bytes ⟨by decide, by decide⟩
    (Machine.Reachable.fresh.operations _ : Machine.Reachable ⟨8, 16, 0⟩ m) none
  have listed : heapRows m.heap = [.usage 8 16 4, .block ⟨4, 8⟩, .slot 4 (some [0, 0, 40, 66]),
      .slot 8 (some [0, 0, 0, 0])] := by
    rw [rows]
    decide +kernel
  refine ⟨listed, shown.trans (by decide +kernel), texts.trans ?_⟩
  rw [listed]
  decide +kernel

end View
end StackMachine
