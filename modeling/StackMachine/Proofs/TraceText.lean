import Mathlib
import StackMachine.Proofs.Listing
import StackMachine.Proofs.ValueText

/-! Traces come back from their texts. Every word that is written for an operation is solid: it has no
blank and no comment sign in it, so a line is cut into the words that it was joined from, and the
words name the operation again. Values are recovered bit for bit. What has no value has one name,
and so one pattern, in text. -/
namespace StackMachine

namespace Text

def isPlain (c : Char) : Bool := 32 < c.toNat && c.toNat < 127 && c.toNat != 35

theorem not_isBlank_of_isPlain {c : Char} (plain : isPlain c) : isBlank c = false := by
  simp [isPlain] at plain
  simp [isBlank]
  omega

theorem isPlain_of_isDigit {c : Char} (digit : c.isDigit) : isPlain c := by
  rw [Char.isDigit_iff_toNat] at digit
  have zero : '0'.toNat = 48 := rfl
  have nine : '9'.toNat = 57 := rfl
  simp [isPlain]
  omega

theorem Solid.of_plain {word : List Char} (plain : word ≠ [] ∧ ∀ c ∈ word, isPlain c) : Solid word :=
  ⟨plain.1, fun c member => not_isBlank_of_isPlain (plain.2 c member), fun sign =>
    absurd (plain.2 _ sign) (by decide)⟩

theorem solid_of_plain {words : List String}
    (plain : ∀ word ∈ words, word.toList ≠ [] ∧ ∀ c ∈ word.toList, isPlain c) :
    ∀ word ∈ words, Solid word.toList := fun word member => .of_plain (plain word member)

theorem countText_solid (n : UInt64) : Solid (countText n).toList := by
  rw [countText, String.toList_ofList]
  exact .of_plain ⟨Decimal.digitChars_ne_nil _, fun c member =>
    isPlain_of_isDigit (Decimal.isDigit_of_mem_digitChars member)⟩

end Text

namespace Decimal

theorem positional_solid (d : Decimal) : Text.Solid d.positional := by
  refine .of_plain ⟨fun empty => ?_, fun c member => ?_⟩
  · have read := d.ofChars?_positional
    rw [empty] at read
    cases read
  · rcases mem_positional member with digit | rfl
    · exact Text.isPlain_of_isDigit digit
    · decide

end Decimal

namespace Value

theorem signChars_solid (negative : Bool) {word : List Char} (solid : Text.Solid word) :
    Text.Solid (signChars negative ++ word) := by
  cases negative with
  | false => exact solid
  | true =>
    refine ⟨by simp [signChars], ?_, by simpa [signChars] using solid.uncommented⟩
    simpa [signChars, Text.isBlank] using solid.unbroken

theorem text_solid (v : Value) : Text.Solid v.text.toList := by
  rw [text, String.toList_ofList, textChars]
  split
  · exact .of_plain (by simp [Text.isPlain])
  · exact signChars_solid _ (.of_plain (by simp [Text.isPlain]))
  · exact signChars_solid _ (Decimal.positional_solid _)

end Value

namespace Op

/-- An operation as its text tells it: all patterns without a value have one name. -/
def readBack : Op → Op
  | .push v => .push (if v.isNaN then .nan else v)
  | op => op

theorem readBack_of_valued {op : Op} (valued : ∀ v, op = .push v → v.isNaN = false) :
    op.readBack = op := by
  cases op with
  | push v => simp [readBack, valued v rfl]
  | _ => rfl

theorem readBack_agrees (op : Op) :
    op.readBack.agrees op = true ↔ ∀ v, op = .push v → v.isNaN = false := by
  cases op with
  | push v =>
    have unread : Value.nan.isNaN = true := by decide +kernel
    cases valued : v.isNaN <;> simp [readBack, agrees, Value.sameNumber, valued, unread]
  | _ => simp [readBack, agrees]

theorem words_solid (op : Op) : ∀ word ∈ op.words, Text.Solid word.toList := by
  have mnemonics : ∀ word ∈ ["push", "store", "load", "hook", "ref_hook", "leave"],
      Text.Solid word.toList := Text.solid_of_plain (by simp [Text.isPlain])
  cases op with
  | push v => grind [words, v.text_solid]
  | store n | load n | hook n | readHook n => grind [words, Text.countText_solid]
  | leave args locals => grind [words, Text.countText_solid]
  | binary op =>
    refine Text.solid_of_plain ?_
    cases op <;> simp [words, BinaryOperator.mnemonic, Text.isPlain]
  | _ => exact Text.solid_of_plain (by simp [words, Text.isPlain])

theorem readCount_countText (n : UInt64) : readCount (Text.countText n) = .ok n := by
  rw [readCount, Text.count?_countText]

theorem readValue_text (v : Value) : readValue v.text = .ok (if v.isNaN then .nan else v) := by
  rw [readValue]
  cases valued : v.isNaN with
  | false => rw [Value.ofText?_text valued]; rfl
  | true => rw [Value.ofText?_text_nan valued]; rfl

theorem ofWords_words (op : Op) : ∃ mnemonic operands, op.words = mnemonic :: operands ∧
    ofWords mnemonic operands = .ok op.readBack := by
  cases op with
  | push v =>
    refine ⟨_, _, rfl, ?_⟩
    change (readValue v.text >>= fun w => pure _) = _
    rw [readValue_text]
    rfl
  | binary op => cases op <;> exact ⟨_, _, rfl, rfl⟩
  | store slots | load slots | hook slots | readHook slots =>
    refine ⟨_, _, rfl, ?_⟩
    change (readCount (Text.countText slots) >>= fun n => pure _) = _
    rw [readCount_countText]
    rfl
  | leave args locals =>
    refine ⟨_, _, rfl, ?_⟩
    change (readCount _ >>= fun _ => readCount _ >>= fun _ => pure _) = _
    rw [readCount_countText, readCount_countText]
    rfl
  | _ => exact ⟨_, _, rfl, rfl⟩

theorem text_bare {op : Op} {c : Char} (member : c ∈ op.text.toList) :
    c = ' ' ∨ Text.isBlank c = false ∧ c ≠ '#' := by
  rw [text, String.toList_intercalate] at member
  rcases Text.mem_intercalate member with blank | ⟨word, inside, found⟩
  · exact .inl blank
  · obtain ⟨name, named, rfl⟩ := List.mem_map.mp inside
    have solid := op.words_solid name named
    exact .inr ⟨solid.unbroken c found, fun sign => solid.uncommented (sign ▸ found)⟩

end Op

namespace Trace

theorem pieceWords_text (op : Op) : pieceWords op.text.toList = op.words := by
  have bare : '#' ∉ op.text.toList := fun sign => by
    rcases op.text_bare sign with blank | ⟨-, other⟩
    · exact absurd blank (by decide)
    · exact other rfl
  rw [pieceWords_eq, code_of_bare bare, Op.text, String.toList_intercalate]
  have joint : " ".toList = [' '] := rfl
  rw [joint, Text.words_intercalate]
  · simp
  · simpa using op.words_solid

theorem pieceOp_text (op : Op) : pieceOp op.text.toList = .ok (some op.readBack) := by
  obtain ⟨mnemonic, operands, parts, read⟩ := op.ofWords_words
  rw [pieceOp, pieceWords_text, parts]
  change (Op.ofWords mnemonic operands).map some = _
  rw [read]
  rfl

theorem readLines_texts (number : Nat) (ops : List Op) :
    readLines number (ops.map fun op => op.text.toList) =
      .ok ((ops.zipIdx number).map fun entry => ⟨entry.1.readBack, entry.2⟩) := by
  induction ops generalizing number with
  | nil => rfl
  | cons op rest ih =>
    rw [List.map_cons, readLines_accepted (pieceOp_text op), ih, contribution, pieceOp_text]
    simp [Except.map]

theorem pieces_text {ops : List Op} (nonempty : ops ≠ []) :
    pieces (text ops) = ops.map fun op => op.text.toList := by
  have uncut (op : Op) : '\n' ∉ op.text.toList := fun feed => by
    rcases op.text_bare feed with blank | ⟨filled, -⟩
    · exact absurd blank (by decide)
    · exact absurd filled (by decide)
  have joint : "\n".toList = ['\n'] := rfl
  rw [pieces, text, String.toList_intercalate, joint, List.splitOn_intercalate _ (by simp [uncut])
    (by simpa using nonempty), List.map_map]
  rfl

theorem parse_text (ops : List Op) : parse (text ops) = .ok (ofOps (ops.map Op.readBack)) := by
  by_cases empty : ops = []
  · rw [empty]
    rfl
  · rw [parse_ok_iff, pieces_text empty, readLines_texts, ofOps, List.zipIdx_map, List.map_map]
    rfl

theorem ofOps_ops (ops : List Op) : (ofOps ops).ops.map (·.op) = ops := by
  simp [ofOps, Function.comp_def]

theorem map_readBack {ops : List Op} (valued : ∀ v, .push v ∈ ops → v.isNaN = false) :
    ops.map Op.readBack = ops := by
  have same : ∀ op ∈ ops, op.readBack = op := fun op member =>
    Op.readBack_of_valued fun v pushed => valued v (pushed ▸ member)
  simpa using List.map_congr_left same

theorem ofOps_agrees (f : Op → Op) (ops : List Op) :
    (ofOps (ops.map f)).agrees (ofOps ops) = ops.all fun op => (f op).agrees op := by
  have numbered : ((ops.zipIdx 1).map Prod.fst).all (fun op => (f op).agrees op) =
      ops.all fun op => (f op).agrees op := by rw [List.zipIdx_map_fst]
  rw [List.all_map] at numbered
  rw [← numbered, agrees, ofOps, ofOps, List.zipIdx_map, List.map_map, List.zip_map', List.all_map]
  simp [Function.comp_def]

/-- A trace that is written out and read again agrees with itself unless it pushes a NaN, which equals
nothing. -/
theorem roundTrips_iff (t : Trace) :
    t.roundTrips = true ↔ ∀ v, .push v ∈ t.ops.map (·.op) → v.isNaN = false := by
  simp only [roundTrips, parse_text, ofOps_agrees, List.all_eq_true, Op.readBack_agrees]
  exact ⟨fun all v pushed => all _ pushed v rfl, fun valued op member v pushed => valued v (pushed ▸ member)⟩

/-- Operations that push values other than NaN come back from their text as the trace of the same
operations, bit for bit. An accepted listing that is written out and read again has the same operations,
but for a pushed NaN: whatever its pattern, it comes back as the one that text names. -/
theorem trace_text_read_back :
    (∀ ops : List Op, (∀ v, .push v ∈ ops → v.isNaN = false) → parse (text ops) = .ok (ofOps ops)) ∧
    ∀ source t, parse source = .ok t → ∃ again, parse (text (t.ops.map (·.op))) = .ok again ∧
      again.ops.map (·.op) = t.ops.map (·.op.readBack) ∧
      ((∀ v, .push v ∈ t.ops.map (·.op) → v.isNaN = false) →
        again.ops.map (·.op) = t.ops.map (·.op)) := by
  refine ⟨fun ops valued => ?_, fun source t _ => ⟨_, parse_text _, ?_, fun valued => ?_⟩⟩
  · rw [parse_text, map_readBack valued]
  · rw [ofOps_ops, List.map_map]
    rfl
  · rw [ofOps_ops, map_readBack valued]

theorem extreme_values_read_back :
    parse ("push -0\npush -inf\nleave 18446744073709551615 0\n" ++
        "push 0.000000000000000000000000000000000000000000001") =
      .ok (ofOps [.push ⟨0x80000000⟩, .push ⟨0xFF800000⟩, .leave 0xFFFFFFFFFFFFFFFF 0, .push ⟨1⟩]) := by
  refine Eq.trans (congrArg parse ?written) (trace_text_read_back.1 _ fun v pushed => ?_)
  case written => decide +kernel
  simp only [List.mem_cons, Op.push.injEq, reduceCtorEq, List.not_mem_nil, or_false, false_or] at pushed
  rcases pushed with rfl | rfl | rfl <;> decide

/-- The text of a NaN does not tell its sign. -/
theorem nan_sign_not_read_back :
    ∃ t again, parse "push -nan" = .ok t ∧ parse (text (t.ops.map (·.op))) = .ok again ∧
      t.ops.map (·.op) = [.push ⟨0xFFC00000⟩] ∧ again.ops.map (·.op) = [.push ⟨0x7FC00000⟩] ∧
      again.ops.map (·.op) ≠ t.ops.map (·.op) :=
  ⟨⟨[⟨.push ⟨0xFFC00000⟩, 1⟩]⟩, ⟨[⟨.push ⟨0x7FC00000⟩, 1⟩]⟩, by decide +kernel⟩

end Trace
end StackMachine
