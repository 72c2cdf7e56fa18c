import Mathlib
import StackMachine.View.TraceView
import StackMachine.Proofs.Listing

/-! Two ways to cut a line. The reader of a listing takes the words between blanks; the trace pane cuts behind
every blank, and draws the first piece as a mnemonic and the others as operands. Without their blanks the pieces
are the words, so the two agree on a line that starts with its mnemonic. On an indented line the first piece is
the first blank, and the mnemonic is drawn among the operands. -/
namespace StackMachine

namespace Text

variable {seen text piece : List Char}

def indented (text : List Char) : Bool := text.head?.any isBlank

def trimmed (piece : List Char) : List Char := piece.rdropWhile isBlank

theorem trimmed_reverse (unbroken : ∀ c ∈ seen, isBlank c = false) : trimmed seen.reverse = seen.reverse := by
  refine List.rdropWhile_eq_self_iff.mpr fun filled => ?_
  exact ne_true_of_eq_false (unbroken _ (List.mem_reverse.mp (List.getLast_mem filled)))

theorem trimmed_snoc {c : Char} (blank : isBlank c = true) (piece : List Char) :
    trimmed (piece ++ [c]) = trimmed piece := List.rdropWhile_concat_pos _ _ _ blank

def trimmedWords (pieces : List (List Char)) : List (List Char) := (pieces.map trimmed).filter (· ≠ [])

theorem trimmedWords_cons (piece : List Char) (pieces : List (List Char)) :
    trimmedWords (piece :: pieces) =
      if trimmed piece = [] then trimmedWords pieces else trimmed piece :: trimmedWords pieces := by
  rw [trimmedWords, List.map_cons, List.filter_cons]
  split_ifs <;> simp_all [trimmedWords]

/-- Cut behind every blank and trimmed, a text gives its words. -/
theorem trimmedWords_blankPiecesFrom (unbroken : ∀ c ∈ seen, isBlank c = false) (text : List Char) :
    trimmedWords (blankPiecesFrom seen text) = wordsFrom seen text := by
  induction text generalizing seen with
  | nil =>
    rw [blankPiecesFrom, wordsFrom]
    by_cases empty : seen = []
    · simp [empty, trimmedWords]
    · simp [empty, trimmedWords, trimmed_reverse unbroken]
  | cons c rest ih =>
    rw [blankPiecesFrom, wordsFrom]
    by_cases blank : isBlank c = true
    · have later := @ih [] (by simp)
      rw [if_pos blank, if_pos blank, trimmedWords_cons, List.reverse_cons, trimmed_snoc blank,
        trimmed_reverse unbroken, later]
      cases seen <;> simp
    · rw [if_neg blank, if_neg blank, ih (List.forall_mem_cons.mpr ⟨Bool.not_eq_true _ ▸ blank, unbroken⟩)]

theorem trimmedWords_blankPieces (text : List Char) : trimmedWords (blankPieces text) = words text :=
  trimmedWords_blankPiecesFrom (by simp) text

theorem ne_nil_of_mem_blankPiecesFrom (member : piece ∈ blankPiecesFrom seen text) : piece ≠ [] := by
  induction text generalizing seen with
  | nil => cases seen <;> simp_all [blankPiecesFrom]
  | cons c rest ih =>
    rw [blankPiecesFrom] at member
    split_ifs at member with blank
    · rcases List.mem_cons.mp member with rfl | later
      · simp
      · exact ih later
    · exact ih member

theorem blankPieces_unindented {word : List Char} {rest : List (List Char)} (cut : words text = word :: rest)
    (starts : indented text = false) :
    ∃ first later, blankPieces text = first :: later ∧ trimmed first = word ∧ trimmedWords later = rest := by
  rw [← trimmedWords_blankPieces] at cut
  cases pieces : blankPieces text with
  | nil => rw [pieces] at cut; cases cut
  | cons first later =>
    have filled : first ≠ [] := ne_nil_of_mem_blankPiecesFrom (pieces ▸ List.mem_cons_self)
    have head : first.head? = text.head? := by
      rw [← blankPieces_flatten text, pieces, List.flatten_cons, List.head?_append_of_ne_nil _ filled]
    -- The first piece has a character that is no blank, so that trimming leaves something of it.
    have kept : trimmed first ≠ [] := by
      intro empty
      have blank := List.rdropWhile_eq_nil_iff.mp empty (first.head filled) (List.head_mem filled)
      rw [indented, ← head, List.head?_eq_some_head filled, Option.any_some, blank] at starts
      cases starts
    rw [pieces, trimmedWords_cons, if_neg kept] at cut
    exact ⟨first, later, rfl, List.cons.inj cut⟩

theorem blankPieces_indented {word : List Char} {rest : List (List Char)} (cut : words text = word :: rest)
    (starts : indented text = true) :
    ∃ c later, isBlank c = true ∧ blankPieces text = [c] :: later ∧ trimmedWords later = word :: rest := by
  cases text with
  | nil => cases starts
  | cons c back =>
    have blank : isBlank c = true := starts
    have pieces : blankPieces (c :: back) = [c] :: blankPieces back := by
      rw [blankPieces, blankPiecesFrom, if_pos blank]
      rfl
    refine ⟨c, blankPieces back, blank, pieces, ?_⟩
    rw [trimmedWords_blankPieces, ← cut]
    exact (words_blank blank [] back).symm

end Text

namespace Op

variable {op : Op} {mnemonic : String}

theorem words_head?_of_bind {α : Type} {x : Except OpError α} {f : α → Except OpError Op}
    (read : (x >>= f) = .ok op)
    (named : ∀ a, f a = .ok op → op.words.head? = some mnemonic) : op.words.head? = some mnemonic := by
  cases x with
  | error e => cases read
  | ok a => exact named a read

theorem words_head?_of_ofWords {operands : List String} (read : ofWords mnemonic operands = .ok op) :
    op.words.head? = some mnemonic := by
  rw [ofWords] at read
  split_ifs at read
  rw [ofOperands.eq_def] at read
  split at read
  case h_1 | h_10 | h_11 | h_14 | h_15 =>
    refine words_head?_of_bind read fun operand made => ?_
    cases made
    rfl
  case h_18 =>
    refine words_head?_of_bind read fun args rest => words_head?_of_bind rest fun locals made => ?_
    cases made
    rfl
  all_goals cases read
  all_goals rfl

end Op

namespace View

open Text

variable {line first : List Char} {later : List (List Char)}

/-- The texts of the pieces of a line that are drawn in a style. -/
def drawnIn (style : Style) (line : List Char) : List (List Char) :=
  ((highlight line).filter (·.style = style)).map (·.text)

theorem texts_filter (texts : List (List Char)) (own style : Style) :
    ((texts.map fun text => (⟨text, own⟩ : Span)).filter (·.style = style)).map (·.text) =
      if own = style then texts else [] := by
  rw [List.filter_map, List.map_map]
  split_ifs with same <;> simp [Function.comp_def, same]

theorem drawnIn_of_cut (cut : blankPieces (Trace.code line) = first :: later) :
    drawnIn mnemonicStyle line = [first] ∧ drawnIn operandStyle line = later ∧
      drawnIn commentStyle line = [Trace.comment line].filter (· ≠ []) := by
  have comment : commentSpans (Trace.comment line) =
      ([Trace.comment line].filter (· ≠ [])).map fun text => ⟨text, commentStyle⟩ := by
    rw [commentSpans]
    cases Trace.comment line <;> rfl
  have code : codeSpans (first :: later) =
      [first].map (fun text => ⟨text, mnemonicStyle⟩) ++ later.map fun text => ⟨text, operandStyle⟩ := rfl
  have drawn (style : Style) : drawnIn style line =
      (if mnemonicStyle = style then [first] else []) ++ (if operandStyle = style then later else []) ++
        if commentStyle = style then [Trace.comment line].filter (· ≠ []) else [] := by
    rw [drawnIn, highlight, cut, code, comment]
    simp only [List.filter_append, List.map_append, texts_filter]
  obtain ⟨apart, other, another⟩ :
      mnemonicStyle ≠ operandStyle ∧ mnemonicStyle ≠ commentStyle ∧ operandStyle ≠ commentStyle := by decide
  simp [drawn, apart, apart.symm, other, other.symm, another, another.symm]

end View

namespace Trace

open Text View

variable {op : Op}

/-- How a line that holds an operation is read: the words of its code are a mnemonic and operands, and a comment
sign ends the code. -/
structure Reading (op : Op) where
  code : List Char
  comment : List Char
  mnemonic : List Char
  operands : List (List Char)
  bare : '#' ∉ code
  starts : comment = [] ∨ comment.head? = some '#'
  cut : words code = mnemonic :: operands
  read : Op.ofWords (.ofList mnemonic) (operands.map .ofList) = .ok op

namespace Reading

def line (r : Reading op) : List Char := r.code ++ r.comment

theorem code_line (r : Reading op) : Trace.code r.line = r.code := by
  rw [line, code_append, if_neg r.bare, code_of_sign r.starts, List.append_nil]

theorem comment_line (r : Reading op) : Trace.comment r.line = r.comment := by
  have whole : Trace.code r.line ++ Trace.comment r.line = r.line := List.takeWhile_append_dropWhile
  rw [code_line] at whole
  exact List.append_cancel_left whole

theorem indented_code (r : Reading op) : indented r.code = indented r.line := by
  have filled : r.code ≠ [] := by
    intro empty
    have cut := r.cut
    rw [empty] at cut
    cases cut
  rw [indented, indented, line, List.head?_append_of_ne_nil _ filled]

theorem readLine_recommented (r : Reading op) {other : List Char} (sign : other = [] ∨ other.head? = some '#') :
    readLine (r.code ++ other) = .ok (some op) := by
  rw [readLine_eq, pieceOp, pieceWords_comment sign, pieceWords_eq, code_of_bare r.bare, r.cut, List.map_cons]
  simp only [r.read]
  rfl

theorem mnemonic_filled (r : Reading op) : r.mnemonic ≠ [] := by
  have member : r.mnemonic ∈ words r.code := by simp [r.cut]
  rw [← trimmedWords_blankPieces, trimmedWords, List.mem_filter] at member
  exact of_decide_eq_true member.2

theorem pieces (r : Reading op) :
    ∃ first later, blankPieces (Trace.code r.line) = first :: later ∧
      (indented r.line = false ∧ trimmed first = r.mnemonic ∧ trimmedWords later = r.operands ∨
        indented r.line = true ∧ (∃ c, isBlank c = true ∧ first = [c]) ∧
          trimmedWords later = r.mnemonic :: r.operands) := by
  rw [code_line, ← indented_code]
  cases starts : indented r.code with
  | false =>
    obtain ⟨first, later, cut, words⟩ := blankPieces_unindented r.cut starts
    exact ⟨first, later, cut, .inl ⟨rfl, words⟩⟩
  | true =>
    obtain ⟨c, later, blank, cut, words⟩ := blankPieces_indented r.cut starts
    exact ⟨[c], later, cut, .inr ⟨rfl, ⟨c, blank, rfl⟩, words⟩⟩

end Reading

theorem exists_reading {line : List Char} (held : pieceOp line = .ok (some op)) :
    ∃ r : Reading op, r.line = line := by
  have bare : '#' ∉ code line := fun sign => by simpa using List.mem_takeWhile_imp sign
  have starts : comment line = [] ∨ (comment line).head? = some '#' := by
    have stops := List.head?_dropWhile_not (fun c : Char => decide (c ≠ '#')) line
    cases hidden : comment line with
    | nil => exact .inl rfl
    | cons c rest =>
      rw [comment] at hidden
      rw [hidden] at stops
      exact .inr (by simpa using stops)
  rw [pieceOp, pieceWords_eq] at held
  cases cut : words (code line) with
  | nil => rw [cut] at held; cases held
  | cons mnemonic operands =>
    rw [cut] at held
    cases read : Op.ofWords (.ofList mnemonic) (operands.map .ofList) with
    | error e => simp [read, Except.map] at held
    | ok made =>
      simp only [List.map_cons, read, Except.map] at held
      cases held
      exact ⟨⟨_, _, mnemonic, operands, bare, starts, cut, read⟩, List.takeWhile_append_dropWhile⟩

/-- A line that holds an operation, in the trace pane. One piece is drawn as the mnemonic: up to the blanks at its
end this is the mnemonic that the operation was read by exactly if the line does not start with a blank, and
otherwise it is that blank. All other words of the code are drawn as operands, which takes in the mnemonic of an
indented line. What is drawn as the comment is what reading the line does not look at. -/
theorem drawn_as_read_iff_unindented {source : String} {t : Trace} {traced : TracedOp}
    (accepted : parse source = .ok t) (listed : traced ∈ t.ops) :
    ∃ r : Reading traced.op,
      0 < traced.line ∧ (Text.lines source.toList)[traced.line - 1]? = some r.line ∧
      traced.op.words.head? = some (.ofList r.mnemonic) ∧
      (∃ first, drawnIn mnemonicStyle r.line = [first] ∧
        (trimmed first = r.mnemonic ↔ indented r.line = false) ∧
        (indented r.line = true → ∃ c, isBlank c = true ∧ first = [c])) ∧
      trimmedWords (drawnIn operandStyle r.line) =
        (if indented r.line then r.mnemonic :: r.operands else r.operands) ∧
      drawnIn commentStyle r.line = [r.comment].filter (· ≠ []) ∧
      ∀ other, (other = [] ∨ other.head? = some '#') →
        readLine (r.code ++ other) = .ok (some traced.op) := by
  obtain ⟨positive, line, found, held⟩ := parse_held accepted listed
  obtain ⟨r, rfl⟩ := exists_reading held
  obtain ⟨first, later, cut, drawn⟩ := r.pieces
  obtain ⟨mnemonic, operands, comment⟩ := drawnIn_of_cut cut
  rw [r.comment_line] at comment
  refine ⟨r, positive, found, Op.words_head?_of_ofWords r.read, ⟨first, mnemonic, ?_⟩, ?_, comment,
    fun other sign => r.readLine_recommented sign⟩
  · obtain ⟨starts, word, -⟩ | ⟨starts, ⟨c, blank, rfl⟩, -⟩ := drawn
    · simp [starts, word]
    · have empty : trimmed [c] = [] := trimmed_snoc blank []
      simp [starts, empty, r.mnemonic_filled.symm, blank]
  · rw [operands]
    obtain ⟨starts, -, words⟩ | ⟨starts, -, words⟩ := drawn
    · rw [if_neg (by simp [starts]), words]
    · rw [if_pos starts, words]

/-- A line without a margin, with two blanks before its operand and a comment right behind it. -/
theorem unindented_line_drawn_as_read :
    let line := "push  2# two".toList
    parse "\npush  2# two\r\n" = .ok ⟨[⟨.push (.ofNat 2), 2⟩]⟩ ∧
      ∃ r : Reading (.push (.ofNat 2)), r.line = line ∧
        ∃ first, drawnIn mnemonicStyle line = [first] ∧ trimmed first = r.mnemonic := by
  intro line
  have accepted : parse "\npush  2# two\r\n" = .ok ⟨[⟨.push (.ofNat 2), 2⟩]⟩ := by decide +kernel
  obtain ⟨r, -, found, -, ⟨first, drawn, same, -⟩, -⟩ :=
    drawn_as_read_iff_unindented accepted (List.mem_singleton.mpr rfl)
  have text : r.line = line := by
    have second : (Text.lines "\npush  2# two\r\n".toList)[2 - 1]? = some line := by decide +kernel
    exact Option.some.inj (found.symm.trans second)
  rw [text] at drawn same
  exact ⟨accepted, r, text, first, drawn, same.mpr (by decide +kernel)⟩

/-- On an indented line a blank is drawn as the mnemonic, and the mnemonic as an operand. -/
theorem indented_mnemonic_drawn_as_operand :
    let line := " push 1 # x".toList
    parse " push 1 # x" = .ok ⟨[⟨.push (.ofNat 1), 1⟩]⟩ ∧ Text.lines " push 1 # x".toList = [line] ∧
      drawnIn mnemonicStyle line = [[' ']] ∧ drawnIn operandStyle line = ["push ".toList, "1 ".toList] := by
  decide +kernel

end Trace
end StackMachine
