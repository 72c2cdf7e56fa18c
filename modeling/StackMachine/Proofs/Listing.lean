import Mathlib
import StackMachine.Trace
import StackMachine.Proofs.Cutting
import StackMachine.Proofs.Numbered

/-! Listings are read line by line. Whatever the lines end with, reading a listing is reading the pieces
between its line feeds, each by its words before the first comment sign: the words of a piece make an
operation, no words make none, and the first piece that is refused is the error. So a listing is read
as its parts are, with the lines of the second part counted on, and changes of layout are not seen. -/
namespace StackMachine

def TracedOp.lowered (lines : Nat) (t : TracedOp) : TracedOp := { t with line := t.line + lines }

def TraceError.lowered (lines : Nat) (e : TraceError) : TraceError := { e with line := e.line + lines }

namespace Trace

variable {number : Nat} {lines : List (List Char)}

def pieces (source : String) : List (List Char) := source.toList.splitOn '\n'

/-- The words of a piece: what comes before the first comment sign, parted at blanks. -/
def pieceWords (piece : List Char) : List String :=
  (((piece.takeWhile (· ≠ '#')).splitOnP Text.isBlank).filter (· ≠ [])).map String.ofList

def pieceOp (piece : List Char) : Except OpError (Option Op) :=
  match pieceWords piece with
  | [] => .ok none
  | mnemonic :: operands => (Op.ofWords mnemonic operands).map some

def Accepted (piece : List Char) : Prop := ∃ held, pieceOp piece = .ok held

def contribution (entry : List Char × Nat) : Option TracedOp :=
  match pieceOp entry.1 with
  | .ok (some op) => some ⟨op, entry.2⟩
  | _ => none

theorem pieceWords_eq (piece : List Char) :
    pieceWords piece = (Text.words (code piece)).map String.ofList := by
  rw [pieceWords, Text.words_eq]
  rfl

theorem readLine_eq (line : List Char) : readLine line = pieceOp line := by
  rw [readLine, pieceOp, ← pieceWords_eq]
  cases pieceWords line with
  | nil => rfl
  | cons mnemonic operands =>
    simp only []
    cases Op.ofWords mnemonic operands <;> rfl

theorem code_append (front back : List Char) :
    code (front ++ back) = if '#' ∈ front then code front else front ++ code back := by
  induction front with
  | nil => simp
  | cons c rest ih =>
    by_cases sign : c = '#'
    · simp [code, sign]
    · simp only [code, List.cons_append, List.mem_cons, Ne.symm sign, false_or] at ih ⊢
      rw [List.takeWhile_cons_of_pos (by simpa using sign), List.takeWhile_cons_of_pos (by simpa using sign),
        ih]
      split <;> rfl

theorem code_of_bare {line : List Char} (bare : '#' ∉ line) : code line = line :=
  List.takeWhile_eq_self_iff.mpr fun c member => by
    simpa using fun same : c = '#' => bare (same ▸ member)

theorem code_of_sign {comment : List Char} (starts : comment = [] ∨ comment.head? = some '#') :
    code comment = [] := by
  rcases starts with rfl | sign
  · rfl
  · cases comment with
    | nil => rfl
    | cons c rest => simp_all [code]

theorem pieceWords_comment {comment : List Char} (starts : comment = [] ∨ comment.head? = some '#')
    (line : List Char) : pieceWords (line ++ comment) = pieceWords line := by
  rw [pieceWords_eq, pieceWords_eq, code_append, code_of_sign starts]
  split
  case isTrue => rfl
  case isFalse bare => rw [code_of_bare bare, List.append_nil]

section Blanks

variable {blanks : List Char} (blank : ∀ c ∈ blanks, Text.isBlank c = true)
include blank

theorem code_blanks_append (back : List Char) : code (blanks ++ back) = blanks ++ code back := by
  rw [code_append, if_neg]
  intro sign
  exact absurd (blank _ sign) (by decide)

theorem pieceWords_indent (line : List Char) : pieceWords (blanks ++ line) = pieceWords line := by
  rw [pieceWords_eq, pieceWords_eq, code_blanks_append blank, Text.words_blanks_append blank]

theorem pieceWords_blanks (filled : blanks ≠ []) (front back : List Char) :
    pieceWords (front ++ blanks ++ back) =
      if '#' ∈ front then pieceWords front else pieceWords front ++ pieceWords back := by
  simp only [pieceWords_eq]
  rw [List.append_assoc, code_append, code_blanks_append blank]
  split
  case isTrue => rfl
  case isFalse bare =>
    rw [← List.append_assoc, Text.words_append_blanks blank filled, code_of_bare bare, List.map_append]

theorem pieceWords_margin (line : List Char) : pieceWords (line ++ blanks) = pieceWords line := by
  by_cases empty : blanks = []
  · rw [empty, List.append_nil]
  · simpa [pieceWords] using pieceWords_blanks blank empty line []

end Blanks

theorem readLine_carriage (line : List Char) : readLine (line ++ ['\r']) = readLine line := by
  have blank : ∀ c ∈ ['\r'], Text.isBlank c = true := by simp [Text.isBlank]
  simp only [readLine_eq, pieceOp, pieceWords_margin blank]

theorem readLines_cons_congr {line line' : List Char} {rest rest' : List (List Char)}
    (first : readLine line = readLine line')
    (later : ∀ number, readLines number rest = readLines number rest') :
    readLines number (line :: rest) = readLines number (line' :: rest') := by
  rw [readLines, readLines, first, later]

/-- Lines that are read one character at a time are the pieces between the line feeds, as far as
their words go. -/
theorem readLines_linesFrom (number : Nat) (seen text : List Char) :
    readLines number (Text.linesFrom seen text) =
      readLines number (text.splitOnPPrepend (· == '\n') seen) := by
  induction text generalizing number seen with
  | nil =>
    cases seen with
    | nil => rfl
    | cons c before => rfl
  | cons c rest ih =>
    unfold Text.linesFrom
    by_cases feed : c = '\n'
    · rw [if_pos feed, List.splitOnPPrepend_cons_pos (by simpa using feed)]
      refine readLines_cons_congr ?_ fun number => ?_
      · -- A carriage return before the line feed is a blank at the end of the piece.
        split
        · rw [List.reverse_cons, readLine_carriage]
        · rfl
      · rw [ih, List.splitOnPPrepend_nil_right]
    · rw [if_neg feed, List.splitOnPPrepend_cons_neg (by simpa using feed), ih]

theorem parse_eq (source : String) :
    parse source = (readLines 1 (pieces source)).map Trace.mk := by
  have same : readLines 1 (Text.lines source.toList) = readLines 1 (pieces source) :=
    readLines_linesFrom 1 [] source.toList
  rw [parse, same]
  cases readLines 1 (pieces source) <;> rfl

variable {line : List Char} {rest front back : List (List Char)} {ops : List TracedOp} {e : TraceError}

theorem readLines_refused {cause : OpError} (refused : pieceOp line = .error cause) :
    readLines number (line :: rest) = .error ⟨number, cause⟩ := by
  rw [readLines, readLine_eq, refused]

theorem readLines_accepted {held : Option Op} (accepted : pieceOp line = .ok held) :
    readLines number (line :: rest) =
      (readLines (number + 1) rest).map ((contribution (line, number)).toList ++ ·) := by
  rw [readLines, readLine_eq, contribution, accepted]
  cases held with
  | none => cases readLines (number + 1) rest <;> rfl
  | some op => cases readLines (number + 1) rest <;> rfl

theorem accepted_cases (line : List Char) :
    (∃ held, pieceOp line = .ok held) ∨ ∃ cause, pieceOp line = .error cause := by
  cases pieceOp line with
  | ok held => exact .inl ⟨held, rfl⟩
  | error cause => exact .inr ⟨cause, rfl⟩

theorem readLines_ok_iff : readLines number lines = .ok ops ↔
    (∀ line ∈ lines, Accepted line) ∧ ops = (lines.zipIdx number).filterMap contribution := by
  induction lines generalizing number ops with
  | nil => simp [readLines, eq_comm]
  | cons line rest ih =>
    obtain ⟨held, accepted⟩ | ⟨cause, refused⟩ := accepted_cases line
    · have first : Accepted line := ⟨held, accepted⟩
      have added : ((line :: rest).zipIdx number).filterMap contribution =
          (contribution (line, number)).toList ++ (rest.zipIdx (number + 1)).filterMap contribution := by
        rw [List.zipIdx_cons, List.filterMap_cons]
        cases contribution (line, number) <;> rfl
      rw [readLines_accepted accepted, added, List.forall_mem_cons]
      constructor
      · intro read
        cases later : readLines (number + 1) rest with
        | error e => simp [later, Except.map] at read
        | ok tail =>
          obtain ⟨all, rfl⟩ := ih.mp later
          simp only [later, Except.map, Except.ok.injEq] at read
          exact ⟨⟨first, all⟩, read.symm⟩
      · rintro ⟨⟨-, all⟩, rfl⟩
        rw [ih.mpr ⟨all, rfl⟩]
        rfl
    · have first : ¬Accepted line := fun ⟨held, accepted⟩ => by simp [refused] at accepted
      simp [readLines_refused refused, first]

theorem readLines_error_iff : readLines number lines = .error e ↔
    ∃ k line, lines[k]? = some line ∧ pieceOp line = .error e.cause ∧ e.line = number + k ∧
      ∀ j < k, ∀ earlier, lines[j]? = some earlier → Accepted earlier := by
  induction lines generalizing number with
  | nil => simp [readLines]
  | cons line rest ih =>
    obtain ⟨held, accepted⟩ | ⟨cause, refused⟩ := accepted_cases line
    · have later : readLines number (line :: rest) = .error e ↔
          readLines (number + 1) rest = .error e := by
        rw [readLines_accepted accepted]
        cases readLines (number + 1) rest <;> simp [Except.map]
      rw [later, ih]
      constructor
      · rintro ⟨k, found, place, causes, counted, before⟩
        refine ⟨k + 1, found, place, causes, by omega, fun j early earlier here => ?_⟩
        cases j with
        | zero =>
          cases here
          exact ⟨held, accepted⟩
        | succ j => exact before j (by omega) earlier here
      · rintro ⟨k, found, place, causes, counted, before⟩
        cases k with
        | zero =>
          cases place
          simp [accepted] at causes
        | succ k =>
          refine ⟨k, found, place, causes, by omega, fun j early earlier here => ?_⟩
          exact before (j + 1) (by omega) earlier here
    · rw [readLines_refused refused]
      constructor
      · intro read
        cases read
        exact ⟨0, line, rfl, refused, rfl, fun j early => absurd early (Nat.not_lt_zero j)⟩
      · rintro ⟨k, found, place, causes, counted, before⟩
        cases k with
        | zero =>
          cases place
          rw [refused] at causes
          cases causes
          rw [Nat.add_zero] at counted
          rw [← counted]
        | succ k =>
          obtain ⟨held, accepted⟩ := before 0 (by omega) line rfl
          rw [refused] at accepted
          cases accepted

theorem readLines_append (number : Nat) (front back : List (List Char)) :
    readLines number (front ++ back) =
      (readLines number front).bind fun ops =>
        (readLines (number + front.length) back).map (ops ++ ·) := by
  induction front generalizing number with
  | nil => cases read : readLines number back <;> simp [readLines, read, Except.bind, Except.map]
  | cons line rest ih =>
    obtain ⟨held, accepted⟩ | ⟨cause, refused⟩ := accepted_cases line
    · have place : number + (line :: rest).length = number + 1 + rest.length := by
        rw [List.length_cons]
        omega
      rw [List.cons_append, readLines_accepted accepted, readLines_accepted accepted, ih, place]
      cases readLines (number + 1) rest with
      | error e => rfl
      | ok ops =>
        cases readLines (number + 1 + rest.length) back <;> simp [Except.bind, Except.map]
    · rw [List.cons_append, readLines_refused refused, readLines_refused refused]
      rfl

theorem readLines_lowered (number shift : Nat) (lines : List (List Char)) :
    readLines (number + shift) lines =
      match readLines number lines with
      | .ok ops => .ok (ops.map (·.lowered shift))
      | .error e => .error (e.lowered shift) := by
  induction lines generalizing number with
  | nil => rfl
  | cons line rest ih =>
    obtain ⟨held, accepted⟩ | ⟨cause, refused⟩ := accepted_cases line
    · have added : (contribution (line, number + shift)).toList =
          (contribution (line, number)).toList.map (·.lowered shift) := by
        simp only [contribution, accepted]
        cases held <;> rfl
      rw [readLines_accepted accepted, readLines_accepted accepted, added, Nat.add_right_comm, ih]
      cases readLines (number + 1) rest <;> simp [Except.map]
    · rw [readLines_refused refused, readLines_refused refused]
      rfl

theorem contribution_eq_some {entry : List Char × Nat} {t : TracedOp} (added : contribution entry = some t) :
    pieceOp entry.1 = .ok (some t.op) ∧ t.line = entry.2 := by
  rw [contribution] at added
  split at added
  case h_1 op held =>
    cases added
    exact ⟨held, rfl⟩
  case h_2 => cases added

theorem contribution_line {entry : List Char × Nat} {t : TracedOp} (added : contribution entry = some t) :
    t.line = entry.2 := (contribution_eq_some added).2

theorem readLines_increasing (read : readLines number lines = .ok ops) :
    ops.Pairwise fun a b => a.line < b.line := by
  obtain ⟨-, rfl⟩ := readLines_ok_iff.mp read
  refine (zipIdx_increasing lines number).filterMap contribution fun a b order t added u later => ?_
  rw [contribution_line added, contribution_line later]
  exact order

variable {source : String} {t : Trace}

theorem parse_ok_iff : parse source = .ok t ↔ readLines 1 (pieces source) = .ok t.ops := by
  rw [parse_eq]
  cases readLines 1 (pieces source) with
  | error e => simp [Except.map]
  | ok ops => cases t; simp [Except.map]

theorem parse_held (accepted : parse source = .ok t) {traced : TracedOp} (listed : traced ∈ t.ops) :
    0 < traced.line ∧ ∃ line, (Text.lines source.toList)[traced.line - 1]? = some line ∧
      pieceOp line = .ok (some traced.op) := by
  rw [parse] at accepted
  split at accepted
  case h_1 ops read =>
    cases accepted
    obtain ⟨-, rfl⟩ := readLines_ok_iff.mp read
    obtain ⟨⟨line, number⟩, numbered, added⟩ := List.mem_filterMap.mp listed
    obtain ⟨positive, found⟩ := List.mk_mem_zipIdx_iff_le_and_getElem?_sub.mp numbered
    obtain ⟨held, rfl⟩ := contribution_eq_some added
    exact ⟨positive, line, found, held⟩
  case h_2 => cases accepted

theorem parse_line (accepted : parse source = .ok t) {traced : TracedOp} (listed : traced ∈ t.ops) :
    0 < traced.line ∧ traced.line ≤ (Text.lines source.toList).length := by
  obtain ⟨positive, line, found, -⟩ := parse_held accepted listed
  have inside := (List.getElem?_eq_some_iff.mp found).1
  exact ⟨positive, by omega⟩

theorem parse_error_iff : parse source = .error e ↔ readLines 1 (pieces source) = .error e := by
  rw [parse_eq]
  cases readLines 1 (pieces source) <;> simp [Except.map]

theorem pieces_append (a b : String) : pieces (a ++ "\n" ++ b) = pieces a ++ pieces b := by
  have feed : "\n".toList = ['\n'] := rfl
  simp [pieces, String.toList_append, feed, List.splitOn_append_cons_self]

theorem pieces_length (source : String) : (pieces source).length = 1 + source.toList.count '\n' := by
  rw [pieces, Text.length_splitOn, Nat.add_comm]

theorem parse_append (a b : String) :
    parse (a ++ "\n" ++ b) =
      match parse a with
      | .error e => .error e
      | .ok front =>
          match parse b with
          | .error e => .error (e.lowered (1 + a.toList.count '\n'))
          | .ok back => .ok ⟨front.ops ++ back.ops.map (·.lowered (1 + a.toList.count '\n'))⟩ := by
  rw [parse_eq, parse_eq, parse_eq, pieces_append, readLines_append, pieces_length, readLines_lowered]
  cases readLines 1 (pieces a) with
  | error e => rfl
  | ok front => cases readLines 1 (pieces b) <;> rfl

theorem readLines_congr {lines' : List (List Char)}
    (same : lines.map pieceWords = lines'.map pieceWords) :
    readLines number lines = readLines number lines' := by
  induction lines generalizing number lines' with
  | nil =>
    rw [List.map_nil, eq_comm, List.map_eq_nil_iff] at same
    rw [same]
  | cons line rest ih =>
    obtain ⟨line', rest', rfl, first, later⟩ := List.map_eq_cons_iff.mp same.symm
    refine readLines_cons_congr ?_ fun number => ih later.symm
    simp only [readLine_eq, pieceOp, first]

def LineStart (front : List Char) : Prop := front = [] ∨ front.getLast? = some '\n'

def LineEnd (back : List Char) : Prop := back = [] ∨ back.head? = some '\n'

def Spacing (s : List Char) : Prop := ∀ c ∈ s, Text.isBlank c = true ∧ c ≠ '\n'

def Remark (s : List Char) : Prop := '\n' ∉ s ∧ (s = [] ∨ s.head? = some '#')

/-- Changes of layout: how a line ends, its margins, its comment, and what parts its words. -/
inductive Relaid : List Char → List Char → Prop
  | lineEnd (front back : List Char) : Relaid (front ++ '\n' :: back) (front ++ '\r' :: '\n' :: back)
  | indent {front blanks back : List Char} (starts : LineStart front) (spacing : Spacing blanks) :
      Relaid (front ++ back) (front ++ blanks ++ back)
  | trail {front blanks back : List Char} (ends : LineEnd back) (spacing : Spacing blanks) :
      Relaid (front ++ back) (front ++ blanks ++ back)
  | comment {front old new back : List Char} (ends : LineEnd back) (before : Remark old)
      (after : Remark new) : Relaid (front ++ old ++ back) (front ++ new ++ back)
  | between {front old new back : List Char} (before : Spacing old) (after : Spacing new)
      (filled : old ≠ []) (still : new ≠ []) : Relaid (front ++ old ++ back) (front ++ new ++ back)

theorem LineStart.last {front last : List Char} {earlier : List (List Char)} (starts : LineStart front)
    (ends : front.splitOn '\n' = earlier ++ [last]) : last = [] := by
  rcases starts with rfl | feed
  · rw [List.splitOn_nil] at ends
    change [] ++ [[]] = earlier ++ [last] at ends
    exact (List.cons.inj (List.append_inj' ends rfl).2).1.symm
  · obtain ⟨before, rfl⟩ := List.getLast?_eq_some_iff.mp feed
    rw [List.splitOn_append_cons_self, List.splitOn_nil] at ends
    exact (List.cons.inj (List.append_inj' ends rfl).2).1.symm

theorem LineEnd.first {back first : List Char} {later : List (List Char)} (ends : LineEnd back)
    (starts : back.splitOn '\n' = first :: later) : first = [] := by
  rcases ends with rfl | feed
  · rw [List.splitOn_nil] at starts
    exact (List.cons.inj starts).1.symm
  · obtain ⟨after, rfl⟩ := List.head?_eq_some_iff.mp feed
    rw [List.splitOn_cons_eq_if_modifyHead, if_pos (by simp)] at starts
    exact (List.cons.inj starts).1.symm

theorem Spacing.uncut {s : List Char} (spacing : Spacing s) : '\n' ∉ s :=
  fun feed => (spacing _ feed).2 rfl

theorem splitOn_words_congr (front back : List Char) {old new : List Char} (uncut : '\n' ∉ old)
    (still : '\n' ∉ new)
    (same : ∀ last first, (LineStart front → last = []) → (LineEnd back → first = []) →
      pieceWords (last ++ old ++ first) = pieceWords (last ++ new ++ first)) :
    ((front ++ old ++ back).splitOn '\n').map pieceWords =
      ((front ++ new ++ back).splitOn '\n').map pieceWords := by
  obtain ⟨earlier, last, endsFront⟩ := Text.splitOn_eq_concat '\n' front
  obtain ⟨first, later, startsBack⟩ := Text.splitOn_eq_cons '\n' back
  rw [Text.splitOn_inside uncut endsFront startsBack, Text.splitOn_inside still endsFront startsBack]
  simp only [List.map_append, List.map_cons]
  rw [same last first (fun starts => starts.last endsFront) fun ends => ends.first startsBack]

theorem splitOn_words_trail (front : List Char) {blanks back : List Char} (ends : LineEnd back)
    (spacing : Spacing blanks) : ((front ++ back).splitOn '\n').map pieceWords =
      ((front ++ blanks ++ back).splitOn '\n').map pieceWords := by
  have margin := splitOn_words_congr front back List.not_mem_nil spacing.uncut
    fun last first _ nothing => by
      rw [nothing ends, List.append_nil, List.append_nil, List.append_nil,
        pieceWords_margin fun c member => (spacing c member).1]
  simpa using margin

theorem Relaid.words {old new : List Char} (relaid : Relaid old new) :
    (old.splitOn '\n').map pieceWords = (new.splitOn '\n').map pieceWords := by
  cases relaid with
  | lineEnd front back =>
    have carriage : Spacing ['\r'] := by simp [Spacing, Text.isBlank]
    have ends : LineEnd ('\n' :: back) := .inr rfl
    simpa using splitOn_words_trail front ends carriage
  | @indent front blanks back starts spacing =>
    have margin := splitOn_words_congr front back List.not_mem_nil spacing.uncut
      fun last first nothing _ => by
        rw [nothing starts, List.nil_append, List.nil_append, List.nil_append,
          pieceWords_indent fun c member => (spacing c member).1]
    simpa using margin
  | trail ends spacing => exact splitOn_words_trail _ ends spacing
  | comment ends before after =>
    refine splitOn_words_congr _ _ before.1 after.1 fun last first _ nothing => ?_
    rw [nothing ends, List.append_nil, List.append_nil, pieceWords_comment before.2,
      pieceWords_comment after.2]
  | between before after some still =>
    refine splitOn_words_congr _ _ before.uncut after.uncut fun last first _ _ => ?_
    rw [pieceWords_blanks (fun c member => (before c member).1) some,
      pieceWords_blanks (fun c member => (after c member).1) still]

theorem words_of_relaid {old new : List Char} (relaid : Relation.EqvGen Relaid old new) :
    (old.splitOn '\n').map pieceWords = (new.splitOn '\n').map pieceWords := by
  induction relaid with
  | rel old new change => exact change.words
  | refl text => rfl
  | symm old new _ ih => exact ih.symm
  | trans old mid new _ _ first later => exact first.trans later

theorem parse_relaid {a b : String} (relaid : Relation.EqvGen Relaid a.toList b.toList) :
    parse a = parse b := by
  rw [parse_eq, parse_eq, pieces, pieces, readLines_congr (words_of_relaid relaid)]

/-- A listing is read line by line. It is a trace exactly if every piece between line feeds is accepted,
each with the operation of its words on its own line, in the order of the lines; and its error is that
of the first piece which is refused, on the line of that piece. A listing of two parts is read part by
part, the lines of the second counted on. Line ends, margins, comments and the blanks between words
make no difference, whatever is changed about them and wherever. -/
theorem listing_read_line_by_line :
    (∀ source t, parse source = .ok t ↔
      (∀ piece ∈ pieces source, Accepted piece) ∧
        t.ops = ((pieces source).zipIdx 1).filterMap contribution) ∧
    (∀ source t, parse source = .ok t → t.ops.Pairwise fun a b => a.line < b.line) ∧
    (∀ source e, parse source = .error e ↔
      ∃ k piece, (pieces source)[k]? = some piece ∧ pieceOp piece = .error e.cause ∧ e.line = 1 + k ∧
        ∀ j < k, ∀ earlier, (pieces source)[j]? = some earlier → Accepted earlier) ∧
    (∀ a b, parse (a ++ "\n" ++ b) =
      match parse a with
      | .error e => .error e
      | .ok front =>
          match parse b with
          | .error e => .error (e.lowered (1 + a.toList.count '\n'))
          | .ok back => .ok ⟨front.ops ++ back.ops.map (·.lowered (1 + a.toList.count '\n'))⟩) ∧
    (∀ a b : String, Relation.EqvGen Relaid a.toList b.toList → parse a = parse b) := by
  refine ⟨fun source t => ?_, fun source t read => ?_, fun source e => ?_, parse_append,
    fun a b relaid => parse_relaid relaid⟩
  · rw [parse_ok_iff, readLines_ok_iff]
  · exact readLines_increasing (parse_ok_iff.mp read)
  · rw [parse_error_iff, readLines_error_iff]

/-- An indented line with a comment, ended by a carriage return and a line feed. -/
theorem indented_listing_read_line_by_line :
    parse "\t halt # stop\r\nadd" = parse "halt #\nadd" ∧
      ∃ t, parse "halt #\nadd" = .ok t ∧ t.ops = [⟨.halt, 1⟩, ⟨.binary .add, 2⟩] ∧
        t.ops.Pairwise fun a b => a.line < b.line := by
  obtain ⟨-, increasing, -, -, layout⟩ := listing_read_line_by_line
  have accepted : parse "halt #\nadd" = .ok ⟨[⟨.halt, 1⟩, ⟨.binary .add, 2⟩]⟩ := by decide +kernel
  have indented : Relaid ("halt ".toList ++ "#".toList ++ "\nadd".toList)
      ("\t halt ".toList ++ "#".toList ++ "\nadd".toList) :=
    @Relaid.indent [] ['\t', ' '] _ (.inl rfl) (by simp [Spacing, Text.isBlank])
  have commented : Relaid ("\t halt ".toList ++ "#".toList ++ "\nadd".toList)
      ("\t halt ".toList ++ "# stop".toList ++ "\nadd".toList) :=
    .comment (.inr rfl) (by simp [Remark]) (by simp [Remark])
  have ended : Relaid ("\t halt # stop".toList ++ '\n' :: "add".toList)
      ("\t halt # stop".toList ++ '\r' :: '\n' :: "add".toList) := .lineEnd _ _
  have relaid := (Relation.EqvGen.rel _ _ indented).trans _ _ _
    ((Relation.EqvGen.rel _ _ commented).trans _ _ _ (.rel _ _ ended))
  exact ⟨layout _ _ (relaid.symm _ _), _, accepted, rfl, increasing _ _ accepted⟩

end Trace
end StackMachine
