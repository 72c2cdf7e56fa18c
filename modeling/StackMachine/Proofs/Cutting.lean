import Mathlib
import StackMachine.Text.Blank

/-! Cutting texts apart and joining them. Words are the pieces between blanks that are not empty, so
cutting does not see how many blanks stand between two words, nor which. Joining words by single
blanks and cutting again gives the words back. A text that is cut at one character and joined to
another one loses the last cut of the first and keeps all others. -/
namespace StackMachine.Text

variable {front back blanks word : List Char}

/-- Words that are read one character at a time are the pieces between the blanks. -/
theorem wordsFrom_eq (seen text : List Char) :
    wordsFrom seen text = (text.splitOnPPrepend isBlank seen).filter (· ≠ []) := by
  induction text generalizing seen with
  | nil => cases seen <;> simp [wordsFrom, List.splitOnPPrepend_nil]
  | cons c rest ih =>
    rw [wordsFrom]
    by_cases blank : isBlank c = true
    · cases seen <;> simp [blank, ih, List.splitOnPPrepend_cons_pos blank,
        List.splitOnPPrepend_nil_right]
    · simp [blank, ih, List.splitOnPPrepend_cons_neg (Bool.not_eq_true _ ▸ blank)]

theorem words_eq (text : List Char) : words text = (text.splitOnP isBlank).filter (· ≠ []) :=
  wordsFrom_eq [] text

@[simp] theorem words_nil : words [] = [] := rfl

theorem words_blank {c : Char} (blank : isBlank c = true) (front back : List Char) :
    words (front ++ c :: back) = words front ++ words back := by
  simp [words_eq, List.splitOnP_append_cons front back blank]

theorem words_blanks_append (blank : ∀ c ∈ blanks, isBlank c = true) (back : List Char) :
    words (blanks ++ back) = words back := by
  induction blanks with
  | nil => rfl
  | cons c rest ih =>
    have first := words_blank (blank c List.mem_cons_self) [] (rest ++ back)
    simpa [ih fun d member => blank d (List.mem_cons_of_mem c member)] using first

theorem words_append_blanks (blank : ∀ c ∈ blanks, isBlank c = true) (filled : blanks ≠ [])
    (front back : List Char) : words (front ++ blanks ++ back) = words front ++ words back := by
  cases blanks with
  | nil => exact absurd rfl filled
  | cons c rest =>
    have later := words_blanks_append (fun d member => blank d (List.mem_cons_of_mem c member)) back
    rw [List.append_assoc, List.cons_append, words_blank (blank c List.mem_cons_self), later]

/-- A word as it may stand in a line: not empty, without blanks and without a comment sign. -/
structure Solid (word : List Char) : Prop where
  filled : word ≠ []
  unbroken : ∀ c ∈ word, isBlank c = false
  uncommented : '#' ∉ word

theorem Solid.words (solid : Solid word) : words word = [word] := by
  simp [words_eq, List.splitOnP_eq_singleton solid.unbroken, solid.filled]

theorem words_intercalate {line : List (List Char)} (solid : ∀ word ∈ line, Solid word) :
    words ([' '].intercalate line) = line := by
  induction line with
  | nil => rfl
  | cons first rest ih =>
    have head := (solid first List.mem_cons_self).words
    have tail := ih fun word member => solid word (List.mem_cons_of_mem first member)
    cases rest with
    | nil => simpa using head
    | cons second rest =>
      rw [List.intercalate_cons_cons, words_append_blanks (by simp [isBlank]) (by simp), head, tail]
      rfl

theorem mem_intercalate {line : List (List Char)} {joint c : Char}
    (member : c ∈ [joint].intercalate line) : c = joint ∨ ∃ word ∈ line, c ∈ word := by
  induction line with
  | nil => simp at member
  | cons first rest ih =>
    cases rest with
    | nil => exact .inr ⟨first, by simp_all⟩
    | cons second rest =>
      rw [List.intercalate_cons_cons] at member
      simp only [List.mem_append, List.mem_singleton] at member
      rcases member with (member | rfl) | member
      · exact .inr ⟨first, List.mem_cons_self, member⟩
      · exact .inl rfl
      · exact (ih member).imp_right fun ⟨word, inside, found⟩ =>
          ⟨word, List.mem_cons_of_mem first inside, found⟩

theorem length_splitOn (cut : Char) (text : List Char) :
    (text.splitOn cut).length = text.count cut + 1 := by
  induction text with
  | nil => simp
  | cons c rest ih =>
    rw [List.splitOn_cons_eq_if_modifyHead, List.count_cons]
    split <;> simp [ih]

theorem splitOn_eq_concat (cut : Char) (text : List Char) :
    ∃ earlier last, text.splitOn cut = earlier ++ [last] :=
  ⟨_, _, (List.dropLast_append_getLast (List.splitOn_ne_nil cut text)).symm⟩

theorem splitOn_eq_cons (cut : Char) (text : List Char) :
    ∃ first later, text.splitOn cut = first :: later :=
  List.exists_cons_of_ne_nil (List.splitOn_ne_nil cut text)

/-- Where two texts meet, the last piece of the one and the first of the other are one piece. -/
theorem splitOn_append {cut : Char} {last first : List Char} {earlier later : List (List Char)}
    (endsFront : front.splitOn cut = earlier ++ [last]) (startsBack : back.splitOn cut = first :: later) :
    (front ++ back).splitOn cut = earlier ++ (last ++ first) :: later := by
  induction front generalizing earlier last with
  | nil =>
    obtain ⟨rfl, rfl⟩ : earlier = [] ∧ last = [] := by
      cases earlier <;> simp_all
    simpa using startsBack
  | cons c rest ih =>
    obtain ⟨before, tail, split⟩ := splitOn_eq_concat cut rest
    rw [List.splitOn_cons_eq_if_modifyHead, split] at endsFront
    rw [List.cons_append, List.splitOn_cons_eq_if_modifyHead, ih split]
    by_cases cuts : (c == cut) = true
    · rw [if_pos cuts, ← List.cons_append] at endsFront
      obtain ⟨rfl, same⟩ := List.append_inj' endsFront rfl
      cases same
      simp [cuts]
    · rw [if_neg cuts] at endsFront
      rw [if_neg cuts]
      -- The character joins the first piece, which is the last one if there was no cut.
      cases before with
      | nil =>
        change [] ++ [c :: tail] = earlier ++ [last] at endsFront
        obtain ⟨rfl, same⟩ := List.append_inj' endsFront rfl
        cases same
        rfl
      | cons piece before =>
        rw [List.cons_append, List.modifyHead_cons, ← List.cons_append] at endsFront
        obtain ⟨rfl, same⟩ := List.append_inj' endsFront rfl
        cases same
        rfl

theorem splitOn_inside {cut : Char} {middle last first : List Char} {earlier later : List (List Char)}
    (uncut : cut ∉ middle) (endsFront : front.splitOn cut = earlier ++ [last])
    (startsBack : back.splitOn cut = first :: later) :
    (front ++ middle ++ back).splitOn cut = earlier ++ (last ++ middle ++ first) :: later :=
  splitOn_append (splitOn_append endsFront (List.splitOn_eq_singleton uncut)) startsBack

end StackMachine.Text
