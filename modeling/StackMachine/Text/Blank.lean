/-! Blank characters and the cutting of text at them and at line ends. Lines end at a line feed,
and one carriage return right before it belongs to the line end. The pieces of `blankPieces`
concatenate to the text they were cut from; the words of `words` do not keep the blanks. -/
namespace StackMachine.Text

/-- The characters of the property `White_Space`. -/
def isBlank (c : Char) : Bool :=
  let n := c.toNat
  (9 ≤ n && n ≤ 13) || n == 0x20 || n == 0x85 || n == 0xA0 || n == 0x1680 ||
    (0x2000 ≤ n && n ≤ 0x200A) || n == 0x2028 || n == 0x2029 || n == 0x202F || n == 0x205F ||
    n == 0x3000

/-- Lines of the rest of a text, `seen` holding the current line backwards. -/
def linesFrom : List Char → List Char → List (List Char)
  | seen, [] => if seen.isEmpty then [] else [seen.reverse]
  | seen, c :: rest =>
      if c = '\n' then
        (match seen with
          | '\r' :: before => before.reverse
          | _ => seen.reverse) :: linesFrom [] rest
      else linesFrom (c :: seen) rest

/-- The lines of a text without their ends. No line follows a final line end. -/
def lines (text : List Char) : List (List Char) := linesFrom [] text

def wordsFrom : List Char → List Char → List (List Char)
  | seen, [] => if seen.isEmpty then [] else [seen.reverse]
  | seen, c :: rest =>
      if isBlank c then
        if seen.isEmpty then wordsFrom [] rest else seen.reverse :: wordsFrom [] rest
      else wordsFrom (c :: seen) rest

def words (text : List Char) : List (List Char) := wordsFrom [] text

def blankPiecesFrom : List Char → List Char → List (List Char)
  | seen, [] => if seen.isEmpty then [] else [seen.reverse]
  | seen, c :: rest =>
      if isBlank c then (c :: seen).reverse :: blankPiecesFrom [] rest
      else blankPiecesFrom (c :: seen) rest

def blankPieces (text : List Char) : List (List Char) := blankPiecesFrom [] text

theorem blankPiecesFrom_flatten (seen text : List Char) :
    (blankPiecesFrom seen text).flatten = seen.reverse ++ text := by
  induction text generalizing seen with
  | nil => cases seen <;> simp [blankPiecesFrom]
  | cons c rest ih =>
      simp only [blankPiecesFrom]
      split <;> simp [ih]

theorem blankPieces_flatten (text : List Char) : (blankPieces text).flatten = text := by
  simp [blankPieces, blankPiecesFrom_flatten]

end StackMachine.Text
