/-! What a cell shows. A line feed in drawn text starts no new line and takes no cell, but right after
a carriage return it shares the cell of that one. Every other character is a glyph of its own. -/
namespace StackMachine

inductive Glyph where
  | char (c : Char)
  | lineEnd
  deriving DecidableEq, Repr, Inhabited

namespace Glyph

instance : Coe Char Glyph := ⟨char⟩

def text : Glyph → List Char
  | char c => [c]
  | lineEnd => ['\r', '\n']

def ofText : List Char → List Glyph
  | [] => []
  | '\r' :: '\n' :: rest => lineEnd :: ofText rest
  | c :: rest => if c = '\n' then ofText rest else char c :: ofText rest

end Glyph
end StackMachine
