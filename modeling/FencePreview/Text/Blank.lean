import FencePreview.Text.Basic

/-! Characters that separate words: the white space property of the character standard, which
is wider than the space and tab that indent a line. -/

namespace FencePreview

namespace Text

/-- Code points with the white space property, as closed ranges in increasing order. -/
def whiteRanges : List (Nat × Nat) :=
  [(0x0009, 0x000D), (0x0020, 0x0020), (0x0085, 0x0085), (0x00A0, 0x00A0), (0x1680, 0x1680),
    (0x2000, 0x200A), (0x2028, 0x2029), (0x202F, 0x202F), (0x205F, 0x205F), (0x3000, 0x3000)]

def isWhite (character : Char) : Bool :=
  whiteRanges.any fun range => range.1 ≤ character.toNat && character.toNat ≤ range.2

def isIndent (character : Char) : Bool := character = ' ' || character = '\t'

def trim (text : Text) : Text := trimWhile isWhite text

def trimEnd (text : Text) : Text := trimEndWhile isWhite text

/-- The first run of characters that are not white space, if there is one. -/
def firstWord? (text : Text) : Option Text :=
  match text.dropWhile isWhite with
  | [] => none
  | word => some (word.takeWhile fun character => !isWhite character)

theorem isWhite_of_isWhitespace (character : Char) (white : character.isWhitespace = true) :
    isWhite character = true := by
  simp only [Char.isWhitespace, Bool.or_eq_true, decide_eq_true_eq] at white
  rcases white with ((rfl | rfl) | rfl) | rfl <;> decide

theorem isWhite_of_isIndent (character : Char) (indent : isIndent character = true) :
    isWhite character = true := by
  simp only [isIndent, Bool.or_eq_true, decide_eq_true_eq] at indent
  rcases indent with rfl | rfl <;> decide

end Text

end FencePreview
