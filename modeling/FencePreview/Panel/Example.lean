import FencePreview.Text.Blank
import FencePreview.Text.Basic

/-! Collapsible examples. `example{` or `example(Title){` on a line of its own opens one,
a closing brace with or without `example` after it closes one. -/

namespace FencePreview

namespace Example

def defaultTitle : Text := "Example".toList

/-- A title in parentheses: at least one character, none of them a closing parenthesis. What
remains after it is handed back, the whole text where there is no title. -/
def takeTitle (text : Text) : Option Text × Text :=
  match text with
  | '(' :: inner =>
      match inner.takeWhile (· ≠ ')'), inner.dropWhile (· ≠ ')') with
      | first :: title, ')' :: rest => (some (first :: title), rest)
      | _, _ => (none, text)
  | _ => (none, text)

/-- The title of an opening marker on a line without blanks around it. -/
def opening? (trimmed : Text) : Option Text :=
  match Text.stripStart? "example".toList trimmed with
  | none => none
  | some rest =>
      let (title, rest) := takeTitle (rest.dropWhile Text.isWhite)
      if rest.dropWhile Text.isWhite = ['\x7b'] then some (title.getD defaultTitle) else none

def isClosing (trimmed : Text) : Bool :=
  trimmed = "\x7d".toList || trimmed = "\x7dexample".toList

def openTag (title : Text) : Text :=
  "<details class=\"example\" markdown=\"1\"><summary>".toList ++ title ++ "</summary>".toList

def closeTag : Text := "</details>".toList

end Example

end FencePreview
