import FencePreview.Text.Basic

/-! Lines of a document. A line feed ends a line, together with one carriage return before it;
a carriage return anywhere else is an ordinary character. -/

namespace FencePreview

namespace Text

/-- The lines of a text without their ends. A text that ends with a line feed has no further
empty line after it. -/
def lines : Text → List Text
  | [] => []
  | '\n' :: rest => [] :: lines rest
  | '\r' :: '\n' :: rest => [] :: lines rest
  | character :: rest =>
      match lines rest with
      | [] => [[character]]
      | first :: more => (character :: first) :: more

def joinLines (content : List Text) : Text := joinWith ['\n'] content

def finalNewline (text : Text) : Text :=
  if text.getLast? = some '\n' then ['\n'] else []

/-- Lines as a text that ends with a line feed exactly when `source` does. -/
def assemble (source : Text) (content : List Text) : Text :=
  joinLines content ++ finalNewline source

end Text

end FencePreview
