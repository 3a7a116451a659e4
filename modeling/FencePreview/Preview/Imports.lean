import FencePreview.Text.Search

/-! Leaving out the lines of a source that import packages. -/

namespace FencePreview

def importKeyword : Text := "#import".toList

/-- Passes over the rest of an import line with its line feed, then copies. At the start of a line
a further import line is passed over in the same way. -/
def stripFrom (passing lineStart : Bool) : Text → Text
  | [] => []
  | '\n' :: rest => if passing then stripFrom false true rest else '\n' :: stripFrom false true rest
  | character :: rest =>
      if passing then stripFrom true false rest
      else if lineStart && (Text.stripStart? importKeyword (character :: rest)).isSome then
        stripFrom true false rest
      else character :: stripFrom false false rest

def stripImports (source : Text) : Text := stripFrom false true source

end FencePreview
