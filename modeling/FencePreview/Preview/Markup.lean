import FencePreview.Text.Basic

/-! Image markup. Text inside an attribute is escaped, so that none of it ends the attribute. -/

namespace FencePreview

namespace Markup

def escapeCharacter : Char → Text
  | '&' => "&amp;".toList
  | '<' => "&lt;".toList
  | '>' => "&gt;".toList
  | '"' => "&quot;".toList
  | '\'' => "&#x27;".toList
  | character => [character]

def escape (text : Text) : Text := text.flatMap escapeCharacter

def image (url : Text) : Text :=
  "<img src=\"".toList ++ escape url ++ "\" alt=\"Preview\" loading=\"lazy\">".toList

def imagePair (lightUrl darkUrl : Text) : Text := image lightUrl ++ image darkUrl

end Markup

end FencePreview
