import FencePreview.Text.Blank
import FencePreview.Text.Tokens

/-! Options of a `+preview` directive. Two tokens are flags of the panel itself; every other
token is passed on to the preview block as it stands. -/

namespace FencePreview

def legacyTag : Text := "typst-01-to-02".toList

structure PanelOptions where
  /-- Source above preview instead of beside it. -/
  vertical : Bool
  /-- Render against the legacy imports whatever the language tag. -/
  legacy : Bool
  passthrough : List Text
deriving DecidableEq, Repr

namespace PanelOptions

def verticalFlag : Text := "vertical".toList

def legacyFlag : Text := "01-to-02".toList

def separates (character : Char) : Bool := character = ',' || Text.isIndent character

/-- Reads the text between the parentheses. -/
def parse (text : Text) : PanelOptions :=
  let tokens := Text.tokens separates text
  { vertical := tokens.contains verticalFlag
    legacy := tokens.contains legacyFlag
    passthrough := tokens.filter fun token => token ≠ verticalFlag && token ≠ legacyFlag }

/-- The language of the preview for a fence tagged `language`. -/
def effectiveLanguage (options : PanelOptions) (language : Text) : Text :=
  if options.legacy then legacyTag else language

/-- Attributes of the preview block: the passed tokens, then the language. -/
def attributes (options : PanelOptions) (language : Text) : Text :=
  Text.joinWith [' '] (options.passthrough ++ ["lang=\"".toList ++ language ++ ['"']])

def classes (options : PanelOptions) : Text :=
  if options.vertical then "typst-preview vertical".toList else "typst-preview".toList

end PanelOptions

end FencePreview
