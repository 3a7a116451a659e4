import FencePreview.Preview.Mode
import FencePreview.Text.Search

/-! Documents handed to the compiler: a page header that fixes the colours of one variant, the
imports of the mode, and the source. -/

namespace FencePreview

inductive Variant where
  | light
  | dark
deriving DecidableEq, Repr

namespace Variant

/-- Both variants in the order in which they are compiled. -/
def all : List Variant := [light, dark]

def isDark : Variant → Bool
  | light => false
  | dark => true

end Variant

/-- Page header with a gap for the word that tells whether the page is dark. -/
def headerTemplate : Text :=
  ("\n#let _is-dark = \x7bis_dark\x7d\n" ++
    "#set page(width: auto, height: auto, margin: 0.75cm, fill: none)\n" ++
    "#let _accent = if _is-dark \x7b white \x7d else \x7b black \x7d\n" ++
    "#set text(fill: _accent)\n" ++
    "#set table(stroke: _accent.transparentize(30%))\n\n").toList

def header (variant : Variant) : Text :=
  Text.replaceAll "\x7bis_dark\x7d".toList
    (if variant.isDark then "true".toList else "false".toList) headerTemplate

structure Templates where
  /-- For the modes `code` and `embedded`. -/
  imports : Text
  /-- For the mode `legacy`. -/
  legacyImports : Text
deriving DecidableEq, Repr

namespace Templates

def default : Templates :=
  { imports := "\n#import \"@local/icu-datetime:0.2.1\" as icu\n".toList
    legacyImports :=
      ("\n#import \"@preview/icu-datetime:0.2.0\" as icu02\n" ++
        "#import \"@preview/icu-datetime:0.1.2\" as icu01\n").toList }

def body (templates : Templates) (mode : RenderMode) (source : Text) : Text :=
  match mode with
  | .code => templates.imports ++ "\n    #\x7b\n        ".toList ++ source ++ "\n    \x7d\n    ".toList
  | .embedded => templates.imports ++ source
  | .legacy => templates.legacyImports ++ source
  | .basic => source

def render (templates : Templates) (mode : RenderMode) (variant : Variant) (source : Text) : Text :=
  header variant ++ templates.body mode source

end Templates

end FencePreview
