import FencePreview.Fence.Directive
import FencePreview.Fence.Code
import FencePreview.Panel.Example
import FencePreview.Panel.Options
import FencePreview.Text.Lines

/-! The scanner turns every fence with a `+preview` directive into a panel: the source as an
ordinary block, the numbered items that follow it, and a preview block with the same body. Lines
are fed one at a time; what a fence will need again is kept in the phase. -/

namespace FencePreview

/-- A fence that became a panel. -/
structure PreviewBlock where
  /-- Line of the opening fence, counted from one. -/
  line : Nat
  language : Text
  vertical : Bool
  attributes : Text
  /-- Numbered items that the panel took in. -/
  items : Nat
deriving DecidableEq, Repr

inductive ScanWarning where
  /-- An example opened while the one of `openLine` was open. -/
  | nestedExample (line openLine : Nat)
  | unclosedExample (openLine : Nat)
deriving DecidableEq, Repr

def ScanWarning.message : ScanWarning → Text
  | nestedExample line openLine =>
      "line ".toList ++ Text.ofNat line ++ ": nested example not supported (example on line ".toList ++
        Text.ofNat openLine ++ " is still open)".toList
  | unclosedExample openLine =>
      "line ".toList ++ Text.ofNat openLine ++ ": unclosed example (missing closing \x7d)".toList

inductive ScanError where
  /-- The fence opened on `line` never met its closing marker. -/
  | unterminatedFence (line : Nat) (marker : Text)
deriving DecidableEq, Repr

def ScanError.message : ScanError → Text
  | unterminatedFence line marker =>
      "line ".toList ++ Text.ofNat line ++ ": unterminated preview fence (missing closing ".toList ++
        marker ++ [')']

/-- A panel under construction. `body` holds the lines after the opening one, the closing line
included. -/
structure OpenPanel where
  fence : DirectiveFence
  block : PreviewBlock
  body : List Text
deriving DecidableEq, Repr

namespace OpenPanel

def start (fence : DirectiveFence) (lineNumber : Nat) : OpenPanel :=
  let options := PanelOptions.parse fence.options
  let language := options.effectiveLanguage fence.language
  { fence
    block :=
      { line := lineNumber
        language
        vertical := options.vertical
        attributes := options.attributes language
        items := 0 }
    body := [] }

/-- The wrapper line and the opening line, without the directive that a highlighter must not
see. -/
def header (fence : DirectiveFence) (line : Text) : List Text :=
  let options := PanelOptions.parse fence.options
  [fence.lead ++ "<div class=\"".toList ++ options.classes ++
      "\" markdown=\"1\"><div class=\"typst-source\" markdown=\"1\">".toList,
    Text.replaceAll fence.directive [] line]

def nestedOpening (panel : OpenPanel) : Text :=
  panel.fence.lead ++ panel.fence.marker ++ previewTag ++ ' ' :: panel.block.attributes

/-- The lines after the body: items, preview block, wrapper ends, and the blank lines that
followed the last item. -/
def footer (panel : OpenPanel) (items trailing : List Text) : List Text :=
  (if items.isEmpty then [] else items ++ [[]]) ++
    (panel.fence.lead ++ "</div><div class=\"preview\">".toList) :: panel.nestedOpening ::
      panel.body ++ (panel.fence.lead ++ "</div></div>".toList) :: trailing

end OpenPanel

inductive ScanPhase where
  | outside
  | inBody (panel : OpenPanel)
  /-- After the closing line: `items` are taken in, `held` are blank lines since the last one. -/
  | afterBody (panel : OpenPanel) (items held : List Text)
deriving DecidableEq, Repr

structure Scanner where
  phase : ScanPhase
  /-- Line of the example that is open. -/
  openExample : Option Nat
  warnings : List ScanWarning
  previews : List PreviewBlock
deriving DecidableEq, Repr

namespace Scanner

def new : Scanner := { phase := .outside, openExample := none, warnings := [], previews := [] }

/-- A line outside any fence, with the lines written for it. -/
def feedOutside (scanner : Scanner) (lineNumber : Nat) (line : Text) : Scanner × List Text :=
  match DirectiveFence.parse? line with
  | some fence =>
      ({ scanner with phase := .inBody (OpenPanel.start fence lineNumber) }, OpenPanel.header fence line)
  | none =>
      match Example.opening? (Text.trim line) with
      | some title =>
          let nested := scanner.openExample.toList.map (ScanWarning.nestedExample lineNumber)
          ({ scanner with openExample := some lineNumber, warnings := scanner.warnings ++ nested },
            [Example.openTag title])
      | none =>
          if scanner.openExample.isSome && Example.isClosing (Text.trim line) then
            ({ scanner with openExample := none }, [Example.closeTag])
          else (scanner, [line])

def closePanel (scanner : Scanner) (panel : OpenPanel) (items held : List Text) : Scanner × List Text :=
  ({ scanner with
      phase := .outside
      previews := scanner.previews ++ [{ panel.block with items := items.length }] },
    panel.footer items held)

/-- Takes in one line, with the lines written for it. -/
def feed (scanner : Scanner) (lineNumber : Nat) (line : Text) : Scanner × List Text :=
  match scanner.phase with
  | .outside => scanner.feedOutside lineNumber line
  | .inBody panel =>
      let panel := { panel with body := panel.body ++ [line] }
      ({ scanner with phase := if panel.fence.closes line then .afterBody panel [] [] else .inBody panel },
        [line])
  | .afterBody panel items held =>
      if isBlankLine line then ({ scanner with phase := .afterBody panel items (held ++ [line]) }, [])
      else if isNumberedItem panel.fence.lead line then
        ({ scanner with phase := .afterBody panel (items ++ held ++ [line]) [] }, [])
      else
        let (closed, ending) := scanner.closePanel panel items held
        let (fed, written) := closed.feedOutside lineNumber line
        (fed, ending ++ written)

/-- Takes in lines in order, the first of them numbered `lineNumber`. -/
def feedAll (scanner : Scanner) (lineNumber : Nat) : List Text → Scanner × List Text
  | [] => (scanner, [])
  | line :: rest =>
      let (fed, written) := scanner.feed lineNumber line
      let (done, later) := fed.feedAll (lineNumber + 1) rest
      (done, written ++ later)

/-- Ends the input. The scanner is ready for another one whether or not this one was complete. -/
def finish (scanner : Scanner) : Scanner × Except ScanError (List Text) :=
  let unclosed := scanner.openExample.toList.map ScanWarning.unclosedExample
  let scanner := { scanner with openExample := none, warnings := scanner.warnings ++ unclosed }
  match scanner.phase with
  | .outside => (scanner, .ok [])
  | .inBody panel =>
      ({ scanner with phase := .outside },
        .error (.unterminatedFence panel.block.line panel.fence.marker))
  | .afterBody panel items held =>
      let (closed, ending) := scanner.closePanel panel items held
      (closed, .ok ending)

/-- The lines of one input with panels in place of fences. -/
def scanLines (scanner : Scanner) (content : List Text) : Scanner × Except ScanError (List Text) :=
  let (fed, written) := scanner.feedAll 1 content
  let (done, ending) := fed.finish
  (done, ending.map (written ++ ·))

/-- A text with panels in place of fences; a final line feed is kept. -/
def scan (scanner : Scanner) (input : Text) : Scanner × Except ScanError Text :=
  let (done, result) := scanner.scanLines (Text.lines input)
  (done, result.map (Text.assemble input))

end Scanner

end FencePreview
