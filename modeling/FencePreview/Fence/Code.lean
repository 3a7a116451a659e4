import FencePreview.Fence.Marker

/-! Fenced code blocks of any language, as a reader of the finished panels meets them. A block
whose first word is `typst-preview` is a preview and ends only at its own marker; any other
block ends at a run of its mark that is at least as long. -/

namespace FencePreview

/-- First word of a fence whose body is to be rendered. -/
def previewTag : Text := "typst-preview".toList

structure CodeFence where
  lead : Text
  marker : Text
  info : Text
deriving DecidableEq, Repr

namespace CodeFence

/-- Reads an opening line. The info text after a run of backticks holds no backtick. -/
def parse? (line : Text) : Option CodeFence :=
  if '\n' ∈ line then none
  else
    match markerRun? (withoutLead line) with
    | none => none
    | some (marker, rest) =>
        let info := Text.trimEnd (rest.dropWhile Text.isIndent)
        if marker.head? = some backtick ∧ backtick ∈ info then none
        else some { lead := leadOf line, marker, info }

def isPreview (fence : CodeFence) : Bool := Text.firstWord? fence.info = some previewTag

/-- What follows the closing run on a line without its quote characters. -/
def afterClosingRun? (fence : CodeFence) (rest : Text) : Option Text :=
  if fence.isPreview then Text.stripStart? fence.marker rest
  else
    let mark := fence.marker.headD backtick
    let run := rest.takeWhile (· = mark)
    if fence.marker.length ≤ run.length then some (rest.dropWhile (· = mark)) else none

def closes (fence : CodeFence) (line : Text) : Bool :=
  match (Text.stripStart? fence.lead line).bind fence.afterClosingRun? with
  | some rest => rest.all Text.isIndent
  | none => false

/-- A body line without the quote characters of its block, where it has them. -/
def unquote (fence : CodeFence) (line : Text) : Text :=
  (Text.stripStart? fence.lead line).getD line

end CodeFence

def opensPreview (line : Text) : Bool := (CodeFence.parse? line).any CodeFence.isPreview

end FencePreview
