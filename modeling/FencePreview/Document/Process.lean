import FencePreview.Document.Segments
import FencePreview.Fence.Attributes
import FencePreview.Panel.Scanner
import FencePreview.Preview.Render

/-! A whole document: its fences become panels, then every preview block becomes images. -/

namespace FencePreview

inductive DocumentError where
  | scan (error : ScanError)
  /-- The preview block opened on `line` of the scanned document failed. -/
  | fence (line : Nat) (error : PreviewError)
  /-- A preview block opened on `line` lies inside another block. -/
  | unrendered (line : Nat)
  | file (path : PathName) (cause : FileError)
deriving DecidableEq, Repr

def DocumentError.message : DocumentError → Text
  | scan error => error.message
  | fence line error => "line ".toList ++ Text.ofNat line ++ ": ".toList ++ error.fenceMessage
  | unrendered line =>
      "line ".toList ++ Text.ofNat line ++
        ": preview fence inside a code block cannot be rendered".toList
  | file path cause => path.text ++ ": ".toList ++ cause.message

structure ProcessedDocument where
  output : Text
  warnings : List ScanWarning
  previews : Nat
  /-- Number of previews for which the compiler ran. -/
  compiled : Nat
deriving DecidableEq, Repr

/-- Published lines with the counts of previews so far. -/
structure Publication where
  lines : List Text
  previews : Nat
  compiled : Nat
deriving DecidableEq, Repr

namespace Publication

def empty : Publication := ⟨[], 0, 0⟩

def append (first second : Publication) : Publication :=
  ⟨first.lines ++ second.lines, first.previews + second.previews, first.compiled + second.compiled⟩

end Publication

namespace Formatter

/-- The source of a preview block: its body without the quote characters of the block. -/
def sourceOf (fence : CodeFence) (body : List Text) : Text := Text.joinLines (body.map fence.unquote)

def publishSegment (formatter : Formatter) : Segment → Job DocumentError Publication
  | .copied lines => return ⟨lines, 0, 0⟩
  | .enclosed line => throw (.unrendered line)
  | .preview line fence body => do
      let attributes := (Attributes.ofInfo fence.info).2
      let rendered ← Job.orFail (.fence line) (formatter.render (sourceOf fence body) attributes)
      return ⟨[fence.lead ++ rendered.markup], 1, if rendered.compiled then 1 else 0⟩

/-- Publishes segments in order and stops at the first that fails. -/
def publishSegments (formatter : Formatter) : List Segment → Job DocumentError Publication
  | [] => return .empty
  | segment :: rest => do
      let first ← formatter.publishSegment segment
      let later ← formatter.publishSegments rest
      return first.append later

/-- Processes a document, keeping a final line feed. -/
def process (formatter : Formatter) (input : Text) : Job DocumentError ProcessedDocument := do
  let (scanner, scanned) := Scanner.new.scanLines (Text.lines input)
  match scanned with
  | .error error => throw (.scan error)
  | .ok content =>
      let publication ← formatter.publishSegments (Segment.cut 1 content)
      return { output := Text.assemble input publication.lines
               warnings := scanner.warnings
               previews := publication.previews
               compiled := publication.compiled }

/-- Processes one file into another, making the directories it needs. -/
def processFile (formatter : Formatter) (input output : PathName) :
    Job DocumentError ProcessedDocument := do
  match ← Job.inspect (·.readText input) with
  | .error cause => throw (.file input cause)
  | .ok text =>
      let document ← formatter.process text
      if let some parent := output.parent? then
        Job.orFail (.file parent) (Job.makeDirectories parent)
      Job.orFail (.file output) (Job.change (·.write output (Text.encode document.output)))
      return document

end Formatter

end FencePreview
