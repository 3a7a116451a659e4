import FencePreview.Document.Process
import FencePreview.Document.Sources

/-! All documents below a directory. Each is processed into the same place below another
directory; one that fails does not stop the others. -/

namespace FencePreview

/-- What became of the documents of a collection, in the order of their paths. -/
structure CollectionReport where
  processed : List (PathName × ProcessedDocument)
  /-- Files read that could not be processed. -/
  failures : List (PathName × DocumentError)
deriving DecidableEq, Repr

namespace CollectionReport

def empty : CollectionReport := ⟨[], []⟩

def previews (report : CollectionReport) : Nat :=
  (report.processed.map fun (_, document) => document.previews).foldr Nat.add 0

def compiled (report : CollectionReport) : Nat :=
  (report.processed.map fun (_, document) => document.compiled).foldr Nat.add 0

def total (report : CollectionReport) : Nat := report.processed.length + report.failures.length

end CollectionReport

/-- Where the document at `path` below `documents` goes below `output`. A path that does not begin
with the steps of `documents` is kept whole. -/
def targetOf (documents output path : PathName) : PathName :=
  output.join ((path.relativeTo? documents).getD path)

namespace Formatter

/-- Processes one document of a collection; the log tells of a failure. -/
def processMember (formatter : Formatter) (documents output path : PathName) :
    StateM Workspace CollectionReport := fun workspace =>
  let target := targetOf documents output path
  match formatter.processFile path target workspace with
  | .ok document changed => (⟨[(target, document)], []⟩, changed)
  | .error error changed => (⟨[], [(path, error)]⟩, changed)

def processMembers (formatter : Formatter) (documents output : PathName) :
    List PathName → StateM Workspace CollectionReport
  | [] => return .empty
  | path :: rest => do
      let first ← formatter.processMember documents output path
      let later ← formatter.processMembers documents output rest
      return ⟨first.processed ++ later.processed, first.failures ++ later.failures⟩

def failureEntry (failure : PathName × DocumentError) : Text :=
  "failed to process document path=".toList ++ failure.1.text ++ " error=".toList ++
    failure.2.message

/-- Processes every Markdown file below `documents`; the log ends with the failures. -/
def processCollection (formatter : Formatter) (documents output : PathName) :
    StateM Workspace CollectionReport := do
  let report ← formatter.processMembers documents output
    (markdownFiles (← get).storage documents)
  modify fun workspace => { workspace with log := workspace.log ++ report.failures.map failureEntry }
  return report

end Formatter

end FencePreview
