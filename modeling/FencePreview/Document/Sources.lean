import FencePreview.Storage.Basic

/-! The Markdown files below a directory, in the order of their paths. The directory is reached
piece by piece from the current one, so the paths found keep its spelling, apart from a leading
single dot and doubled slashes. -/

namespace FencePreview

namespace Sources

def currentDirectory : PathName := ⟨['.']⟩

def suffix : Text := ".md".toList

/-- A name below `scope`, written without a leading single dot. -/
def step (scope : PathName) (piece : Text) : PathName :=
  if scope = currentDirectory then ⟨piece⟩ else scope.join ⟨piece⟩

/-- Follows pieces of a directory's name as long as they exist. -/
def reach? (storage : Storage) : PathName → List Text → Option PathName
  | scope, [] => some scope
  | scope, piece :: rest =>
      let found :=
        if piece = ['.'] || piece = ['.', '.'] then storage.isDirectory scope
        else storage.exists? (step scope piece)
      if found then reach? storage (step scope piece) rest else none

/-- Where the search for `directory` begins and the pieces it goes through. A path without text
means the root. -/
def start (directory : PathName) : PathName × List Text :=
  let pieces := Text.splitAtEach '/' directory.text
  if directory.isAbsolute || directory.text = [] then (⟨['/']⟩, pieces.tail)
  else (currentDirectory, pieces)

/-- Markdown files below a directory, as paths that start with it. -/
def inside (storage : Storage) (scope : PathName) : List PathName :=
  match storage.resolve scope with
  | .error _ => []
  | .ok location =>
      (storage.tree.below location).filterMap fun (place, entry) =>
        match entry, place.getLast? with
        | .file _ _, some name =>
            if (Text.stripEnd? suffix name).isSome then some (place.foldl step scope) else none
        | _, _ => none

end Sources

/-- Every Markdown file below a directory, hidden ones included, sorted by path. -/
def markdownFiles (storage : Storage) (directory : PathName) : List PathName :=
  let (scope, pieces) := Sources.start directory
  match Sources.reach? storage scope pieces with
  | some scope => (Sources.inside storage scope).mergeSort PathName.le
  | none => []

end FencePreview
