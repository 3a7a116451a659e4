import FencePreview.Compiler.Basic

/-! What a run can change: the files, and the record of the compiler calls it made. A job is a
step of a run that may fail; changes made before a failure stay. -/

namespace FencePreview

structure Workspace where
  storage : Storage
  /-- Documents handed to the compiler, in order. -/
  compiled : List Text
  log : List Text
deriving DecidableEq

abbrev Job (ε α : Type) := EStateM ε Workspace α

namespace Job

variable {ε α : Type}

/-- A job that changes files by one operation. -/
def change (operation : Storage → Except FileError Storage) : Job FileError Unit := fun workspace =>
  match operation workspace.storage with
  | .ok storage => .ok () { workspace with storage }
  | .error error => .error error workspace

def inspect (question : Storage → α) : Job ε α := fun workspace =>
  .ok (question workspace.storage) workspace

/-- A job on its own kind of error, within one on another kind. -/
def orFail {δ : Type} (wrap : δ → ε) (job : Job δ α) : Job ε α := fun workspace =>
  match job workspace with
  | .ok value changed => .ok value changed
  | .error error changed => .error (wrap error) changed

/-- After a failure, `cleanUp` is applied to the files. -/
def cleaningUp (cleanUp : Storage → Storage) (job : Job ε α) : Job ε α := fun workspace =>
  match job workspace with
  | .ok value changed => .ok value changed
  | .error error changed => .error error { changed with storage := cleanUp changed.storage }

def makeDirectories (path : PathName) : Job FileError Unit := fun workspace =>
  match workspace.storage.makeDirectories path with
  | (storage, .ok ()) => .ok () { workspace with storage }
  | (storage, .error error) => .error error { workspace with storage }

def createTemporary (directory : PathName) : Job FileError PathName := fun workspace =>
  match workspace.storage.createTemporary directory with
  | .ok (storage, path) => .ok path { workspace with storage }
  | .error error => .error error workspace

def compile (compiler : Compiler) (document : Text) (output : PathName) : Job CompileError Unit :=
  fun workspace =>
    let result := compiler workspace.compiled.length document output workspace.storage
    let changed :=
      { storage := result.storage
        compiled := workspace.compiled ++ [document]
        log := workspace.log ++ result.log }
    match result.outcome with
    | .ok () => .ok () changed
    | .error error => .error error changed

/-- Removes a file that is not to stay. A directory that took its place does stay. -/
def discard (path : PathName) (storage : Storage) : Storage :=
  match storage.removeFile path with
  | .ok removed => removed
  | .error _ => storage

/-- Fills a temporary file in `directory`, makes it readable to all, and moves it to `target`.
Whatever fails, no temporary file stays and the target is untouched. -/
def placeFile (directory target : PathName) (wrap : FileError → ε) (fill : PathName → Job ε Unit) :
    Job ε Unit := do
  let temporary ← orFail wrap (createTemporary directory)
  cleaningUp (discard temporary) do
    fill temporary
    orFail wrap (change (·.setMode temporary FileTree.fileMode))
    orFail wrap (change (·.rename temporary target))

end Job

end FencePreview
