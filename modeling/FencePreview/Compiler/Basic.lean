import FencePreview.Storage.Basic

/-! Compilers turn a document into an image file. A compiler is a function of everything it can
see, and its answer carries everything it changed, so that any program can be described by one. -/

namespace FencePreview

inductive ExitStatus where
  | code (value : Nat)
  | signal (number : Nat)
deriving DecidableEq, Repr

namespace ExitStatus

def success : ExitStatus := code 0

def signalName? : Nat → Option Text
  | 1 => some "SIGHUP".toList
  | 2 => some "SIGINT".toList
  | 3 => some "SIGQUIT".toList
  | 6 => some "SIGABRT".toList
  | 9 => some "SIGKILL".toList
  | 10 => some "SIGUSR1".toList
  | 11 => some "SIGSEGV".toList
  | 12 => some "SIGUSR2".toList
  | 13 => some "SIGPIPE".toList
  | 14 => some "SIGALRM".toList
  | 15 => some "SIGTERM".toList
  | _ => none

def describe : ExitStatus → Text
  | code value => "exit status: ".toList ++ Text.ofNat value
  | signal number =>
      "signal: ".toList ++ Text.ofNat number ++
        (match signalName? number with
          | some name => " (".toList ++ name ++ [')']
          | none => [])

end ExitStatus

inductive CompileError where
  | spawn (program : Text) (cause : FileError)
  | failed (status : ExitStatus) (stderr : Text)
  /-- The document was not taken in, or the image could not be put in place. -/
  | file (cause : FileError)
deriving DecidableEq, Repr

def CompileError.message : CompileError → Text
  | spawn program cause => "failed to run ".toList ++ program ++ ": ".toList ++ cause.message
  | failed status stderr =>
      "compiler failed (".toList ++ status.describe ++ "): ".toList ++ stderr
  | file cause => "I/O error: ".toList ++ cause.message

/-- One call of a compiler: the files it left and how it ended. -/
structure Compilation where
  storage : Storage
  outcome : Except CompileError Unit
  log : List Text

/-- A compiler is given the number of earlier calls, the document and the path to write to. -/
abbrev Compiler := Nat → Text → PathName → Storage → Compilation

/-- A compilation that changed files by one operation, which may fail. -/
def Compilation.ofResult (storage : Storage) (result : Except FileError Storage) : Compilation :=
  match result with
  | .ok changed => { storage := changed, outcome := .ok (), log := [] }
  | .error cause => { storage, outcome := .error (.file cause), log := [] }

/-- Writes an image that depends on the document only. -/
def Compiler.writing (image : Text → ByteArray) : Compiler := fun _ document output storage =>
  Compilation.ofResult storage (storage.write output (image document))

end FencePreview
