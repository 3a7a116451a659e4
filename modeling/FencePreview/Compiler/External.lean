import FencePreview.Shell.Run
import FencePreview.Text.Blank

/-! Compilers that are programs of their own. The document is their input, and the path of the
image their last argument. -/

namespace FencePreview

namespace Compiler

/-- Bytes of input that a program may leave unread without anyone noticing. -/
def pipeCapacity : Nat := 65536

def failureEntry (program document : Text) (status : ExitStatus) (output errors : Text) : Text :=
  "compiler failed, attempted document:\n".toList ++ document ++ " program=".toList ++ program ++
    " status=".toList ++ status.describe ++ " stdout=".toList ++ output ++ " stderr=".toList ++ errors

/-- What a finished program means for the compilation. One that succeeds without its input has not
seen the whole document. -/
def judge (program document : Text) (machine : Shell.Machine) : Compilation :=
  match machine.ended.getD (.code machine.status) with
  | .code 0 =>
      { storage := machine.storage
        outcome := if pipeCapacity < machine.input.size then .error (.file .brokenPipe) else .ok ()
        log := [] }
  | status =>
      let errors := Text.decodeLossy machine.errors
      { storage := machine.storage
        outcome := .error (.failed status (Text.trim errors))
        log := [failureEntry program document status (Text.decodeLossy machine.output) errors] }

def findProgram (storage : Storage) (program : Text) (arguments : List Text) :
    Except FileError Shell.Program :=
  if Char.ofNat 0 ∈ program || arguments.any (Char.ofNat 0 ∈ ·) then .error .nullInCommand
  else Shell.Program.find storage program

def external (program : Text) (arguments : List Text) : Compiler := fun _ document output storage =>
  match findProgram storage program arguments with
  | .error cause => { storage, outcome := .error (.spawn program cause), log := [] }
  | .ok found =>
      judge program document
        (Shell.runProgram Shell.depthLimit found program (arguments ++ [output.text])
          (.start storage (Text.encode document) program []))

end Compiler

end FencePreview
