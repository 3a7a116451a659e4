import FencePreview.Compiler.Basic
import FencePreview.Config.Expansion
import FencePreview.Shell.Script

/-! What a running script sees and changes: files, the input it has not read yet, the two streams
it writes to, and its parameters. -/

namespace FencePreview

namespace Shell

inductive Sink where
  | output
  | errors
  | file (location : Location)
  | nowhere
deriving DecidableEq, Repr

structure Machine where
  storage : Storage
  input : ByteArray
  output : ByteArray
  errors : ByteArray
  outputSink : Sink
  errorSink : Sink
  name : Text
  arguments : List Text
  bindings : Environment
  /-- Exit code of the last command. -/
  status : Nat
  /-- How the script ended, once it has. -/
  ended : Option ExitStatus

namespace Machine

def start (storage : Storage) (input : ByteArray) (name : Text) (arguments : List Text) : Machine :=
  { storage
    input
    output := ByteArray.empty
    errors := ByteArray.empty
    outputSink := .output
    errorSink := .errors
    name
    arguments
    bindings := []
    status := 0
    ended := none }

/-- Adds bytes to what a stream leads to. Bytes for a file that is gone are lost. -/
def deliver (machine : Machine) (sink : Sink) (bytes : ByteArray) : Machine :=
  match sink with
  | .output => { machine with output := machine.output ++ bytes }
  | .errors => { machine with errors := machine.errors ++ bytes }
  | .nowhere => machine
  | .file location =>
      match machine.storage.tree.get? location with
      | some (.file content mode) =>
          { machine with
            storage := machine.storage.withEntry location (.file (content ++ bytes) mode) }
      | _ => machine

def say (machine : Machine) (bytes : ByteArray) : Machine := machine.deliver machine.outputSink bytes

def leading (machine : Machine) (stream : Stream) (sink : Sink) : Machine :=
  match stream with
  | .output => { machine with outputSink := sink }
  | .errors => { machine with errorSink := sink }

def complain (machine : Machine) (line : Text) : Machine :=
  machine.deliver machine.errorSink (Text.encode (line ++ ['\n']))

def exitWith (machine : Machine) (status : Nat) : Machine := { machine with status }

/-- A complaint that begins with the name of the script. -/
def complainAs (machine : Machine) (line : Text) : Machine :=
  machine.complain (machine.name ++ ": 1: ".toList ++ line)

/-- Number by which a script knows itself. -/
def ownNumber : Text := "2".toList

def parameter? (machine : Machine) (name : Text) : Option Text :=
  match name with
  | ['@'] => some (Text.joinWith [' '] machine.arguments)
  | ['*'] => some (Text.joinWith [' '] machine.arguments)
  | ['#'] => some (Text.ofNat machine.arguments.length)
  | ['?'] => some (Text.ofNat machine.status)
  | ['$'] => some ownNumber
  | ['0'] => some machine.name
  | _ =>
      if name.all Char.isDigit then
        machine.arguments[name.foldl (fun value digit => value * 10 + (digit.toNat - '0'.toNat)) 0 - 1]?
      else machine.bindings.lookup name

/-- The value of a parameter, its fallback if it is unset or empty. -/
def value (machine : Machine) (name : Text) (fallback : Option Text) : Text :=
  match machine.parameter? name with
  | some (first :: rest) => first :: rest
  | _ => fallback.getD []

def assign (machine : Machine) (name value : Text) : Machine :=
  { machine with bindings := (name, value) :: machine.bindings }

def nullDevice : Text := "/dev/null".toList

/-- What a file holds; a dash and the input device stand for the input, which is then read. -/
def take (machine : Machine) (source : Text) : Machine × Except FileError ByteArray :=
  if source = ['-'] || source = "/dev/stdin".toList then
    ({ machine with input := ByteArray.empty }, .ok machine.input)
  else if source = nullDevice then (machine, .ok ByteArray.empty)
  else (machine, machine.storage.read ⟨source⟩)

/-- Opens a file to write to, keeping its content if `append` is set. -/
def openSink (machine : Machine) (append : Bool) (target : Text) :
    Except FileError (Machine × Sink) := do
  if target = nullDevice then return (machine, .nowhere)
  else if target = "/dev/stdout".toList then return (machine, machine.outputSink)
  else if target = "/dev/stderr".toList then return (machine, machine.errorSink)
  else
    let location ← machine.storage.resolve ⟨target⟩
    if append && machine.storage.tree.isFile location then return (machine, .file location)
    else
      let storage ← machine.storage.write ⟨target⟩ ByteArray.empty
      return ({ machine with storage }, .file location)

end Machine

end Shell

end FencePreview
