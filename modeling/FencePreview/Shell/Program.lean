import FencePreview.Shell.Tools

/-! Finding what a command names: a tool, the command interpreter, or a script in a file. -/

namespace FencePreview

namespace Shell

inductive Program where
  | tool (tool : Tool)
  /-- Runs the script in its first argument or in a file. -/
  | interpreter
  | file (content : Text)

namespace Program

def interpreters : List Text := ["sh".toList, "dash".toList, "bash".toList]

/-- Directories in which commands without a slash are looked for. -/
def commandDirectories : List Text := ["/bin/".toList, "/usr/bin/".toList]

def installed? (name : Text) : Option Program :=
  if interpreters.contains name then some .interpreter else (Tools.table.lookup name).map .tool

def absolute? (name : Text) : Option Program :=
  commandDirectories.findSome? fun directory => (Text.stripStart? directory name).bind installed?

/-- First lines that hand a file to the interpreter. -/
def isInterpreterLine (line : Text) : Bool :=
  let words := ((Text.splitAtEach ' ' (line.filter (· ≠ '\t'))).filter (· ≠ [])).map fun word =>
    (Text.splitAtEach '/' word).getLastD []
  match words with
  | first :: second :: _ =>
      interpreters.contains first || (first = "env".toList && interpreters.contains second)
  | [first] => interpreters.contains first
  | [] => false

def ofFile (storage : Storage) (name : Text) : Except FileError Program :=
  match storage.requireEntry ⟨name⟩ with
  | .error cause => .error cause
  | .ok (_, .directory _) => .error .notPermitted
  | .ok (_, .file content mode) =>
      if mode &&& 0o111 = 0 then .error .notPermitted
      else
        let text := Text.decodeLossy content
        match Text.stripStart? "#!".toList text with
        | some rest =>
            if isInterpreterLine (rest.takeWhile (· ≠ '\n')) then .ok (.file text)
            else .error .notFound
        | none => .error .badExecutable

def find (storage : Storage) (name : Text) : Except FileError Program :=
  if '/' ∈ name then
    match absolute? name with
    | some program => .ok program
    | none => ofFile storage name
  else
    match installed? name with
    | some program => .ok program
    | none => .error .notFound

end Program

end Shell

end FencePreview
