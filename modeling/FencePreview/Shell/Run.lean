import FencePreview.Shell.Program

/-! Running scripts: words become arguments, redirections open files, and commands run one after
another. Commands that feed one another run in that order, each to its end. -/

namespace FencePreview

namespace Shell

/-- Arguments under way: those complete, and the one that is still open. -/
structure Fields where
  complete : List Text
  current : Option Text

namespace Fields

def empty : Fields := ⟨[], none⟩

/-- Adds text that is not split. -/
def join (fields : Fields) (content : Text) : Fields :=
  { fields with current := some (fields.current.getD [] ++ content) }

def close (fields : Fields) : Fields := ⟨fields.complete ++ fields.current.toList, none⟩

/-- Adds text that is split at blanks. -/
def spread (fields : Fields) (content : Text) : Fields :=
  content.foldl
    (fun fields character =>
      if character = ' ' || character = '\t' || character = '\n' then fields.close
      else fields.join [character])
    fields

def each (fields : Fields) : List Text → Fields
  | [] => fields
  | [last] => fields.join last
  | first :: rest => (fields.join first).close.each rest

end Fields

/-- Runs `body` with its output caught. -/
def capture (body : Machine → Machine) (machine : Machine) : Machine × ByteArray :=
  let after := body { machine with output := ByteArray.empty, outputSink := .output }
  ({ after with output := machine.output, outputSink := machine.outputSink }, after.output)

/-- Runs `body` so that its parameters and its end stay its own. -/
def isolate (body : Machine → Machine) (machine : Machine) : Machine :=
  let after := body machine
  { after with
    name := machine.name
    arguments := machine.arguments
    bindings := machine.bindings
    status := (match after.ended with
      | some (.code status) => status
      | _ => after.status)
    ended := (match after.ended with
      | some (.signal number) => some (.signal number)
      | _ => machine.ended) }

/-- Runs `body` with the streams as they are, and sets them back afterwards. -/
def keepingStreams (inputReplaced : Bool) (machine : Machine) (after : Machine) : Machine :=
  { after with
    outputSink := machine.outputSink
    errorSink := machine.errorSink
    input := if inputReplaced then machine.input else after.input }

mutual

def pieceValue : Nat → Piece → Machine → Machine × Text
  | _, .literal content, machine => (machine, content)
  | _, .parameter _ name fallback, machine => (machine, machine.value name fallback)
  | 0, .output _ _, machine => (machine, [])
  | depth + 1, .output _ script, machine =>
      let (machine, bytes) := capture (isolate (runText depth script)) machine
      (machine, Text.trimEndWhile (· = '\n') (Text.decodeLossy bytes))

def wordFields : Nat → Word → Fields → Machine → Machine × Fields
  | 0, _, fields, machine => (machine, fields)
  | _ + 1, [], fields, machine => (machine, fields.close)
  | depth + 1, piece :: rest, fields, machine =>
      let (after, value) := pieceValue depth piece machine
      let fields :=
        match piece with
        | .literal _ => fields.join value
        | .parameter true ['@'] _ => fields.each after.arguments
        | .parameter true _ _ => fields.join value
        | .output true _ => fields.join value
        | _ => fields.spread value
      wordFields depth rest fields after

/-- The one text that a word becomes where it is not split. -/
def wordText : Nat → Word → Machine → Machine × Text
  | 0, _, machine => (machine, [])
  | _ + 1, [], machine => (machine, [])
  | depth + 1, piece :: rest, machine =>
      let (machine, value) := pieceValue depth piece machine
      let (machine, others) := wordText depth rest machine
      (machine, value ++ others)

def wordsFields : Nat → List Word → Machine → Machine × List Text
  | 0, _, machine => (machine, [])
  | _ + 1, [], machine => (machine, [])
  | depth + 1, word :: rest, machine =>
      let (machine, fields) := wordFields depth word .empty machine
      let (machine, others) := wordsFields depth rest machine
      (machine, fields.complete ++ others)

/-- Opens what redirections lead to; tells whether the input is replaced. A file that cannot be
opened is complained about. -/
def redirect : Nat → List Redirection → Bool → Machine → Machine × Option Bool
  | 0, _, replaced, machine => (machine, some replaced)
  | _ + 1, [], replaced, machine => (machine, some replaced)
  | depth + 1, redirection :: rest, replaced, machine =>
      match redirection with
      | .input source =>
          let (machine, name) := wordText depth source machine
          match machine.take name with
          | (machine, .ok content) => redirect depth rest true { machine with input := content }
          | (machine, .error _) =>
              (machine.complainAs ("cannot open ".toList ++ name ++ ": No such file".toList), none)
      | .toFile stream append target =>
          let (machine, name) := wordText depth target machine
          match machine.openSink append name with
          | .ok (machine, sink) => redirect depth rest replaced (machine.leading stream sink)
          | .error cause =>
              let reason :=
                if cause = .notFound then "Directory nonexistent".toList else cause.wording
              (machine.complainAs ("cannot create ".toList ++ name ++ ": ".toList ++ reason), none)
      | .toStream stream target =>
          let (machine, name) := wordText depth target machine
          let sink :=
            if name = ['1'] then machine.outputSink
            else if name = ['2'] then machine.errorSink
            else .nowhere
          redirect depth rest replaced (machine.leading stream sink)

def assignAll : Nat → List (Text × Word) → Machine → Machine
  | 0, _, machine => machine
  | _ + 1, [], machine => machine
  | depth + 1, (name, word) :: rest, machine =>
      let (machine, value) := wordText depth word machine
      assignAll depth rest (machine.assign name value)

def runProgram : Nat → Program → Text → List Text → Machine → Machine
  | 0, _, _, _, machine => machine
  | depth + 1, program, name, arguments, machine =>
      match program with
      | .tool tool => tool arguments machine
      | .file content =>
          isolate (fun machine => runText depth content { machine with name, arguments, bindings := [] })
            machine
      | .interpreter =>
          match arguments with
          | ['-', 'c'] :: script :: rest =>
              isolate
                (fun machine =>
                  runText depth script
                    { machine with
                      name := rest.headD name
                      arguments := rest.tail
                      bindings := [] })
                machine
          | file :: rest =>
              match machine.storage.read ⟨file⟩ with
              | .ok content =>
                  isolate
                    (fun machine =>
                      runText depth (Text.decodeLossy content)
                        { machine with name := file, arguments := rest, bindings := [] })
                    machine
              | .error _ =>
                  (machine.complain (name ++ ": 0: cannot open ".toList ++ file ++
                    ": No such file".toList)).exitWith 2
          | [] =>
              isolate
                (fun machine =>
                  runText depth (Text.decodeLossy machine.input)
                    { machine with name, input := ByteArray.empty, bindings := [] })
                machine

def runNamed : Nat → Text → List Text → Machine → Machine
  | 0, _, _, machine => machine
  | depth + 1, name, arguments, machine =>
      match Tools.inner.lookup name, arguments with
      | some tool, _ => tool arguments machine
      | none, command :: rest =>
          if name = "exec".toList then
            let after := runNamed depth command rest machine
            { after with ended := after.ended <|> some (.code after.status) }
          else runFound depth name arguments machine
      | none, [] => if name = "exec".toList then machine else runFound depth name [] machine

def runFound : Nat → Text → List Text → Machine → Machine
  | 0, _, _, machine => machine
  | depth + 1, name, arguments, machine =>
      match Program.find machine.storage name with
      | .ok program => runProgram depth program name arguments machine
      | .error .badExecutable =>
          match machine.storage.readText ⟨name⟩ with
          | .ok content => runProgram depth (.file content) name arguments machine
          | .error _ => machine.exitWith 126
      | .error .notPermitted =>
          (machine.complainAs (name ++ ": Permission denied".toList)).exitWith 126
      | .error _ => (machine.complainAs (name ++ ": not found".toList)).exitWith 127

/-- Runs a command unless the script has ended. `depth` bounds the nesting. -/
def run : Nat → Command → Machine → Machine
  | 0, _, machine => machine
  | depth + 1, command, machine =>
      if machine.ended.isSome then machine
      else
        match command with
        | .nothing => machine
        | .sequence first second => run depth second (run depth first machine)
        | .both first second =>
            let after := run depth first machine
            if after.status = 0 then run depth second after else after
        | .either first second =>
            let after := run depth first machine
            if after.status = 0 then after else run depth second after
        | .negation body =>
            let after := run depth body machine
            if after.ended.isSome then after else after.exitWith (if after.status = 0 then 1 else 0)
        | .choice condition positive negative =>
            let after := run depth condition machine
            if after.status = 0 then run depth positive after
            else run depth negative (after.exitWith 0)
        | .pipe first second =>
            let (after, bytes) := capture (isolate (run depth first)) machine
            let fed := isolate (run depth second) { after with input := bytes }
            { fed with input := after.input }
        | .group isolated body redirections =>
            match redirect depth redirections false machine with
            | (after, none) => (keepingStreams false machine after).exitWith 2
            | (after, some replaced) =>
                keepingStreams replaced machine
                  (if isolated then isolate (run depth body) after else run depth body after)
        | .simple assignments words redirections =>
            let (named, fields) := wordsFields depth words machine
            match redirect depth redirections false named with
            | (after, none) => (keepingStreams false named after).exitWith 2
            | (after, some replaced) =>
                match fields with
                | [] => keepingStreams replaced named (assignAll depth assignments (after.exitWith 0))
                | name :: arguments =>
                    let ran := runNamed depth name arguments (assignAll depth assignments after)
                    if name = "exec".toList && arguments.isEmpty then ran
                    else keepingStreams replaced named ran

def runText : Nat → Text → Machine → Machine
  | 0, _, machine => machine
  | depth + 1, text, machine =>
      match script? text with
      | some command => run depth command machine
      | none => { (machine.complainAs "Syntax error".toList) with status := 2, ended := some (.code 2) }

end

/-- Levels that a script and what it calls may be nested. -/
def depthLimit : Nat := 1000000

end Shell

end FencePreview
