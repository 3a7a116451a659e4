import FencePreview.Config.Load

/-! Arguments of the command line. Options may stand anywhere after the name of a command, short
ones may share a dash, and two dashes end them. -/

namespace FencePreview

/-- Options that take a value. -/
inductive OptionName where
  | output
  | config
  | documents
  | site
  | siteUrl
  | program
deriving DecidableEq, Repr

inductive CommandName where
  | scan
  | process
  | build
deriving DecidableEq, Repr

structure ConfigChoice where
  path : Option PathName
  overrides : Overrides
deriving DecidableEq, Repr

inductive Task where
  /-- Writes the panels of a document without rendering. -/
  | scan (input : Option PathName)
  | process (input output : Option PathName) (choice : ConfigChoice)
  | build (output : Option PathName) (choice : ConfigChoice)
deriving DecidableEq, Repr

inductive Request where
  | run (verbose : Bool) (task : Task)
  | version
  | help
  | misuse
deriving DecidableEq, Repr

namespace Arguments

/-- Why reading arguments ends early. -/
inductive Stop where
  | version
  | help
  | misuse
deriving DecidableEq, Repr

def Stop.request : Stop → Request
  | version => .version
  | help => .help
  | misuse => .misuse

/-- Arguments of one command as far as they are read. -/
structure Given where
  verbose : Bool
  values : List (OptionName × Text)
  operands : List Text
deriving DecidableEq, Repr

def Given.none : Given := ⟨false, [], []⟩

structure OptionForm where
  name : OptionName
  short : Option Char
  long : Text

structure CommandForm where
  options : List OptionForm
  operands : Nat

/-- Options of every command that needs a configuration. -/
def configOptions : List OptionForm :=
  [⟨.config, some 'c', "config".toList⟩, ⟨.documents, .none, "docs-dir".toList⟩,
    ⟨.site, .none, "site-dir".toList⟩, ⟨.siteUrl, .none, "site-url".toList⟩,
    ⟨.program, .none, "compiler".toList⟩]

def form : CommandName → CommandForm
  | .scan => ⟨[], 1⟩
  | .process => ⟨⟨.output, some 'o', "output".toList⟩ :: configOptions, 1⟩
  | .build => ⟨⟨.output, some 'o', "output-dir".toList⟩ :: configOptions, 0⟩

/-- Whether an option may have an empty value. A path may not. -/
def allowsEmpty : OptionName → Bool
  | .siteUrl => true
  | .program => true
  | _ => false

namespace Given

def addValue (given : Given) (name : OptionName) (value : Text) : Except Stop Given :=
  if (given.values.lookup name).isSome || (value.isEmpty && !allowsEmpty name) then .error .misuse
  else .ok { given with values := given.values ++ [(name, value)] }

def addOperand (limit : Nat) (given : Given) (operand : Text) : Except Stop Given :=
  if limit ≤ given.operands.length || operand.isEmpty then .error .misuse
  else .ok { given with operands := given.operands ++ [operand] }

def addVerbose (given : Given) : Except Stop Given :=
  if given.verbose then .error .misuse else .ok { given with verbose := true }

end Given

/-- Whether an argument can be the value of the option before it. -/
def isValue (argument : Text) : Bool := argument = ['-'] || argument.head? ≠ some '-'

/-- Reads letters that share a dash. An option at their end still waits for its value. -/
def readLetters (options : List OptionForm) (given : Given) :
    Text → Except Stop (Given × Option OptionName)
  | [] => .ok (given, none)
  | letter :: rest =>
      if letter = 'h' then .error .help
      else if letter = 'v' then
        match given.addVerbose with
        | .ok given => readLetters options given rest
        | .error stop => .error stop
      else
        match options.find? (·.short = some letter), rest with
        | none, _ => .error .misuse
        | some option, [] => .ok (given, some option.name)
        | some option, '=' :: value => (given.addValue option.name value).map fun given => (given, none)
        | some option, value => (given.addValue option.name value).map fun given => (given, none)

def readLong (options : List OptionForm) (given : Given) (written : Text) :
    Except Stop (Given × Option OptionName) :=
  let (name, value) := match Text.splitFirst? ['='] written with
    | some (name, value) => (name, some value)
    | none => (written, none)
  match options.find? (·.long = name), value with
  | some option, some value => (given.addValue option.name value).map fun given => (given, none)
  | some option, none => .ok (given, some option.name)
  | none, some _ => .error .misuse
  | none, none =>
      if name = "verbose".toList then given.addVerbose.map fun given => (given, none)
      else if name = "help".toList then .error .help
      else .error .misuse

/-- Reads one argument; an option may still wait for its value. -/
def readOne (form : CommandForm) (given : Given) (argument : Text) :
    Except Stop (Given × Option OptionName) :=
  match argument with
  | '-' :: '-' :: written => readLong form.options given written
  | '-' :: letter :: letters => readLetters form.options given (letter :: letters)
  | _ => (given.addOperand form.operands argument).map fun given => (given, none)

def read (form : CommandForm) : Given → List Text → Except Stop Given
  | given, [] => .ok given
  | given, ['-', '-'] :: rest => rest.foldlM (Given.addOperand form.operands) given
  | given, argument :: rest =>
      match readOne form given argument, rest with
      | .error stop, _ => .error stop
      | .ok (given, none), rest => read form given rest
      | .ok (_, some _), [] => .error .misuse
      | .ok (given, some name), value :: rest =>
          if isValue value then
            match given.addValue name value with
            | .ok given => read form given rest
            | .error stop => .error stop
          else .error .misuse

/-- Variable that stands in for an option that is not given. -/
def siteUrlVariable : Text := "TPV_SITE_URL".toList

def Given.value? (given : Given) (name : OptionName) : Option Text := given.values.lookup name

def Given.path? (given : Given) (name : OptionName) : Option PathName := (given.value? name).map .mk

def Given.choice (given : Given) (environment : Environment) : ConfigChoice :=
  { path := given.path? .config
    overrides :=
      { documents := given.path? .documents
        site := given.path? .site
        siteUrl := given.value? .siteUrl <|> environment.lookup siteUrlVariable
        program := given.value? .program } }

def taskOf (name : CommandName) (given : Given) (environment : Environment) : Task :=
  let input := given.operands.head?.map PathName.mk
  match name with
  | .scan => .scan input
  | .process => .process input (given.path? .output) (given.choice environment)
  | .build => .build (given.path? .output) (given.choice environment)

def commandName? (written : Text) : Option CommandName :=
  if written = "scan".toList then some .scan
  else if written = "process".toList then some .process
  else if written = "build".toList then some .build
  else none

def readCommand (environment : Environment) (verbose : Bool) (name : CommandName)
    (arguments : List Text) : Request :=
  match read (form name) .none arguments with
  | .ok given => .run (verbose || given.verbose) (taskOf name given environment)
  | .error stop => stop.request

def readLeadingLetters (verbose : Bool) : Text → Except Stop Bool
  | [] => .ok verbose
  | letter :: rest =>
      if letter = 'V' then .error .version
      else if letter = 'h' then .error .help
      else if letter = 'v' && !verbose then readLeadingLetters true rest
      else .error .misuse

/-- Whether a request for help names a command at most. -/
def isHelpTopic : List Text → Bool
  | [] => true
  | [topic] => (commandName? topic).isSome || topic = "help".toList
  | _ => false

/-- Reads arguments up to the name of a command, and from there on as that command does. -/
def readLeading (environment : Environment) (verbose : Bool) : List Text → Request
  | [] => .misuse
  | argument :: rest =>
      match commandName? argument with
      | some name => readCommand environment verbose name rest
      | none =>
          if argument = "help".toList then (if isHelpTopic rest then .help else .misuse)
          else if argument = "--help".toList then .help
          else if argument = "--version".toList then .version
          else if argument = "--verbose".toList then
            if verbose then .misuse else readLeading environment true rest
          else
            match argument with
            | '-' :: '-' :: _ => .misuse
            | '-' :: letter :: letters =>
                match readLeadingLetters verbose (letter :: letters) with
                | .ok verbose => readLeading environment verbose rest
                | .error stop => stop.request
            | _ => .misuse

def request (environment : Environment) (arguments : List Text) : Request :=
  readLeading environment false arguments

end Arguments

end FencePreview
