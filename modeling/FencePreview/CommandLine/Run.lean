import FencePreview.CommandLine.Arguments
import FencePreview.Compiler.External
import FencePreview.Document.Collection

/-! Runs of the program: the request on the command line is carried out, and what the user sees of
it is collected. -/

namespace FencePreview

inductive CommandError where
  | config (error : ConfigError)
  | file (cause : FileError)
  | scan (error : ScanError)
  | document (error : DocumentError)
  /-- Some documents of a collection failed. -/
  | build (failed total : Nat)
deriving DecidableEq, Repr

def CommandError.message : CommandError → Text
  | config error => error.message
  | file cause => cause.message
  | scan error => error.message
  | document error => error.message
  | build failed total =>
      Text.ofNat failed ++ " of ".toList ++ Text.ofNat total ++ " documents failed".toList

/-- What a user is told besides the output. -/
inductive Notice where
  | line (content : Text)
  /-- An entry of the log, which is shown on request. -/
  | logged (entry : Text)
deriving DecidableEq, Repr

structure Surroundings where
  storage : Storage
  environment : Environment
  input : ByteArray

structure Outcome where
  storage : Storage
  output : Text
  notices : List Notice
  exitCode : Nat

namespace CommandLine

def versionLine : Text := "tpv 0.1.0\n".toList

def usageLine : Text := "Usage: tpv [-v] <scan|process|build> [OPTIONS] [FILE]".toList

def misuseCode : Nat := 2

/-- Replaces the default imports by those configured. -/
def templatesOf (config : Config) : Templates :=
  { imports := config.imports.getD Templates.default.imports
    legacyImports := config.legacyImports.getD Templates.default.legacyImports }

def formatterOf (config : Config) : Formatter :=
  { templates := templatesOf config
    artifacts := .below config.documents config.site
    compiler := Compiler.external config.program config.arguments
    sitePath := config.sitePath }

/-- A run in progress: what it can change, and what it tells the user. -/
structure Progress where
  workspace : Workspace
  output : Text
  notices : List Notice

abbrev Action (α : Type) := EStateM CommandError Progress α

def tell (content : Text) : Action Unit :=
  modify fun progress => { progress with notices := progress.notices ++ [.line content] }

def newEntries (earlier later : Workspace) : List Notice :=
  (later.log.drop earlier.log.length).map .logged

def carryOut {ε α : Type} (wrap : ε → CommandError) (job : Job ε α) : Action α := fun progress =>
  match job progress.workspace with
  | .ok value changed =>
      .ok value { progress with
        workspace := changed, notices := progress.notices ++ newEntries progress.workspace changed }
  | .error error changed =>
      .error (wrap error) { progress with
        workspace := changed, notices := progress.notices ++ newEntries progress.workspace changed }

/-- The document to work on: a file, or the input of the run. -/
def readInput (input : ByteArray) : Option PathName → Action Text
  | some path => do
      match ← carryOut CommandError.file (Job.inspect (·.readText path)) with
      | .ok text => return text
      | .error cause => throw (.file cause)
  | none =>
      match Text.decode? input with
      | some text => return text
      | none => throw (.file .invalidText)

def loadConfig (environment : Environment) (choice : ConfigChoice) : Action Config := do
  let storage ← carryOut CommandError.file (Job.inspect id)
  match Config.load storage environment choice.path (some choice.overrides) with
  | .ok config => return config
  | .error error => throw (.config error)

def previewCounts (previews compiled : Nat) : Text :=
  Text.ofNat previews ++ " previews (".toList ++ Text.ofNat compiled ++ " compiled)".toList

def runScan (content : Text) : Action Unit := do
  match (Scanner.new.scan content).2 with
  | .ok scanned => modify fun progress => { progress with output := progress.output ++ scanned }
  | .error error => throw (.scan error)

def deliver (document : ProcessedDocument) : Option PathName → Action Unit
  | some path => do
      carryOut CommandError.file (Job.change (·.write path (Text.encode document.output)))
      tell ("Processed ".toList ++ previewCounts document.previews document.compiled ++
        " to ".toList ++ path.text)
  | none => modify fun progress => { progress with output := progress.output ++ document.output }

/-- Processes all documents and tells of each that fails. -/
def runBuild (config : Config) (output : PathName) : Action Unit := do
  tell ("Docs: ".toList ++ config.documents.text)
  tell ("Output: ".toList ++ output.text)
  let collect : Job Empty CollectionReport := fun workspace =>
    let (report, changed) := (formatterOf config).processCollection config.documents output workspace
    .ok report changed
  let report ← carryOut Empty.elim collect
  for (path, error) in report.failures do
    tell (path.text ++ ": ".toList ++ error.message)
  if report.failures.isEmpty then
    tell ("Processed ".toList ++ Text.ofNat report.total ++ " documents, ".toList ++
      previewCounts report.previews report.compiled)
  else throw (.build report.failures.length report.total)

def runTask (surroundings : Surroundings) : Task → Action Unit
  | .scan path => do runScan (← readInput surroundings.input path)
  | .process path output choice => do
      let config ← loadConfig surroundings.environment choice
      let content ← readInput surroundings.input path
      let document ← carryOut .document ((formatterOf config).process content)
      deliver document output
  | .build output choice => do
      let config ← loadConfig surroundings.environment choice
      runBuild config (output.getD config.buildDirectory)

def isShown (verbose : Bool) : Notice → Bool
  | .line _ => true
  | .logged _ => verbose

def outcomeOf (verbose : Bool) (progress : Progress) (exitCode : Nat) : Outcome :=
  { storage := progress.workspace.storage
    output := progress.output
    notices := progress.notices.filter (isShown verbose)
    exitCode }

/-- Carries out a task. A failure is told last and gives exit code 1. -/
def perform (surroundings : Surroundings) (verbose : Bool) (task : Task) : Outcome :=
  let start : Progress :=
    { workspace := { storage := surroundings.storage, compiled := [], log := [] }
      output := []
      notices := [] }
  match runTask surroundings task start with
  | .ok () progress => outcomeOf verbose progress 0
  | .error error progress =>
      let told := progress.notices ++ [.line ("Error: ".toList ++ error.message)]
      outcomeOf verbose { progress with notices := told } 1

def run (surroundings : Surroundings) (arguments : List Text) : Outcome :=
  let quiet (output : Text) (exitCode : Nat) : Outcome :=
    { storage := surroundings.storage, output, notices := [], exitCode }
  match Arguments.request surroundings.environment arguments with
  | .run verbose task => perform surroundings verbose task
  | .version => quiet versionLine 0
  | .help => quiet (usageLine ++ ['\n']) 0
  | .misuse => { quiet [] misuseCode with notices := [.line usageLine] }

end CommandLine

end FencePreview
