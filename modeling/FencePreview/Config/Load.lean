import FencePreview.Config.Expansion
import FencePreview.Config.Settings
import FencePreview.Config.SiteUrl
import FencePreview.Storage.Basic

/-! The configuration of a run. It comes from a named file, else from the nearest file of the
fixed name in the current directory or one above it, else from defaults; options of the command
line then take the place of its values. Relative paths of a file start from its directory. -/

namespace FencePreview

inductive ConfigError where
  | missing (path : PathName)
  | file (cause : FileError)
  /-- The document is malformed, or a setting is not of its kind. -/
  | document
  | emptySetting (field : Text)
  /-- A setting is neither a web address nor an absolute path. -/
  | badAddress (field : Text)
  | unsetVariable (field name : Text)
deriving DecidableEq, Repr

def ConfigError.message : ConfigError → Text
  | missing path => "Configuration file not found: ".toList ++ path.text
  | file cause => "I/O error: ".toList ++ cause.message
  | document => "TOML parse error: invalid document".toList
  | emptySetting field => "Configuration error: ".toList ++ field ++ " cannot be empty".toList
  | badAddress field =>
      "Configuration error: ".toList ++ field ++ " must start with http://, https:// or /".toList
  | unsetVariable field name =>
      "Environment variable error in ".toList ++ field ++ ": $\x7b".toList ++ name ++
        "\x7d not set".toList

structure Config where
  documents : PathName
  site : PathName
  siteUrl : Option Text
  /-- Directory for what the program keeps for itself. -/
  project : PathName
  program : Text
  arguments : List Text
  imports : Option Text
  legacyImports : Option Text
  source : Option PathName
deriving DecidableEq, Repr

/-- How documents are read and variables are replaced. -/
structure Reading where
  settings? : Text → Option Settings
  expand : Text → Except Text Text

namespace Reading

def usual (environment : Environment) : Reading := ⟨Settings.read?, Expansion.expand environment⟩

@[simp] theorem usual_settings? (environment : Environment) : (usual environment).settings? = Settings.read? := rfl

@[simp] theorem usual_expand (environment : Environment) : (usual environment).expand = Expansion.expand environment :=
  rfl

end Reading

structure Overrides where
  documents : Option PathName
  site : Option PathName
  siteUrl : Option Text
  program : Option Text
deriving DecidableEq, Repr

def Overrides.none : Overrides := ⟨.none, .none, .none, .none⟩

namespace Config

def fileName : PathName := .ofString "tpv.toml"

def siteUrlField : Text := "docs.site_url".toList

def programField : Text := "compiler.program".toList

def sitePath (config : Config) : Option Text := config.siteUrl.map SiteUrl.path

/-- Where a build goes unless told otherwise. -/
def buildDirectory (config : Config) : PathName := config.project.join (.ofString "build")

/-- Settings with relative paths seen from a directory. -/
def ofSettings (settings : Settings) (directory : PathName) (source : Option PathName) : Config :=
  { documents := directory.join ⟨settings.documents.getD "docs".toList⟩
    site := directory.join ⟨settings.site.getD "site".toList⟩
    siteUrl := settings.siteUrl
    project := directory.join (.ofString ".tpv")
    program := settings.program
    arguments := settings.arguments
    imports := settings.imports
    legacyImports := settings.legacyImports
    source }

/-- Accepts a program that is named and a site address of a known form. -/
def validate (config : Config) : Except ConfigError Unit :=
  if config.program = [] then .error (.emptySetting programField)
  else
    match config.siteUrl with
    | none => .ok ()
    | some [] => .error (.emptySetting siteUrlField)
    | some url => if SiteUrl.isAccepted url then .ok () else .error (.badAddress siteUrlField)

section Reading

variable (reading : Reading)

def expandFieldBy (field value : Text) : Except ConfigError Text :=
  (reading.expand value).mapError (.unsetVariable field)

def expandSettings (settings : Settings) : Except ConfigError Settings := do
  let siteUrl ← settings.siteUrl.mapM (expandFieldBy reading siteUrlField)
  let program ← expandFieldBy reading programField settings.program
  return { settings with siteUrl, program }

def ofText (path : PathName) (content : Text) : Except ConfigError Config := do
  match reading.settings? content with
  | none => throw .document
  | some settings =>
      let expanded ← expandSettings reading settings
      let config := ofSettings expanded (path.parent?.getD ⟨['.']⟩) (some path)
      config.validate
      return config

def ofFile (storage : Storage) (path : PathName) : Except ConfigError Config :=
  match storage.readText path with
  | .error cause => .error (.file cause)
  | .ok content => ofText reading path content

end Reading

/-- A location and those above it, the deepest first. -/
def enclosing (location : Location) : List Location :=
  ((List.range (location.length + 1)).map location.take).reverse

def discover? (storage : Storage) : Option PathName :=
  (enclosing storage.workingDirectory).findSome? fun location =>
    let candidate := (Storage.pathOf location).join fileName
    if storage.exists? candidate then some candidate else none

def base (reading : Reading) (storage : Storage) (path : Option PathName) : Except ConfigError Config :=
  match path with
  | some path =>
      if storage.exists? path then ofFile reading storage path else .error (.missing path)
  | none =>
      match discover? storage with
      | some found => ofFile reading storage found
      | none => .ok (ofSettings .default (Storage.pathOf storage.workingDirectory) none)

def override (config : Config) (overrides : Overrides) : Config :=
  { config with
    documents := overrides.documents.getD config.documents
    site := overrides.site.getD config.site
    siteUrl := overrides.siteUrl <|> config.siteUrl
    program := overrides.program.getD config.program }

/-- Loading a configuration with any reader of documents and any way to replace variables. Values of a
file are checked on their own, and again together with the overrides when there are any. -/
def loadBy (reading : Reading) (storage : Storage) (path : Option PathName)
    (overrides : Option Overrides) : Except ConfigError Config := do
  let config ← base reading storage path
  match overrides with
  | none => return config
  | some overrides =>
      let final := config.override overrides
      final.validate
      return final

def expandField (environment : Environment) (field value : Text) : Except ConfigError Text :=
  expandFieldBy (.usual environment) field value

/-- The configuration of a run. -/
def load (storage : Storage) (environment : Environment) (path : Option PathName)
    (overrides : Option Overrides) : Except ConfigError Config :=
  loadBy (.usual environment) storage path overrides

end Config

end FencePreview
