import FencePreview.Toml.Document

/-! Settings as a configuration document gives them. A setting that the document leaves out keeps
its default, and keys that name no setting are passed over. -/

namespace FencePreview

structure Settings where
  documents : Option Text
  site : Option Text
  siteUrl : Option Text
  /-- Compiler and its arguments. -/
  program : Text
  arguments : List Text
  /-- Imports in place of the default ones. -/
  imports : Option Text
  legacyImports : Option Text
deriving DecidableEq, Repr

namespace Settings

/-- Settings of an empty document. -/
def default : Settings :=
  { documents := none
    site := none
    siteUrl := none
    program := "typst".toList
    arguments := ["c".toList, "-".toList]
    imports := none
    legacyImports := none }

/-- A group of settings as named fields. A list gives them in order; a date has none of them. -/
def fields? (names : List Text) : Toml.Node → Option Toml.Entries
  | .table _ entries => some entries
  | .array items => some (names.zip items)
  | .tables items => some (names.zip items)
  | .scalar (.moment _) => some []
  | .scalar _ => none

/-- The named fields of a group; a group that is left out has none. -/
def group? (name : Text) (names : List Text) (entries : Toml.Entries) : Option Toml.Entries :=
  match entries.lookup name with
  | some node => fields? names node
  | none => some []

def text? : Toml.Node → Option Text
  | .scalar (.text content) => some content
  | _ => none

def texts? : Toml.Node → Option (List Text)
  | .array items => items.mapM text?
  | .tables items => items.mapM text?
  | _ => none

/-- A field read by `read?`, or `fallback` when it is left out. -/
def field? {α : Type} (read? : Toml.Node → Option α) (fallback : α) (name : Text)
    (entries : Toml.Entries) : Option α :=
  match entries.lookup name with
  | some node => read? node
  | none => some fallback

def optional? (name : Text) (entries : Toml.Entries) : Option (Option Text) :=
  field? (fun node => (text? node).map some) none name entries

/-- Settings in the root table of a document; `none` if one is not of its kind. -/
def ofEntries? (entries : Toml.Entries) : Option Settings := do
  let docs ← group? "docs".toList ["docs_dir".toList, "site_dir".toList, "site_url".toList] entries
  let compiler ← group? "compiler".toList ["program".toList, "args".toList] entries
  let preview ← group? "preview".toList ["imports".toList, "legacy_imports".toList] entries
  return {
    documents := ← optional? "docs_dir".toList docs
    site := ← optional? "site_dir".toList docs
    siteUrl := ← optional? "site_url".toList docs
    program := ← field? text? default.program "program".toList compiler
    arguments := ← field? texts? default.arguments "args".toList compiler
    imports := ← optional? "imports".toList preview
    legacyImports := ← optional? "legacy_imports".toList preview }

def read? (content : Text) : Option Settings := (Toml.read? content).bind ofEntries?

end Settings

end FencePreview
