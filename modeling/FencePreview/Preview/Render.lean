import FencePreview.Preview.Artifacts
import FencePreview.Preview.Imports
import FencePreview.Preview.Markup
import FencePreview.Preview.Mode
import FencePreview.Preview.Workspace

/-! Rendering one preview: both variants are compiled unless they are in store, and published
where the site lacks them. -/

namespace FencePreview

inductive PreviewError where
  | attributes (error : AttributeError)
  /-- A setting without which nothing can be published. -/
  | missingSetting (name : Text)
  | compile (error : CompileError)
  | publish (cause : FileError)
deriving DecidableEq, Repr

def PreviewError.message : PreviewError → Text
  | attributes error => error.message
  | missingSetting name => "missing configuration: ".toList ++ name
  | compile error => error.message
  | publish cause => "I/O error: ".toList ++ cause.message

structure RenderedPreview where
  fingerprint : Text
  lightUrl : Text
  darkUrl : Text
  compiled : Bool
deriving DecidableEq, Repr

def RenderedPreview.markup (preview : RenderedPreview) : Text :=
  Markup.imagePair preview.lightUrl preview.darkUrl

namespace Artifacts

def storeOne (artifacts : Artifacts) (compiler : Compiler) (fingerprint document : Text)
    (variant : Variant) : Job CompileError Unit :=
  let target := artifacts.dumpPath fingerprint variant
  Job.placeFile (target.parent?.getD ⟨['.']⟩) target .file (Job.compile compiler document)

/-- Compiles both variants into the store, the light one first. -/
def store (artifacts : Artifacts) (compiler : Compiler) (fingerprint : Text)
    (document : Variant → Text) : Job CompileError Unit := do
  Job.orFail .file (Job.makeDirectories artifacts.dumpDirectory)
  artifacts.storeOne compiler fingerprint (document .light) .light
  artifacts.storeOne compiler fingerprint (document .dark) .dark

/-- Copies one image to the site unless it is there, and counts the copy. -/
def publishOne (artifacts : Artifacts) (fingerprint : Text) (variant : Variant) : Job FileError Nat := do
  let target := artifacts.sitePath fingerprint variant
  if ← Job.inspect (·.isFile target) then return 0
  Job.placeFile artifacts.siteDirectory target id fun temporary =>
    Job.change (·.copy (artifacts.dumpPath fingerprint variant) temporary)
  return 1

/-- Copies both images to the site where they are missing; returns the number of copies. -/
def publish (artifacts : Artifacts) (fingerprint : Text) : Job FileError Nat := do
  Job.makeDirectories artifacts.siteDirectory
  let light ← artifacts.publishOne fingerprint .light
  let dark ← artifacts.publishOne fingerprint .dark
  return light + dark

end Artifacts

structure Formatter where
  templates : Templates
  artifacts : Artifacts
  compiler : Compiler
  /-- Path of the site in addresses, ending with a slash. -/
  sitePath : Option Text

namespace Formatter

def url (sitePath fingerprint : Text) (variant : Variant) : Text :=
  sitePath ++ renderedDirectory ++ '/' :: variant.fileName fingerprint

def document (formatter : Formatter) (settings : PreviewSettings) (source : Text) (variant : Variant) :
    Text :=
  formatter.templates.render settings.mode variant
    (if settings.dropImports then stripImports source else source)

/-- Compiles both documents unless their images are in store; tells whether it did. -/
def storeIfMissing (formatter : Formatter) (fingerprint : Text) (document : Variant → Text) :
    Job CompileError Bool := do
  if ← Job.inspect (formatter.artifacts.isCached · fingerprint) then return false
  formatter.artifacts.store formatter.compiler fingerprint document
  return true

/-- Renders a source. Attributes and site path are checked before anything is written. -/
def render (formatter : Formatter) (source : Text) (attributes : Attributes) :
    Job PreviewError RenderedPreview :=
  match PreviewSettings.ofAttributes attributes, formatter.sitePath with
  | .error error, _ => throw (.attributes error)
  | .ok _, none => throw (.missingSetting "site_url".toList)
  | .ok settings, some sitePath => do
      let document := formatter.document settings source
      let name := fingerprint (document .light)
      let compiled ← Job.orFail .compile (formatter.storeIfMissing name document)
      let _ ← Job.orFail .publish (formatter.artifacts.publish name)
      return { fingerprint := name
               lightUrl := url sitePath name .light
               darkUrl := url sitePath name .dark
               compiled }

def format (formatter : Formatter) (source : Text) (attributes : Attributes) : Job PreviewError Text := do
  return (← formatter.render source attributes).markup

end Formatter

/-- How a failure inside a fence is reported. -/
def PreviewError.fenceMessage (error : PreviewError) : Text :=
  "fence processing failed: ".toList ++ error.message

end FencePreview
