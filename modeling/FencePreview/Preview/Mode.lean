import FencePreview.Fence.Attributes
import FencePreview.Fence.Directive
import FencePreview.Panel.Options

/-! How a source is wrapped before it is compiled, and how the attributes of a preview block
choose it. -/

namespace FencePreview

inductive RenderMode where
  /-- The source is code. -/
  | code
  /-- The source is markup after the current imports. -/
  | embedded
  /-- The source is markup after the imports of both older versions. -/
  | legacy
  /-- The source is markup without imports. -/
  | basic
deriving DecidableEq, Repr

namespace RenderMode

def all : List RenderMode := [code, embedded, legacy, basic]

/-- Name in a `mode` attribute. -/
def name : RenderMode → Text
  | code => "code".toList
  | embedded => "embedded".toList
  | legacy => "01-to-02".toList
  | basic => "basic".toList

/-- Language tag that implies the mode. -/
def tag? : RenderMode → Option Text
  | code => some codeTag
  | embedded => some markupTag
  | legacy => some legacyTag
  | basic => none

def ofName? (text : Text) : Option RenderMode := all.find? fun mode => mode.name = text

def ofTag? (language : Text) : Option RenderMode := all.find? fun mode => mode.tag? = some language

end RenderMode

inductive AttributeError where
  | missingMode
  | unknownMode (mode : Text)
  | unknownLanguage (language : Text)
deriving DecidableEq, Repr

def AttributeError.message : AttributeError → Text
  | missingMode => "missing value for 'mode'".toList
  | unknownMode mode => "invalid mode: ".toList ++ mode
  | unknownLanguage language => "invalid language: ".toList ++ language

/-- What the attributes of a preview block ask for. -/
structure PreviewSettings where
  mode : RenderMode
  /-- Leave out the import lines of the source. -/
  dropImports : Bool
deriving DecidableEq, Repr

/-- The mode named by `mode`, or else the one implied by `lang`, or else `embedded`. -/
def PreviewSettings.chooseMode (attributes : Attributes) : Except AttributeError RenderMode :=
  match attributes.get? "mode".toList, attributes.get? "lang".toList with
  | some [], _ => .error .missingMode
  | some name, _ =>
      match RenderMode.ofName? name with
      | some mode => .ok mode
      | none => .error (.unknownMode name)
  | none, some language =>
      match RenderMode.ofTag? language with
      | some mode => .ok mode
      | none => .error (.unknownLanguage language)
  | none, none => .ok .embedded

def PreviewSettings.ofAttributes (attributes : Attributes) : Except AttributeError PreviewSettings :=
  (chooseMode attributes).map fun mode => { mode, dropImports := attributes.has "fake".toList }

end FencePreview
