import FencePreview.Digest.Sha224
import FencePreview.Preview.Template
import FencePreview.Storage.Basic

/-! Where rendered images live. Their names come from the digest of the light document, so equal
previews share their images. One directory keeps what was rendered, another what is published. -/

namespace FencePreview

/-- Digest that names the images of a preview. -/
def fingerprint (lightDocument : Text) : Text := Sha224.hex (Text.encode lightDocument).toList

/-- Directory of images, on disk and in addresses. -/
def renderedDirectory : Text := "rendered".toList

def Variant.fileName (variant : Variant) (fingerprint : Text) : Text :=
  fingerprint ++ (match variant with
    | .light => "_l.svg".toList
    | .dark => "_d.svg".toList)

structure Artifacts where
  /-- Images rendered so far; an image found here is not rendered again. -/
  dumpDirectory : PathName
  /-- Copies for the published site. -/
  siteDirectory : PathName
deriving DecidableEq, Repr

namespace Artifacts

def below (documents site : PathName) : Artifacts :=
  { dumpDirectory := documents.join ⟨renderedDirectory⟩
    siteDirectory := site.join ⟨renderedDirectory⟩ }

def dumpPath (artifacts : Artifacts) (fingerprint : Text) (variant : Variant) : PathName :=
  artifacts.dumpDirectory.join ⟨variant.fileName fingerprint⟩

def sitePath (artifacts : Artifacts) (fingerprint : Text) (variant : Variant) : PathName :=
  artifacts.siteDirectory.join ⟨variant.fileName fingerprint⟩

def isCached (artifacts : Artifacts) (storage : Storage) (fingerprint : Text) : Bool :=
  Variant.all.all fun variant => storage.isFile (artifacts.dumpPath fingerprint variant)

end Artifacts

end FencePreview
