import FencePreview.Text.Search

/-! Addresses of a published site: which are accepted, and the path that image addresses begin
with. -/

namespace FencePreview

namespace SiteUrl

def beginnings : List Text := ["http://".toList, "https://".toList, "/".toList]

def isAccepted (url : Text) : Bool :=
  beginnings.any fun beginning => (Text.stripStart? beginning url).isSome

def endsPath (character : Char) : Bool := character = '?' || character = '#'

def closeWithSlash (path : Text) : Text := if path.getLast? = some '/' then path else path ++ ['/']

/-- Path of an address, without query and fragment and ending with a slash. After a scheme the
path begins at the first slash past the host. -/
def path (url : Text) : Text :=
  match Text.splitFirst? "://".toList url with
  | some (_, rest) =>
      closeWithSlash ((rest.takeWhile fun character => !endsPath character).dropWhile (· ≠ '/'))
  | none => closeWithSlash (url.takeWhile fun character => !endsPath character)

theorem closeWithSlash_getLast? (path : Text) : (closeWithSlash path).getLast? = some '/' := by
  simp only [closeWithSlash]
  split
  · assumption
  · simp

end SiteUrl

end FencePreview
