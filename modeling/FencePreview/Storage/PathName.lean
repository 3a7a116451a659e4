import FencePreview.Text.Search

/-! Names of files as they are written. Joining, taking the parent and removing a leading part
work on the written form; comparing two names ignores repeated slashes and inner single dots. -/

namespace FencePreview

structure PathName where
  text : Text
deriving DecidableEq, Repr

inductive Component where
  | root
  | current
  | parent
  | name (text : Text)
deriving DecidableEq, Repr

namespace PathName

def ofString (text : String) : PathName := ⟨text.toList⟩

def isAbsolute (path : PathName) : Bool := path.text.head? = some '/'

/-- Pieces between slashes that name no step: empty ones and single dots. -/
def isIdle (piece : Text) : Bool := piece = [] || piece = ['.']

/-- The start of a path that counts on its own: the root slash or a leading single dot. What
remains are the pieces after it. -/
def anchor (path : PathName) : Option Component × List Text :=
  match Text.splitAtEach '/' path.text with
  | [] => (none, [])
  | first :: rest =>
      if path.isAbsolute then (some .root, rest)
      else if first = ['.'] then (some .current, rest)
      else (none, first :: rest)

def componentOf (piece : Text) : Component := if piece = ['.', '.'] then .parent else .name piece

def components (path : PathName) : List Component :=
  let (start, pieces) := path.anchor
  start.toList ++ (pieces.filter fun piece => !isIdle piece).map componentOf

def write (start : Option Component) (pieces : List Text) : PathName :=
  let body := Text.joinWith ['/'] pieces
  match start with
  | some .root => ⟨'/' :: body⟩
  | some .current => if pieces.isEmpty then ⟨['.']⟩ else ⟨'.' :: '/' :: body⟩
  | _ => ⟨body⟩

def dropIdleEnd (pieces : List Text) : List Text := (pieces.reverse.dropWhile isIdle).reverse

/-- `other` seen from `path`; an absolute `other` stands for itself. -/
def join (path other : PathName) : PathName :=
  if other.isAbsolute then other
  else if path.text = [] || path.text.getLast? = some '/' then ⟨path.text ++ other.text⟩
  else ⟨path.text ++ '/' :: other.text⟩

def trimmed (path : PathName) : PathName := ⟨Text.trimEndWhile (· = '/') path.text⟩

def endsInSlash (path : PathName) : Bool := path.text.getLast? = some '/'

/-- Whether a path ends in the name of an entry, slashes after it aside. -/
def endsInName (path : PathName) : Bool :=
  match (Text.splitAtEach '/' path.trimmed.text).getLast? with
  | some piece => !isIdle piece && piece ≠ ['.', '.']
  | none => false

def parent? (path : PathName) : Option PathName :=
  let (start, pieces) := path.anchor
  match dropIdleEnd pieces with
  | [] => if start = some .current then some ⟨[]⟩ else none
  | pieces => some (write start (dropIdleEnd pieces.dropLast))

/-- Removes steps from the front of written pieces as long as they agree. -/
def stripPieces? : List Component → List Text → Option (List Text)
  | [], pieces => some (pieces.dropWhile isIdle)
  | expected :: rest, pieces =>
      match pieces.dropWhile isIdle with
      | [] => none
      | piece :: pieces => if componentOf piece = expected then stripPieces? rest pieces else none

def relativeTo? (path base : PathName) : Option PathName :=
  let (start, pieces) := path.anchor
  match base.components with
  | [] => some (write start (dropIdleEnd pieces))
  | first :: rest =>
      match start with
      | some component =>
          if first = component then
            (stripPieces? rest pieces).map fun kept => write none (dropIdleEnd kept)
          else none
      | none => (stripPieces? (first :: rest) pieces).map fun kept => write none (dropIdleEnd kept)

def rank : Component → Nat
  | .root => 0
  | .current => 1
  | .parent => 2
  | .name _ => 3

/-- Order of two texts by code points, which is the order of their bytes. -/
def textLe : Text → Text → Bool
  | [], _ => true
  | _ :: _, [] => false
  | first :: left, second :: right =>
      if first = second then textLe left right else first.toNat ≤ second.toNat

def componentLe (first second : Component) : Bool :=
  match first, second with
  | .name left, .name right => textLe left right
  | _, _ => rank first ≤ rank second

def componentsLe : List Component → List Component → Bool
  | [], _ => true
  | _ :: _, [] => false
  | first :: left, second :: right =>
      if first = second then componentsLe left right else componentLe first second

def le (first second : PathName) : Bool := componentsLe first.components second.components

end PathName

end FencePreview
