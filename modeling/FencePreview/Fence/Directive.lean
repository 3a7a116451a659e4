import FencePreview.Fence.Marker
import FencePreview.Text.Search

/-! Fences that ask for a preview. The opening line carries the language tag and a `+preview`
directive, the last one of its line; the closing line repeats the quote characters and the
marker exactly. -/

namespace FencePreview

def markupTag : Text := "typst".toList

def codeTag : Text := "typst-code".toList

def directiveName : Text := "+preview".toList

/-- The parts of an opening line. `directive` is written as it stands there, `options` is the text
between its parentheses and empty without them. -/
structure DirectiveFence where
  lead : Text
  marker : Text
  language : Text
  directive : Text
  options : Text
deriving DecidableEq, Repr

/-- A language tag and the rest of the text, at least one space or tab after the tag. -/
def languageTag? (text : Text) : Option (Text × Text) :=
  let tagged := [codeTag, markupTag].filterMap fun tag =>
    (Text.stripStart? tag text).map fun rest => (tag, rest)
  match tagged with
  | [] => none
  | (tag, rest) :: _ =>
      match rest with
      | [] => none
      | blank :: _ => if Text.isIndent blank then some (tag, rest.dropWhile Text.isIndent) else none

/-- The text between a parenthesis at the start and the next closing one. -/
def parenthesized? : Text → Option Text
  | '(' :: inner => if ')' ∈ inner then some (inner.takeWhile (· ≠ ')')) else none
  | _ => none

/-- The directive and its options. What precedes the directive lies on its line; its options may
go past the line. -/
def directiveIn? (text : Text) : Option (Text × Text) :=
  let line := text.takeWhile (· ≠ '\n')
  let later := text.dropWhile (· ≠ '\n')
  (Text.splitLast? directiveName line).map fun (_, after) =>
    match parenthesized? (after ++ later) with
    | some options => (directiveName ++ '(' :: options ++ [')'], options)
    | none => (directiveName, [])

/-- A line of nothing but spaces and tabs, line ends apart. -/
def isBlankLine (line : Text) : Bool :=
  (Text.trimEndWhile (fun character => character = '\r' || character = '\n') line).all Text.isIndent

def isNumberedItem (lead line : Text) : Bool :=
  match Text.stripStart? lead line with
  | some (first :: _) => first.isDigit
  | _ => false

namespace DirectiveFence

def parse? (line : Text) : Option DirectiveFence := do
  let (marker, rest) ← markerRun? (withoutLead line)
  let (language, rest) ← languageTag? (rest.dropWhile Text.isIndent)
  let (directive, options) ← directiveIn? rest
  some { lead := leadOf line, marker, language, directive, options }

/-- Whether a line ends the fence: its own quote characters and marker, then nothing but spaces
and tabs. -/
def closes (fence : DirectiveFence) (line : Text) : Bool :=
  match Text.stripStart? (fence.lead ++ fence.marker) line with
  | some rest => isBlankLine rest
  | none => false

end DirectiveFence

end FencePreview
