import FencePreview.Toml.Number
import FencePreview.Toml.Quoted

/-! Reading a configuration document: lines of headers and bindings, carried out in order. -/

namespace FencePreview

namespace Toml

/-- Levels of arrays and inline tables that a value may have. -/
def nestingLimit : Nat := 80

/-- Passes over blanks, line ends and comments. -/
def skipGap (inComment : Bool) : Text → Text
  | [] => []
  | character :: rest =>
      if inComment then skipGap (character ≠ '\n') rest
      else if isGap character then skipGap false rest
      else if character = '#' then skipGap true rest
      else character :: rest

def isBlank (character : Char) : Bool := character = ' ' || character = '\t'

def skipBlank (text : Text) : Text := text.dropWhile isBlank

/-- Passes over the rest of a line, which holds at most a comment. -/
def endLine? (text : Text) : Option Text :=
  match skipBlank text with
  | [] => some []
  | '\n' :: rest => some rest
  | '\r' :: '\n' :: rest => some rest
  | '#' :: rest => some ((rest.dropWhile (· ≠ '\n')).drop 1)
  | _ => none

def isBare (character : Char) : Bool :=
  character.isAlphanum || character = '_' || character = '-'

def keyPart? (text : Text) : Option (Text × Text) :=
  match text with
  | '"' :: rest => basic? (rest.length + 1) rest
  | '\'' :: rest => literal? rest
  | _ =>
      match text.takeWhile isBare with
      | [] => none
      | part => some (part, text.dropWhile isBare)

/-- Parts of a dotted key, with what follows the last one. `fuel` bounds their number. -/
def keyParts? : Nat → Text → Option (List Text × Text)
  | 0, _ => none
  | fuel + 1, text =>
      match keyPart? text with
      | none => none
      | some (part, rest) =>
          match skipBlank rest with
          | '.' :: more =>
              (keyParts? fuel (skipBlank more)).map fun (parts, after) => (part :: parts, after)
          | rest => some ([part], rest)

/-- A key as the parts before its last one, and that one. -/
def key? (text : Text) : Option ((List Text × Text) × Text) :=
  match keyParts? (text.length + 1) text with
  | some (parts, rest) => parts.getLast?.map fun key => ((parts.dropLast, key), rest)
  | none => none

/-- Items of an array from behind its opening bracket or a comma. -/
def arrayItems? (element : Text → Option (Node × Text)) : Nat → Text → Option (List Node × Text)
  | 0, _ => none
  | fuel + 1, text =>
      match skipGap false text with
      | ']' :: rest => some ([], rest)
      | text =>
          match element text with
          | none => none
          | some (item, rest) =>
              match skipGap false rest with
              | ',' :: rest =>
                  (arrayItems? element fuel rest).map fun (items, after) => (item :: items, after)
              | ']' :: rest => some ([item], rest)
              | _ => none

def binding? (element : Text → Option (Node × Text)) (text : Text) :
    Option ((List Text × Text × Node) × Text) :=
  match key? text with
  | some ((path, key), '=' :: rest) =>
      (element (skipBlank rest)).map fun (value, after) => ((path, key, value), after)
  | _ => none

/-- Bindings of an inline table from behind its opening brace or a comma, added to `entries`. -/
def inlineEntries? (element : Text → Option (Node × Text)) :
    Nat → Entries → Text → Option (Entries × Text)
  | 0, _, _ => none
  | fuel + 1, entries, text =>
      match skipGap false text with
      | '\x7d' :: rest => some (entries, rest)
      | text =>
          match binding? element text with
          | none => none
          | some ((path, key, value), rest) =>
              match bind path key value .inline entries with
              | none => none
              | some (_, entries) =>
                  match skipGap false rest with
                  | ',' :: rest => inlineEntries? element fuel entries rest
                  | '\x7d' :: rest => some (entries, rest)
                  | _ => none

/-- Reads a value that may have `depth` further levels. -/
def value? : Nat → Text → Option (Node × Text)
  | depth, text =>
      match text with
      | '[' :: rest =>
          match depth with
          | 0 => none
          | inner + 1 =>
              (arrayItems? (value? inner) (rest.length + 1) rest).map fun (items, after) =>
                (.array items, after)
      | '\x7b' :: rest =>
          match depth with
          | 0 => none
          | inner + 1 =>
              (inlineEntries? (value? inner) (rest.length + 1) [] rest).map fun (entries, after) =>
                (.table .inline entries, after)
      | '"' :: _ => (quoted? text).map fun (content, after) => (.scalar (.text content), after)
      | '\'' :: _ => (quoted? text).map fun (content, after) => (.scalar (.text content), after)
      | _ => (plain? text).map fun (scalar, after) => (.scalar scalar, after)

/-- Reads a header from behind its opening brackets up to its closing ones. -/
def headerKey? (closing text : Text) : Option ((List Text × Text) × Text) :=
  match key? (skipBlank text) with
  | some (key, rest) => (Text.stripStart? closing rest).map fun after => (key, after)
  | none => none

def statement? (text : Text) : Option (Statement × Text) :=
  match text with
  | '[' :: '[' :: rest =>
      (headerKey? "]]".toList rest).map fun ((parents, key), after) =>
        (.repeatedHeader parents key, after)
  | '[' :: rest =>
      (headerKey? "]".toList rest).map fun ((parents, key), after) => (.header parents key, after)
  | _ =>
      (binding? (value? nestingLimit) text).map fun ((path, key, value), after) =>
        (.binding path key value, after)

/-- Reads all statements. `fuel` bounds their number. -/
def statements? : Nat → Text → Option (List Statement)
  | 0, _ => none
  | fuel + 1, text =>
      match skipGap false text with
      | [] => some []
      | text =>
          match statement? text with
          | none => none
          | some (statement, rest) =>
              match endLine? rest with
              | none => none
              | some rest => (statements? fuel rest).map (statement :: ·)

/-- Whether control characters stand only where a document may have them: tabs anywhere, and
carriage returns before line feeds. -/
def isClean : Text → Bool
  | [] => true
  | '\r' :: '\n' :: rest => isClean rest
  | character :: rest =>
      (character = '\t' || character = '\n' || (32 ≤ character.toNat && character.toNat ≠ 127)) &&
        isClean rest

def dropMark (text : Text) : Text :=
  match text with
  | character :: rest => if character.toNat = 0xFEFF then rest else text
  | [] => []

/-- The root table of a document, or `none` if the document is not well formed. -/
def read? (text : Text) : Option Entries :=
  let content := dropMark text
  if isClean content then
    (statements? (content.length + 1) content).bind (assemble [] [])
  else none

end Toml

end FencePreview
