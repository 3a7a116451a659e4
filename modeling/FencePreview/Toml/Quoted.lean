import FencePreview.Text.Basic

/-! Quoted strings of a configuration document, on one line or on several, with or without
escapes. -/

namespace FencePreview

namespace Toml

def hexValue? (character : Char) : Option Nat :=
  if character.isDigit then some (character.toNat - '0'.toNat)
  else if 'a' ≤ character && character ≤ 'f' then some (character.toNat - 'a'.toNat + 10)
  else if 'A' ≤ character && character ≤ 'F' then some (character.toNat - 'A'.toNat + 10)
  else none

def hexDigits? : Nat → Nat → Text → Option (Nat × Text)
  | 0, value, rest => some (value, rest)
  | _ + 1, _, [] => none
  | count + 1, value, character :: rest =>
      match hexValue? character with
      | some digit => hexDigits? count (value * 16 + digit) rest
      | none => none

def scalarEscape? (count : Nat) (text : Text) : Option (Char × Text) :=
  match hexDigits? count 0 text with
  | some (value, rest) => if value.isValidChar then some (Char.ofNat value, rest) else none
  | none => none

def escape? : Text → Option (Char × Text)
  | 'b' :: rest => some ('\x08', rest)
  | 't' :: rest => some ('\t', rest)
  | 'n' :: rest => some ('\n', rest)
  | 'f' :: rest => some ('\x0c', rest)
  | 'r' :: rest => some ('\r', rest)
  | 'e' :: rest => some ('\x1b', rest)
  | '"' :: rest => some ('"', rest)
  | '\\' :: rest => some ('\\', rest)
  | 'x' :: rest => scalarEscape? 2 rest
  | 'u' :: rest => scalarEscape? 4 rest
  | 'U' :: rest => scalarEscape? 8 rest
  | _ => none

def isGap (character : Char) : Bool :=
  character = ' ' || character = '\t' || character = '\r' || character = '\n'

/-- What follows a backslash that ends a line: the gap up to the next character is left out. -/
def lineContinuation? (text : Text) : Option Text :=
  let gap := text.takeWhile isGap
  if '\n' ∈ gap && (gap.takeWhile (· ≠ '\n')).all isGap then some (text.dropWhile isGap) else none

/-- Reads up to the closing quote of a string on one line. `fuel` bounds the steps. -/
def basic? : Nat → Text → Option (Text × Text)
  | 0, _ => none
  | fuel + 1, text =>
      match text with
      | [] => none
      | '"' :: rest => some ([], rest)
      | '\n' :: _ => none
      | '\r' :: _ => none
      | '\\' :: rest =>
          match escape? rest with
          | some (character, rest) =>
              (basic? fuel rest).map fun (content, after) => (character :: content, after)
          | none => none
      | character :: rest =>
          (basic? fuel rest).map fun (content, after) => (character :: content, after)

def literal? (text : Text) : Option (Text × Text) :=
  let content := text.takeWhile fun character => character ≠ '\'' && character ≠ '\n'
  match text.drop content.length with
  | '\'' :: rest => some (content, rest)
  | _ => none

/-- A line end right after the opening quotes is not part of the string. -/
def dropFirstLineEnd : Text → Text
  | '\n' :: rest => rest
  | '\r' :: '\n' :: rest => rest
  | text => text

/-- At three quotes or more: up to two of them belong to the string, three close it. -/
def closing? (quote : Char) (text : Text) : Option (Text × Text) :=
  let run := (text.takeWhile (· = quote)).length
  if run < 3 then none
  else some (List.replicate (min (run - 3) 2) quote, text.drop (min (run - 3) 2 + 3))

/-- Reads up to the closing quotes of a string on several lines. `fuel` bounds the steps. -/
def longBasic? : Nat → Text → Option (Text × Text)
  | 0, _ => none
  | fuel + 1, text =>
      match closing? '"' text with
      | some (content, rest) => some (content, rest)
      | none =>
          match text with
          | [] => none
          | '\\' :: rest =>
              match escape? rest, lineContinuation? rest with
              | some (character, rest), _ =>
                  (longBasic? fuel rest).map fun (content, after) => (character :: content, after)
              | none, some rest => longBasic? fuel rest
              | none, none => none
          | character :: rest =>
              (longBasic? fuel rest).map fun (content, after) => (character :: content, after)

/-- Reads up to the closing quotes of a string on several lines without escapes. -/
def longLiteral? : Text → Option (Text × Text)
  | [] => none
  | character :: rest =>
      match closing? '\'' (character :: rest) with
      | some (content, after) => some (content, after)
      | none => (longLiteral? rest).map fun (content, after) => (character :: content, after)

def quoted? (text : Text) : Option (Text × Text) :=
  match text with
  | '"' :: '"' :: '"' :: rest => longBasic? (rest.length + 1) (dropFirstLineEnd rest)
  | '"' :: rest => basic? (rest.length + 1) rest
  | '\'' :: '\'' :: '\'' :: rest => longLiteral? (dropFirstLineEnd rest)
  | '\'' :: rest => literal? rest
  | _ => none

end Toml

end FencePreview
