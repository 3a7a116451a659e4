import FencePreview.Text.Search

/-! Scripts of the command language in which compilers are often written: the words, redirections
and commands they consist of. -/

namespace FencePreview

namespace Shell

inductive Piece where
  | literal (content : Text)
  /-- The value of a parameter, or `fallback` when it has none. -/
  | parameter (quoted : Bool) (name : Text) (fallback : Option Text)
  /-- What a script writes. -/
  | output (quoted : Bool) (script : Text)
deriving DecidableEq, Repr

abbrev Word := List Piece

inductive Stream where
  | output
  | errors
deriving DecidableEq, Repr

inductive Redirection where
  | input (source : Word)
  | toFile (stream : Stream) (append : Bool) (target : Word)
  | toStream (stream : Stream) (target : Word)
deriving DecidableEq, Repr

inductive Command where
  | nothing
  | simple (assignments : List (Text × Word)) (words : List Word) (redirections : List Redirection)
  /-- Commands in a group; an isolated group keeps its parameters and its end to itself. -/
  | group (isolated : Bool) (body : Command) (redirections : List Redirection)
  | pipe (first second : Command)
  | sequence (first second : Command)
  /-- `second` runs if `first` succeeds. -/
  | both (first second : Command)
  /-- `second` runs if `first` fails. -/
  | either (first second : Command)
  | negation (body : Command)
  | choice (condition positive negative : Command)
deriving Repr

inductive Mark where
  | newline
  | semicolon
  | background
  | both
  | either
  | pipe
  | opening
  | closing
deriving DecidableEq, Repr

inductive Arrow where
  | input
  | output
  | append
  | copy
deriving DecidableEq, Repr

inductive Token where
  | word (written : Text) (content : Word)
  | mark (mark : Mark)
  | arrow (descriptor : Nat) (arrow : Arrow)
deriving DecidableEq, Repr

/-! Words -/

def isNameStart (character : Char) : Bool := character.isAlpha || character = '_'

def isNamePart (character : Char) : Bool := character.isAlphanum || character = '_'

/-- Characters that end a word unless they are quoted. -/
def endsWord (character : Char) : Bool := character ∈ " \t\n;&|<>()".toList

/-- Parameters with names of one sign. -/
def isSpecialName (character : Char) : Bool := character.isDigit || character ∈ "@*#?$!-".toList

/-- A script up to the parenthesis that closes it, and what follows. -/
def enclosed? (depth : Nat) (quote : Option Char) : Text → Option (Text × Text)
  | [] => none
  | character :: rest =>
      match quote with
      | some opened =>
          (enclosed? depth (if character = opened then none else quote) rest).map
            fun (inner, after) => (character :: inner, after)
      | none =>
          if character = ')' && depth = 0 then some ([], rest)
          else
            let depth :=
              if character = '(' then depth + 1 else if character = ')' then depth - 1 else depth
            let quote := if character = '"' || character = '\'' then some character else none
            (enclosed? depth quote rest).map fun (inner, after) => (character :: inner, after)

def bracedParameter (quoted : Bool) (inner : Text) : Piece :=
  let name := inner.takeWhile isNamePart
  let (name, rest) := if name.isEmpty then (inner.take 1, inner.drop 1) else (name, inner.drop name.length)
  match rest with
  | ':' :: '-' :: fallback => .parameter quoted name (some fallback)
  | '-' :: fallback => .parameter quoted name (some fallback)
  | _ => .parameter quoted name none

def dollar? (quoted : Bool) : Text → Option (Piece × Text)
  | '\x7b' :: rest =>
      (Text.splitFirst? ['\x7d'] rest).map fun (inner, after) => (bracedParameter quoted inner, after)
  | '(' :: rest =>
      (enclosed? 0 none rest).map fun (script, after) => (.output quoted script, after)
  | character :: rest =>
      if isNameStart character then
        some (.parameter quoted ((character :: rest).takeWhile isNamePart) none,
          (character :: rest).dropWhile isNamePart)
      else if isSpecialName character then some (.parameter quoted [character] none, rest)
      else none
  | [] => none

def before (piece : Piece) (rest : Option (Word × Text)) : Option (Word × Text) :=
  rest.map fun (word, after) => (piece :: word, after)

/-- Reads a word; `quoted` tells that a double quote is open. `fuel` bounds the pieces. -/
def word? : Nat → Bool → Text → Option (Word × Text)
  | 0, _, _ => none
  | fuel + 1, quoted, text =>
      match text with
      | [] => if quoted then none else some ([], [])
      | '"' :: rest => before (.literal []) (word? fuel (!quoted) rest)
      | '\\' :: '\n' :: rest => word? fuel quoted rest
      | '\\' :: character :: rest =>
          if quoted && !(character ∈ ['$', '\x60', '"', '\\']) then
            before (.literal ['\\', character]) (word? fuel quoted rest)
          else before (.literal [character]) (word? fuel quoted rest)
      | '$' :: rest =>
          match dollar? quoted rest with
          | some (piece, after) => before piece (word? fuel quoted after)
          | none => before (.literal ['$']) (word? fuel quoted rest)
      | '\x60' :: rest =>
          match Text.splitFirst? ['\x60'] rest with
          | some (script, after) => before (.output quoted script) (word? fuel quoted after)
          | none => none
      | '\'' :: rest =>
          if quoted then before (.literal ['\'']) (word? fuel quoted rest)
          else
            match Text.splitFirst? ['\''] rest with
            | some (content, after) => before (.literal content) (word? fuel quoted after)
            | none => none
      | character :: rest =>
          if !quoted && endsWord character then some ([], text)
          else before (.literal [character]) (word? fuel quoted rest)

/-! Tokens -/

def arrow? : Text → Option (Arrow × Text)
  | '>' :: '>' :: rest => some (.append, rest)
  | '>' :: '&' :: rest => some (.copy, rest)
  | '>' :: '|' :: rest => some (.output, rest)
  | '>' :: rest => some (.output, rest)
  | '<' :: '<' :: _ => none
  | '<' :: '&' :: _ => none
  | '<' :: rest => some (.input, rest)
  | _ => none

def mark? : Text → Option (Mark × Text)
  | '\n' :: rest => some (.newline, rest)
  | ';' :: rest => some (.semicolon, rest)
  | '&' :: '&' :: rest => some (.both, rest)
  | '&' :: rest => some (.background, rest)
  | '|' :: '|' :: rest => some (.either, rest)
  | '|' :: rest => some (.pipe, rest)
  | '(' :: rest => some (.opening, rest)
  | ')' :: rest => some (.closing, rest)
  | _ => none

/-- Descriptor that an arrow means when none is written. -/
def Arrow.descriptor : Arrow → Nat
  | input => 0
  | _ => 1

def describedArrow? (text : Text) : Option (Token × Text) :=
  match text with
  | digit :: rest =>
      if digit.isDigit then
        (arrow? rest).map fun (arrow, after) => (.arrow (digit.toNat - '0'.toNat) arrow, after)
      else (arrow? text).map fun (arrow, after) => (.arrow arrow.descriptor arrow, after)
  | [] => none

def token? (text : Text) : Option (Token × Text) :=
  match describedArrow? text, mark? text with
  | some found, _ => some found
  | none, some (mark, after) => some (.mark mark, after)
  | none, none =>
      match text with
      | '<' :: _ => none
      | _ =>
          (word? (text.length + 1) false text).map fun (word, after) =>
            (.word (text.take (text.length - after.length)) word, after)

/-- The tokens of a script. `fuel` bounds their number together with the gaps between them. -/
def tokens? : Nat → Text → Option (List Token)
  | 0, _ => none
  | fuel + 1, text =>
      match text with
      | [] => some []
      | ' ' :: rest => tokens? fuel rest
      | '\t' :: rest => tokens? fuel rest
      | '\\' :: '\n' :: rest => tokens? fuel rest
      | '#' :: rest => tokens? fuel (rest.dropWhile (· ≠ '\n'))
      | _ =>
          match token? text with
          | some (token, rest) => (tokens? fuel rest).map (token :: ·)
          | none => none

/-! Commands -/

/-- Words that end a list of commands. -/
def closingWords : List Text :=
  ["\x7d".toList, "then".toList, "else".toList, "elif".toList, "fi".toList]

def endsList : List Token → Bool
  | [] => true
  | .mark .closing :: _ => true
  | .word written _ :: _ => written ∈ closingWords
  | _ => false

def expect? (expected : Text) : List Token → Option (List Token)
  | .word written _ :: rest => if written = expected then some rest else none
  | _ => none

def assignment? (written : Text) : Option (Text × Word) :=
  let name := written.takeWhile isNamePart
  match written.drop name.length with
  | '=' :: value =>
      if name.any isNameStart then
        (word? (value.length + 1) false value).map fun (word, _) => (name, word)
      else none
  | _ => none

def redirection? : List Token → Option (Redirection × List Token)
  | .arrow descriptor arrow :: .word _ target :: rest =>
      let stream := if descriptor = 2 then Stream.errors else .output
      match arrow with
      | .input => some (.input target, rest)
      | .output => some (.toFile stream false target, rest)
      | .append => some (.toFile stream true target, rest)
      | .copy => some (.toStream stream target, rest)
  | _ => none

/-- All redirections at the front of some tokens. `fuel` bounds their number. -/
def redirections : Nat → List Token → List Redirection × List Token
  | 0, tokens => ([], tokens)
  | fuel + 1, tokens =>
      match redirection? tokens with
      | none => ([], tokens)
      | some (first, rest) =>
          let (others, after) := redirections fuel rest
          (first :: others, after)

/-- Reads what is left of a simple command. `fuel` bounds its parts. -/
def simple? : Nat → List (Text × Word) → List Word → List Redirection → List Token →
    Option (Command × List Token)
  | 0, _, _, _, _ => none
  | fuel + 1, assignments, words, redirections, tokens =>
      match redirection? tokens with
      | some (redirection, rest) =>
          simple? fuel assignments words (redirections ++ [redirection]) rest
      | none =>
          match tokens with
          | .word written word :: rest =>
              match words, assignment? written with
              | [], some assignment =>
                  simple? fuel (assignments ++ [assignment]) [] redirections rest
              | _, _ => simple? fuel assignments (words ++ [word]) redirections rest
          | .arrow _ _ :: _ => none
          | _ =>
              if assignments.isEmpty && words.isEmpty && redirections.isEmpty then none
              else some (.simple assignments words redirections, tokens)

def redirected (body : Command) (isolated : Bool) (tokens : List Token) : Command × List Token :=
  let (targets, rest) := redirections tokens.length tokens
  (.group isolated body targets, rest)

mutual

/-- Reads commands up to the end or a word that closes them. `fuel` bounds their nesting. -/
def list? : Nat → List Token → Option (Command × List Token)
  | 0, _ => none
  | fuel + 1, tokens =>
      match tokens with
      | .mark .newline :: rest => list? fuel rest
      | _ =>
          if endsList tokens then some (.nothing, tokens)
          else
            match chain? fuel tokens with
            | some (first, .mark .newline :: rest) => following? fuel first rest
            | some (first, .mark .semicolon :: rest) => following? fuel first rest
            | some (first, .mark .background :: rest) => following? fuel first rest
            | found => found

def following? : Nat → Command → List Token → Option (Command × List Token)
  | 0, _, _ => none
  | fuel + 1, first, tokens =>
      (list? fuel tokens).map fun (others, rest) => (.sequence first others, rest)

/-- Reads pipelines, each of which may hang on the one before. -/
def chain? : Nat → List Token → Option (Command × List Token)
  | 0, _ => none
  | fuel + 1, tokens =>
      match pipeline? fuel tokens with
      | some (first, rest) => links? fuel first rest
      | none => none

def links? : Nat → Command → List Token → Option (Command × List Token)
  | 0, _, _ => none
  | fuel + 1, first, tokens =>
      let onward (join : Command → Command → Command) (rest : List Token) :=
        match pipeline? fuel (rest.dropWhile (· = .mark .newline)) with
        | some (second, rest) => links? fuel (join first second) rest
        | none => none
      match tokens with
      | .mark .both :: rest => onward .both rest
      | .mark .either :: rest => onward .either rest
      | _ => some (first, tokens)

/-- Reads commands that feed one another. -/
def pipeline? : Nat → List Token → Option (Command × List Token)
  | 0, _ => none
  | fuel + 1, tokens =>
      match expect? ['!'] tokens with
      | some rest => (pipeline? fuel rest).map fun (body, rest) => (.negation body, rest)
      | none =>
          match command? fuel tokens with
          | some (first, .mark .pipe :: rest) =>
              (pipeline? fuel (rest.dropWhile (· = .mark .newline))).map fun (second, rest) =>
                (.pipe first second, rest)
          | found => found

def command? : Nat → List Token → Option (Command × List Token)
  | 0, _ => none
  | fuel + 1, tokens =>
      match tokens with
      | .mark .opening :: rest =>
          match list? fuel rest with
          | some (body, .mark .closing :: rest) => some (redirected body true rest)
          | _ => none
      | .word written _ :: rest =>
          if written = "\x7b".toList then
            match list? fuel rest with
            | some (body, rest) => (expect? "\x7d".toList rest).map (redirected body false)
            | none => none
          else if written = "if".toList then
            match choice? fuel rest with
            | some (body, rest) => some (redirected body false rest)
            | none => none
          else if written ∈ closingWords then none
          else simple? (tokens.length + 1) [] [] [] tokens
      | _ => simple? (tokens.length + 1) [] [] [] tokens

def choice? : Nat → List Token → Option (Command × List Token)
  | 0, _ => none
  | fuel + 1, tokens =>
      match list? fuel tokens with
      | none => none
      | some (condition, rest) =>
          match (expect? "then".toList rest).bind (list? fuel) with
          | none => none
          | some (positive, rest) =>
              match rest with
              | .word written _ :: more =>
                  if written = "fi".toList then some (.choice condition positive .nothing, more)
                  else if written = "elif".toList then
                    (choice? fuel more).map fun (negative, rest) =>
                      (.choice condition positive negative, rest)
                  else if written = "else".toList then
                    match list? fuel more with
                    | some (negative, rest) =>
                        (expect? "fi".toList rest).map fun rest =>
                          (.choice condition positive negative, rest)
                    | none => none
                  else none
              | _ => none

end

def script? (text : Text) : Option Command :=
  match tokens? (text.length + 1) text with
  | none => none
  | some tokens =>
      match list? (8 * (tokens.length + 1)) tokens with
      | some (command, []) => some command
      | _ => none

end Shell

end FencePreview
