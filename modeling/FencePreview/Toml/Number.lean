import FencePreview.Toml.Table

/-! Scalars written without quotes: truth values, numbers, dates and times. -/

namespace FencePreview

namespace Toml

/-- Digits of a base with single low lines between them, as written; `none` if nothing else. -/
def digitRun (isDigit : Char → Bool) : Text → Bool
  | [] => false
  | [last] => isDigit last
  | first :: '_' :: next :: rest => isDigit first && isDigit next && digitRun isDigit (next :: rest)
  | first :: rest => isDigit first && digitRun isDigit rest

def digitValue (character : Char) : Nat :=
  if character.isDigit then character.toNat - '0'.toNat
  else if character.isUpper then character.toNat - 'A'.toNat + 10
  else character.toNat - 'a'.toNat + 10

def valueOf (base : Nat) (written : Text) : Nat :=
  (written.filter (· ≠ '_')).foldl (fun value digit => value * base + digitValue digit) 0

def isHexDigit (character : Char) : Bool :=
  character.isDigit || ('a' ≤ character && character ≤ 'f') || ('A' ≤ character && character ≤ 'F')

def isOctalDigit (character : Char) : Bool := '0' ≤ character && character ≤ '7'

def isBinaryDigit (character : Char) : Bool := character = '0' || character = '1'

/-- A decimal number without a sign and without needless zeros in front. -/
def isDecimal (written : Text) : Bool :=
  digitRun Char.isDigit written && (written.length = 1 || written.head? ≠ some '0')

/-- Whether the number is negative, and what follows its sign. -/
def splitSign : Text → Bool × Text
  | '-' :: rest => (true, rest)
  | '+' :: rest => (false, rest)
  | written => (false, written)

/-- Integers of at most 128 bits. -/
def boundedInteger (value : Int) : Option Scalar :=
  if -Int.pow 2 127 ≤ value ∧ value < Int.pow 2 128 then some (.integer value) else none

def integer? (written : Text) : Option Scalar :=
  match written with
  | '0' :: 'x' :: digits =>
      if digitRun isHexDigit digits then boundedInteger (valueOf 16 digits) else none
  | '0' :: 'o' :: digits =>
      if digitRun isOctalDigit digits then boundedInteger (valueOf 8 digits) else none
  | '0' :: 'b' :: digits =>
      if digitRun isBinaryDigit digits then boundedInteger (valueOf 2 digits) else none
  | _ =>
      let (negative, digits) := splitSign written
      if isDecimal digits then
        boundedInteger (if negative then -(valueOf 10 digits : Int) else valueOf 10 digits)
      else none

def isExponent (written : Text) : Bool := digitRun Char.isDigit (splitSign written).2

/-- What follows the whole part of a float: a fraction, an exponent, or both. -/
def isFloatTail : Text → Bool
  | '.' :: rest =>
      let fraction := rest.takeWhile fun character => character ≠ 'e' && character ≠ 'E'
      digitRun Char.isDigit fraction &&
        (match rest.drop fraction.length with
          | [] => true
          | _ :: exponent => isExponent exponent)
  | 'e' :: exponent => isExponent exponent
  | 'E' :: exponent => isExponent exponent
  | _ => false

/-- The least number that rounds past the largest float of 64 bits. -/
def floatBound : Nat := Nat.pow 2 1024 - Nat.pow 2 970

/-- Whether `value`, a number of `digits` digits, times a power of ten reaches the bound. Far from
the bound the digits decide. -/
def reachesBound (value digits : Nat) (exponent : Int) : Bool :=
  if value = 0 || digits + exponent < 309 then false
  else if 310 < digits + exponent then true
  else floatBound * Nat.pow 10 (-exponent).toNat ≤ value * Nat.pow 10 exponent.toNat

def isTooLarge (magnitude : Text) : Bool :=
  let isLetter (character : Char) : Bool := character = 'e' || character = 'E'
  let mantissa := magnitude.takeWhile fun character => !isLetter character
  let fraction := ((mantissa.dropWhile (· ≠ '.')).drop 1).filter (· ≠ '_')
  let (negative, exponent) := splitSign ((magnitude.drop mantissa.length).drop 1)
  let power : Int := if negative then -(valueOf 10 exponent : Int) else valueOf 10 exponent
  let value := valueOf 10 (mantissa.filter (· ≠ '.'))
  reachesBound value (Text.ofNat value).length (power - fraction.length)

def float? (written : Text) : Option Scalar :=
  let (_, magnitude) := splitSign written
  let whole := magnitude.takeWhile fun character => character.isDigit || character = '_'
  if magnitude = "inf".toList || magnitude = "nan".toList then some (.float written)
  else if isDecimal whole && isFloatTail (magnitude.drop whole.length) && !isTooLarge magnitude then
    some (.float written)
  else none

def fixedDigits? (count : Nat) (written : Text) : Option (Nat × Text) :=
  let digits := written.take count
  if digits.length = count && digits.all Char.isDigit then some (valueOf 10 digits, written.drop count)
  else none

def isLeapYear (year : Nat) : Bool := year % 4 = 0 && (year % 100 ≠ 0 || year % 400 = 0)

def daysIn (year month : Nat) : Nat :=
  if month = 2 then (if isLeapYear year then 29 else 28)
  else if month = 4 || month = 6 || month = 9 || month = 11 then 30
  else 31

def afterDate? (written : Text) : Option Text :=
  match fixedDigits? 4 written with
  | some (year, '-' :: rest) =>
      match fixedDigits? 2 rest with
      | some (month, '-' :: rest) =>
          match fixedDigits? 2 rest with
          | some (day, rest) =>
              if 1 ≤ month && month ≤ 12 && 1 ≤ day && day ≤ daysIn year month then some rest else none
          | none => none
      | _ => none
  | _ => none

def afterFraction? : Text → Option Text
  | '.' :: rest =>
      match rest with
      | first :: _ => if first.isDigit then some (rest.dropWhile Char.isDigit) else none
      | [] => none
  | written => some written

/-- What follows a time of day; its seconds may be left out. -/
def afterTime? (written : Text) : Option Text :=
  match fixedDigits? 2 written with
  | some (hour, ':' :: rest) =>
      match fixedDigits? 2 rest with
      | some (minute, rest) =>
          if 23 < hour || 59 < minute then none
          else
            match rest with
            | ':' :: rest =>
                match fixedDigits? 2 rest with
                | some (second, rest) => if 60 < second then none else afterFraction? rest
                | none => none
            | rest => some rest
      | none => none
  | _ => none

/-- Whether a text is empty or an offset from universal time. -/
def isOffset (written : Text) : Bool :=
  match written with
  | [] => true
  | ['Z'] => true
  | ['z'] => true
  | sign :: rest =>
      (sign = '+' || sign = '-') &&
        (match fixedDigits? 2 rest with
          | some (hour, ':' :: rest) =>
              match fixedDigits? 2 rest with
              | some (minute, []) => hour ≤ 23 && minute ≤ 59
              | _ => false
          | _ => false)

def moment? (written : Text) : Option Scalar :=
  let accepted :=
    match afterDate? written with
    | some [] => true
    | some (separator :: rest) =>
        (separator = 'T' || separator = 't' || separator = ' ') && (afterTime? rest).any isOffset
    | none => afterTime? written = some []
  if accepted then some (.moment written) else none

def boolean? (written : Text) : Option Scalar :=
  if written = "true".toList then some (.boolean true)
  else if written = "false".toList then some (.boolean false)
  else none

def isPlain (character : Char) : Bool :=
  character.isAlphanum || character = '_' || character = '+' || character = '-' || character = '.' ||
    character = ':'

/-- The characters of an unquoted scalar. A date goes on over one space if a digit follows it. -/
def takePlain (text : Text) : Text × Text :=
  let first := text.takeWhile isPlain
  let rest := text.dropWhile isPlain
  match rest with
  | ' ' :: digit :: _ =>
      if afterDate? first = some [] && digit.isDigit then
        (first ++ ' ' :: (rest.drop 1).takeWhile isPlain, (rest.drop 1).dropWhile isPlain)
      else (first, rest)
  | _ => (first, rest)

def plain? (text : Text) : Option (Scalar × Text) :=
  let (written, rest) := takePlain text
  (boolean? written <|> integer? written <|> float? written <|> moment? written).map fun scalar =>
    (scalar, rest)

end Toml

end FencePreview
