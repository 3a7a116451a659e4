import FencePreview.Text.Basic

/-! Patterns that lines are searched for: single characters, sets of characters, repetition of
either, and anchors at the ends of a line. -/

namespace FencePreview

namespace Shell

/-- What one place of a pattern accepts. -/
inductive Atom where
  | any
  | exactly (character : Char)
  /-- One of some closed ranges, or none of them. -/
  | among (excluded : Bool) (ranges : List (Char × Char))
deriving DecidableEq, Repr

def Atom.accepts : Atom → Char → Bool
  | any, _ => true
  | exactly expected, character => character = expected
  | among excluded ranges, character =>
      excluded != ranges.any fun range => range.1 ≤ character && character ≤ range.2

/-- A place of a pattern; a repeated one accepts any number of characters. -/
structure Place where
  atom : Atom
  repeated : Bool
deriving DecidableEq, Repr

structure Pattern where
  atStart : Bool
  atEnd : Bool
  places : List Place
deriving DecidableEq, Repr

namespace Pattern

/-- Whether a text begins with what the places accept, and ends there if `atEnd` is set. -/
def acceptsHere (atEnd : Bool) : List Place → Text → Bool
  | [], text => !atEnd || text.isEmpty
  | place :: places, text =>
      (place.repeated && acceptsHere atEnd places text) ||
        (match text with
          | [] => false
          | character :: rest =>
              place.atom.accepts character &&
                acceptsHere atEnd (if place.repeated then place :: places else places) rest)
termination_by places text => places.length + text.length
decreasing_by
  · simp
  · split <;> simp <;> omega

def acceptsLine (pattern : Pattern) (line : Text) : Bool :=
  acceptsHere pattern.atEnd pattern.places line ||
    (!pattern.atStart &&
      (match line with
        | [] => false
        | _ :: rest => acceptsLine pattern rest))
termination_by line.length

/-- Ranges of a set up to its closing bracket, which may also be its first character. -/
def ranges? (first : Bool) : Text → Option (List (Char × Char) × Text)
  | [] => none
  | ']' :: rest =>
      if first then (ranges? false rest).map fun (ranges, after) => ((']', ']') :: ranges, after)
      else some ([], rest)
  | low :: '-' :: high :: rest =>
      if high = ']' then some ([(low, low), ('-', '-')], rest)
      else (ranges? false rest).map fun (ranges, after) => ((low, high) :: ranges, after)
  | character :: rest =>
      (ranges? false rest).map fun (ranges, after) => ((character, character) :: ranges, after)

def atom? : Text → Option (Atom × Text)
  | '[' :: '^' :: rest => (ranges? true rest).map fun (ranges, after) => (.among true ranges, after)
  | '[' :: rest => (ranges? true rest).map fun (ranges, after) => (.among false ranges, after)
  | '.' :: rest => some (.any, rest)
  | '\\' :: character :: rest => some (.exactly character, rest)
  | character :: rest => some (.exactly character, rest)
  | [] => none

/-- Places of a written pattern, and whether it is anchored at the end. `fuel` bounds them. -/
def places? : Nat → Text → Option (List Place × Bool)
  | 0, _ => none
  | _ + 1, [] => some ([], false)
  | _ + 1, ['$'] => some ([], true)
  | fuel + 1, text =>
      match atom? text with
      | none => none
      | some (atom, '*' :: rest) =>
          (places? fuel rest).map fun (places, atEnd) => (⟨atom, true⟩ :: places, atEnd)
      | some (atom, rest) =>
          (places? fuel rest).map fun (places, atEnd) => (⟨atom, false⟩ :: places, atEnd)

def read? (text : Text) : Option Pattern :=
  let (atStart, body) := match text with
    | '^' :: rest => (true, rest)
    | _ => (false, text)
  match body with
  | '*' :: rest =>
      (places? (rest.length + 1) rest).map fun (places, atEnd) =>
        ⟨atStart, atEnd, ⟨.exactly '*', false⟩ :: places⟩
  | _ => (places? (body.length + 1) body).map fun (places, atEnd) => ⟨atStart, atEnd, places⟩

def literal (text : Text) : Pattern := ⟨false, false, text.map fun character => ⟨.exactly character, false⟩⟩

end Pattern

end Shell

end FencePreview
