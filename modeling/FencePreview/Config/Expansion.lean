import FencePreview.Text.Search
import FencePreview.Text.Word

/-! Environment variables inside configured values. A value without a braced reference is taken as
it stands; in any other, references are replaced in one pass from left to right. -/

namespace FencePreview

/-- Values of variables by name; the first binding of a name counts. -/
abbrev Environment := List (Text × Text)

namespace Expansion

/-- What one dollar sign begins. -/
inductive Reference where
  /-- Text that is kept, with what follows it. -/
  | literal (text rest : Text)
  /-- A variable with its default, and what follows the reference. -/
  | named (name : Text) (fallback : Option Text) (rest : Text)
deriving DecidableEq, Repr

def braceOpening : Text := "$\x7b".toList

/-- Name and default of a braced reference. A default needs a name before it. -/
def splitDefault (inner : Text) : Text × Option Text :=
  match Text.splitFirst? ":-".toList inner with
  | some ([], _) => (inner, none)
  | some (name, fallback) => (name, some fallback)
  | none => (inner, none)

def reference : Text → Reference
  | '\x7b' :: rest =>
      match Text.splitFirst? ['\x7d'] rest with
      | some (inner, after) =>
          let (name, fallback) := splitDefault inner
          .named name fallback after
      | none => .literal braceOpening rest
  | '$' :: rest => .literal ['$'] rest
  | first :: rest =>
      if Text.isWord first then
        .named ((first :: rest).takeWhile Text.isWord) none ((first :: rest).dropWhile Text.isWord)
      else .literal ['$'] (first :: rest)
  | [] => .literal ['$'] []

def Reference.rest : Reference → Text
  | literal _ rest => rest
  | named _ _ rest => rest

/-- What a reference stands for, or the name that is not set. -/
def Reference.value (environment : Environment) : Reference → Except Text Text
  | literal text _ => .ok text
  | named name fallback _ =>
      match environment.lookup name, fallback with
      | some value, _ => .ok value
      | none, some value => .ok value
      | none, none => .error name

theorem length_le_of_splitFirst? (needle text before after : Text)
    (found : Text.splitFirst? needle text = some (before, after)) : after.length ≤ text.length := by
  have whole := congrArg List.length (Text.splitFirst?_eq_append needle text before after found)
  simp only [List.length_append] at whole
  omega

theorem reference_rest_length (text : Text) : (reference text).rest.length ≤ text.length := by
  unfold reference
  split
  · rename_i rest
    split
    · rename_i inner after found
      have shorter := length_le_of_splitFirst? _ _ _ _ found
      simp only [Reference.rest, List.length_cons]
      omega
    · simp [Reference.rest]
  · simp [Reference.rest]
  · rename_i first rest _ _
    split
    · exact (List.dropWhile_suffix _).length_le
    · simp [Reference.rest]
  · simp [Reference.rest]

/-- Replaces every reference of a text; fails with the first name that is not set. -/
def replaceReferences (environment : Environment) : Text → Except Text Text
  | [] => .ok []
  | '$' :: rest =>
      match (reference rest).value environment with
      | .error name => .error name
      | .ok value => (replaceReferences environment (reference rest).rest).map (value ++ ·)
  | character :: rest => (replaceReferences environment rest).map (character :: ·)
termination_by text => text.length
decreasing_by
  · have shorter := reference_rest_length rest
    simp only [List.length_cons]
    omega
  · simp

def expand (environment : Environment) (value : Text) : Except Text Text :=
  if Text.contains braceOpening value then replaceReferences environment value else .ok value

end Expansion

end FencePreview
