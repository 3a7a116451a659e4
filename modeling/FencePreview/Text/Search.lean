import FencePreview.Text.Basic

/-! Looking for one text inside another: the first and the last place where it stands, and the
text with every occurrence replaced. The text looked for is never empty. -/

namespace FencePreview

namespace Text

/-- What stands before and after the first occurrence of `needle`. -/
def splitFirst? (needle : Text) : Text → Option (Text × Text)
  | [] => none
  | character :: rest =>
      match stripStart? needle (character :: rest) with
      | some after => some ([], after)
      | none => (splitFirst? needle rest).map fun (before, after) => (character :: before, after)

/-- What stands before and after the last occurrence of `needle`. -/
def splitLast? (needle : Text) : Text → Option (Text × Text)
  | [] => none
  | character :: rest =>
      match splitLast? needle rest with
      | some (before, after) => some (character :: before, after)
      | none => (stripStart? needle (character :: rest)).map fun after => ([], after)

def contains (needle text : Text) : Bool := (splitFirst? needle text).isSome

/-- Replaces occurrences from left to right, after passing over `skip` characters of one already
replaced. -/
def replaceFrom (needle replacement : Text) : Nat → Text → Text
  | _, [] => []
  | skip + 1, _ :: rest => replaceFrom needle replacement skip rest
  | 0, character :: rest =>
      match stripStart? needle (character :: rest) with
      | some _ => replacement ++ replaceFrom needle replacement (needle.length - 1) rest
      | none => character :: replaceFrom needle replacement 0 rest

/-- A text with every occurrence of `needle` replaced, found from left to right without overlap. -/
def replaceAll (needle replacement text : Text) : Text := replaceFrom needle replacement 0 text

/-- The pieces between the characters equal to `separator`; one piece more than separators. -/
def splitAtEach (separator : Char) : Text → List Text
  | [] => [[]]
  | character :: rest =>
      if character = separator then [] :: splitAtEach separator rest
      else
        match splitAtEach separator rest with
        | [] => [[character]]
        | first :: more => (character :: first) :: more

theorem splitFirst?_eq_append (needle text before after : Text)
    (found : splitFirst? needle text = some (before, after)) : text = before ++ needle ++ after := by
  induction text generalizing before with
  | nil => simp [splitFirst?] at found
  | cons character rest ih =>
      simp only [splitFirst?] at found
      split at found
      · rename_i tail stripped
        simp only [Option.some.injEq, Prod.mk.injEq] at found
        obtain ⟨rfl, rfl⟩ := found
        simpa using (stripStart?_eq_some_iff _ _ _).mp stripped
      · simp only [Option.map_eq_some_iff, Prod.mk.injEq, Prod.exists] at found
        obtain ⟨front, tail, inner, rfl, rfl⟩ := found
        simpa using ih front inner

theorem splitLast?_eq_append (needle text before after : Text)
    (found : splitLast? needle text = some (before, after)) : text = before ++ needle ++ after := by
  induction text generalizing before with
  | nil => simp [splitLast?] at found
  | cons character rest ih =>
      simp only [splitLast?] at found
      split at found
      · rename_i front tail inner
        simp only [Option.some.injEq, Prod.mk.injEq] at found
        obtain ⟨rfl, rfl⟩ := found
        simpa using ih front inner
      · simp only [Option.map_eq_some_iff, Prod.mk.injEq] at found
        obtain ⟨tail, stripped, rfl, rfl⟩ := found
        simpa using (stripStart?_eq_some_iff _ _ _).mp stripped

end Text

end FencePreview
