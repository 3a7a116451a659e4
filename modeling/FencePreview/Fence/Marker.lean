import FencePreview.Text.Blank

/-! What every fence line begins with: quote and indent characters, then a run of at least three
equal marks. Both parts are as long as they can be. -/

namespace FencePreview

def backtick : Char := '\x60'

def isMark (character : Char) : Bool := character = backtick || character = '~'

/-- Characters that quote or indent a line. -/
def isLead (character : Char) : Bool := character = '>' || Text.isIndent character

def leadOf (line : Text) : Text := line.takeWhile isLead

def withoutLead (line : Text) : Text := line.dropWhile isLead

/-- The run of one mark that a text begins with, and what follows it, if the run has at least
three marks. -/
def markerRun? : Text → Option (Text × Text)
  | [] => none
  | mark :: rest =>
      let run := (mark :: rest).takeWhile (· = mark)
      if isMark mark && 3 ≤ run.length then some (run, (mark :: rest).dropWhile (· = mark)) else none

theorem leadOf_append_withoutLead (line : Text) : leadOf line ++ withoutLead line = line :=
  List.takeWhile_append_dropWhile

theorem markerRun?_eq_append (text marker rest : Text) (found : markerRun? text = some (marker, rest)) :
    text = marker ++ rest := by
  cases text with
  | nil => simp [markerRun?] at found
  | cons mark text =>
      simp only [markerRun?] at found
      split at found
      · simp only [Option.some.injEq, Prod.mk.injEq] at found
        rw [← found.1, ← found.2, List.takeWhile_append_dropWhile]
      · simp at found

end FencePreview
