import FencePreview.Fence.Code
import FencePreview.Text.Lines

/-! A scanned document cut at its top-level fenced blocks. Only preview blocks that stand on their
own can be rendered; one inside another block would be published as it is, so it ends the cut. -/

namespace FencePreview

inductive Segment where
  | copied (lines : List Text)
  /-- A closed preview block whose opening line has the number `line`. -/
  | preview (line : Nat) (fence : CodeFence) (body : List Text)
  /-- A preview that opens on `line` inside another block. -/
  | enclosed (line : Nat)
deriving DecidableEq, Repr

namespace Segment

/-- Lines up to the first that satisfies `closes`, that line, and the lines after it. -/
def splitAtClosing? (closes : Text → Bool) : List Text → Option (List Text × Text × List Text)
  | [] => none
  | line :: rest =>
      if closes line then some ([], line, rest)
      else
        match splitAtClosing? closes rest with
        | some (body, closing, after) => some (line :: body, closing, after)
        | none => none

/-- Number of the first line that opens a preview, the first line being numbered `line`. -/
def firstPreview? (line : Nat) : List Text → Option Nat
  | [] => none
  | content :: rest => if opensPreview content then some line else firstPreview? (line + 1) rest

theorem splitAtClosing?_length (closes : Text → Bool) (content body after : List Text) (closing : Text)
    (found : splitAtClosing? closes content = some (body, closing, after)) :
    content.length = body.length + 1 + after.length := by
  induction content generalizing body with
  | nil => simp [splitAtClosing?] at found
  | cons line rest ih =>
      simp only [splitAtClosing?] at found
      split at found
      · simp only [Option.some.injEq, Prod.mk.injEq] at found
        obtain ⟨rfl, _, rfl⟩ := found
        simp
        omega
      · split at found
        · rename_i inner _ tail split
          simp only [Option.some.injEq, Prod.mk.injEq] at found
          obtain ⟨rfl, rfl, rfl⟩ := found
          have size := ih inner split
          simp only [List.length_cons]
          omega
        · simp at found

/-- Cuts lines, the first of them numbered `line`. A block that never closes runs to the end. -/
def cut (line : Nat) : List Text → List Segment
  | [] => []
  | opening :: rest =>
      match CodeFence.parse? opening with
      | none => copied [opening] :: cut (line + 1) rest
      | some fence =>
          match _found : splitAtClosing? fence.closes rest with
          | none =>
              match firstPreview? line (opening :: rest) with
              | some inner => [enclosed inner]
              | none => [copied (opening :: rest)]
          | some (body, closing, after) =>
              if fence.isPreview then preview line fence body :: cut (line + body.length + 2) after
              else
                match firstPreview? (line + 1) body with
                | some inner => [enclosed inner]
                | none => copied (opening :: body ++ [closing]) :: cut (line + body.length + 2) after
termination_by content => content.length
decreasing_by
  all_goals simp_wf
  all_goals
    have size := splitAtClosing?_length _ _ _ _ _ _found
    omega

end Segment

end FencePreview
