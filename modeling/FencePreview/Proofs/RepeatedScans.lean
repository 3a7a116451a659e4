import FencePreview.Proofs.Layout

/-! One scanner for many inputs. Between two of them nothing is kept but the warnings and previews
recorded so far, also when an input ended inside a fence or with an example open. -/

namespace FencePreview

inductive ScanRequest where
  | text (input : Text)
  | lines (content : List Text)
deriving DecidableEq, Repr

inductive ScanAnswer where
  | text (result : Except ScanError Text)
  | lines (result : Except ScanError (List Text))

namespace ScanRequest

def content : ScanRequest → List Text
  | .text input => Text.lines input
  | .lines content => content

/-- The answer to a request whose lines were scanned with this result. -/
def answered (request : ScanRequest) (result : Except ScanError (List Text)) : ScanAnswer :=
  match request with
  | .text input => .text (result.map (Text.assemble input))
  | .lines _ => .lines result

end ScanRequest

def ScanAnswer.error? : ScanAnswer → Option ScanError
  | .text (.error error) => some error
  | .lines (.error error) => some error
  | _ => none

namespace Scanner

def answer (scanner : Scanner) : ScanRequest → Scanner × ScanAnswer
  | .text input =>
      let (done, result) := scanner.scan input
      (done, .text result)
  | .lines content =>
      let (done, result) := scanner.scanLines content
      (done, .lines result)

def answerAll (scanner : Scanner) : List ScanRequest → Scanner × List ScanAnswer
  | [] => (scanner, [])
  | request :: rest =>
      let (between, first) := scanner.answer request
      let (done, later) := between.answerAll rest
      (done, first :: later)

theorem answer_eq (scanner : Scanner) (request : ScanRequest) :
    scanner.answer request =
      ((scanner.scanLines request.content).1, request.answered (scanner.scanLines request.content).2) := by
  cases request with
  | text input => rfl
  | lines content => rfl

/-- What was recorded before stays in front, and has no part in the answer. -/
theorem answer_between (warnings : List ScanWarning) (previews : List PreviewBlock)
    (request : ScanRequest) :
    answer ⟨.outside, none, warnings, previews⟩ request =
      (⟨.outside, none, warnings ++ (new.answer request).1.warnings,
          previews ++ (new.answer request).1.previews⟩, (new.answer request).2) := by
  simp only [answer_eq, new, scanLines_eq_ofLayout]
  simp [ofLayout]

theorem answerAll_between (requests : List ScanRequest) (warnings : List ScanWarning)
    (previews : List PreviewBlock) :
    answerAll ⟨.outside, none, warnings, previews⟩ requests =
      (⟨.outside, none,
          warnings ++ requests.flatMap fun request => (new.answer request).1.warnings,
          previews ++ requests.flatMap fun request => (new.answer request).1.previews⟩,
        requests.map fun request => (new.answer request).2) := by
  induction requests generalizing warnings previews with
  | nil => simp [answerAll]
  | cons request rest ih =>
      simp only [answerAll, answer_between, ih]
      simp

end Scanner

/-- A fence with this marker opens on the line of this number, the first line having number one. -/
def OpensOn (content : List Text) (line : Nat) (marker : Text) : Prop :=
  0 < line ∧ ∃ opening fence, content[line - 1]? = some opening ∧
    DirectiveFence.parse? opening = some fence ∧ fence.marker = marker

namespace Layout

theorem opening_of_unterminated (number line : Nat) (marker : Text) (content : List Text)
    (stop : (read number content).unterminated = some (.unterminatedFence line marker)) :
    ∃ front opening back fence, content = front ++ opening :: back ∧ line = number + front.length ∧
      DirectiveFence.parse? opening = some fence ∧ fence.marker = marker := by
  induction number, content using read.induct with
  | case1 number => simp [read] at stop
  | case2 number opening rest plain ih =>
      rw [read_plain _ _ _ plain] at stop
      obtain ⟨front, found, back, fence, parts, place, opens⟩ := ih stop
      refine ⟨opening :: front, found, back, fence, by rw [parts, List.cons_append], ?_, opens⟩
      simp only [List.length_cons]
      omega
  | case3 number opening rest fence opens missing =>
      rw [read_unterminated _ _ _ _ opens missing] at stop
      simp only [Option.some.injEq, ScanError.unterminatedFence.injEq] at stop
      exact ⟨[], opening, rest, fence, rfl, stop.1.symm, opens, stop.2⟩
  | case4 number opening rest fence opens body closing after split attached ih =>
      rw [read_panel _ _ _ _ _ _ _ opens split] at stop
      obtain ⟨front, found, back, other, parts, place, later⟩ := ih stop
      have whole : after = attached ++ (front ++ found :: back) := by
        rw [← parts]
        exact List.takeWhile_append_dropWhile.symm
      refine ⟨opening :: (body ++ closing :: (attached ++ front)), found, back, other, ?_, ?_, later⟩
      · rw [(Segment.splitAtClosing?_parts _ _ _ _ _ split).1, whole]
        simp
      · simp only [List.length_cons, List.length_append]
        omega

theorem opensOn_of_unterminated (line : Nat) (marker : Text) (content : List Text)
    (stop : (read 1 content).unterminated = some (.unterminatedFence line marker)) :
    OpensOn content line marker := by
  obtain ⟨front, opening, back, fence, rfl, rfl, opens, same⟩ := opening_of_unterminated 1 _ _ _ stop
  refine ⟨by omega, opening, fence, ?_, opens, same⟩
  have place : 1 + front.length - 1 = front.length := by omega
  rw [place]
  simp

end Layout

namespace Scanner

theorem unterminated_of_answer_error (request : ScanRequest) (error : ScanError)
    (failed : (new.answer request).2.error? = some error) :
    (Layout.read 1 request.content).unterminated = some error := by
  rw [answer_eq, new, scanLines_eq_ofLayout] at failed
  cases stop : (Layout.read 1 request.content).unterminated with
  | none =>
      cases request with
      | text input => simp [ofLayout, stop, ScanRequest.answered, ScanAnswer.error?, Except.map] at failed
      | lines content => simp [ofLayout, stop, ScanRequest.answered, ScanAnswer.error?] at failed
  | some cause =>
      cases request with
      | text input => simpa [ofLayout, stop, ScanRequest.answered, ScanAnswer.error?, Except.map] using failed
      | lines content => simpa [ofLayout, stop, ScanRequest.answered, ScanAnswer.error?] using failed

/-- A scanner that is asked one input after the other answers each as a new scanner does and collects
what new scanners record, whether or not calls fail or leave an example open. Lines are counted from
one in every call: the fence that an error names opens on that line of its own input. -/
theorem answerAll_new (requests : List ScanRequest) :
    new.answerAll requests =
        (⟨.outside, none, requests.flatMap fun request => (new.answer request).1.warnings,
            requests.flatMap fun request => (new.answer request).1.previews⟩,
          requests.map fun request => (new.answer request).2) ∧
      ∀ request line marker,
        (new.answer request).2.error? = some (.unterminatedFence line marker) →
          OpensOn request.content line marker := by
  constructor
  · exact answerAll_between requests [] []
  · intro request line marker failed
    apply Layout.opensOn_of_unterminated
    exact unterminated_of_answer_error request _ failed

end Scanner

end FencePreview
