import FencePreview.Document.Process
import FencePreview.Proofs.NestedBlocks
import FencePreview.Proofs.Walk

/-! Where a preview ends. A closing line repeats the quote characters and the marker, then come spaces
and tabs. The scanner lets line breaks follow these, the second pass does not: a carriage return may be
left on a line, and there the two part. -/

namespace FencePreview

def isBreak (character : Char) : Bool := character = '\r' || character = '\n'

def endsInBreak (line : Text) : Bool := line.getLast?.any isBreak

theorem endsInBreak_append (front back : Text) (filled : back ≠ []) :
    endsInBreak (front ++ back) = endsInBreak back := by
  obtain ⟨last, ends⟩ := Option.isSome_iff_exists.mp (List.getLast?_isSome.mpr filled)
  simp [endsInBreak, List.getLast?_append, ends]

theorem endsInBreak_of_breaks (breaks : Text) (all : ∀ character ∈ breaks, isBreak character = true)
    (filled : breaks ≠ []) : endsInBreak breaks = true := by
  obtain ⟨front, last, rfl⟩ := (List.eq_nil_or_concat breaks).resolve_left filled
  simpa [endsInBreak] using all last (by simp)

theorem not_endsInBreak_of_clean (line : Text) (clean : ∀ character ∈ line, isBreak character = false) :
    endsInBreak line = false := by
  cases found : line.getLast? with
  | none => simp [endsInBreak, found]
  | some last => simp [endsInBreak, found, clean last (List.mem_of_getLast? found)]

theorem isBreak_of_isIndent (character : Char) (indent : Text.isIndent character = true) :
    isBreak character = false := by
  simp only [Text.isIndent, Bool.or_eq_true, decide_eq_true_eq] at indent
  rcases indent with rfl | rfl <;> decide

theorem isBreak_of_isMark (character : Char) (marks : isMark character = true) : isBreak character = false := by
  simp only [isMark, Bool.or_eq_true, decide_eq_true_eq] at marks
  rcases marks with rfl | rfl <;> decide

theorem isBlankLine_eq_true_iff (line : Text) :
    isBlankLine line = true ↔ ∃ blanks breaks, (∀ character ∈ blanks, Text.isIndent character = true) ∧
      (∀ character ∈ breaks, isBreak character = true) ∧ line = blanks ++ breaks := by
  have trimmed : isBlankLine line = (Text.trimEndWhile isBreak line).all Text.isIndent := rfl
  rw [trimmed]
  constructor
  · intro blank
    refine ⟨Text.trimEndWhile isBreak line, (line.reverse.takeWhile isBreak).reverse,
      List.all_eq_true.mp blank, ?_, (Text.trimEndWhile_append_tail _ _).symm⟩
    intro character member
    exact List.mem_takeWhile_imp (List.mem_reverse.mp member)
  · rintro ⟨blanks, breaks, indented, broken, rfl⟩
    refine List.all_eq_true.mpr fun character member => indented character ?_
    rw [Text.trimEndWhile_append_dropped _ _ _ broken] at member
    exact Text.mem_of_mem_trimEndWhile _ _ _ member

theorem DirectiveFence.closes_eq_true_iff (fence : DirectiveFence) (line : Text) :
    fence.closes line = true ↔
      ∃ blanks breaks, (∀ character ∈ blanks, Text.isIndent character = true) ∧
        (∀ character ∈ breaks, isBreak character = true) ∧
        line = fence.lead ++ fence.marker ++ (blanks ++ breaks) := by
  simp only [closes]
  constructor
  · intro closed
    split at closed
    · rename_i rest stripped
      obtain ⟨blanks, breaks, indented, broken, rfl⟩ := (isBlankLine_eq_true_iff rest).mp closed
      exact ⟨blanks, breaks, indented, broken, (Text.stripStart?_eq_some_iff _ _ _).mp stripped⟩
    · simp at closed
  · rintro ⟨blanks, breaks, indented, broken, rfl⟩
    rw [Text.stripStart?_append]
    exact (isBlankLine_eq_true_iff _).mpr ⟨blanks, breaks, indented, broken, rfl⟩

theorem CodeFence.closes_eq_true_iff (fence : CodeFence) (preview : fence.isPreview = true) (line : Text) :
    fence.closes line = true ↔
      ∃ blanks, (∀ character ∈ blanks, Text.isIndent character = true) ∧
        line = fence.lead ++ fence.marker ++ blanks := by
  have strips : (Text.stripStart? fence.lead line).bind fence.afterClosingRun? =
      (Text.stripStart? fence.lead line).bind (Text.stripStart? fence.marker) := by
    refine Option.bind_congr fun inner _ => ?_
    simp only [afterClosingRun?, preview, if_true]
  simp only [closes, strips]
  constructor
  · intro closed
    split at closed
    · rename_i blanks found
      obtain ⟨inner, outer, run⟩ := Option.bind_eq_some_iff.mp found
      refine ⟨blanks, List.all_eq_true.mp closed, ?_⟩
      rw [(Text.stripStart?_eq_some_iff _ _ _).mp outer, (Text.stripStart?_eq_some_iff _ _ _).mp run,
        List.append_assoc]
    · simp at closed
  · rintro ⟨blanks, indented, rfl⟩
    rw [List.append_assoc, Text.stripStart?_append, Option.bind_some, Text.stripStart?_append]
    exact List.all_eq_true.mpr indented

namespace DirectiveFence

variable (opening : Text) (fence : DirectiveFence) (opens : parse? opening = some fence)

include opens

/-- What the second pass reads from the opening line of the nested block, if it reads one. -/
theorem nested_of_parse? (number : Nat) (block : CodeFence)
    (read : CodeFence.parse? (OpenPanel.start fence number).nestedOpening = some block) :
    block = { lead := fence.lead, marker := fence.marker, info := fence.nestedInfo } := by
  obtain ⟨leads, shape, known, _⟩ := parse?_parts opening fence opens
  have written : (OpenPanel.start fence number).nestedOpening =
      fence.lead ++ (fence.marker ++ fence.nestedInfo) := by
    rw [← List.append_assoc]
    exact List.append_assoc _ _ _
  have oneLine : '\n' ∉ fence.lead ++ (fence.marker ++ fence.nestedInfo) := by
    intro member
    simp [CodeFence.parse?, written, member] at read
  have stops : fence.nestedInfo.head? ≠ fence.marker.head? := by
    obtain ⟨mark, marks, first, _⟩ := shape.head
    rw [first]
    intro same
    have head : fence.nestedInfo.head? = some 't' := rfl
    rw [head, Option.some.injEq] at same
    rw [← same] at marks
    exact absurd marks (by decide)
  have trimmed : Text.trimEnd (fence.nestedInfo.dropWhile Text.isIndent) = fence.nestedInfo := by
    obtain ⟨front, last, parts, _⟩ := fence.nestedInfo_ends known
    have kept : fence.nestedInfo.dropWhile Text.isIndent = fence.nestedInfo := rfl
    rw [kept, parts]
    exact Text.trimEndWhile_eq_self _ _ '"' (by decide)
  rw [written, CodeFence.parse?_append _ _ _ leads shape stops oneLine, trimmed] at read
  split at read
  · simp at read
  · exact (Option.some.inj read).symm

/-- The nested block ends where the fence does, but not at a line that keeps a part of a line end. -/
theorem closes_nested (block : CodeFence) (preview : block.isPreview = true)
    (sameLead : block.lead = fence.lead) (sameMarker : block.marker = fence.marker) (line : Text) :
    block.closes line = (fence.closes line && !endsInBreak line) := by
  obtain ⟨_, shape, _⟩ := parse?_parts opening fence opens
  have bare : ∀ blanks, (∀ character ∈ blanks, Text.isIndent character = true) →
      endsInBreak (fence.lead ++ fence.marker ++ blanks) = false := by
    intro blanks indented
    obtain ⟨_, _, first, _⟩ := shape.head
    have filled : fence.marker ++ blanks ≠ [] := by
      intro empty
      simp [(List.append_eq_nil_iff.mp empty).1] at first
    rw [List.append_assoc, endsInBreak_append _ _ filled]
    refine not_endsInBreak_of_clean _ fun character member => ?_
    rcases List.mem_append.mp member with inMarker | inBlanks
    · exact isBreak_of_isMark _ (shape.isMark_of_mem _ _ inMarker)
    · exact isBreak_of_isIndent _ (indented character inBlanks)
  rw [Bool.eq_iff_iff, Bool.and_eq_true, Bool.not_eq_true', CodeFence.closes_eq_true_iff block preview,
    closes_eq_true_iff, sameLead, sameMarker]
  constructor
  · rintro ⟨blanks, indented, rfl⟩
    exact ⟨⟨blanks, [], indented, by simp, by simp⟩, bare blanks indented⟩
  · rintro ⟨⟨blanks, breaks, indented, broken, rfl⟩, ends⟩
    by_cases clean : breaks = []
    · subst clean
      exact ⟨blanks, indented, by simp⟩
    · rw [← List.append_assoc, endsInBreak_append _ _ clean, endsInBreak_of_breaks breaks broken clean] at ends
      exact absurd ends (by decide)

end DirectiveFence

theorem Scanner.feedAll_closed (scanner : Scanner) (panel : OpenPanel) (lineNumber : Nat)
    (body : List Text) (closing : Text) (inside : scanner.phase = .inBody panel)
    (continues : ∀ line ∈ body, panel.fence.closes line = false)
    (closed : panel.fence.closes closing = true) :
    (scanner.feedAll lineNumber (body ++ [closing])).1.phase =
      .afterBody { panel with body := panel.body ++ (body ++ [closing]) } [] [] := by
  induction body generalizing scanner panel lineNumber with
  | nil => simp [feedAll, feed, inside, closed]
  | cons line rest ih =>
      have stays := continues line List.mem_cons_self
      have later := fun other member => continues other (List.mem_cons_of_mem line member)
      let fed : Scanner :=
        { scanner with phase := .inBody { panel with body := panel.body ++ [line] } }
      have step : scanner.feed lineNumber line = (fed, [line]) := by
        simp [feed, inside, stays, fed]
      rw [List.cons_append, feedAll, step]
      rw [ih fed { panel with body := panel.body ++ [line] } (lineNumber + 1) rfl later closed]
      simp

/-- The second pass takes the nested block for a preview with the quote characters and marker of its
fence, and compiles the body that the scanner copied, unless the closing line keeps a part of a line
end. Then it reads on, past the end of the panel. -/
theorem DirectiveFence.nested_ends (opening : Text) (fence : DirectiveFence) (number : Nat)
    (block : CodeFence) (opens : parse? opening = some fence)
    (read : CodeFence.parse? (OpenPanel.start fence number).nestedOpening = some block) :
    block.lead = fence.lead ∧ block.marker = fence.marker ∧ block.isPreview = true ∧
      (∀ line, block.closes line = (fence.closes line && !endsInBreak line)) ∧
      (∀ body, Formatter.sourceOf block body =
        Text.joinLines (body.map fun line => (Text.stripStart? fence.lead line).getD line)) ∧
      ∀ (scanner : Scanner) (lineNumber : Nat) (body : List Text) (closing : Text),
        scanner.phase = .inBody (OpenPanel.start fence number) →
        (∀ line ∈ body, fence.closes line = false) → fence.closes closing = true →
        ∃ panel, (scanner.feedAll lineNumber (body ++ [closing])).1.phase = .afterBody panel [] [] ∧
          ∀ line after, Segment.cut line (panel.nestedOpening :: (panel.body ++ after)) =
            if endsInBreak closing then
              match Segment.splitAtClosing? block.closes after with
              | some (more, _, rest) =>
                  .preview line block (body ++ closing :: more) ::
                    Segment.cut (line + (body ++ closing :: more).length + 2) rest
              | none => [.enclosed line]
            else .preview line block body :: Segment.cut (line + body.length + 2) after := by
  have shape := nested_of_parse? opening fence opens number block read
  have preview := fence.isPreview_of_nestedInfo block (by rw [shape])
  have sameLead : block.lead = fence.lead := by rw [shape]
  have sameMarker : block.marker = fence.marker := by rw [shape]
  have closes := closes_nested opening fence opens block preview sameLead sameMarker
  refine ⟨sameLead, sameMarker, preview, closes, fun body => ?_, ?_⟩
  · rw [← sameLead]
    rfl
  · intro scanner lineNumber body closing inside continues closed
    refine ⟨_, scanner.feedAll_closed _ lineNumber body closing inside continues closed, ?_⟩
    intro line after
    have written : ∀ body, OpenPanel.nestedOpening { OpenPanel.start fence number with body } =
        (OpenPanel.start fence number).nestedOpening := fun _ => rfl
    have content : (OpenPanel.start fence number).body ++ (body ++ [closing]) ++ after =
        body ++ closing :: after := by simp [OpenPanel.start]
    have blockContinues : ∀ other ∈ body, block.closes other = false := by
      intro other member
      rw [closes, continues other member, Bool.false_and]
    rw [written, content]
    cases broken : endsInBreak closing with
    | false =>
        have ends : block.closes closing = true := by rw [closes, closed, broken]; rfl
        exact Segment.cut_preview line _ _ block body after closing read
          (Segment.splitAtClosing?_append _ _ _ _ blockContinues ends) preview
    | true =>
        have stays : ∀ other ∈ body ++ [closing], block.closes other = false := by
          simp only [List.forall_mem_append, List.forall_mem_singleton]
          exact ⟨blockContinues, by rw [closes, closed, broken]; rfl⟩
        rw [List.append_cons, Segment.cut_preview_append line _ block _ after read preview stays, if_pos rfl]
        cases Segment.splitAtClosing? block.closes after <;> simp

/-- A carriage return after the marker: the fence ends, and what follows is taken for source. -/
theorem DirectiveFence.nested_ends_return :
    let opening := "> ~~~typst +preview".toList
    let fence : DirectiveFence := ⟨"> ".toList, "~~~".toList, markupTag, directiveName, []⟩
    let block : CodeFence := ⟨"> ".toList, "~~~".toList, "typst-preview lang=\"typst\"".toList⟩
    let closing := "> ~~~\r".toList
    parse? opening = some fence ∧
      CodeFence.parse? (OpenPanel.start fence 1).nestedOpening = some block ∧
      fence.closes closing = true ∧ block.closes closing = false ∧
      ∃ panel, ((Scanner.new.feed 1 opening).1.feedAll 2 ["> x".toList, closing]).1.phase =
          .afterBody panel [] [] ∧
        Segment.cut 1 (panel.nestedOpening :: (panel.body ++ ["> </div></div>".toList])) = [.enclosed 1] := by
  intro opening fence block closing
  have opens : parse? opening = some fence := by decide +kernel
  have read : CodeFence.parse? (OpenPanel.start fence 1).nestedOpening = some block := by decide +kernel
  have closed : fence.closes closing = true := by decide +kernel
  have broken : endsInBreak closing = true := by decide +kernel
  obtain ⟨_, _, _, closes, _, cuts⟩ := nested_ends opening fence 1 block opens read
  obtain ⟨panel, phase, segments⟩ := cuts (Scanner.new.feed 1 opening).1 2 ["> x".toList] closing
    (by decide +kernel) (by decide +kernel) closed
  have missing : Segment.splitAtClosing? block.closes ["> </div></div>".toList] = none := by decide +kernel
  refine ⟨opens, read, closed, by rw [closes, closed, broken]; rfl, panel, phase, ?_⟩
  rw [segments, if_pos broken, missing]

end FencePreview
