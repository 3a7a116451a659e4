import FencePreview.Proofs.CompilerCalls
import FencePreview.Proofs.JoinedDocuments
import FencePreview.Proofs.PlainDocuments

/-! How a document ends. Lines that are joined again end with a line feed where the last of them is empty, so the
last line that is written has to have text in it whenever the input does not end with a line feed. Its own last
line has; what either pass writes for that line, or behind it, does not lose it. -/

namespace FencePreview

def EndsInText (content : List Text) : Prop :=
  ∃ last character, content.getLast? = some last ∧ last.getLast? = some character ∧ character ≠ '\n'

theorem getLast?_append_of_eq_some (front back : Text) (character : Char)
    (closes : back.getLast? = some character) : (front ++ back).getLast? = some character := by
  rw [List.getLast?_append, closes, Option.some_or]

theorem Example.getLast?_openTag (title : Text) : (openTag title).getLast? = some '>' := by
  unfold openTag
  exact getLast?_append_of_eq_some _ "</summary>".toList '>' (by decide)

theorem Markup.getLast?_image (url : Text) : (image url).getLast? = some '>' := by
  unfold image
  exact getLast?_append_of_eq_some _ "\" alt=\"Preview\" loading=\"lazy\">".toList '>' (by decide)

namespace EndsInText

theorem append (front back : List Text) (ends : EndsInText back) : EndsInText (front ++ back) := by
  obtain ⟨last, character, isLast, closes, shown⟩ := ends
  exact ⟨last, character, by simp [List.getLast?_append, isLast], closes, shown⟩

theorem of_append (front back : List Text) (ends : EndsInText (front ++ back)) : back = [] ∨ EndsInText back := by
  obtain ⟨last, character, isLast, closes, shown⟩ := ends
  cases found : back.getLast? with
  | none => exact .inl (List.getLast?_eq_none_iff.mp found)
  | some own =>
      rw [List.getLast?_append, found] at isLast
      exact .inr ⟨last, character, found.trans isLast, closes, shown⟩

theorem singleton (line : Text) (character : Char) (closes : line.getLast? = some character)
    (shown : character ≠ '\n') : EndsInText [line] :=
  ⟨line, character, rfl, closes, shown⟩

theorem getLast?_joinLines (content : List Text) (ends : EndsInText content) :
    (Text.joinLines content).getLast? ≠ some '\n' := by
  obtain ⟨last, character, isLast, closes, shown⟩ := ends
  obtain ⟨front, rfl⟩ := List.getLast?_eq_some_iff.mp isLast
  rw [Text.joinLines, Text.joinWith_concat, List.getLast?_append, closes]
  simpa using shown

end EndsInText

namespace Text

theorem of_getLast?_feed (front rest : Text) (unended : (front ++ '\n' :: rest).getLast? ≠ some '\n') :
    rest ≠ [] ∧ rest.getLast? ≠ some '\n' := by
  cases rest with
  | nil => simp at unended
  | cons next rest =>
      rw [List.getLast?_append, List.getLast?_cons_cons] at unended
      exact ⟨List.cons_ne_nil _ _, by simpa [List.getLast?_cons] using unended⟩

theorem endsInText_lines (text : Text) (filled : text ≠ []) (unended : text.getLast? ≠ some '\n') :
    EndsInText (lines text) := by
  induction text using lines_induction with
  | nil => exact absurd rfl filled
  | feed rest ih =>
      obtain ⟨more, later⟩ := of_getLast?_feed [] rest unended
      exact .append [[]] _ (ih more later)
  | returnFeed rest ih =>
      obtain ⟨more, later⟩ := of_getLast?_feed ['\r'] rest unended
      exact .append [[]] _ (ih more later)
  | other character rest notFeed notReturn ih =>
      rw [lines_cons _ _ notFeed notReturn]
      by_cases more : rest = []
      · rw [more]
        exact .singleton [character] character rfl notFeed
      · rw [List.getLast?_cons_of_ne_nil more] at unended
        obtain ⟨last, final, isLast, closes, shown⟩ := ih more unended
        cases found : lines rest with
        | nil => simp [found] at isLast
        | cons first others =>
            rw [found] at isLast
            cases others with
            | nil =>
                obtain rfl : first = last := by simpa using isLast
                exact .singleton (character :: first) final (by simp [List.getLast?_cons, closes]) shown
            | cons second others => exact ⟨last, final, by simpa using isLast, closes, shown⟩

/-- Lines are joined to a text that ends with a line feed exactly if the source does, unless one is left over at
the end of the last line. -/
theorem getLast?_assemble_iff (source : Text) (content : List Text)
    (ends : source.getLast? ≠ some '\n' → content = [] ∨ EndsInText content) :
    (assemble source content).getLast? = some '\n' ↔ source.getLast? = some '\n' := by
  by_cases ended : source.getLast? = some '\n'
  · simp [assemble, finalNewline, ended]
  · have joined : (joinLines content).getLast? ≠ some '\n' := by
      rcases ends ended with rfl | ends
      · simp [joinLines, joinWith]
      · exact ends.getLast?_joinLines content
    simp [assemble, finalNewline, ended, joined]

end Text

namespace OpenPanel

/-- A panel ends with a wrapper line, or with the blank lines that were held back behind it. -/
theorem endsInText_footer (panel : OpenPanel) (items held : List Text) (ends : held = [] ∨ EndsInText held) :
    EndsInText (panel.footer items held) := by
  have wrapper : EndsInText [panel.fence.lead ++ "</div></div>".toList] :=
    .singleton _ '>' (getLast?_append_of_eq_some _ _ _ (by decide)) (by decide)
  rw [footer, List.append_cons]
  rcases ends with rfl | ends
  · rw [List.append_nil]
    exact .append _ _ wrapper
  · exact .append _ _ ends

end OpenPanel

namespace Scanner

/-- Whether a scanner that stops here, having written these lines last, ends its output in text. Inside a fence it
has no output to end. -/
def Settled (scanner : Scanner) (written : List Text) : Prop :=
  match scanner.phase with
  | .outside => EndsInText written
  | .inBody _ => True
  | .afterBody _ _ held => held = [] ∨ EndsInText held

theorem settled_feedOutside (scanner : Scanner) (lineNumber : Nat) (line : Text) (outside : scanner.phase = .outside)
    (ends : EndsInText [line]) (front : List Text) :
    Settled (scanner.feedOutside lineNumber line).1 (front ++ (scanner.feedOutside lineNumber line).2) := by
  simp only [feedOutside]
  split
  · trivial
  · split
    · rename_i title _
      have tag : EndsInText [Example.openTag title] :=
        .singleton _ '>' (Example.getLast?_openTag title) (by decide)
      simpa only [Settled, outside] using tag.append front
    · split
      · have tag : EndsInText [Example.closeTag] := .singleton _ '>' (by decide) (by decide)
        simpa only [Settled, outside] using tag.append front
      · simpa only [Settled, outside] using ends.append front

/-- One line with text in it settles a scanner, whatever it was in the middle of. -/
theorem settled_feed (scanner : Scanner) (lineNumber : Nat) (line : Text) (ends : EndsInText [line]) :
    Settled (scanner.feed lineNumber line).1 (scanner.feed lineNumber line).2 := by
  simp only [feed]
  cases phase : scanner.phase with
  | outside => exact settled_feedOutside scanner lineNumber line phase ends []
  | inBody panel =>
      by_cases closes : panel.fence.closes line = true
      · simp [Settled, closes]
      · simp [Settled, closes]
  | afterBody panel items held =>
      by_cases blank : isBlankLine line = true
      · simpa [Settled, blank] using ends.append held
      · by_cases numbered : isNumberedItem panel.fence.lead line = true
        · simp [Settled, blank, numbered]
        · simp only [blank, numbered, Bool.false_eq_true, if_false]
          exact settled_feedOutside _ lineNumber line rfl ends (panel.footer items held)

theorem endsInText_finish (scanner : Scanner) (written ending : List Text) (settled : scanner.Settled written)
    (finishes : scanner.finish.2 = .ok ending) : EndsInText (written ++ ending) := by
  cases phase : scanner.phase with
  | outside =>
      simp only [finish, phase, Except.ok.injEq] at finishes
      simpa [← finishes, Settled, phase] using settled
  | inBody panel => simp [finish, phase] at finishes
  | afterBody panel items held =>
      simp only [finish, phase, closePanel, Except.ok.injEq] at finishes
      simp only [Settled, phase] at settled
      rw [← finishes]
      exact (panel.endsInText_footer items held settled).append written

/-- Only the last line matters, so this holds from the middle of any fence on. -/
theorem endsInText_scanFrom (scanner : Scanner) (lineNumber : Nat) (content out : List Text)
    (ends : EndsInText content) (scanned : (scanner.scanFrom lineNumber content).2 = .ok out) : EndsInText out := by
  obtain ⟨last, character, isLast, closes, shown⟩ := ends
  obtain ⟨front, rfl⟩ := List.getLast?_eq_some_iff.mp isLast
  rw [scanFrom_append, scanFrom_cons, after_after] at scanned
  generalize (scanner.feedAll lineNumber front).1 = reached at scanned
  generalize (scanner.feedAll lineNumber front).2 = early at scanned
  have settled := reached.settled_feed (lineNumber + front.length) last (.singleton last character closes shown)
  cases finishes : (reached.feed (lineNumber + front.length) last).1.finish.2 with
  | error error => simp [after, scanFrom, feedAll, finishes, Except.map] at scanned
  | ok ending =>
      have whole : early ++ (reached.feed (lineNumber + front.length) last).2 ++ ending = out := by
        simpa [after, scanFrom, feedAll, finishes, Except.map] using scanned
      have final := endsInText_finish _ _ ending settled finishes
      rw [← whole, List.append_assoc]
      exact final.append early

/-- What is written for the lines of a text that does not end with a line feed. -/
theorem endsInText_scanLines (openExample : Option Nat) (warnings : List ScanWarning) (previews : List PreviewBlock)
    (input : Text) (out : List Text) (unended : input.getLast? ≠ some '\n')
    (scanned : (scanLines ⟨.outside, openExample, warnings, previews⟩ (Text.lines input)).2 = .ok out) :
    out = [] ∨ EndsInText out := by
  by_cases empty : input = []
  · left
    simpa [empty, Text.lines, scanLines, feedAll, finish, Except.map, eq_comm] using scanned
  · exact .inr (endsInText_scanFrom _ 1 _ out (Text.endsInText_lines input empty unended) scanned)

end Scanner

theorem Stretch.lines_ne_nil (stretch : Stretch) : stretch.lines ≠ [] := by
  cases stretch <;> simp [lines]

namespace Formatter

theorem Stands.endsInText {formatter : Formatter} {stretch : Stretch} {before after : Workspace}
    {lines : List Text} {rendered : List RenderedPreview}
    (stands : formatter.Stands stretch before lines rendered after) (ends : EndsInText stretch.lines) :
    EndsInText lines := by
  cases stands with
  | copied _ _ kept silent => exact ends
  | replaced fence opening body closing _ _ rendered preview finished =>
      have closes : rendered.markup.getLast? = some '>' :=
        getLast?_append_of_eq_some _ _ _ (Markup.getLast?_image rendered.darkUrl)
      exact .singleton _ '>' (getLast?_append_of_eq_some _ _ _ closes) (by decide)

/-- Where images take the place of the last block, their line has text in it too. -/
theorem Shown.endsInText {formatter : Formatter} {stretches : List Stretch} {before after : Workspace}
    {lines : List Text} {rendered : List RenderedPreview}
    (shown : formatter.Shown stretches before lines rendered after)
    (ends : EndsInText (stretches.flatMap Stretch.lines)) : EndsInText lines := by
  induction shown with
  | nil workspace => exact ends
  | cons stretch rest before between after first later rendered more stands others ih =>
      rw [List.flatMap_cons] at ends
      rcases EndsInText.of_append _ _ ends with bare | below
      · have final : rest = [] := by
          cases rest with
          | nil => rfl
          | cons next rest => simp [Stretch.lines_ne_nil] at bare
        subst final
        cases others
        rw [bare, List.append_nil] at ends
        rw [List.append_nil]
        exact stands.endsInText ends
      · exact .append _ _ (ih below)

/-- Whatever a document ends with, it ends with a line feed after either pass exactly if it did before. -/
theorem process_finalNewline (input : Text) :
    (∀ openExample warnings previews output,
      (Scanner.scan ⟨.outside, openExample, warnings, previews⟩ input).2 = .ok output →
        (output.getLast? = some '\n' ↔ input.getLast? = some '\n')) ∧
    ∀ (formatter : Formatter) before document after, formatter.process input before = .ok document after →
      (document.output.getLast? = some '\n' ↔ input.getLast? = some '\n') := by
  constructor
  · intro openExample warnings previews output scanned
    cases result : (Scanner.scanLines ⟨.outside, openExample, warnings, previews⟩ (Text.lines input)).2 with
    | error error => simp [Scanner.scan, result, Except.map] at scanned
    | ok content =>
        obtain rfl : Text.assemble input content = output := by
          simpa [Scanner.scan, result, Except.map] using scanned
        exact Text.getLast?_assemble_iff input content fun unended =>
          Scanner.endsInText_scanLines openExample warnings previews input content unended result
  · intro formatter before document after finished
    obtain ⟨content, lines, rendered, scanned, shown, rfl⟩ :=
      formatter.shown_of_process input before after document finished
    refine Text.getLast?_assemble_iff input lines fun unended => ?_
    rcases Scanner.endsInText_scanLines none [] [] input content unended scanned with rfl | ends
    · rw [Stretch.read] at shown
      cases shown
      exact .inl rfl
    · exact .inr (shown.endsInText (by rwa [Stretch.read_lines]))

/-- Blank lines that are held back behind a list, and a preview block, where the input ends without a line feed. -/
theorem process_finalNewline_held :
    let formatter := Formatter.small (.writing fun _ => ByteArray.empty)
    let before : Workspace := ⟨⟨.empty, []⟩, [], []⟩
    let list := "~~~typst +preview\nx\n~~~\n1. one\n\n ".toList
    let block := Text.joinLines (pairStretch 'x').lines
    (∃ output, (Scanner.new.scan list).2 = .ok output ∧ output.getLast? ≠ some '\n') ∧
      ∃ document after, formatter.process block before = .ok document after ∧ document.previews = 1 ∧
        document.output.getLast? ≠ some '\n' := by
  intro formatter before list block
  constructor
  · have succeeds : (Scanner.new.scanLines (Text.lines list)).2.toOption.isSome = true := by decide +kernel
    obtain ⟨content, written⟩ := Scanner.exists_scanLines_eq_ok Scanner.new _ succeeds
    have scanned : (Scanner.new.scan list).2 = .ok (Text.assemble list content) := by
      rw [Scanner.scan, written]
      rfl
    exact ⟨_, scanned, ((process_finalNewline list).1 none [] [] _ scanned).not.mpr (by decide)⟩
  · have plain : (Scanner.new.scanLines (Text.lines block)).2 = .ok (pairStretch 'x').lines := by decide +kernel
    have segments : Stretch.segments 1 (Stretch.read (pairStretch 'x').lines) = [.preview 1 pairFence [['x']]] := by
      decide +kernel
    have render : formatter.render (sourceOf pairFence [['x']]) (Attributes.ofInfo pairFence.info).2 = _ :=
      formatter.render_eq_smallDigits rfl rfl
    have run := formatter.process_eq_of_scan block _ plain
    simp only [segments, publishSegments, publishSegment, render] at run
    have counts : (Job.result? (formatter.process block) before).map ProcessedDocument.previews = some 1 := by
      rw [run]
      decide +kernel
    obtain ⟨document, finished, count⟩ := Job.exists_ok_of_result?_map _ _ _ _ counts
    have ends := (process_finalNewline block).2 formatter before document _ finished
    exact ⟨document, _, finished, count, ends.not.mpr (by decide)⟩

end Formatter

end FencePreview
