import FencePreview.Proofs.Rendering
import FencePreview.Proofs.SecondPass

/-! Documents without previews and examples. Both passes hand their lines through, whatever other code
blocks they hold, so that only the way through lines and back can change such a text: a carriage return
that stands before a line feed belongs to no line and is not written again. -/

namespace FencePreview

namespace Text

/-- A text whose lines end with a line feed alone. -/
def unifyEnds (text : Text) : Text := replaceAll ['\r', '\n'] ['\n'] text

theorem unifyEnds_return (rest : Text) : unifyEnds ('\r' :: '\n' :: rest) = '\n' :: unifyEnds rest :=
  replaceFrom_needle ['\r', '\n'] ['\n'] rest (by simp)

theorem unifyEnds_cons (character : Char) (rest : Text) (inner : ¬['\r', '\n'] <+: character :: rest) :
    unifyEnds (character :: rest) = character :: unifyEnds rest := by
  have missing : stripStart? ['\r', '\n'] (character :: rest) = none := by
    rw [Option.eq_none_iff_forall_ne_some]
    intro after found
    exact inner ⟨after, ((stripStart?_eq_some_iff _ _ _).mp found).symm⟩
  simp only [unifyEnds, replaceAll, replaceFrom, missing]

theorem not_returnFeed (character : Char) (rest : Text)
    (notReturn : character = '\r' → rest.head? ≠ some '\n') : ¬['\r', '\n'] <+: character :: rest := by
  rintro ⟨tail, whole⟩
  obtain ⟨first, others⟩ := List.cons.inj whole
  exact notReturn first.symm (by rw [← others]; rfl)

/-- Nothing is changed in a text exactly when no carriage return stands before a line feed. -/
theorem unifyEnds_eq_self_iff (text : Text) : unifyEnds text = text ↔ ¬['\r', '\n'] <:+: text := by
  have step : ∀ (character : Char) (rest : Text), (character = '\r' → rest.head? ≠ some '\n') →
      (unifyEnds rest = rest ↔ ¬['\r', '\n'] <:+: rest) →
        (unifyEnds (character :: rest) = character :: rest ↔ ¬['\r', '\n'] <:+: character :: rest) := by
    intro character rest notReturn ih
    have inner := not_returnFeed character rest notReturn
    rw [unifyEnds_cons _ _ inner, List.infix_cons_iff, not_or, List.cons_inj_right, ih]
    exact (and_iff_right inner).symm
  induction text using lines_induction with
  | nil => simp [unifyEnds, replaceAll, replaceFrom]
  | feed rest ih => exact step '\n' rest (by simp) ih
  | returnFeed rest ih =>
      have starts : ['\r', '\n'] <:+: '\r' :: '\n' :: rest := ⟨[], rest, rfl⟩
      rw [unifyEnds_return]
      simp [starts]
  | other character rest _ notReturn ih => exact step character rest notReturn ih

theorem lines_eq_nil_iff (text : Text) : lines text = [] ↔ text = [] := by
  cases text using lines_induction with
  | nil => simp [lines]
  | feed rest => simp [lines]
  | returnFeed rest => simp [lines]
  | other character rest notFeed notReturn =>
      rw [lines_cons _ _ notFeed notReturn]
      split <;> simp

theorem finalNewline_cons (character : Char) (rest : Text) (inner : character = '\n' → rest ≠ []) :
    finalNewline (character :: rest) = finalNewline rest := by
  cases rest with
  | nil =>
      have other : ¬character = '\n' := fun feed => inner feed rfl
      simp [finalNewline, other]
  | cons next more => simp [finalNewline]

theorem assemble_lines_feed (rest : Text) :
    assemble ('\n' :: rest) (lines ('\n' :: rest)) = '\n' :: assemble rest (lines rest) := by
  by_cases empty : rest = []
  · rw [empty]
    rfl
  · have joined := joinWith_cons ['\n'] [] (lines rest) ((lines_eq_nil_iff rest).not.mpr empty)
    rw [assemble, finalNewline_cons '\n' rest fun _ => empty, lines, joinLines, joined]
    rfl

theorem assemble_lines_cons (character : Char) (rest : Text) (notFeed : character ≠ '\n')
    (notReturn : character = '\r' → rest.head? ≠ some '\n') :
    assemble (character :: rest) (lines (character :: rest)) = character :: assemble rest (lines rest) := by
  have joined : joinLines (lines (character :: rest)) = character :: joinLines (lines rest) := by
    rw [lines_cons character rest notFeed notReturn]
    cases lines rest with
    | nil => rfl
    | cons first more => cases more <;> rfl
  rw [assemble, joined, finalNewline_cons _ _ (absurd · notFeed)]
  rfl

theorem assemble_lines (text : Text) : assemble text (lines text) = unifyEnds text := by
  induction text using lines_induction with
  | nil => rfl
  | feed rest ih =>
      rw [assemble_lines_feed, ih, unifyEnds_cons _ _ (not_returnFeed _ _ (by simp))]
  | returnFeed rest ih =>
      have same : assemble ('\r' :: '\n' :: rest) = assemble ('\n' :: rest) := by
        funext content
        rw [assemble, assemble, finalNewline_cons '\r' _ (by simp)]
      rw [same, lines_return_feed, assemble_lines_feed, ih, unifyEnds_return]
  | other character rest notFeed notReturn ih =>
      rw [assemble_lines_cons character rest notFeed notReturn, ih,
        unifyEnds_cons _ _ (not_returnFeed _ _ notReturn)]

end Text

/-- Opens neither a panel nor an example nor a preview block. -/
def IsPlain (line : Text) : Prop :=
  DirectiveFence.parse? line = none ∧ Example.opening? (Text.trim line) = none ∧ opensPreview line = false

instance : DecidablePred IsPlain := fun _ => inferInstanceAs (Decidable (_ ∧ _ ∧ _))

namespace Scanner

/-- While no example is open, a closing brace is a line like any other. -/
theorem feed_plain (warnings : List ScanWarning) (previews : List PreviewBlock) (lineNumber : Nat)
    (line : Text) (plain : IsPlain line) :
    feed ⟨.outside, none, warnings, previews⟩ lineNumber line =
      (⟨.outside, none, warnings, previews⟩, [line]) := by
  obtain ⟨noPanel, noExample, _⟩ := plain
  simp [feed, feedOutside, noPanel, noExample]

theorem scanFrom_plain (warnings : List ScanWarning) (previews : List PreviewBlock) (lineNumber : Nat)
    (content : List Text) (plain : ∀ line ∈ content, IsPlain line) :
    scanFrom ⟨.outside, none, warnings, previews⟩ lineNumber content =
      (⟨.outside, none, warnings, previews⟩, .ok content) := by
  induction content generalizing lineNumber with
  | nil => simp [scanFrom, feedAll, finish, Except.map]
  | cons line rest ih =>
      obtain ⟨first, others⟩ := List.forall_mem_cons.mp plain
      rw [scanFrom_cons, feed_plain _ _ _ _ first, ih _ others]
      rfl

end Scanner

namespace Formatter

variable (formatter : Formatter)

/-- A block in which no preview opens is copied, and so is one that is not closed. -/
theorem segment_of_silent (line : Nat) (stretch : Stretch) (sound : stretch.Sound)
    (silent : ∀ other ∈ stretch.lines, opensPreview other = false) :
    stretch.segment line = .copied stretch.lines := by
  have kept : stretch.isPreview = false := by
    cases stretch with
    | closed fence opening body closing =>
        have quiet := silent opening (by simp [Stretch.lines])
        simpa [opensPreview, (sound.block _ _ _ _ rfl).1, Stretch.isPreview] using quiet
    | line content => rfl
    | unclosed opening rest => rfl
  rcases segment_of_kept line stretch sound kept with
    ⟨copied, _⟩ | ⟨front, opening, back, _, parts, _, opens⟩
  · exact copied
  · have quiet := silent opening (by simp [parts])
    rw [opens] at quiet
    exact absurd quiet (by decide)

theorem publishSegments_silent (line : Nat) (stretches : List Stretch)
    (sound : ∀ stretch ∈ stretches, stretch.Sound)
    (silent : ∀ stretch ∈ stretches, ∀ other ∈ stretch.lines, opensPreview other = false)
    (before : Workspace) :
    formatter.publishSegments (Stretch.segments line stretches) before =
      .ok ⟨stretches.flatMap Stretch.lines, 0, 0⟩ before := by
  induction stretches generalizing line with
  | nil => rfl
  | cons stretch rest ih =>
      obtain ⟨firstSound, othersSound⟩ := List.forall_mem_cons.mp sound
      obtain ⟨firstSilent, othersSilent⟩ := List.forall_mem_cons.mp silent
      have first : formatter.publishSegment (stretch.segment line) before =
          .ok ⟨stretch.lines, 0, 0⟩ before := by
        rw [segment_of_silent line stretch firstSound firstSilent]
        rfl
      rw [formatter.segments_of_stands line stretch rest before before _ first, publishSegments,
        Job.bind_of_ok _ _ _ _ _ first, Job.bind_of_ok _ _ _ _ _ (ih _ othersSound othersSilent)]
      rfl

/-- A text none of whose lines opens a panel, an example or a preview block goes through the scanner and
through a whole document's processing as it is, apart from the carriage returns before its line feeds:
without warnings, previews and compiler calls, for every formatter, whatever code blocks it holds. It is
its own output exactly when no carriage return stands before a line feed. -/
theorem process_plain (input : Text) (plain : ∀ line ∈ Text.lines input, IsPlain line) :
    let unified := Text.replaceAll ['\r', '\n'] ['\n'] input
    (∀ (warnings : List ScanWarning) (previews : List PreviewBlock),
      Scanner.scan ⟨.outside, none, warnings, previews⟩ input =
        (⟨.outside, none, warnings, previews⟩, .ok unified)) ∧
    (∀ (formatter : Formatter) (before : Workspace),
      formatter.process input before = .ok ⟨unified, [], 0, 0⟩ before) ∧
    (unified = input ↔ ¬['\r', '\n'] <:+: input) := by
  have assembled : Text.assemble input (Text.lines input) = Text.replaceAll ['\r', '\n'] ['\n'] input :=
    Text.assemble_lines input
  have scanned : ∀ warnings previews,
      Scanner.scanLines ⟨.outside, none, warnings, previews⟩ (Text.lines input) =
        (⟨.outside, none, warnings, previews⟩, .ok (Text.lines input)) :=
    fun warnings previews => Scanner.scanFrom_plain warnings previews 1 _ plain
  refine ⟨?_, ?_, Text.unifyEnds_eq_self_iff input⟩
  · intro warnings previews
    rw [Scanner.scan, scanned, ← assembled]
    rfl
  · intro formatter before
    have fresh : Scanner.new.scanLines (Text.lines input) = (Scanner.new, .ok (Text.lines input)) :=
      scanned [] []
    have silent : ∀ stretch ∈ Stretch.read (Text.lines input), ∀ line ∈ stretch.lines,
        opensPreview line = false := by
      intro stretch member line inside
      have present : line ∈ (Stretch.read (Text.lines input)).flatMap Stretch.lines :=
        List.mem_flatMap.mpr ⟨stretch, member, inside⟩
      rw [Stretch.read_lines] at present
      exact (plain line present).2.2
    have published := formatter.publishSegments_silent 1 _ (Stretch.read_sound _) silent before
    rw [Stretch.read_lines] at published
    rw [formatter.process_eq_of_scan input _ (by rw [fresh]), Job.bind_of_ok _ _ _ _ _ published, fresh,
      ← assembled]
    rfl

/-- A closed block with another fence in it, a brace that closes nothing, a block that runs to the end,
and one carriage return that is lost. -/
theorem process_plain_blocks :
    let formatter := Formatter.small (.writing fun _ => ByteArray.empty)
    let before : Workspace := ⟨⟨.empty, []⟩, [], []⟩
    let input := "a\r\n```rust\n~~~\n\x7d\n```\n> ~~~typst\nb".toList
    let output := "a\n```rust\n~~~\n\x7d\n```\n> ~~~typst\nb".toList
    (∀ line ∈ Text.lines input, IsPlain line) ∧ Scanner.new.scan input = (Scanner.new, .ok output) ∧
      formatter.process input before = .ok ⟨output, [], 0, 0⟩ before ∧ output ≠ input := by
  intro formatter before input output
  have plain : ∀ line ∈ Text.lines input, IsPlain line := by decide +kernel
  have unified : Text.replaceAll ['\r', '\n'] ['\n'] input = output := by decide +kernel
  obtain ⟨scanned, processed, same⟩ := process_plain input plain
  rw [unified] at scanned processed same
  have holds : ['\r', '\n'] <:+: input := by decide +kernel
  exact ⟨plain, scanned [] [], processed formatter before, fun equal => same.mp equal holds⟩

end Formatter

end FencePreview
