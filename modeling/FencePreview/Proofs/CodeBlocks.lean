import FencePreview.Proofs.Publication
import FencePreview.Proofs.Rendering

/-! Code blocks that hold no preview. The scanner reads line by line and knows no blocks of other
languages, so that it replaces example markers inside them too. The second pass copies what lies
outside previews. Only a preview that opens before such a block can tear it apart. -/

namespace FencePreview

namespace Example

/-- Whether an example is open after a line, and what is written for the line. -/
def mark (isOpen : Bool) (line : Text) : Bool × Text :=
  match opening? (Text.trim line) with
  | some title => (true, openTag title)
  | none => if isOpen && isClosing (Text.trim line) then (false, closeTag) else (isOpen, line)

def marked : Bool → List Text → List Text
  | _, [] => []
  | isOpen, line :: rest => (mark isOpen line).2 :: marked (mark isOpen line).1 rest

theorem marked_eq_self (isOpen : Bool) (content : List Text)
    (plain : ∀ line ∈ content, opening? (Text.trim line) = none ∧ isClosing (Text.trim line) = false) :
    marked isOpen content = content := by
  induction content with
  | nil => rfl
  | cons line rest ih =>
      have same : mark isOpen line = (isOpen, line) := by
        simp [mark, (plain line (by simp)).1, (plain line (by simp)).2]
      rw [marked, same, ih fun other member => plain other (List.mem_cons_of_mem _ member)]

theorem opensPreview_mark (isOpen : Bool) (line : Text) (silent : opensPreview line = false) :
    opensPreview (mark isOpen line).2 = false := by
  unfold mark
  split
  · rename_i title _
    exact opensPreview_eq_false_of_isUnfenced _
      (isUnfenced_of_head? _ '<' (openTag_head? title) (by decide) (by decide))
  · split
    · decide
    · exact silent

theorem opensPreview_marked (isOpen : Bool) (content : List Text)
    (silent : ∀ line ∈ content, opensPreview line = false) :
    ∀ line ∈ marked isOpen content, opensPreview line = false := by
  induction content generalizing isOpen with
  | nil => simp [marked]
  | cons first rest ih =>
      intro line member
      rcases List.mem_cons.mp member with rfl | later
      · exact opensPreview_mark isOpen first (silent first (by simp))
      · exact ih _ (fun other inside => silent other (List.mem_cons_of_mem _ inside)) line later

end Example

def ScanPhase.panel? : ScanPhase → Option OpenPanel
  | outside => none
  | inBody panel => some panel
  | afterBody panel _ _ => some panel

namespace Scanner

/-- The lines that a scanner holds back until it meets a line that its last panel does not take in. -/
def pending (scanner : Scanner) : List Text :=
  match scanner.phase with
  | .afterBody panel items held => panel.footer items held
  | _ => []

/-- What a scanner writes for the lines of a block that opens no panel. -/
def image (scanner : Scanner) (content : List Text) : List Text :=
  match scanner.phase with
  | .inBody _ => content
  | _ => Example.marked scanner.openExample.isSome content

theorem image_eq_self (scanner : Scanner) (content : List Text)
    (plain : ∀ line ∈ content,
      Example.opening? (Text.trim line) = none ∧ Example.isClosing (Text.trim line) = false) :
    scanner.image content = content := by
  unfold image
  split
  · rfl
  · exact Example.marked_eq_self _ content plain

theorem opensPreview_image (scanner : Scanner) (content : List Text)
    (silent : ∀ line ∈ content, opensPreview line = false) :
    ∀ line ∈ scanner.image content, opensPreview line = false := by
  unfold image
  split
  · exact silent
  · exact Example.opensPreview_marked _ content silent

theorem feedAll_append (scanner : Scanner) (lineNumber : Nat) (front rest : List Text) :
    scanner.feedAll lineNumber (front ++ rest) =
      let first := scanner.feedAll lineNumber front
      let second := first.1.feedAll (lineNumber + front.length) rest
      (second.1, first.2 ++ second.2) := by
  induction front generalizing scanner lineNumber with
  | nil => rfl
  | cons line more ih =>
      simp only [List.cons_append, feedAll, ih, List.length_cons, List.append_assoc]
      rw [show lineNumber + 1 + more.length = lineNumber + (more.length + 1) by omega]

theorem feedOutside_eq (scanner : Scanner) (lineNumber : Nat) (line : Text)
    (plain : DirectiveFence.parse? line = none) :
    (scanner.feedOutside lineNumber line).1.phase = scanner.phase ∧
      (scanner.feedOutside lineNumber line).1.openExample.isSome =
        (Example.mark scanner.openExample.isSome line).1 ∧
      (scanner.feedOutside lineNumber line).2 = [(Example.mark scanner.openExample.isSome line).2] := by
  simp only [feedOutside, plain, Example.mark]
  cases Example.opening? (Text.trim line) with
  | some title => simp
  | none =>
      by_cases closes : (scanner.openExample.isSome && Example.isClosing (Text.trim line)) = true
      · simp [closes]
      · simp [closes]

theorem feedAll_outside (scanner : Scanner) (lineNumber : Nat) (content : List Text)
    (outside : scanner.phase = .outside) (plain : ∀ line ∈ content, DirectiveFence.parse? line = none) :
    (scanner.feedAll lineNumber content).2 = Example.marked scanner.openExample.isSome content := by
  induction content generalizing scanner lineNumber with
  | nil => rfl
  | cons line rest ih =>
      obtain ⟨phase, isOpen, written⟩ := feedOutside_eq scanner lineNumber line (plain line (by simp))
      have later := ih (scanner.feedOutside lineNumber line).1 (lineNumber + 1) (phase.trans outside)
        fun other member => plain other (List.mem_cons_of_mem _ member)
      simp only [feedAll, feed, outside, Example.marked]
      rw [later, written, isOpen]
      rfl

theorem feedAll_inBody (scanner : Scanner) (panel : OpenPanel) (lineNumber : Nat) (content : List Text)
    (inside : scanner.phase = .inBody panel)
    (whole : ∀ line ∈ content.dropLast, panel.fence.closes line = false) :
    (scanner.feedAll lineNumber content).2 = content := by
  induction content generalizing scanner panel lineNumber with
  | nil => rfl
  | cons line rest ih =>
      cases rest with
      | nil => simp [feedAll, feed, inside]
      | cons next more =>
          have continues := whole line (by simp)
          let fed : Scanner :=
            { scanner with phase := .inBody { panel with body := panel.body ++ [line] } }
          have step : scanner.feed lineNumber line = (fed, [line]) := by
            simp [feed, inside, continues, fed]
          have later := ih fed { panel with body := panel.body ++ [line] } (lineNumber + 1) rfl
            fun other member => whole other (List.mem_cons_of_mem _ member)
          rw [feedAll, step]
          simp only [later, List.singleton_append]

theorem feedAll_afterBody (scanner : Scanner) (panel : OpenPanel) (items held : List Text)
    (lineNumber : Nat) (first : Text) (rest : List Text)
    (complete : scanner.phase = .afterBody panel items held)
    (detached : attaches panel.fence.lead first = false)
    (plain : ∀ line ∈ first :: rest, DirectiveFence.parse? line = none) :
    (scanner.feedAll lineNumber (first :: rest)).2 =
      panel.footer items held ++ Example.marked scanner.openExample.isSome (first :: rest) := by
  simp only [attaches, Bool.or_eq_false_iff] at detached
  have later := feedAll_outside (scanner.closePanel panel items held).1 lineNumber (first :: rest) rfl plain
  simp only [feedAll, feed, complete, detached.1, detached.2, Bool.false_eq_true, if_false,
    List.append_assoc]
  simp only [feedAll, feed, closePanel] at later ⊢
  rw [later]

/-- A panel under construction comes from a fence, so that its lead is one. -/
def Led (scanner : Scanner) : Prop :=
  ∀ panel ∈ scanner.phase.panel?, ∀ character ∈ panel.fence.lead, isLead character = true

theorem led_of_outside (scanner : Scanner) (outside : scanner.phase = .outside) : scanner.Led := by
  simp [Led, outside, ScanPhase.panel?]

theorem led_feedOutside (scanner : Scanner) (outside : scanner.phase = .outside) (lineNumber : Nat)
    (line : Text) : (scanner.feedOutside lineNumber line).1.Led := by
  cases opens : DirectiveFence.parse? line with
  | none =>
      exact led_of_outside _ ((feedOutside_eq scanner lineNumber line opens).1.trans outside)
  | some fence =>
      have leads := (DirectiveFence.parse?_parts line fence opens).1
      simpa [feedOutside, opens, Led, ScanPhase.panel?, OpenPanel.start] using leads

theorem led_feed (scanner : Scanner) (led : scanner.Led) (lineNumber : Nat) (line : Text) :
    (scanner.feed lineNumber line).1.Led := by
  cases phase : scanner.phase with
  | outside =>
      simp only [feed, phase]
      exact led_feedOutside scanner phase lineNumber line
  | inBody panel =>
      have leads := led panel (by simp [phase, ScanPhase.panel?])
      simp only [feed, phase]
      split
      · simpa [Led, ScanPhase.panel?] using leads
      · simpa [Led, ScanPhase.panel?] using leads
  | afterBody panel items held =>
      have leads := led panel (by simp [phase, ScanPhase.panel?])
      simp only [feed, phase]
      split
      · simpa [Led, ScanPhase.panel?] using leads
      · split
        · simpa [Led, ScanPhase.panel?] using leads
        · exact led_feedOutside _ rfl lineNumber line

theorem led_feedAll (scanner : Scanner) (led : scanner.Led) (lineNumber : Nat) (content : List Text) :
    (scanner.feedAll lineNumber content).1.Led := by
  induction content generalizing scanner lineNumber with
  | nil => exact led
  | cons line rest ih => exact ih _ (led_feed scanner led lineNumber line) (lineNumber + 1)

/-- A block that opens no panel: what the scanner held back is written first, then the block's own
lines, as they are in the body of a panel and else with their example markers replaced. -/
theorem feedAll_block (scanner : Scanner) (led : scanner.Led) (lineNumber : Nat) (opening : Text)
    (rest : List Text) (fence : CodeFence) (opens : CodeFence.parse? opening = some fence)
    (plain : ∀ line ∈ opening :: rest, DirectiveFence.parse? line = none)
    (whole : ∀ panel, scanner.phase = .inBody panel →
      ∀ line ∈ (opening :: rest).dropLast, panel.fence.closes line = false) :
    (scanner.feedAll lineNumber (opening :: rest)).2 =
      scanner.pending ++ scanner.image (opening :: rest) := by
  cases phase : scanner.phase with
  | outside =>
      simp only [pending, image, phase, List.nil_append]
      exact feedAll_outside scanner lineNumber _ phase plain
  | inBody panel =>
      simp only [pending, image, phase, List.nil_append]
      exact feedAll_inBody scanner panel lineNumber _ phase (whole panel phase)
  | afterBody panel items held =>
      have detached : attaches panel.fence.lead opening = false := by
        rw [Bool.eq_false_iff]
        intro attached
        have leads := led panel (by simp [phase, ScanPhase.panel?])
        have unfenced := isUnfenced_of_attaches _ _ leads attached
        rw [CodeFence.parse?_of_isUnfenced opening unfenced] at opens
        cases opens
      simp only [pending, image, phase]
      exact feedAll_afterBody scanner panel items held lineNumber opening rest phase detached plain

end Scanner

namespace CodeFence

/-- The preview block that is open after one more line. Blocks of other kinds do not count. -/
def previewAfter (isOpen : Option CodeFence) (line : Text) : Option CodeFence :=
  match isOpen with
  | none => (parse? line).filter isPreview
  | some fence => if fence.closes line then none else some fence

def unclosedPreview? (content : List Text) : Option CodeFence := content.foldl previewAfter none

theorem unclosedPreview?_of_silent (content : List Text)
    (silent : ∀ line ∈ content, opensPreview line = false) : unclosedPreview? content = none := by
  induction content with
  | nil => rfl
  | cons line rest ih =>
      have quiet := silent line (by simp)
      have stays : (parse? line).filter isPreview = none := by
        cases opens : parse? line with
        | none => rfl
        | some fence => simpa [opensPreview, opens] using quiet
      rw [unclosedPreview?, List.foldl_cons, previewAfter, stays]
      exact ih fun other member => silent other (List.mem_cons_of_mem _ member)

theorem unclosedPreview?_append_of_silent (front rest : List Text)
    (silent : ∀ line ∈ front, opensPreview line = false) :
    unclosedPreview? (front ++ rest) = unclosedPreview? rest := by
  have quiet := unclosedPreview?_of_silent front silent
  rw [unclosedPreview?] at quiet
  rw [unclosedPreview?, List.foldl_append, quiet]
  rfl

theorem closed_of_foldl_previewAfter (fence : CodeFence) (content : List Text)
    (finished : content.foldl previewAfter (some fence) = none) :
    ∃ body closing after, content = body ++ closing :: after ∧
      (∀ line ∈ body, fence.closes line = false) ∧ fence.closes closing = true ∧
      unclosedPreview? after = none := by
  induction content with
  | nil => cases finished
  | cons line rest ih =>
      rw [List.foldl_cons, previewAfter] at finished
      by_cases ends : fence.closes line = true
      · rw [if_pos ends] at finished
        exact ⟨[], line, rest, rfl, by simp, ends, finished⟩
      · rw [if_neg ends] at finished
        obtain ⟨body, closing, after, parts, continues, closed, later⟩ := ih finished
        refine ⟨line :: body, closing, after, by rw [parts, List.cons_append], ?_, closed, later⟩
        intro other member
        rcases List.mem_cons.mp member with rfl | inside
        · exact Bool.eq_false_iff.mpr ends
        · exact continues other inside

end CodeFence

/-- A part that begins with a block, or ends inside it, stays in one piece when the lines behind the
block are replaced. -/
theorem prefix_of_append_eq (block after part below lines : List Text)
    (parts : block ++ after = part ++ below)
    (continues : ∀ more, part = block ++ more → after = more ++ below → more <+: lines) :
    part <+: block ++ lines := by
  rcases List.append_eq_append_iff.mp parts with ⟨more, rfl, tail⟩ | ⟨more, rfl, _⟩
  · exact (List.prefix_append_right_inj _).mpr (continues more rfl tail)
  · rw [List.append_assoc]
    exact List.prefix_append _ _

theorem printed_start (content part below : List Text) (publication : Publication)
    (parts : content = part ++ below) (silent : ∀ other ∈ part, opensPreview other = false)
    (printed : Printed content publication) : part <+: publication.lines := by
  induction printed generalizing part with
  | nil =>
      rw [(List.append_eq_nil_iff.mp parts.symm).1]
      exact List.nil_prefix
  | line opening rest later plain finished ih =>
      cases part with
      | nil => exact List.nil_prefix
      | cons first part =>
          obtain ⟨rfl, tail⟩ := List.cons.inj parts
          have inner := ih part tail fun other member => silent other (List.mem_cons_of_mem _ member)
          exact List.cons_prefix_cons.mpr ⟨rfl, inner⟩
  | unclosed opening rest fence opens quiet =>
      rw [parts]
      exact List.prefix_append _ _
  | preview opening rest fence body after closing rendered later opens found preview finished ih =>
      cases part with
      | nil => exact List.nil_prefix
      | cons first part =>
          obtain ⟨rfl, _⟩ := List.cons.inj parts
          have quiet := silent opening (by simp)
          simp [opensPreview, opens, preview] at quiet
  | block opening rest fence body after closing later opens found quiet finished ih =>
      have whole : (opening :: body ++ [closing]) ++ after = part ++ below := by
        rw [← parts, (Segment.splitAtClosing?_parts _ _ _ _ _ found).1]
        simp
      have written : (Publication.append ⟨opening :: body ++ [closing], 0, 0⟩ later).lines =
          (opening :: body ++ [closing]) ++ later.lines := rfl
      rw [written]
      refine prefix_of_append_eq _ _ _ _ _ whole ?_
      rintro more rfl tail
      exact ih more tail fun other member => silent other (List.mem_append_right _ member)

/-- Lines that open no preview are published together wherever no preview is open before them. -/
theorem printed_inside (content above part below : List Text) (publication : Publication)
    (parts : content = above ++ (part ++ below)) (free : CodeFence.unclosedPreview? above = none)
    (silent : ∀ other ∈ part, opensPreview other = false) (printed : Printed content publication) :
    part <:+: publication.lines := by
  -- `above` is what is left of the lines before the part. The previews that `unclosedPreview?` meets
  -- are those that are rendered, since other blocks of a published document hold none.
  induction printed generalizing above with
  | nil =>
      have empty := (List.append_eq_nil_iff.mp parts.symm).2
      rw [(List.append_eq_nil_iff.mp empty).1]
      exact List.nil_infix
  | line opening rest later plain finished ih =>
      cases above with
      | nil => exact (printed_start _ part below _ parts silent (.line _ _ _ plain finished)).isInfix
      | cons first above =>
          obtain ⟨rfl, tail⟩ := List.cons.inj parts
          have stays : CodeFence.unclosedPreview? above = none := by
            rw [← free, CodeFence.unclosedPreview?, CodeFence.unclosedPreview?, List.foldl_cons,
              CodeFence.previewAfter, plain]
            rfl
          exact List.infix_cons (ih above tail stays)
  | unclosed opening rest fence opens quiet =>
      rw [parts]
      exact List.infix_append' _ _ _
  | preview opening rest fence body after closing rendered later opens found preview finished ih =>
      cases above with
      | nil =>
          have whole := Printed.preview opening rest fence body after closing rendered later opens found
            preview finished
          exact (printed_start _ part below _ parts silent whole).isInfix
      | cons first above =>
          obtain ⟨rfl, tail⟩ := List.cons.inj parts
          rw [CodeFence.unclosedPreview?, List.foldl_cons, CodeFence.previewAfter, opens,
            Option.filter_some, if_pos preview] at free
          obtain ⟨inner, last, more, rfl, continues, closed, stays⟩ :=
            CodeFence.closed_of_foldl_previewAfter fence above free
          rw [tail, List.append_eq, List.append_assoc, List.cons_append,
            Segment.splitAtClosing?_append _ _ _ _ continues closed] at found
          simp only [Option.some.injEq, Prod.mk.injEq] at found
          obtain ⟨rfl, rfl, rfl⟩ := found
          exact List.infix_cons (ih more rfl stays)
  | block opening rest fence body after closing later opens found quiet finished ih =>
      have whole : (opening :: body ++ [closing]) ++ after = above ++ (part ++ below) := by
        rw [← parts, (Segment.splitAtClosing?_parts _ _ _ _ _ found).1]
        simp
      have written : (Publication.append ⟨opening :: body ++ [closing], 0, 0⟩ later).lines =
          (opening :: body ++ [closing]) ++ later.lines := rfl
      rw [written]
      rcases List.append_eq_append_iff.mp whole with ⟨more, same, tail⟩ | ⟨first, same, remaining⟩
      · -- The block ends before the part.
        rw [same, CodeFence.unclosedPreview?_append_of_silent _ _ quiet] at free
        exact List.infix_append_of_infix_right (ih more tail free)
      · rw [same, List.append_assoc]
        refine List.infix_append_of_infix_right (List.IsPrefix.isInfix ?_)
        refine prefix_of_append_eq _ _ _ _ _ remaining.symm ?_
        rintro second rfl tail
        exact printed_start _ second below later tail
          (fun other member => silent other (List.mem_append_right _ member)) finished

namespace Formatter

theorem scanned_of_process (formatter : Formatter) (input : Text) (before after : Workspace)
    (document : ProcessedDocument) (finished : formatter.process input before = .ok document after) :
    ∃ ending publication,
      Printed ((Scanner.new.feedAll 1 (Text.lines input)).2 ++ ending) publication ∧
        document.output = Text.assemble input publication.lines := by
  unfold process at finished
  simp only [Scanner.scanLines] at finished
  cases ends : (Scanner.new.feedAll 1 (Text.lines input)).1.finish.2 with
  | error error =>
      simp only [ends, Except.map] at finished
      exact absurd finished (Job.throw_ne_ok _ _ _ _)
  | ok ending =>
      simp only [ends, Except.map] at finished
      obtain ⟨publication, between, published, rest⟩ := (Job.bind_eq_ok_iff _ _ _ _ _).mp finished
      obtain ⟨rfl, _⟩ := (Job.pure_eq_ok_iff _ _ _ _).mp rest
      have printed := printed_of_published _ _ _ (published_of_ok _ _ _ _ _ published)
      exact ⟨ending, publication, printed, rfl⟩

/-- A block that holds no preview is published in one piece. Its lines are kept, but example markers
among them are replaced by their tags unless a panel is taking them in. -/
theorem process_codeBlock (formatter : Formatter) (input : Text) (before after : Workspace)
    (document : ProcessedDocument) (finished : formatter.process input before = .ok document after)
    (front rest back : List Text) (opening : Text) (fence : CodeFence)
    (parts : Text.lines input = front ++ (opening :: rest ++ back))
    (opens : CodeFence.parse? opening = some fence)
    (plain : ∀ line ∈ opening :: rest, DirectiveFence.parse? line = none ∧ opensPreview line = false)
    (whole : ∀ panel, (Scanner.new.feedAll 1 front).1.phase = .inBody panel →
      ∀ line ∈ (opening :: rest).dropLast, panel.fence.closes line = false)
    (free : CodeFence.unclosedPreview?
      ((Scanner.new.feedAll 1 front).2 ++ (Scanner.new.feedAll 1 front).1.pending) = none) :
    ∃ published, document.output = Text.assemble input published ∧
      (Scanner.new.feedAll 1 front).1.image (opening :: rest) <:+: published ∧
      ((∀ line ∈ opening :: rest,
          Example.opening? (Text.trim line) = none ∧ Example.isClosing (Text.trim line) = false) →
        opening :: rest <:+: published) := by
  obtain ⟨ending, publication, printed, output⟩ :=
    scanned_of_process formatter input before after document finished
  let reached := (Scanner.new.feedAll 1 front).1
  have led : reached.Led := Scanner.led_feedAll _ (Scanner.led_of_outside _ rfl) 1 front
  have written := Scanner.feedAll_block reached led (1 + front.length) opening rest fence opens
    (fun line member => (plain line member).1) whole
  have content : ∃ below, (Scanner.new.feedAll 1 (Text.lines input)).2 ++ ending =
      ((Scanner.new.feedAll 1 front).2 ++ reached.pending) ++ (reached.image (opening :: rest) ++ below) := by
    simp only [reached] at written
    simp only [parts, Scanner.feedAll_append, written, reached, List.append_assoc]
    exact ⟨_, rfl⟩
  obtain ⟨below, content⟩ := content
  have silent := Scanner.opensPreview_image reached _ fun line member => (plain line member).2
  have inside := printed_inside _ _ _ below publication content free silent printed
  refine ⟨publication.lines, output, inside, ?_⟩
  intro unmarked
  rw [Scanner.image_eq_self reached _ unmarked] at inside
  exact inside

/-- A closing brace in a block inside an open example: it is published as the end of the example. -/
theorem process_codeBlock_brace :
    let formatter := Formatter.small (.writing fun _ => ByteArray.empty)
    let input : Text := "example\x7b\n```rust\nfn f() \x7b\n\x7d\n```\n\x7d\n".toList
    ∃ document after published, formatter.process input ⟨⟨.empty, []⟩, [], []⟩ = .ok document after ∧
      document.output = Text.assemble input published ∧
      ["```rust".toList, "fn f() \x7b".toList, "</details>".toList, "```".toList] <:+: published := by
  intro formatter input
  have succeeds : (Job.result? (formatter.process input) ⟨⟨.empty, []⟩, [], []⟩).isSome = true := by
    decide +kernel
  obtain ⟨document, result⟩ := Option.isSome_iff_exists.mp succeeds
  obtain ⟨after, finished⟩ := (Job.result?_eq_some_iff _ _ _).mp result
  let front : List Text := ["example\x7b".toList]
  let rest : List Text := ["fn f() \x7b".toList, "\x7d".toList, "```".toList]
  have parts : Text.lines input = front ++ ("```rust".toList :: rest ++ ["\x7d".toList]) := by
    decide +kernel
  have opens : CodeFence.parse? "```rust".toList = some ⟨[], "```".toList, "rust".toList⟩ := by
    decide +kernel
  have plain : ∀ line ∈ "```rust".toList :: rest,
      DirectiveFence.parse? line = none ∧ opensPreview line = false := by decide +kernel
  have outside : (Scanner.new.feedAll 1 front).1.phase = .outside := by decide +kernel
  have free : CodeFence.unclosedPreview?
      ((Scanner.new.feedAll 1 front).2 ++ (Scanner.new.feedAll 1 front).1.pending) = none := by
    decide +kernel
  have image : (Scanner.new.feedAll 1 front).1.image ("```rust".toList :: rest) =
      ["```rust".toList, "fn f() \x7b".toList, "</details>".toList, "```".toList] := by decide +kernel
  obtain ⟨published, output, inside, _⟩ := process_codeBlock formatter input _ after document finished
    front rest _ _ _ parts opens plain (fun panel inBody => by rw [outside] at inBody; cases inBody) free
  rw [image] at inside
  exact ⟨document, after, published, finished, output, inside⟩

/-- Two documents with a closed block that stands outside all other blocks, holds no preview and does
not reach the output: the one above, and one where a panel opens inside another block and ends at a
line of this one. -/
theorem process_codeBlock_lost :
    let formatter := Formatter.small (.writing fun _ => ByteArray.empty)
    let before : Workspace := ⟨⟨.empty, []⟩, [], []⟩
    let marked : List Text := ["```rust".toList, "fn f() \x7b".toList, "\x7d".toList, "```".toList]
    let torn : List Text := ["````rust".toList, "x".toList, "```".toList, "y".toList, "````".toList]
    let first := Text.joinLines ("example\x7b".toList :: marked ++ ["\x7d".toList, []])
    let second := Text.joinLines
      (["~~~".toList, "```typst +preview(`)".toList, "~~~".toList] ++ torn ++ [[]])
    (Segment.copied marked ∈ Segment.cut 1 (Text.lines first) ∧
      (CodeFence.parse? "```rust".toList).any (·.closes "```".toList) = true ∧
      (∀ line ∈ marked, DirectiveFence.parse? line = none ∧ opensPreview line = false) ∧
      ∃ document after, formatter.process first before = .ok document after ∧
        ¬marked <:+: Text.lines document.output) ∧
    Segment.copied torn ∈ Segment.cut 1 (Text.lines second) ∧
      (CodeFence.parse? "````rust".toList).any (·.closes "````".toList) = true ∧
      (∀ line ∈ torn, DirectiveFence.parse? line = none ∧ opensPreview line = false) ∧
      ∃ document after, formatter.process second before = .ok document after ∧
        ¬torn <:+: Text.lines document.output := by
  intro formatter before marked torn first second
  have output : ∀ (input : Text) (block : List Text),
      ((Job.result? (formatter.process input) before).any
        fun document => !decide (block <:+: Text.lines document.output)) = true →
      ∃ document after, formatter.process input before = .ok document after ∧
        ¬block <:+: Text.lines document.output := by
    intro input block lost
    obtain ⟨document, result, absent⟩ := Option.any_eq_true _ _ |>.mp lost
    obtain ⟨after, finished⟩ := (Job.result?_eq_some_iff _ _ _).mp result
    exact ⟨document, after, finished, by simpa using absent⟩
  refine ⟨⟨?_, ?_, ?_, output first marked ?_⟩, ?_, ?_, ?_, output second torn ?_⟩
  all_goals decide +kernel

end Formatter

end FencePreview
