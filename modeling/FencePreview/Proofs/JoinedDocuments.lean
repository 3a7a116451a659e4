import FencePreview.Proofs.CodeBlocks
import FencePreview.Proofs.WellFormedDocuments

/-! Documents one after the other. A scanner that has come to the end of the first may still hold a
panel open for items that follow. Unless the second document begins with one, it could as well have
stopped in between: both are scanned as they are alone, and lines of the second lie further down. -/

namespace FencePreview

/-- The warning for a document that stands `count` lines further down. -/
def ScanWarning.below (count : Nat) : ScanWarning → ScanWarning
  | nestedExample line openLine => nestedExample (line + count) (openLine + count)
  | unclosedExample openLine => unclosedExample (openLine + count)

def ScanError.below (count : Nat) : ScanError → ScanError
  | unterminatedFence line marker => unterminatedFence (line + count) marker

def PreviewBlock.below (count : Nat) (block : PreviewBlock) : PreviewBlock :=
  { block with line := block.line + count }

def PanelSource.below (count : Nat) (source : PanelSource) : PanelSource :=
  { source with line := source.line + count }

@[simp] theorem PanelSource.record_below (count : Nat) (source : PanelSource) :
    (source.below count).record = source.record.below count := rfl

def Passage.below (count : Nat) : Passage → Passage
  | plain line content => plain (line + count) content
  | panel source => panel (source.below count)

def Layout.below (count : Nat) (layout : Layout) : Layout :=
  { passages := layout.passages.map (Passage.below count)
    unterminated := layout.unterminated.map (ScanError.below count) }

/-- Whether a digit stands right after the quote and indent characters of a line. -/
def beginsNumbered (line : Text) : Bool :=
  match withoutLead line with
  | [] => false
  | first :: _ => first.isDigit

theorem beginsNumbered_of_isNumberedItem (lead line : Text)
    (leads : ∀ character ∈ lead, isLead character = true) (numbered : isNumberedItem lead line = true) :
    beginsNumbered line = true := by
  simp only [isNumberedItem] at numbered
  split at numbered
  · rename_i first rest stripped
    have notLead : isLead first = false := by
      rw [Bool.eq_false_iff]
      intro quotes
      simp only [isLead, Text.isIndent, Bool.or_eq_true, decide_eq_true_eq] at quotes
      rcases quotes with rfl | rfl | rfl <;> exact absurd numbered (by decide)
    rw [(Text.stripStart?_eq_some_iff _ _ _).mp stripped, beginsNumbered,
      withoutLead_append lead (first :: rest) leads (by simpa using notLead)]
    exact numbered
  · simp at numbered

theorem trim_of_blank (line : Text) (blank : isBlankLine line = true) : Text.trim line = [] := by
  have white : ∀ character ∈ line, Text.isWhite character = true := by
    intro character member
    rcases mem_blankLine line blank character member with indent | rfl | rfl
    · exact Text.isWhite_of_isIndent character indent
    · decide
    · decide
  rw [Text.trim, Text.trimWhile, List.dropWhile_eq_nil_iff.mpr white]
  rfl

theorem parse?_of_blank (line : Text) (blank : isBlankLine line = true) :
    DirectiveFence.parse? line = none :=
  DirectiveFence.parse?_of_isUnfenced line
    (isUnfenced_of_attaches [] line (by simp) (by simp [attaches, blank]))

namespace Layout

theorem push_below (count : Nat) (passage : Passage) (layout : Layout) :
    (layout.push passage).below count = (layout.below count).push (passage.below count) := rfl

theorem read_below (count line : Nat) (content : List Text) :
    read (line + count) content = (read line content).below count := by
  induction line, content using read.induct with
  | case1 line => simp [read, below]
  | case2 line opening rest plain ih =>
      rw [read_plain _ _ _ plain, read_plain _ _ _ plain, push_below, ← ih, Nat.add_right_comm]
      rfl
  | case3 line opening rest fence opens missing =>
      rw [read_unterminated _ _ _ _ opens missing, read_unterminated _ _ _ _ opens missing]
      rfl
  | case4 line opening rest fence opens body closing after found attached ih =>
      rw [read_panel _ _ _ _ _ _ _ opens found, read_panel _ _ _ _ _ _ _ opens found, push_below, ← ih]
      have place : line + count + body.length + 2 + attached.length =
          line + body.length + 2 + attached.length + count := by omega
      rw [place]
      rfl

theorem panels_below (count : Nat) (layout : Layout) :
    (layout.below count).panels = layout.panels.map (PanelSource.below count) := by
  simp only [panels, below, List.filterMap_map, List.map_filterMap]
  congr 1
  funext passage
  cases passage <;> rfl

end Layout

theorem Emission.ofPassages_below (count : Nat) (openExample : Option Nat) (passages : List Passage) :
    ofPassages (openExample.map (· + count)) (passages.map (Passage.below count)) =
      { lines := (ofPassages openExample passages).lines
        warnings := (ofPassages openExample passages).warnings.map (ScanWarning.below count) } := by
  induction passages generalizing openExample with
  | nil => cases openExample <;> rfl
  | cons passage rest ih =>
      cases passage with
      | plain line content =>
          have step : ofPlain (openExample.map (· + count)) (line + count) content =
              ((ofPlain openExample line content).1.map (· + count), (ofPlain openExample line content).2.1,
                (ofPlain openExample line content).2.2.map (ScanWarning.below count)) := by
            simp only [ofPlain]
            cases Example.opening? (Text.trim content) with
            | some title => cases openExample <;> rfl
            | none =>
                simp only [Option.isSome_map]
                split <;> rfl
          simp only [List.map_cons, Passage.below, ofPassages, step, ih, List.map_append]
      | panel source =>
          simp only [List.map_cons, Passage.below, ofPassages, ih]
          rfl

namespace Scanner

theorem scanFrom_append (scanner : Scanner) (lineNumber : Nat) (front rest : List Text) :
    scanner.scanFrom lineNumber (front ++ rest) =
      after (scanner.feedAll lineNumber front).2
        ((scanner.feedAll lineNumber front).1.scanFrom (lineNumber + front.length) rest) := by
  simp only [scanFrom, feedAll_append, after]
  generalize (scanner.feedAll lineNumber front).1.feedAll (lineNumber + front.length) rest = later
  cases (later.1.finish).2 <;> simp [Except.map]

theorem feed_blank (warnings : List ScanWarning) (previews : List PreviewBlock) (openExample : Option Nat)
    (lineNumber : Nat) (line : Text) (blank : isBlankLine line = true) :
    feed ⟨.outside, openExample, warnings, previews⟩ lineNumber line =
      (⟨.outside, openExample, warnings, previews⟩, [line]) := by
  have noTitle : Example.opening? [] = none := rfl
  have noBrace : Example.isClosing [] = false := rfl
  simp [feed, feedOutside, parse?_of_blank line blank, trim_of_blank line blank, noTitle, noBrace]

/-- Blank lines that are held back and then written after the panel are written as they would be
after a panel that is complete. -/
theorem scanFrom_afterBody_apart (openExample : Option Nat) (warnings : List ScanWarning)
    (previews : List PreviewBlock) (panel : OpenPanel) (items held : List Text) (lineNumber : Nat)
    (content : List Text)
    (apart : ∀ line ∈ (content.dropWhile isBlankLine).head?, isNumberedItem panel.fence.lead line = false) :
    scanFrom ⟨.afterBody panel items held, openExample, warnings, previews⟩ lineNumber content =
      after (panel.footer items held)
        (scanFrom ⟨.outside, openExample, warnings, previews ++ [{ panel.block with items := items.length }]⟩
          lineNumber content) := by
  induction content generalizing held lineNumber with
  | nil =>
      exact scanFrom_afterBody_detached ⟨.outside, openExample, warnings, previews⟩ panel items held
        lineNumber [] (by simp)
  | cons line rest ih =>
      by_cases blank : isBlankLine line = true
      · rw [List.dropWhile_cons_of_pos blank] at apart
        have longer : panel.footer items (held ++ [line]) = panel.footer items held ++ [line] := by
          simp [OpenPanel.footer]
        rw [scanFrom_cons, scanFrom_cons, feed_blank _ _ _ _ _ blank, after_after, ← longer,
          ← ih (held ++ [line]) (lineNumber + 1) apart]
        simp [feed, blank]
      · have detached : attaches panel.fence.lead line = false := by
          have numbered := apart line (by rw [List.dropWhile_cons_of_neg blank]; rfl)
          simp [attaches, blank, numbered]
        exact scanFrom_afterBody_detached ⟨.outside, openExample, warnings, previews⟩ panel items held
          lineNumber (line :: rest) (by simpa using detached)

/-- Where a scanner may stop, it goes on as if it had stopped there. -/
theorem scanFrom_of_finish (scanner done : Scanner) (ending : List Text) (led : scanner.Led)
    (closed : scanner.openExample = none) (finishes : scanner.finish = (done, .ok ending)) (lineNumber : Nat)
    (content : List Text)
    (apart : ∀ line ∈ (content.dropWhile isBlankLine).head?, beginsNumbered line = false) :
    scanner.scanFrom lineNumber content =
      after ending (scanFrom ⟨.outside, none, done.warnings, done.previews⟩ lineNumber content) := by
  obtain ⟨phase, openExample, warnings, previews⟩ := scanner
  obtain rfl : openExample = none := closed
  cases phase with
  | outside =>
      simp only [finish, Option.toList_none, List.map_nil, List.append_nil, Prod.mk.injEq,
        Except.ok.injEq] at finishes
      obtain ⟨rfl, rfl⟩ := finishes
      rw [after_nil]
  | inBody panel => simp [finish] at finishes
  | afterBody panel items held =>
      simp only [finish, closePanel, Option.toList_none, List.map_nil, List.append_nil, Prod.mk.injEq,
        Except.ok.injEq] at finishes
      obtain ⟨rfl, rfl⟩ := finishes
      refine scanFrom_afterBody_apart none warnings previews panel items held lineNumber content ?_
      intro line first
      have leads := led panel (by simp [ScanPhase.panel?])
      rw [Bool.eq_false_iff]
      intro numbered
      have begins := beginsNumbered_of_isNumberedItem panel.fence.lead line leads numbered
      rw [apart line first] at begins
      exact Bool.false_ne_true begins

theorem scanFrom_below (warnings : List ScanWarning) (previews : List PreviewBlock) (count : Nat)
    (content : List Text) :
    let alone := new.scanLines content
    scanFrom ⟨.outside, none, warnings, previews⟩ (1 + count) content =
      (⟨.outside, none, warnings ++ alone.1.warnings.map (ScanWarning.below count),
          previews ++ alone.1.previews.map (PreviewBlock.below count)⟩,
        alone.2.mapError (ScanError.below count)) := by
  intro alone
  have emitted := Emission.ofPassages_below count none (Layout.read 1 content).passages
  rw [Option.map_none] at emitted
  simp only [alone, new, scanLines_eq_ofLayout, scanFrom_eq_ofLayout, Layout.read_below, ofLayout,
    Layout.panels_below, List.map_map]
  simp only [Layout.below, emitted]
  cases (Layout.read 1 content).unterminated <;> simp [Except.mapError]

/-- A document that leaves no example open, followed by one that does not begin with a numbered item:
the scan of both is the scan of the first, then that of the second with its lines counted from the
end of the first. It succeeds or fails as the second does. -/
theorem scanLines_append (first second out : List Text) (done : Scanner)
    (finished : new.scanLines first = (done, .ok out))
    (closed : (new.feedAll 1 first).1.openExample = none)
    (apart : ∀ line ∈ (second.dropWhile isBlankLine).head?, beginsNumbered line = false) :
    let alone := new.scanLines second
    new.scanLines (first ++ second) =
      (⟨.outside, none, done.warnings ++ alone.1.warnings.map (ScanWarning.below first.length),
          done.previews ++ alone.1.previews.map (PreviewBlock.below first.length)⟩,
        (alone.2.mapError (ScanError.below first.length)).map (out ++ ·)) := by
  intro alone
  have led : (new.feedAll 1 first).1.Led := led_feedAll new (led_of_outside new rfl) 1 first
  cases ends : (new.feedAll 1 first).1.finish with
  | mk last result =>
      simp only [scanLines, ends, Prod.mk.injEq] at finished
      obtain ⟨rfl, written⟩ := finished
      cases result with
      | error error => simp [Except.map] at written
      | ok ending =>
          have written : (new.feedAll 1 first).2 ++ ending = out := by simpa [Except.map] using written
          calc
            new.scanLines (first ++ second)
              = after (new.feedAll 1 first).2
                  ((new.feedAll 1 first).1.scanFrom (1 + first.length) second) :=
                scanFrom_append new 1 first second
            _ = after out (scanFrom ⟨.outside, none, last.warnings, last.previews⟩ (1 + first.length) second) := by
                rw [scanFrom_of_finish _ last ending led closed ends _ second apart, after_after, written]
            _ = _ := by rw [scanFrom_below]; rfl

/-- The first document ends while a blank line is held back, and the second one begins with another. -/
theorem scanLines_append_held :
    let first : List Text := ["```typst +preview".toList, "x".toList, "```".toList, "1. a".toList, []]
    let second : List Text := [[], "text".toList, "~~~typst +preview".toList, "~~~".toList]
    ∃ done out later, new.scanLines first = (done, .ok out) ∧ (new.scanLines second).2 = .ok later ∧
      (new.feedAll 1 first).1.openExample = none ∧
      (∀ line ∈ (second.dropWhile isBlankLine).head?, beginsNumbered line = false) ∧
      (new.scanLines (first ++ second)).2 = .ok (out ++ later) ∧
      (new.scanLines (first ++ second)).1.previews.map PreviewBlock.line = [1, 8] := by
  intro first second
  have closed : (new.feedAll 1 first).1.openExample = none := by decide +kernel
  have apart : ∀ line ∈ (second.dropWhile isBlankLine).head?, beginsNumbered line = false := by decide +kernel
  have lines : (new.scanLines first).1.previews.map PreviewBlock.line = [1] ∧
      (new.scanLines second).1.previews.map PreviewBlock.line = [3] := by decide +kernel
  have succeeds : (new.scanLines first).2.toOption.isSome = true ∧
      (new.scanLines second).2.toOption.isSome = true := by decide +kernel
  obtain ⟨out, finished⟩ := exists_scanLines_eq_ok new first succeeds.1
  obtain ⟨later, more⟩ := exists_scanLines_eq_ok new second succeeds.2
  have more : (new.scanLines second).2 = .ok later := by rw [more]
  have joined := scanLines_append first second out _ finished closed apart
  refine ⟨_, out, later, finished, more, closed, apart, ?_, ?_⟩
  · rw [joined, more]
    rfl
  · have shifted : (PreviewBlock.line ∘ PreviewBlock.below first.length) =
        (· + first.length) ∘ PreviewBlock.line := rfl
    rw [joined, List.map_append, List.map_map, shifted, ← List.map_map, lines.1, lines.2]
    rfl

end Scanner

end FencePreview
