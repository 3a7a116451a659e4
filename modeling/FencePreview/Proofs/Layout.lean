import FencePreview.Document.Segments
import FencePreview.Panel.Scanner
import FencePreview.Proofs.TextParts
import Mathlib.Data.List.DropRight

/-! The layout of a document, read by looking ahead: a fence takes everything up to its closing
line, then the blank lines and numbered items after it. The scanner meets every line once and
holds back what it may need again. Both write the same lines. -/

namespace FencePreview

/-- Whether a line after a fence can belong to its panel. -/
def attaches (lead line : Text) : Bool := isBlankLine line || isNumberedItem lead line

/-- A fence with everything that its panel takes in. -/
structure PanelSource where
  fence : DirectiveFence
  line : Nat
  opening : Text
  body : List Text
  closing : Text
  items : List Text
  trailing : List Text
deriving DecidableEq, Repr

namespace PanelSource

def gather (fence : DirectiveFence) (line : Nat) (opening : Text) (body : List Text) (closing : Text)
    (attached : List Text) : PanelSource :=
  { fence, line, opening, body, closing
    items := attached.rdropWhile fun line => !isNumberedItem fence.lead line
    trailing := attached.rtakeWhile fun line => !isNumberedItem fence.lead line }

def options (source : PanelSource) : PanelOptions := PanelOptions.parse source.fence.options

def language (source : PanelSource) : Text := source.options.effectiveLanguage source.fence.language

def copied (source : PanelSource) : List Text := source.body ++ [source.closing]

def wrapper (source : PanelSource) : Text :=
  source.fence.lead ++ "<div class=\"".toList ++ source.options.classes ++
    "\" markdown=\"1\"><div class=\"typst-source\" markdown=\"1\">".toList

def bareOpening (source : PanelSource) : Text :=
  Text.replaceAll source.fence.directive [] source.opening

def divider (source : PanelSource) : Text := source.fence.lead ++ "</div><div class=\"preview\">".toList

def ending (source : PanelSource) : Text := source.fence.lead ++ "</div></div>".toList

def nestedOpening (source : PanelSource) : Text :=
  source.fence.lead ++ source.fence.marker ++ previewTag ++
    ' ' :: source.options.attributes source.language

/-- Items with the empty line that ends their list. -/
def itemLines (source : PanelSource) : List Text :=
  if source.items.isEmpty then [] else source.items ++ [[]]

/-- The panel with `inner` for its preview. -/
def around (source : PanelSource) (inner : List Text) : List Text :=
  source.wrapper :: source.bareOpening :: source.copied ++ source.itemLines ++
    source.divider :: inner ++ source.ending :: source.trailing

def written (source : PanelSource) : List Text := source.around (source.nestedOpening :: source.copied)

def record (source : PanelSource) : PreviewBlock :=
  { line := source.line
    language := source.language
    vertical := source.options.vertical
    attributes := source.options.attributes source.language
    items := source.items.length }

end PanelSource

inductive Passage where
  | plain (line : Nat) (content : Text)
  | panel (source : PanelSource)
deriving DecidableEq, Repr

/-- Passages in order, up to the first fence that is never closed. -/
structure Layout where
  passages : List Passage
  unterminated : Option ScanError
deriving DecidableEq, Repr

namespace Segment

theorem splitAtClosing?_parts (closes : Text → Bool) (content body after : List Text) (closing : Text)
    (found : splitAtClosing? closes content = some (body, closing, after)) :
    content = body ++ closing :: after ∧ (∀ line ∈ body, closes line = false) ∧ closes closing = true := by
  induction content generalizing body with
  | nil => simp [splitAtClosing?] at found
  | cons line rest ih =>
      simp only [splitAtClosing?] at found
      split at found
      · rename_i closed
        simp only [Option.some.injEq, Prod.mk.injEq] at found
        obtain ⟨rfl, rfl, rfl⟩ := found
        exact ⟨rfl, by simp, closed⟩
      · rename_i continues
        split at found
        · rename_i inner last tail split
          simp only [Option.some.injEq, Prod.mk.injEq] at found
          obtain ⟨rfl, rfl, rfl⟩ := found
          obtain ⟨parts, unclosed, closed⟩ := ih inner split
          refine ⟨by rw [parts, List.cons_append], ?_, closed⟩
          intro other member
          rcases List.mem_cons.mp member with rfl | later
          · simpa using continues
          · exact unclosed other later
        · simp at found

theorem splitAtClosing?_append (closes : Text → Bool) (body after : List Text) (closing : Text)
    (continues : ∀ line ∈ body, closes line = false) (closed : closes closing = true) :
    splitAtClosing? closes (body ++ closing :: after) = some (body, closing, after) := by
  induction body with
  | nil => simp [splitAtClosing?, closed]
  | cons line rest ih =>
      have later := ih fun other member => continues other (List.mem_cons_of_mem _ member)
      simp [splitAtClosing?, continues line (by simp), later]

theorem splitAtClosing?_append_of_continues (closes : Text → Bool) (front back : List Text)
    (continues : ∀ line ∈ front, closes line = false) :
    splitAtClosing? closes (front ++ back) =
      (splitAtClosing? closes back).map fun parts => (front ++ parts.1, parts.2) := by
  induction front with
  | nil => simp
  | cons line rest ih =>
      have later := ih fun other member => continues other (List.mem_cons_of_mem _ member)
      rw [List.cons_append, splitAtClosing?, if_neg (by simp [continues line List.mem_cons_self]), later]
      cases splitAtClosing? closes back <;> rfl

end Segment

namespace PanelSource

structure Sound (source : PanelSource) : Prop where
  opens : DirectiveFence.parse? source.opening = some source.fence
  continues : ∀ line ∈ source.body, source.fence.closes line = false
  closed : source.fence.closes source.closing = true
  attached : ∀ line ∈ source.items ++ source.trailing, attaches source.fence.lead line = true

end PanelSource

def Passage.own : Passage → List Text
  | .plain _ content => [content]
  | .panel source => source.opening :: source.copied ++ (source.items ++ source.trailing)

namespace Layout

def push (passage : Passage) (layout : Layout) : Layout :=
  { layout with passages := passage :: layout.passages }

def read (line : Nat) : List Text → Layout
  | [] => ⟨[], none⟩
  | opening :: rest =>
      match DirectiveFence.parse? opening with
      | none => (read (line + 1) rest).push (.plain line opening)
      | some fence =>
          match _found : Segment.splitAtClosing? fence.closes rest with
          | none => ⟨[], some (.unterminatedFence line fence.marker)⟩
          | some (body, closing, after) =>
              let attached := after.takeWhile (attaches fence.lead)
              (read (line + body.length + 2 + attached.length) (after.dropWhile (attaches fence.lead))).push
                (.panel (.gather fence line opening body closing attached))
termination_by content => content.length
decreasing_by
  all_goals simp_wf
  all_goals
    have size := Segment.splitAtClosing?_length _ _ _ _ _ _found
    have shorter := (List.dropWhile_suffix (l := after) (attaches fence.lead)).length_le
    omega

theorem read_plain (line : Nat) (content : Text) (rest : List Text)
    (plain : DirectiveFence.parse? content = none) :
    read line (content :: rest) = (read (line + 1) rest).push (.plain line content) := by
  rw [read]
  simp [plain]

theorem read_unterminated (line : Nat) (opening : Text) (rest : List Text) (fence : DirectiveFence)
    (opens : DirectiveFence.parse? opening = some fence)
    (missing : Segment.splitAtClosing? fence.closes rest = none) :
    read line (opening :: rest) = ⟨[], some (.unterminatedFence line fence.marker)⟩ := by
  rw [read]
  simp only [opens]
  split
  · rfl
  · rename_i found
    simp [missing] at found

theorem read_panel (line : Nat) (opening : Text) (rest : List Text) (fence : DirectiveFence)
    (body after : List Text) (closing : Text) (opens : DirectiveFence.parse? opening = some fence)
    (found : Segment.splitAtClosing? fence.closes rest = some (body, closing, after)) :
    read line (opening :: rest) =
      (read (line + body.length + 2 + (after.takeWhile (attaches fence.lead)).length)
        (after.dropWhile (attaches fence.lead))).push
          (.panel (PanelSource.gather fence line opening body closing
            (after.takeWhile (attaches fence.lead)))) := by
  rw [read]
  simp only [opens]
  split
  · rename_i missing
    simp [found] at missing
  · rename_i other
    simp only [found, Option.some.injEq, Prod.mk.injEq] at other
    obtain ⟨rfl, rfl, rfl⟩ := other
    rfl

/-- Passages hold the lines they were read from, each once and in order. -/
theorem read_own (line : Nat) (content : List Text) :
    (read line content).passages.flatMap Passage.own <+: content := by
  induction line, content using read.induct with
  | case1 line => simp [read]
  | case2 line opening rest plain ih =>
      rw [read_plain _ _ _ plain]
      exact (List.cons_prefix_cons).mpr ⟨rfl, ih⟩
  | case3 line opening rest fence opens missing =>
      rw [read_unterminated _ _ _ _ opens missing]
      exact List.nil_prefix
  | case4 line opening rest fence opens body closing after found attached ih =>
      rw [read_panel _ _ _ _ _ _ _ opens found]
      have parts := (Segment.splitAtClosing?_parts _ _ _ _ _ found).1
      have taken : Passage.own (.panel (PanelSource.gather fence line opening body closing attached)) =
          opening :: (body ++ closing :: attached) := by
        simp [Passage.own, PanelSource.gather, PanelSource.copied, List.rdropWhile_append_rtakeWhile]
      have whole : after = attached ++ after.dropWhile (attaches fence.lead) :=
        List.takeWhile_append_dropWhile.symm
      simp only [push, List.flatMap_cons]
      rw [taken, parts, List.cons_append, List.cons_prefix_cons, List.append_assoc, List.prefix_append_right_inj,
        List.cons_append, List.cons_prefix_cons]
      refine ⟨rfl, rfl, ?_⟩
      have extended := (List.prefix_append_right_inj attached).mpr ih
      rw [← whole] at extended
      exact extended

theorem mem_of_mem_own (line : Nat) (content : List Text) (passage : Passage) (taken : Text)
    (member : passage ∈ (read line content).passages) (inside : taken ∈ passage.own) : taken ∈ content :=
  (read_own line content).subset (List.mem_flatMap.mpr ⟨passage, member, inside⟩)

def panels (layout : Layout) : List PanelSource :=
  layout.passages.filterMap fun passage =>
    match passage with
    | .plain _ _ => none
    | .panel source => some source

theorem read_sound (line : Nat) (content : List Text) (source : PanelSource)
    (member : source ∈ (read line content).panels) : source.Sound := by
  induction line, content using read.induct with
  | case1 line => simp [read, panels] at member
  | case2 line opening rest plain ih =>
      rw [read_plain _ _ _ plain] at member
      exact ih member
  | case3 line opening rest fence opens missing =>
      rw [read_unterminated _ _ _ _ opens missing] at member
      simp [panels] at member
  | case4 line opening rest fence opens body closing after found attached ih =>
      rw [read_panel _ _ _ _ _ _ _ opens found] at member
      rcases List.mem_cons.mp member with rfl | later
      · obtain ⟨_, continues, closed⟩ := Segment.splitAtClosing?_parts _ _ _ _ _ found
        refine ⟨opens, continues, closed, ?_⟩
        simp only [PanelSource.gather, List.rdropWhile_append_rtakeWhile]
        exact fun _ => List.mem_takeWhile_imp
      · exact ih later

end Layout

/-- What plain lines become while an example of line `openExample` is open, if one is. -/
structure Emission where
  lines : List Text
  warnings : List ScanWarning
deriving DecidableEq, Repr

namespace Emission

/-- The example that is open after a plain line, what is written for the line, and the warnings
it causes. -/
def ofPlain (openExample : Option Nat) (line : Nat) (content : Text) :
    Option Nat × Text × List ScanWarning :=
  match Example.opening? (Text.trim content) with
  | some title =>
      (some line, Example.openTag title, openExample.toList.map (ScanWarning.nestedExample line))
  | none =>
      if openExample.isSome && Example.isClosing (Text.trim content) then (none, Example.closeTag, [])
      else (openExample, content, [])

def ofPassages (openExample : Option Nat) : List Passage → Emission
  | [] => ⟨[], openExample.toList.map ScanWarning.unclosedExample⟩
  | .plain line content :: rest =>
      let (openAfter, written, warned) := ofPlain openExample line content
      let later := ofPassages openAfter rest
      ⟨written :: later.lines, warned ++ later.warnings⟩
  | .panel source :: rest =>
      let later := ofPassages openExample rest
      ⟨source.written ++ later.lines, later.warnings⟩

end Emission

theorem mem_blankLine (line : Text) (blank : isBlankLine line = true) (character : Char)
    (member : character ∈ line) :
    Text.isIndent character = true ∨ character = '\r' ∨ character = '\n' := by
  let lineEnd := fun character : Char => decide (character = '\r') || decide (character = '\n')
  have parts := Text.trimEndWhile_append_tail lineEnd line
  rw [← parts, List.mem_append, List.mem_reverse] at member
  rcases member with kept | cut
  · exact .inl (List.all_eq_true.mp blank character kept)
  · have dropped := List.mem_takeWhile_imp cut
    simpa [lineEnd] using Or.inr dropped

theorem isNumberedItem_eq_false_of_blank (lead line : Text) (blank : isBlankLine line = true) :
    isNumberedItem lead line = false := by
  rw [Bool.eq_false_iff]
  intro numbered
  simp only [isNumberedItem] at numbered
  split at numbered
  · rename_i first rest stripped
    have shape := (Text.stripStart?_eq_some_iff _ _ _).mp stripped
    have allowed := mem_blankLine line blank first (by simp [shape])
    rcases allowed with indent | rfl | rfl
    · simp only [Text.isIndent, Bool.or_eq_true, decide_eq_true_eq] at indent
      rcases indent with rfl | rfl <;> simp at numbered
    · simp at numbered
    · simp at numbered
  · simp at numbered

namespace Scanner

def scanFrom (scanner : Scanner) (lineNumber : Nat) (content : List Text) :
    Scanner × Except ScanError (List Text) :=
  let (fed, written) := scanner.feedAll lineNumber content
  let (done, ending) := fed.finish
  (done, ending.map (written ++ ·))

def after (written : List Text) (result : Scanner × Except ScanError (List Text)) :
    Scanner × Except ScanError (List Text) :=
  (result.1, result.2.map (written ++ ·))

@[simp] theorem after_nil (result : Scanner × Except ScanError (List Text)) : after [] result = result := by
  cases result with
  | mk scanner outcome => cases outcome <;> simp [after, Except.map]

theorem after_after (first second : List Text) (result : Scanner × Except ScanError (List Text)) :
    after first (after second result) = after (first ++ second) result := by
  cases result with
  | mk scanner outcome => cases outcome <;> simp [after, Except.map]

theorem scanFrom_cons (scanner : Scanner) (lineNumber : Nat) (line : Text) (rest : List Text) :
    scanner.scanFrom lineNumber (line :: rest) =
      after (scanner.feed lineNumber line).2
        ((scanner.feed lineNumber line).1.scanFrom (lineNumber + 1) rest) := by
  simp only [scanFrom, feedAll, after]
  generalize (scanner.feed lineNumber line).1.feedAll (lineNumber + 1) rest = later
  cases (later.1.finish).2 <;> simp [Except.map]

theorem scanFrom_inBody_closed (scanner : Scanner) (panel : OpenPanel) (closing : Text)
    (body later : List Text) (lineNumber : Nat) (content : List Text)
    (found : Segment.splitAtClosing? panel.fence.closes content = some (body, closing, later)) :
    scanFrom { scanner with phase := .inBody panel } lineNumber content =
      after (body ++ [closing])
        (scanFrom
          { scanner with
            phase := .afterBody { panel with body := panel.body ++ body ++ [closing] } [] [] }
          (lineNumber + body.length + 1) later) := by
  induction content generalizing panel body lineNumber with
  | nil => simp [Segment.splitAtClosing?] at found
  | cons line rest ih =>
      rw [scanFrom_cons]
      simp only [Segment.splitAtClosing?] at found
      split at found
      · rename_i closes
        simp only [Option.some.injEq, Prod.mk.injEq] at found
        obtain ⟨rfl, rfl, rfl⟩ := found
        simp [feed, closes]
      · rename_i continues
        split at found
        · rename_i inner last tail split
          simp only [Option.some.injEq, Prod.mk.injEq] at found
          obtain ⟨rfl, rfl, rfl⟩ := found
          have step := ih { panel with body := panel.body ++ [line] } inner (lineNumber + 1) split
          simp only [feed, continues]
          simp only [Bool.false_eq_true, if_false, step, after_after, List.length_cons]
          simp [Nat.add_assoc, Nat.add_comm 1]
        · simp at found

theorem scanFrom_inBody_open (scanner : Scanner) (panel : OpenPanel) (lineNumber : Nat)
    (content : List Text) (missing : Segment.splitAtClosing? panel.fence.closes content = none) :
    scanFrom { scanner with phase := .inBody panel } lineNumber content =
      (⟨.outside, none, scanner.warnings ++ scanner.openExample.toList.map .unclosedExample,
          scanner.previews⟩,
        .error (.unterminatedFence panel.block.line panel.fence.marker)) := by
  induction content generalizing panel lineNumber with
  | nil => simp [scanFrom, feedAll, finish, Except.map]
  | cons line rest ih =>
      rw [scanFrom_cons]
      simp only [Segment.splitAtClosing?] at missing
      split at missing
      · simp at missing
      · rename_i continues
        split at missing
        · simp at missing
        · rename_i split
          have step := ih { panel with body := panel.body ++ [line] } (lineNumber + 1) split
          simp only [feed, continues]
          simp [step, after, Except.map]

/-- Attached lines are held back. What is held is cut after the last item. -/
theorem scanFrom_afterBody_attached (scanner : Scanner) (panel : OpenPanel) (lineNumber : Nat)
    (attached later : List Text)
    (all : ∀ line ∈ attached, attaches panel.fence.lead line = true) :
    scanFrom { scanner with phase := .afterBody panel [] [] } lineNumber (attached ++ later) =
      scanFrom
        { scanner with
          phase := .afterBody panel
            (attached.rdropWhile fun line => !isNumberedItem panel.fence.lead line)
            (attached.rtakeWhile fun line => !isNumberedItem panel.fence.lead line) }
        (lineNumber + attached.length) later := by
  induction attached using List.reverseRecOn generalizing later with
  | nil => simp
  | append_singleton front line ih =>
      have held := ih (line :: later) (fun other member => all other (by simp [member]))
      rw [List.append_assoc, List.singleton_append, held, scanFrom_cons]
      have kind := all line (by simp)
      simp only [attaches, Bool.or_eq_true] at kind
      by_cases blank : isBlankLine line = true
      · have unnumbered := isNumberedItem_eq_false_of_blank panel.fence.lead line blank
        simp [feed, blank, unnumbered, Nat.add_assoc]
      · have numbered := kind.resolve_left blank
        simp [feed, blank, numbered, Nat.add_assoc, List.rdropWhile_append_rtakeWhile]

/-- A line that is not attached, or the end of the input, completes the panel. -/
theorem scanFrom_afterBody_detached (scanner : Scanner) (panel : OpenPanel) (items held : List Text)
    (lineNumber : Nat) (content : List Text)
    (detached : ∀ line ∈ content.head?, attaches panel.fence.lead line = false) :
    scanFrom { scanner with phase := .afterBody panel items held } lineNumber content =
      after (panel.footer items held)
        (scanFrom
          { scanner with
            phase := .outside
            previews := scanner.previews ++ [{ panel.block with items := items.length }] }
          lineNumber content) := by
  cases content with
  | nil => simp [scanFrom, feedAll, finish, closePanel, after, Except.map]
  | cons line rest =>
      have kind := detached line (by simp)
      simp only [attaches, Bool.or_eq_false_iff] at kind
      rw [scanFrom_cons, scanFrom_cons, after_after]
      simp [feed, kind.1, kind.2, closePanel]

/-- What a scanner that stands outside any fence makes of lines with a given layout. -/
def ofLayout (openExample : Option Nat) (warnings : List ScanWarning) (previews : List PreviewBlock)
    (layout : Layout) : Scanner × Except ScanError (List Text) :=
  let emission := Emission.ofPassages openExample layout.passages
  (⟨.outside, none, warnings ++ emission.warnings,
      previews ++ layout.panels.map PanelSource.record⟩,
    match layout.unterminated with
    | none => .ok emission.lines
    | some error => .error error)

theorem after_ofLayout_plain (openExample : Option Nat) (warnings : List ScanWarning)
    (previews : List PreviewBlock) (line : Nat) (content : Text) (layout : Layout) :
    ofLayout openExample warnings previews (layout.push (.plain line content)) =
      after [(Emission.ofPlain openExample line content).2.1]
        (ofLayout (Emission.ofPlain openExample line content).1
          (warnings ++ (Emission.ofPlain openExample line content).2.2) previews layout) := by
  cases h : layout.unterminated <;>
    simp [ofLayout, Layout.push, Layout.panels, Emission.ofPassages, after, h, Except.map]

theorem after_ofLayout_panel (openExample : Option Nat) (warnings : List ScanWarning)
    (previews : List PreviewBlock) (source : PanelSource) (layout : Layout) :
    ofLayout openExample warnings previews (layout.push (.panel source)) =
      after source.written (ofLayout openExample warnings (previews ++ [source.record]) layout) := by
  cases h : layout.unterminated <;>
    simp [ofLayout, Layout.push, Layout.panels, Emission.ofPassages, after, h, Except.map]

theorem feedOutside_plain (openExample : Option Nat) (warnings : List ScanWarning)
    (previews : List PreviewBlock) (lineNumber : Nat) (line : Text)
    (plain : DirectiveFence.parse? line = none) :
    feedOutside ⟨.outside, openExample, warnings, previews⟩ lineNumber line =
      (⟨.outside, (Emission.ofPlain openExample lineNumber line).1,
          warnings ++ (Emission.ofPlain openExample lineNumber line).2.2, previews⟩,
        [(Emission.ofPlain openExample lineNumber line).2.1]) := by
  simp only [feedOutside, plain, Emission.ofPlain]
  cases opened : Example.opening? (Text.trim line) with
  | some title => rfl
  | none =>
      by_cases closes : (openExample.isSome && Example.isClosing (Text.trim line)) = true
      · simp [closes]
      · simp [closes]

/-- From the line after an opening one to the last line attached to its fence. -/
theorem scanFrom_start_closed (openExample : Option Nat) (warnings : List ScanWarning)
    (previews : List PreviewBlock) (fence : DirectiveFence) (lineNumber : Nat)
    (opening closing : Text) (rest body later : List Text)
    (found : Segment.splitAtClosing? fence.closes rest = some (body, closing, later)) :
    let attached := later.takeWhile (attaches fence.lead)
    let source := PanelSource.gather fence lineNumber opening body closing attached
    after (OpenPanel.header fence opening)
        (scanFrom ⟨.inBody (OpenPanel.start fence lineNumber), openExample, warnings, previews⟩
          (lineNumber + 1) rest) =
      after source.written
        (scanFrom ⟨.outside, openExample, warnings, previews ++ [source.record]⟩
          (lineNumber + body.length + 2 + attached.length)
          (later.dropWhile (attaches fence.lead))) := by
  intro attached source
  let panel := { OpenPanel.start fence lineNumber with body := body ++ [closing] }
  have copied := scanFrom_inBody_closed ⟨.outside, openExample, warnings, previews⟩
    (OpenPanel.start fence lineNumber) closing body later (lineNumber + 1) rest found
  have held := scanFrom_afterBody_attached ⟨.outside, openExample, warnings, previews⟩ panel
    (lineNumber + 1 + body.length + 1) attached (later.dropWhile (attaches fence.lead))
    (fun _ => List.mem_takeWhile_imp)
  have detached : ∀ next ∈ (later.dropWhile (attaches fence.lead)).head?,
      attaches panel.fence.lead next = false :=
    eq_false_of_head?_dropWhile (attaches fence.lead) later
  have completed := scanFrom_afterBody_detached ⟨.outside, openExample, warnings, previews⟩ panel
    source.items source.trailing (lineNumber + 1 + body.length + 1 + attached.length)
    (later.dropWhile (attaches fence.lead)) detached
  have place : lineNumber + body.length + 2 + attached.length =
      lineNumber + 1 + body.length + 1 + attached.length := by omega
  have written : source.written =
      OpenPanel.header fence opening ++ (body ++ [closing] ++ panel.footer source.items source.trailing) := by
    simp [PanelSource.written, PanelSource.around, OpenPanel.footer, OpenPanel.header, source, panel,
      PanelSource.gather, PanelSource.wrapper, PanelSource.bareOpening, PanelSource.copied,
      PanelSource.itemLines, PanelSource.divider, PanelSource.ending, PanelSource.options,
      PanelSource.nestedOpening, PanelSource.language, OpenPanel.nestedOpening, OpenPanel.start]
  rw [List.takeWhile_append_dropWhile] at held
  calc
    after (OpenPanel.header fence opening)
        (scanFrom ⟨.inBody (OpenPanel.start fence lineNumber), openExample, warnings, previews⟩
          (lineNumber + 1) rest)
      = after (OpenPanel.header fence opening) (after (body ++ [closing])
          (scanFrom ⟨.afterBody panel [] [], openExample, warnings, previews⟩
            (lineNumber + 1 + body.length + 1) later)) := congrArg _ copied
    _ = after (OpenPanel.header fence opening) (after (body ++ [closing])
          (after (panel.footer source.items source.trailing)
            (scanFrom ⟨.outside, openExample, warnings, previews ++ [source.record]⟩
              (lineNumber + 1 + body.length + 1 + attached.length)
              (later.dropWhile (attaches fence.lead))))) :=
        congrArg _ (congrArg _ (held.trans completed))
    _ = _ := by rw [after_after, after_after, written, place, List.append_assoc]

/-- One pass over the lines writes what the layout says, from any line number and with any example
open. -/
theorem scanFrom_eq_ofLayout (openExample : Option Nat) (warnings : List ScanWarning)
    (previews : List PreviewBlock) (lineNumber : Nat) (content : List Text) :
    scanFrom ⟨.outside, openExample, warnings, previews⟩ lineNumber content =
      ofLayout openExample warnings previews (Layout.read lineNumber content) := by
  induction lineNumber, content using Layout.read.induct generalizing openExample warnings previews with
  | case1 lineNumber =>
      simp [Layout.read, scanFrom, feedAll, finish, ofLayout, Emission.ofPassages, Layout.panels, Except.map]
  | case2 lineNumber line rest plain ih =>
      rw [Layout.read_plain _ _ _ plain, after_ofLayout_plain, scanFrom_cons, feed,
        feedOutside_plain _ _ _ _ _ plain, ih]
  | case3 lineNumber line rest fence opens missing =>
      have copied := scanFrom_inBody_open ⟨.outside, openExample, warnings, previews⟩
        (OpenPanel.start fence lineNumber) (lineNumber + 1) rest missing
      rw [Layout.read_unterminated _ _ _ _ opens missing, scanFrom_cons]
      simp only [feed, feedOutside, opens]
      rw [copied]
      simp [after, ofLayout, Emission.ofPassages, Layout.panels, Except.map, OpenPanel.start]
  | case4 lineNumber line rest fence opens body closing later found attached ih =>
      rw [Layout.read_panel _ _ _ _ _ _ _ opens found, after_ofLayout_panel, ← ih, scanFrom_cons]
      simp only [feed, feedOutside, opens]
      exact scanFrom_start_closed openExample warnings previews fence lineNumber line closing rest
        body later found

theorem scanLines_eq_ofLayout (warnings : List ScanWarning) (previews : List PreviewBlock)
    (content : List Text) :
    scanLines ⟨.outside, none, warnings, previews⟩ content =
      ofLayout none warnings previews (Layout.read 1 content) :=
  scanFrom_eq_ofLayout none warnings previews 1 content

theorem exists_scanLines_eq_ok (scanner : Scanner) (content : List Text)
    (succeeds : (scanner.scanLines content).2.toOption.isSome = true) :
    ∃ out, scanner.scanLines content = ((scanner.scanLines content).1, .ok out) := by
  cases ends : (scanner.scanLines content).2 with
  | error error =>
      rw [ends] at succeeds
      cases succeeds
  | ok out => exact ⟨out, by rw [← ends]⟩

/-- A scanner between two inputs, whatever it has recorded so far, turns the next one into the
panels and plain lines of its layout and records one preview for each panel. Where a fence is
never closed it fails with the line and marker of that fence. -/
theorem scanLines_eq_layout (warnings : List ScanWarning) (previews : List PreviewBlock)
    (content : List Text) :
    let layout := Layout.read 1 content
    let emission := Emission.ofPassages none layout.passages
    scanLines ⟨.outside, none, warnings, previews⟩ content =
      (⟨.outside, none, warnings ++ emission.warnings,
          previews ++ layout.panels.map PanelSource.record⟩,
        match layout.unterminated with
        | none => .ok emission.lines
        | some error => .error error) :=
  scanFrom_eq_ofLayout none warnings previews 1 content

end Scanner

end FencePreview
