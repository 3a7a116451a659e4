import FencePreview.Proofs.Publication

/-! Tags of examples in a scanned document. The scanner remembers no more than one open example, so an
example that opens in another takes its place. Each tag that nothing closes is one that the
scanner warned about, and markers within the fences of previews are text. -/

namespace FencePreview

namespace Example

/-- How the tag of an opening marker begins, whatever its title. -/
def tagStart : Text := "<details class=\"example\"".toList

def opened (content : List Text) : Nat := content.countP fun line => tagStart.isPrefixOf line

def closed (content : List Text) : Nat := content.count closeTag

def isTag (line : Text) : Bool := tagStart.isPrefixOf line || line = closeTag

theorem isPrefixOf_openTag (title : Text) : tagStart.isPrefixOf (openTag title) = true := by
  have begins : tagStart <+: "<details class=\"example\" markdown=\"1\"><summary>".toList := by decide
  rw [List.isPrefixOf_iff_prefix]
  unfold openTag
  exact begins.trans ((List.prefix_append _ _).trans (List.prefix_append _ _))

theorem openTag_ne_closeTag (title : Text) : openTag title ≠ closeTag := by
  intro same
  have begins := isPrefixOf_openTag title
  rw [same] at begins
  exact absurd begins (by decide)

theorem isTag_eq_false_iff (line : Text) :
    isTag line = false ↔ tagStart.isPrefixOf line = false ∧ line ≠ closeTag := by
  simp [isTag]

theorem isTag_eq_false_of_head? (line : Text) (other : line.head? ≠ some '<') : isTag line = false := by
  rw [isTag_eq_false_iff, Bool.eq_false_iff, ne_eq, List.isPrefixOf_iff_prefix]
  constructor
  · rintro ⟨rest, rfl⟩
    exact other rfl
  · rintro rfl
    exact other rfl

/-- Behind the quote characters of a line there is no tag. -/
theorem isTag_append (lead rest : Text) (leads : ∀ character ∈ lead, isLead character = true)
    (plain : isTag rest = false) : isTag (lead ++ rest) = false := by
  cases lead with
  | nil => exact plain
  | cons first lead =>
      apply isTag_eq_false_of_head?
      intro begins
      have quotes := leads first List.mem_cons_self
      rw [List.cons_append, List.head?_cons, Option.some.injEq] at begins
      rw [begins] at quotes
      exact absurd quotes (by decide)

@[simp] theorem opened_openTag (title : Text) (rest : List Text) :
    opened (openTag title :: rest) = opened rest + 1 := by
  simp [opened, isPrefixOf_openTag]

@[simp] theorem closed_openTag (title : Text) (rest : List Text) :
    closed (openTag title :: rest) = closed rest := by
  simp [closed, openTag_ne_closeTag]

@[simp] theorem opened_closeTag (rest : List Text) : opened (closeTag :: rest) = opened rest := by
  have other : tagStart.isPrefixOf closeTag = false := by decide
  simp [opened, other]

@[simp] theorem closed_closeTag (rest : List Text) : closed (closeTag :: rest) = closed rest + 1 := by
  simp [closed]

theorem opened_append (front rest : List Text) : opened (front ++ rest) = opened front + opened rest :=
  List.countP_append

theorem closed_append (front rest : List Text) : closed (front ++ rest) = closed front + closed rest :=
  List.count_append

theorem opened_eq_zero (content : List Text) (plain : ∀ line ∈ content, isTag line = false) :
    opened content = 0 :=
  List.countP_eq_zero.mpr fun line member => by
    simp [((isTag_eq_false_iff line).mp (plain line member)).1]

theorem closed_eq_zero (content : List Text) (plain : ∀ line ∈ content, isTag line = false) :
    closed content = 0 :=
  List.count_eq_zero.mpr fun member => ((isTag_eq_false_iff _).mp (plain closeTag member)).2 rfl

/-- With `spare` examples open before the lines, none of them closes one that is not open. -/
def Covered (spare : Nat) (content : List Text) : Prop :=
  ∀ front, front <+: content → closed front ≤ opened front + spare

theorem covered_nil (spare : Nat) : Covered spare [] := by
  intro front begins
  rw [List.prefix_nil.mp begins]
  exact Nat.zero_le _

theorem covered_openTag (spare : Nat) (title : Text) (rest : List Text) (later : Covered 1 rest) :
    Covered spare (openTag title :: rest) := by
  intro front begins
  rcases List.prefix_cons_iff.mp begins with rfl | ⟨more, rfl, inside⟩
  · exact Nat.zero_le _
  · have bound := later more inside
    rw [opened_openTag, closed_openTag]
    omega

theorem covered_closeTag (rest : List Text) (later : Covered 0 rest) : Covered 1 (closeTag :: rest) := by
  intro front begins
  rcases List.prefix_cons_iff.mp begins with rfl | ⟨more, rfl, inside⟩
  · exact Nat.zero_le _
  · have bound := later more inside
    rw [opened_closeTag, closed_closeTag]
    omega

theorem covered_append (spare : Nat) (front rest : List Text)
    (plain : ∀ line ∈ front, isTag line = false) (later : Covered spare rest) :
    Covered spare (front ++ rest) := by
  intro part begins
  rcases List.prefix_or_prefix_of_prefix begins (List.prefix_append front rest) with inside | ⟨more, rfl⟩
  · rw [closed_eq_zero part fun line member => plain line (inside.subset member)]
    exact Nat.zero_le _
  · have bound := later more ((List.prefix_append_right_inj front).mp begins)
    rw [opened_append, closed_append, opened_eq_zero front plain, closed_eq_zero front plain]
    omega

end Example

namespace PanelSource

theorem isTag_written (source : PanelSource) (sound : source.Sound)
    (own : ∀ line ∈ (Passage.panel source).own, Example.isTag line = false) :
    ∀ line ∈ source.written, Example.isTag line = false := by
  have fenced : ∀ rest, Example.isTag (source.fence.lead ++ (source.fence.marker ++ rest)) = false := by
    intro rest
    apply Example.isTag_append _ _ sound.leads
    apply Example.isTag_eq_false_of_head?
    obtain ⟨mark, marks, first, _⟩ := sound.marker.head
    rw [List.head?_append, first, Option.some_or]
    rintro ⟨⟩
    exact absurd marks (by decide)
  intro line member
  simp only [written, around, List.cons_append, List.append_assoc, List.mem_cons, List.mem_append] at member
  rcases member with rfl | rfl | copy | item | rfl | rfl | copy | rfl | trails
  · simp only [wrapper, List.append_assoc]
    apply Example.isTag_append _ _ sound.leads
    simp only [PanelOptions.classes]
    split <;> decide
  · obtain ⟨gap, blank, tail, _, _, _, parts⟩ := bareOpening_parts source sound
    rw [parts]
    exact fenced _
  · exact own line (by simp [Passage.own, copy])
  · rcases mem_itemLines source line item with inItems | rfl
    · exact own line (by simp [Passage.own, inItems])
    · decide
  · exact Example.isTag_append _ _ sound.leads (by decide)
  · simp only [nestedOpening, List.append_assoc]
    exact fenced _
  · exact own line (by simp [Passage.own, copy])
  · exact Example.isTag_append _ _ sound.leads (by decide)
  · exact own line (by simp [Passage.own, trails])

end PanelSource

def Passage.isPlain : Passage → Bool
  | plain _ _ => true
  | panel _ => false

namespace Emission

theorem ofPlain_cases (openExample : Option Nat) (line : Nat) (content : Text) :
    (∃ title, ofPlain openExample line content =
        (some line, Example.openTag title, openExample.toList.map (ScanWarning.nestedExample line))) ∨
      (∃ openLine, openExample = some openLine ∧
        ofPlain openExample line content = (none, Example.closeTag, [])) ∨
      ofPlain openExample line content = (openExample, content, []) := by
  cases opens : Example.opening? (Text.trim content) with
  | some title => exact .inl ⟨title, by simp only [ofPlain, opens]⟩
  | none =>
      by_cases closes : (openExample.isSome && Example.isClosing (Text.trim content)) = true
      · rw [Bool.and_eq_true, Option.isSome_iff_exists] at closes
        obtain ⟨⟨openLine, rfl⟩, ends⟩ := closes
        exact .inr (.inl ⟨openLine, rfl, by simp [ofPlain, opens, ends]⟩)
      · exact .inr (.inr (by simp only [ofPlain, opens, if_neg closes]))

section

variable (passages : List Passage) (sound : ∀ source, Passage.panel source ∈ passages → source.Sound)
  (own : ∀ passage ∈ passages, ∀ line ∈ passage.own, Example.isTag line = false)

include sound own

/-- The open example counts as a tag before the lines, and each warning as one that is never closed. -/
theorem balanced_ofPassages (openExample : Option Nat) :
    Example.Covered openExample.toList.length (ofPassages openExample passages).lines ∧
      Example.opened (ofPassages openExample passages).lines + openExample.toList.length =
        Example.closed (ofPassages openExample passages).lines +
          (ofPassages openExample passages).warnings.length := by
  induction passages generalizing openExample with
  | nil => exact ⟨Example.covered_nil _, by simp [ofPassages, Example.opened, Example.closed]⟩
  | cons passage rest ih =>
      have later := ih (fun source member => sound source (List.mem_cons_of_mem _ member))
        (fun other member => own other (List.mem_cons_of_mem _ member))
      cases passage with
      | plain line content =>
          have plain := own _ List.mem_cons_self content (by simp [Passage.own])
          rcases ofPlain_cases openExample line content with ⟨title, step⟩ | ⟨openLine, rfl, step⟩ | step
          · obtain ⟨covered, counted⟩ := later (some line)
            simp only [ofPassages, step]
            refine ⟨Example.covered_openTag _ _ _ covered, ?_⟩
            simp only [Option.toList_some, List.length_singleton] at counted
            simp only [Example.opened_openTag, Example.closed_openTag, List.length_append, List.length_map]
            omega
          · obtain ⟨covered, counted⟩ := later none
            simp only [ofPassages, step]
            refine ⟨Example.covered_closeTag _ covered, ?_⟩
            simp only [Option.toList_none, List.length_nil] at counted
            simp only [Example.opened_closeTag, Example.closed_closeTag, Option.toList_some,
              List.length_singleton, List.nil_append]
            omega
          · obtain ⟨covered, counted⟩ := later openExample
            have alone : ∀ other ∈ [content], Example.isTag other = false := by simpa using plain
            simp only [ofPassages, step]
            rw [← List.singleton_append, Example.opened_append, Example.closed_append,
              Example.opened_eq_zero _ alone, Example.closed_eq_zero _ alone]
            refine ⟨Example.covered_append _ _ _ alone covered, ?_⟩
            simp only [List.nil_append]
            omega
      | panel source =>
          have plain := source.isTag_written (sound source List.mem_cons_self) (own _ List.mem_cons_self)
          obtain ⟨covered, counted⟩ := later openExample
          refine ⟨Example.covered_append _ _ _ plain covered, ?_⟩
          simp only [ofPassages, Example.opened_append, Example.closed_append,
            Example.opened_eq_zero _ plain, Example.closed_eq_zero _ plain]
          omega

/-- What stands in the fences of previews neither writes tags nor takes them away. -/
theorem tags_ofPassages (openExample : Option Nat) :
    (ofPassages openExample passages).lines.filter Example.isTag =
        (ofPassages openExample (passages.filter Passage.isPlain)).lines.filter Example.isTag ∧
      (ofPassages openExample passages).warnings =
        (ofPassages openExample (passages.filter Passage.isPlain)).warnings := by
  induction passages generalizing openExample with
  | nil => exact ⟨rfl, rfl⟩
  | cons passage rest ih =>
      have later := ih (fun source member => sound source (List.mem_cons_of_mem _ member))
        (fun other member => own other (List.mem_cons_of_mem _ member))
      cases passage with
      | plain line content =>
          obtain ⟨tags, warnings⟩ := later (ofPlain openExample line content).1
          rw [List.filter_cons_of_pos (by rfl)]
          simp only [ofPassages, List.filter_cons, tags, warnings, and_self]
      | panel source =>
          obtain ⟨tags, warnings⟩ := later openExample
          have plain := source.isTag_written (sound source List.mem_cons_self) (own _ List.mem_cons_self)
          have none : source.written.filter Example.isTag = [] :=
            List.filter_eq_nil_iff.mpr fun line member => by simp [plain line member]
          rw [List.filter_cons_of_neg (by simp [Passage.isPlain])]
          simp only [ofPassages, List.filter_append, none, List.nil_append, tags, warnings, and_self]

end

/-- A source stands in its panel as it is, and once more as the preview. -/
theorem copied_ofPassages (openExample : Option Nat) (passages : List Passage) (source : PanelSource)
    (member : Passage.panel source ∈ passages) :
    ∃ above between below, (ofPassages openExample passages).lines =
      above ++ (source.copied ++ (between ++ (source.copied ++ below))) := by
  induction passages generalizing openExample with
  | nil => simp at member
  | cons passage rest ih =>
      rcases List.mem_cons.mp member with rfl | inside
      · refine ⟨[source.wrapper, source.bareOpening],
          source.itemLines ++ [source.divider, source.nestedOpening],
          source.ending :: source.trailing ++ (ofPassages openExample rest).lines, ?_⟩
        simp [ofPassages, PanelSource.written, PanelSource.around]
      · cases passage with
        | plain line content =>
            obtain ⟨above, between, below, parts⟩ := ih (ofPlain openExample line content).1 inside
            exact ⟨(ofPlain openExample line content).2.1 :: above, between, below, by
              simp only [ofPassages, parts, List.cons_append]⟩
        | panel other =>
            obtain ⟨above, between, below, parts⟩ := ih openExample inside
            exact ⟨other.written ++ above, between, below, by
              simp only [ofPassages, parts, List.append_assoc]⟩

end Emission

namespace Scanner

/-- The tags of a scanned document are nested properly: none closes an example that is not open, and
as many are never closed as there are new warnings. They are the tags of the lines outside the
fences of previews, whose sources are copied as they are. -/
theorem scanLines_tags (warnings : List ScanWarning) (previews : List PreviewBlock)
    (content out : List Text) (done : Scanner)
    (foreign : ∀ line ∈ content, ¬"<details".toList <+: line ∧ line ≠ Example.closeTag)
    (finished : scanLines ⟨.outside, none, warnings, previews⟩ content = (done, .ok out)) :
    let layout := Layout.read 1 content
    let outside := Emission.ofPassages none (layout.passages.filter Passage.isPlain)
    (∀ front, front <+: out → Example.closed front ≤ Example.opened front) ∧
      (∃ added, done.warnings = warnings ++ added ∧
        Example.opened out = Example.closed out + added.length ∧ added = outside.warnings) ∧
      out.filter Example.isTag = outside.lines.filter Example.isTag ∧
      ∀ source ∈ layout.panels, ∃ above between below,
        out = above ++ (source.copied ++ (between ++ (source.copied ++ below))) := by
  intro layout outside
  rw [scanLines_eq_ofLayout] at finished
  obtain ⟨rfl, lines⟩ := Prod.mk.inj finished
  have written : (Emission.ofPassages none layout.passages).lines = out := by
    cases ends : layout.unterminated with
    | none =>
        rw [ends] at lines
        exact Except.ok.inj lines
    | some error =>
        rw [ends] at lines
        cases lines
  have sound : ∀ source, Passage.panel source ∈ layout.passages → source.Sound := fun source member =>
    Layout.read_sound 1 content source ((Layout.mem_panels _ _).mpr member)
  have untagged : ∀ line ∈ content, Example.isTag line = false := by
    intro line member
    obtain ⟨unopened, unclosed⟩ := foreign line member
    rw [Example.isTag_eq_false_iff, Bool.eq_false_iff, ne_eq, List.isPrefixOf_iff_prefix]
    refine ⟨fun begins => unopened (List.IsPrefix.trans ?_ begins), unclosed⟩
    decide
  have own : ∀ passage ∈ layout.passages, ∀ line ∈ passage.own, Example.isTag line = false :=
    fun passage member line inside => untagged line (Layout.mem_of_mem_own 1 content passage line member inside)
  obtain ⟨covered, counted⟩ := Emission.balanced_ofPassages layout.passages sound own none
  obtain ⟨tags, warned⟩ := Emission.tags_ofPassages layout.passages sound own none
  rw [written] at covered counted tags
  refine ⟨covered, ⟨_, rfl, counted, warned⟩, tags, ?_⟩
  intro source member
  rw [← written]
  exact Emission.copied_ofPassages none layout.passages source ((Layout.mem_panels _ _).mp member)

/-- An example that opens in another, a marker of each kind in a preview, and an example left open. -/
theorem scanLines_tags_nested :
    let content := ["example\x7b".toList, "```typst +preview".toList, "\x7d".toList, "example\x7b".toList,
      "```".toList, "example(A)\x7b".toList, "\x7d".toList, "example\x7b".toList]
    (∀ line ∈ content, ¬"<details".toList <+: line ∧ line ≠ Example.closeTag) ∧
      ∃ done out, scanLines new content = (done, .ok out) ∧
        done.warnings = [.nestedExample 6 1, .unclosedExample 8] ∧
        (∀ front, front <+: out → Example.closed front ≤ Example.opened front) ∧
        Example.opened out = Example.closed out + 2 := by
  intro content
  have foreign : ∀ line ∈ content, ¬"<details".toList <+: line ∧ line ≠ Example.closeTag := by decide
  have outcome : (scanLines new content).1.warnings = [.nestedExample 6 1, .unclosedExample 8] ∧
      (scanLines new content).2.toOption.isSome = true := by decide +kernel
  obtain ⟨warned, succeeds⟩ := outcome
  cases ends : (scanLines new content).2 with
  | error error =>
      rw [ends] at succeeds
      cases succeeds
  | ok out =>
      have finished : scanLines new content = ((scanLines new content).1, .ok out) := by rw [← ends]
      obtain ⟨covered, ⟨added, more, counted, _⟩, _⟩ := scanLines_tags [] [] content out _ foreign finished
      rw [warned, List.nil_append] at more
      rw [← more] at counted
      exact ⟨foreign, (scanLines new content).1, out, finished, warned, covered, counted⟩

end Scanner

end FencePreview
