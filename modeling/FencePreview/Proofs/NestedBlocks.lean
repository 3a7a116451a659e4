import FencePreview.Proofs.NestedAttributes
import FencePreview.Proofs.PanelLines

/-! How the preview block inside a panel reads. Its opening line is lost where a backtick stands in
an option behind a run of backticks. Its closing line is lost where a carriage return follows
the marker, but then it opens a block of its own. -/

namespace FencePreview

namespace DirectiveFence

theorem newline_not_mem_nestedInfo (line : Text) (fence : DirectiveFence)
    (opens : parse? line = some fence) (oneLine : '\n' ∉ line) : '\n' ∉ fence.nestedInfo := by
  obtain ⟨_, _, known, _, _, _, _, _, _, inside, parts⟩ := parse?_parts line fence opens
  intro member
  rw [nestedInfo, List.mem_append, List.mem_cons, PanelOptions.attributes_eq, List.mem_append,
    List.mem_flatMap] at member
  rcases member with inTag | isSpace | ⟨token, passed, stands⟩ | inLanguage
  · exact absurd inTag (by decide)
  · exact absurd isSpace (by decide)
  · rcases List.mem_append.mp stands with inToken | isSpace
    · have found := ((PanelOptions.mem_passthrough _ _).mp passed).1
      have read := Text.mem_of_mem_tokensFrom _ _ _ _ _ found '\n' inToken
      refine oneLine ?_
      rw [parts]
      simp [inside _ (read.resolve_left List.not_mem_nil)]
    · exact absurd isSpace (by decide)
  · revert inLanguage
    rcases effectiveLanguage_known fence known with tag | tag | tag <;> rw [tag] <;> decide

theorem backtick_mem_nestedInfo (fence : DirectiveFence)
    (known : fence.language = codeTag ∨ fence.language = markupTag) :
    backtick ∈ fence.nestedInfo ↔ ∃ token ∈ fence.panelOptions.passthrough, backtick ∈ token := by
  have outsideTag : backtick ∉ previewTag := by decide
  have outsideLanguage : backtick ∉ PanelOptions.languageToken fence.effectiveLanguage := by
    rcases effectiveLanguage_known fence known with tag | tag | tag <;> rw [tag] <;> decide
  have notSpace : backtick ≠ ' ' := by decide
  simp [nestedInfo, PanelOptions.attributes_eq, outsideTag, outsideLanguage, notSpace]

/-- The info text ends with a quote, and no equals sign precedes it. -/
theorem nestedInfo_ends (fence : DirectiveFence)
    (known : fence.language = codeTag ∨ fence.language = markupTag) :
    ∃ front last, fence.nestedInfo = front ++ [last] ++ ['"'] ∧ last ≠ '=' := by
  have ends : ∃ front last, fence.effectiveLanguage = front ++ [last] ∧ last ≠ '=' := by
    rcases effectiveLanguage_known fence known with tag | tag | tag
    · exact ⟨"typst-01-to-0".toList, '2', tag, by decide⟩
    · exact ⟨"typst-cod".toList, 'e', tag, by decide⟩
    · exact ⟨"typs".toList, 't', tag, by decide⟩
  obtain ⟨front, last, parts, other⟩ := ends
  refine ⟨previewTag ++ ' ' :: ((fence.panelOptions.passthrough.flatMap fun token => token ++ [' ']) ++
    ("lang=\"".toList ++ front)), last, ?_, other⟩
  have options := PanelOptions.attributes_eq fence.panelOptions fence.effectiveLanguage
  unfold PanelOptions.languageToken at options
  rw [parts] at options
  simp only [nestedInfo, parts, options, List.append_assoc, List.cons_append, List.nil_append]

/-- The closing line of a fence opens a block where it stands by itself. -/
theorem parse?_of_closes (opening line : Text) (fence : DirectiveFence)
    (opens : parse? opening = some fence) (closed : fence.closes line = true) (oneLine : '\n' ∉ line) :
    ∃ rest, line = fence.lead ++ (fence.marker ++ rest) ∧ rest.head? ≠ fence.marker.head? ∧
      CodeFence.parse? line = some { lead := fence.lead, marker := fence.marker, info := [] } := by
  obtain ⟨leads, shape, _⟩ := parse?_parts opening fence opens
  obtain ⟨mark, marks, first, _⟩ := shape.head
  simp only [closes] at closed
  split at closed
  · rename_i rest stripped
    have parts := (Text.stripStart?_eq_some_iff _ _ _).mp stripped
    rw [List.append_assoc] at parts
    have white : ∀ character ∈ rest, Text.isWhite character = true := by
      intro character member
      rcases mem_blankLine rest closed character member with indent | rfl | rfl
      · exact Text.isWhite_of_isIndent character indent
      · decide
      · decide
    have stops : rest.head? ≠ fence.marker.head? := by
      intro same
      rw [first] at same
      have blankMark := white mark (List.mem_of_mem_head? same)
      revert blankMark
      simp only [isMark, Bool.or_eq_true, decide_eq_true_eq] at marks
      rcases marks with rfl | rfl <;> decide
    have empty : Text.trimEnd (rest.dropWhile Text.isIndent) = [] :=
      Text.trimEndWhile_eq_nil _ _ fun character member =>
        white character ((List.dropWhile_sublist _).subset member)
    refine ⟨rest, parts, stops, ?_⟩
    rw [parts] at oneLine ⊢
    rw [CodeFence.parse?_append _ _ _ leads shape stops oneLine, empty, if_neg (by simp)]
  · simp at closed

theorem isPreview_of_nestedInfo (fence : DirectiveFence) (block : CodeFence)
    (nested : block.info = fence.nestedInfo) : block.isPreview = true := by
  have visible : previewTag.all fun character => !Text.isWhite character := by decide
  have word : Text.firstWord? fence.nestedInfo = some previewTag :=
    Text.firstWord?_append previewTag _ ' ' (by decide) (by simpa using visible) (by decide)
  simp [CodeFence.isPreview, nested, word]

end DirectiveFence

namespace PanelSource

def legible (source : PanelSource) : Bool :=
  !(source.fence.marker.head? = some backtick &&
    source.options.passthrough.any fun token => backtick ∈ token)

def block (source : PanelSource) : CodeFence :=
  { lead := source.fence.lead
    marker := source.fence.marker
    info := source.fence.nestedInfo }

theorem nestedOpening_eq (source : PanelSource) :
    source.nestedOpening = source.fence.lead ++ (source.fence.marker ++ source.fence.nestedInfo) := by
  simp only [nestedOpening, DirectiveFence.nestedInfo, List.append_assoc]
  rfl

theorem isPreview_block (source : PanelSource) : source.block.isPreview = true :=
  source.fence.isPreview_of_nestedInfo source.block rfl

/-- Lines that the fence does not end at do not end the nested block. -/
theorem block_continues (source : PanelSource) (line : Text) (continues : source.fence.closes line = false) :
    source.block.closes line = false := by
  rw [Bool.eq_false_iff] at continues ⊢
  intro closed
  refine continues ?_
  simp only [CodeFence.closes] at closed
  split at closed
  · rename_i rest found
    obtain ⟨inner, stripped, run⟩ := Option.bind_eq_some_iff.mp found
    simp only [CodeFence.afterClosingRun?, isPreview_block, if_true] at run
    have lineParts := (Text.stripStart?_eq_some_iff _ _ _).mp stripped
    have innerParts := (Text.stripStart?_eq_some_iff _ _ _).mp run
    have parts : line = source.fence.lead ++ source.fence.marker ++ rest := by
      rw [lineParts, innerParts, List.append_assoc]
      rfl
    rw [DirectiveFence.closes, parts, Text.stripStart?_append]
    refine List.all_eq_true.mpr fun character member => ?_
    exact List.all_eq_true.mp closed character (Text.mem_of_mem_trimEndWhile _ _ _ member)
  · simp at closed

variable (source : PanelSource) (sound : source.Sound)

include sound

theorem newline_not_mem_nestedOpening (oneLine : '\n' ∉ source.opening) : '\n' ∉ source.nestedOpening := by
  rw [nestedOpening_eq, List.mem_append, List.mem_append, not_or, not_or]
  exact ⟨newline_not_mem_lead _ sound.leads, newline_not_mem_marker _ sound.marker,
    DirectiveFence.newline_not_mem_nestedInfo _ _ sound.opens oneLine⟩

/-- White space after the nested opening changes nothing. -/
theorem parse?_nestedOpening (oneLine : '\n' ∉ source.opening) (tail : Text)
    (white : ∀ character ∈ tail, Text.isWhite character = true) (tailOneLine : '\n' ∉ tail) :
    CodeFence.parse? (source.nestedOpening ++ tail) =
      if source.legible then some source.block else none := by
  obtain ⟨mark, marks, first, _⟩ := sound.marker.head
  have stops : (source.fence.nestedInfo ++ tail).head? ≠ source.fence.marker.head? := by
    rw [first]
    intro same
    have head : (source.fence.nestedInfo ++ tail).head? = some 't' := rfl
    rw [head, Option.some.injEq] at same
    rw [← same] at marks
    exact absurd marks (by decide)
  have kept : (source.fence.nestedInfo ++ tail).dropWhile Text.isIndent = source.fence.nestedInfo ++ tail :=
    rfl
  have trimmed : Text.trimEnd (source.fence.nestedInfo ++ tail) = source.fence.nestedInfo := by
    obtain ⟨front, last, parts, _⟩ := DirectiveFence.nestedInfo_ends _ sound.language
    rw [Text.trimEnd, Text.trimEndWhile_append_dropped _ _ _ white, parts]
    exact Text.trimEndWhile_eq_self _ _ '"' (by decide)
  have whole : '\n' ∉ source.fence.lead ++ (source.fence.marker ++ (source.fence.nestedInfo ++ tail)) := by
    have opening := newline_not_mem_nestedOpening source sound oneLine
    rw [nestedOpening_eq] at opening
    simp only [List.mem_append, not_or] at opening ⊢
    exact ⟨opening.1, opening.2.1, opening.2.2, tailOneLine⟩
  rw [nestedOpening_eq, List.append_assoc, List.append_assoc,
    CodeFence.parse?_append _ _ _ sound.leads sound.marker stops whole, kept, trimmed]
  have lost : (source.fence.marker.head? = some backtick ∧ backtick ∈ source.fence.nestedInfo) ↔
      source.legible = false := by
    rw [DirectiveFence.backtick_mem_nestedInfo _ sound.language]
    simp [legible, options, DirectiveFence.panelOptions]
  by_cases readable : source.legible = true
  · rw [if_neg (by rw [lost, readable]; decide), if_pos readable]
    rfl
  · rw [if_pos (by rw [lost]; simpa using readable), if_neg readable]

theorem opensPreview_nestedOpening (oneLine : '\n' ∉ source.opening) (tail : Text)
    (white : ∀ character ∈ tail, Text.isWhite character = true) (tailOneLine : '\n' ∉ tail) :
    opensPreview (source.nestedOpening ++ tail) = source.legible := by
  rw [opensPreview, parse?_nestedOpening source sound oneLine tail white tailOneLine]
  cases readable : source.legible with
  | false => rfl
  | true => simpa using isPreview_block source

/-- The closing line ends the nested block, or else opens a block that is no preview. -/
theorem closing_cases (oneLine : '\n' ∉ source.closing) :
    source.block.closes source.closing = true ∨
      isClosable source.closing = false ∧
        ∃ opened, CodeFence.parse? source.closing = some opened ∧ opened.isPreview = false := by
  obtain ⟨rest, parts, stops, parsed⟩ :=
    DirectiveFence.parse?_of_closes _ _ _ sound.opens sound.closed oneLine
  cases indented : rest.all Text.isIndent with
  | true =>
      left
      have afterLead : Text.stripStart? source.block.lead source.closing =
          some (source.fence.marker ++ rest) := by
        rw [parts]
        exact Text.stripStart?_append _ _
      have afterMarker : source.block.afterClosingRun? (source.fence.marker ++ rest) = some rest := by
        simp only [CodeFence.afterClosingRun?, isPreview_block, if_true]
        exact Text.stripStart?_append _ _
      simp only [CodeFence.closes, afterLead, Option.bind_some, afterMarker, indented]
  | false =>
      right
      refine ⟨?_, _, parsed, CodeFence.isPreview_eq_false_of_info_nil _ rfl⟩
      rw [parts, isClosable_append _ _ _ sound.leads sound.marker stops, indented]

end PanelSource

end FencePreview
