import FencePreview.Proofs.FenceLines
import FencePreview.Proofs.Layout

/-! How the lines of a panel read as openings and ends of blocks. Of all the lines that the scanner
adds, only the nested opening can open a preview. -/

namespace FencePreview

theorem languageTag?_parts (text language rest : Text)
    (found : languageTag? text = some (language, rest)) :
    (language = codeTag ∨ language = markupTag) ∧
      ∃ blank tail, Text.isIndent blank = true ∧ text = language ++ blank :: tail ∧
        rest = tail.dropWhile Text.isIndent := by
  simp only [languageTag?] at found
  split at found
  · simp at found
  · rename_i tag tail others tagged
    have inside : (tag, tail) ∈ [codeTag, markupTag].filterMap fun tag =>
        (Text.stripStart? tag text).map fun rest => (tag, rest) := by rw [tagged]; simp
    simp only [List.mem_filterMap, Option.map_eq_some_iff, Prod.mk.injEq] at inside
    obtain ⟨known, member, after, stripped, rfl, rfl⟩ := inside
    have parts := (Text.stripStart?_eq_some_iff _ _ _).mp stripped
    split at found
    · simp at found
    · rename_i blank tail
      split at found
      · rename_i indent
        simp only [Option.some.injEq, Prod.mk.injEq] at found
        obtain ⟨rfl, rfl⟩ := found
        refine ⟨by simpa using member, blank, tail, indent, parts, ?_⟩
        simp [indent]
      · simp at found

theorem directiveIn?_parts (text directive options : Text)
    (found : directiveIn? text = some (directive, options)) :
    directive.head? = some '+' ∧ ∀ character ∈ options, character ∈ text := by
  simp only [directiveIn?, Option.map_eq_some_iff] at found
  obtain ⟨⟨before, after⟩, split, shape⟩ := found
  have parts := Text.splitLast?_eq_append _ _ _ _ split
  have whole := List.takeWhile_append_dropWhile (p := fun character => decide (character ≠ '\n'))
    (l := text)
  dsimp only at shape
  split at shape
  · rename_i inner parenthesized
    simp only [Prod.mk.injEq] at shape
    obtain ⟨rfl, rfl⟩ := shape
    refine ⟨rfl, ?_⟩
    intro character member
    have inside : character ∈ after ++ text.dropWhile fun character => decide (character ≠ '\n') := by
      simp only [parenthesized?] at parenthesized
      split at parenthesized
      · rename_i content begins
        split at parenthesized
        · simp only [Option.some.injEq] at parenthesized
          subst parenthesized
          rw [begins]
          exact List.mem_cons_of_mem _ ((List.takeWhile_sublist _).subset member)
        · simp at parenthesized
      · simp at parenthesized
    rw [← whole, parts]
    simp only [List.mem_append] at inside ⊢
    rcases inside with near | far
    · exact .inl (.inr near)
    · exact .inr far
  · simp only [Prod.mk.injEq] at shape
    obtain ⟨rfl, rfl⟩ := shape
    exact ⟨rfl, by simp⟩

/-- A language tag ends a run of marks, with blanks before it or without. -/
theorem head?_ne_of_tag (marker gap language rest : Text) (shape : IsMarker marker)
    (gapIndent : ∀ character ∈ gap, Text.isIndent character = true)
    (known : language = codeTag ∨ language = markupTag) :
    (gap ++ (language ++ rest)).head? ≠ marker.head? := by
  obtain ⟨mark, marks, first, _⟩ := shape.head
  intro same
  rw [first] at same
  cases gap with
  | nil =>
      have letter : ([] ++ (language ++ rest)).head? = some 't' := by
        rcases known with rfl | rfl <;> rfl
      rw [letter, Option.some.injEq] at same
      rw [← same] at marks
      exact absurd marks (by decide)
  | cons blank gap =>
      have indent := gapIndent blank List.mem_cons_self
      simp only [List.cons_append, List.head?_cons, Option.some.injEq] at same
      rw [same, isMark_not_isIndent mark marks] at indent
      exact Bool.false_ne_true indent

namespace DirectiveFence

theorem parse?_parts (line : Text) (fence : DirectiveFence) (opens : parse? line = some fence) :
    (∀ character ∈ fence.lead, isLead character = true) ∧ IsMarker fence.marker ∧
      (fence.language = codeTag ∨ fence.language = markupTag) ∧ fence.directive.head? = some '+' ∧
      ∃ gap blank tail, (∀ character ∈ gap, Text.isIndent character = true) ∧
        Text.isIndent blank = true ∧ (∀ character ∈ fence.options, character ∈ tail) ∧
        line = fence.lead ++ (fence.marker ++ (gap ++ (fence.language ++ blank :: tail))) := by
  simp only [parse?, Option.bind_eq_bind, Option.bind_eq_some_iff, Option.some.injEq, Prod.exists] at opens
  obtain ⟨marker, rest, run, language, after, tagged, directive, options, found, rfl⟩ := opens
  obtain ⟨shape, _, restParts⟩ := markerRun?_parts _ _ _ run
  obtain ⟨known, blank, tail, indent, tagParts, rfl⟩ := languageTag?_parts _ _ _ tagged
  obtain ⟨plus, inside⟩ := directiveIn?_parts _ _ _ found
  have line_eq : line = leadOf line ++ (marker ++
      (rest.takeWhile Text.isIndent ++ (language ++ blank :: tail))) := by
    rw [← tagParts, List.takeWhile_append_dropWhile, ← restParts, leadOf_append_withoutLead]
  exact ⟨isLead_of_mem_leadOf line, shape, known, plus, _, blank, tail,
    fun _ => List.mem_takeWhile_imp, indent,
    fun character member => (List.dropWhile_sublist Text.isIndent).subset (inside character member), line_eq⟩

/-- Cutting the directive out of an opening line keeps everything up to the blank after the language
tag. -/
theorem bare_parts (line : Text) (fence : DirectiveFence) (opens : parse? line = some fence) :
    ∃ gap blank tail, (∀ character ∈ gap, Text.isIndent character = true) ∧
      Text.isIndent blank = true ∧
      line = fence.lead ++ (fence.marker ++ (gap ++ (fence.language ++ blank :: tail))) ∧
      Text.replaceAll fence.directive [] line = fence.lead ++
        (fence.marker ++ (gap ++ (fence.language ++ blank :: Text.replaceAll fence.directive [] tail))) ∧
      ∀ character ∈ fence.lead ++ (fence.marker ++ (gap ++ (fence.language ++ [blank]))),
        character ≠ '+' ∧ character ≠ '\n' := by
  obtain ⟨leads, marker, language, plus, gap, blank, tail, gapIndent, blankIndent, _, parts⟩ :=
    parse?_parts _ _ opens
  let front := fence.lead ++ (fence.marker ++ (gap ++ (fence.language ++ [blank])))
  have whole : line = front ++ tail := by
    rw [parts]
    simp [front]
  have indented : ∀ character, Text.isIndent character = true → character ≠ '+' ∧ character ≠ '\n' := by
    intro character indent
    constructor <;>
      · rintro rfl
        exact absurd indent (by decide)
  have absent : ∀ character ∈ front, character ≠ '+' ∧ character ≠ '\n' := by
    intro character member
    simp only [front, List.mem_append, List.mem_singleton] at member
    rcases member with inLead | inMarker | inGap | inLanguage | rfl
    · constructor <;>
        · rintro rfl
          exact absurd (leads _ inLead) (by decide)
    · constructor <;>
        · rintro rfl
          exact absurd (marker.isMark_of_mem _ _ inMarker) (by decide)
    · exact indented character (gapIndent character inGap)
    · have tagged : '+' ∉ fence.language ∧ '\n' ∉ fence.language := by
        rcases language with same | same <;>
          · rw [same]
            decide
      exact ⟨fun same => tagged.1 (same ▸ inLanguage), fun same => tagged.2 (same ▸ inLanguage)⟩
    · exact indented character blankIndent
  refine ⟨gap, blank, tail, gapIndent, blankIndent, parts, ?_, absent⟩
  rw [Text.replaceAll, whole,
    Text.replaceFrom_front _ _ _ _ '+' plus fun member => (absent '+' member).1 rfl]
  simp [front, Text.replaceAll]

end DirectiveFence

/-- A line that opens no preview, in one piece. -/
def Inert (line : Text) : Prop := opensPreview line = false ∧ '\n' ∉ line

theorem inert_of_isUnfenced (line : Text) (unfenced : isUnfenced line = true) (oneLine : '\n' ∉ line) :
    Inert line :=
  ⟨opensPreview_eq_false_of_isUnfenced line unfenced, oneLine⟩

theorem newline_not_mem_lead (lead : Text) (leads : ∀ character ∈ lead, isLead character = true) :
    '\n' ∉ lead := fun member => absurd (leads _ member) (by decide)

theorem newline_not_mem_marker (marker : Text) (shape : IsMarker marker) : '\n' ∉ marker :=
  fun member => absurd (shape.isMark_of_mem _ _ member) (by decide)

theorem isUnfenced_tag (lead rest : Text) (leads : ∀ character ∈ lead, isLead character = true) :
    isUnfenced (lead ++ '<' :: rest) = true :=
  isUnfenced_append lead rest '<' leads (by decide) (by decide)

theorem isUnfenced_of_attaches (lead line : Text) (leads : ∀ character ∈ lead, isLead character = true)
    (attached : attaches lead line = true) : isUnfenced line = true := by
  simp only [attaches, Bool.or_eq_true] at attached
  rcases attached with blank | numbered
  · refine isUnfenced_of_no_mark line fun character member => ?_
    rcases mem_blankLine line blank character member with indent | rfl | rfl
    · rw [Bool.eq_false_iff]
      intro marks
      rw [isMark_not_isIndent character marks] at indent
      exact Bool.false_ne_true indent
    · decide
    · decide
  · simp only [isNumberedItem] at numbered
    split at numbered
    · rename_i first rest stripped
      rw [(Text.stripStart?_eq_some_iff _ _ _).mp stripped]
      have plain : isLead first = false ∧ isMark first = false := by
        constructor <;>
          · rw [Bool.eq_false_iff]
            intro kind
            simp only [isLead, isMark, Text.isIndent, Bool.or_eq_true, decide_eq_true_eq] at kind
            rcases kind with rfl | rfl | rfl <;> exact absurd numbered (by decide)
      exact isUnfenced_append lead rest first leads plain.1 plain.2
    · simp at numbered

namespace PanelSource

variable (source : PanelSource) (sound : source.Sound)

include sound

theorem Sound.leads : ∀ character ∈ source.fence.lead, isLead character = true :=
  (DirectiveFence.parse?_parts _ _ sound.opens).1

theorem Sound.marker : IsMarker source.fence.marker :=
  (DirectiveFence.parse?_parts _ _ sound.opens).2.1

theorem Sound.language :
    source.fence.language = codeTag ∨ source.fence.language = markupTag :=
  (DirectiveFence.parse?_parts _ _ sound.opens).2.2.1

theorem isUnfenced_wrapper : isUnfenced source.wrapper = true := by
  have shape : source.wrapper = source.fence.lead ++ '<' :: ("div class=\"".toList ++
      (source.options.classes ++ "\" markdown=\"1\"><div class=\"typst-source\" markdown=\"1\">".toList)) := by
    simp only [wrapper, List.append_assoc]
    rfl
  rw [shape]
  exact isUnfenced_tag _ _ sound.leads

theorem inert_wrapper : Inert source.wrapper := by
  have classes : '\n' ∉ source.options.classes := by
    simp only [PanelOptions.classes]
    split <;> decide
  refine inert_of_isUnfenced _ (isUnfenced_wrapper source sound) ?_
  simp only [wrapper, List.mem_append, not_or]
  exact ⟨⟨⟨newline_not_mem_lead _ sound.leads, by decide⟩, classes⟩, by decide⟩

theorem isUnfenced_divider : isUnfenced source.divider = true :=
  isUnfenced_tag source.fence.lead "/div><div class=\"preview\">".toList sound.leads

theorem inert_divider : Inert source.divider := by
  refine inert_of_isUnfenced _ (isUnfenced_divider source sound) ?_
  simp only [divider, List.mem_append, not_or]
  exact ⟨newline_not_mem_lead _ sound.leads, by decide⟩

theorem isUnfenced_ending : isUnfenced source.ending = true :=
  isUnfenced_tag source.fence.lead "/div></div>".toList sound.leads

theorem inert_ending : Inert source.ending := by
  refine inert_of_isUnfenced _ (isUnfenced_ending source sound) ?_
  simp only [ending, List.mem_append, not_or]
  exact ⟨newline_not_mem_lead _ sound.leads, by decide⟩

/-- The opening line of the source without its directive keeps everything up to the blank after its
language tag, and adds nothing. -/
theorem bareOpening_parts :
    ∃ gap blank tail, (∀ character ∈ gap, Text.isIndent character = true) ∧
      Text.isIndent blank = true ∧
      (∃ whole, (∀ character ∈ tail, character ∈ whole) ∧
        source.opening = source.fence.lead ++
          (source.fence.marker ++ (gap ++ (source.fence.language ++ blank :: whole)))) ∧
      source.bareOpening = source.fence.lead ++
        (source.fence.marker ++ (gap ++ (source.fence.language ++ blank :: tail))) := by
  obtain ⟨gap, blank, whole, gapIndent, blankIndent, parts, bare, _⟩ :=
    DirectiveFence.bare_parts _ _ sound.opens
  exact ⟨gap, blank, _, gapIndent, blankIndent,
    ⟨whole, Text.mem_of_mem_replaceFrom _ _ _, parts⟩, bare⟩

/-- The opening line of the source opens a block in the language of the fence, unless a backtick
follows a run of backticks. -/
theorem parse?_bareOpening (oneLine : '\n' ∉ source.opening) :
    ∃ info, Text.firstWord? info = some source.fence.language ∧
      (∀ rest, source.opening = source.fence.lead ++ (source.fence.marker ++ rest) →
        ∀ character ∈ info, character ∈ rest) ∧
      CodeFence.parse? source.bareOpening =
        if source.fence.marker.head? = some backtick ∧ backtick ∈ info then none
        else some { lead := source.fence.lead, marker := source.fence.marker, info } := by
  have kept : '\n' ∉ source.bareOpening := fun member =>
    oneLine (Text.mem_of_mem_replaceFrom _ _ _ _ member)
  obtain ⟨gap, blank, tail, gapIndent, blankIndent, ⟨whole, inside, opening⟩, parts⟩ :=
    bareOpening_parts source sound
  have filled : source.fence.language ≠ [] := by
    rcases sound.language with tag | tag <;> rw [tag] <;> decide
  have allVisible : source.fence.language.all fun character => !Text.isWhite character := by
    rcases sound.language with tag | tag <;> rw [tag] <;> decide
  have visible : ∀ character ∈ source.fence.language, Text.isWhite character = false := by
    simpa using allVisible
  have notIndent : ∀ character ∈ (source.fence.language ++ blank :: tail).head?,
      Text.isIndent character = false := by
    intro character first
    rw [List.head?_append_of_ne_nil _ filled] at first
    have solid := visible character (List.mem_of_mem_head? first)
    rw [Bool.eq_false_iff]
    intro indent
    rw [Text.isWhite_of_isIndent character indent] at solid
    exact Bool.false_ne_true solid.symm
  have stops := head?_ne_of_tag _ gap _ (blank :: tail) sound.marker gapIndent sound.language
  refine ⟨Text.trimEnd ((gap ++ (source.fence.language ++ blank :: tail)).dropWhile Text.isIndent),
    ?_, ?_, ?_⟩
  · rw [Text.dropWhile_append_stop Text.isIndent _ _ gapIndent notIndent, Text.firstWord?_trimEnd,
      Text.firstWord?_append _ _ _ filled visible (Text.isWhite_of_isIndent blank blankIndent)]
  · intro rest whole character member
    rw [opening, List.append_cancel_left_eq, List.append_cancel_left_eq] at whole
    rw [← whole]
    have kept := (List.dropWhile_sublist _).subset (Text.mem_of_mem_trimEndWhile _ _ _ member)
    simp only [List.mem_append, List.mem_cons] at kept ⊢
    exact kept.imp_right (Or.imp_right (Or.imp_right (inside character)))
  · rw [parts] at kept ⊢
    exact CodeFence.parse?_append _ _ _ sound.leads sound.marker stops kept

theorem isPreview_bareOpening (info : Text) (word : Text.firstWord? info = some source.fence.language) :
    CodeFence.isPreview { lead := source.fence.lead, marker := source.fence.marker, info } = false := by
  have different : source.fence.language ≠ previewTag := by
    rcases sound.language with tag | tag <;> rw [tag] <;> decide
  simp [CodeFence.isPreview, word, different]

theorem inert_bareOpening (oneLine : '\n' ∉ source.opening) : Inert source.bareOpening := by
  obtain ⟨info, word, _, parsed⟩ := parse?_bareOpening source sound oneLine
  refine ⟨?_, fun member => oneLine (Text.mem_of_mem_replaceFrom _ _ _ _ member)⟩
  rw [opensPreview, parsed]
  split
  · rfl
  · exact isPreview_bareOpening source sound info word

end PanelSource

end FencePreview
