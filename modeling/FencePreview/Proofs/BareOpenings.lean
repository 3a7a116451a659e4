import FencePreview.Proofs.PanelLines

/-! The opening line of a source as the panel shows it. All copies of its directive are cut out in one
pass; a directive with other options stays, and so does one that the cut puts together. -/

namespace FencePreview

namespace Text

def firstLine (text : Text) : Text := text.takeWhile (· ≠ '\n')

theorem infix_firstLine_append_iff (needle front back : Text) (start : Char)
    (starts : needle.head? = some start)
    (absent : ∀ character ∈ front, character ≠ start ∧ character ≠ '\n') :
    needle <:+: firstLine (front ++ back) ↔ needle <:+: firstLine back := by
  have whole : firstLine (front ++ back) = front ++ firstLine back :=
    List.takeWhile_append_of_pos fun character member => by simpa using (absent character member).2
  rw [whole, infix_append_iff_of_absent needle front _ start starts fun member => (absent start member).1 rfl]

end Text

theorem languageTag?_append (language tail : Text) (blank : Char)
    (known : language = codeTag ∨ language = markupTag) (indent : Text.isIndent blank = true) :
    languageTag? (language ++ blank :: tail) = some (language, tail.dropWhile Text.isIndent) := by
  have own := Text.stripStart?_append language (blank :: tail)
  have dropped : (blank :: tail).dropWhile Text.isIndent = tail.dropWhile Text.isIndent :=
    List.dropWhile_cons_of_pos indent
  rcases known with rfl | rfl
  · simp only [languageTag?, List.filterMap_cons, own, Option.map_some, indent, if_true, dropped]
  · have other : Text.stripStart? codeTag (markupTag ++ blank :: tail) = none := by
      refine Option.eq_none_iff_forall_ne_some.mpr fun rest found => ?_
      have whole := (Text.stripStart?_eq_some_iff _ _ _).mp found
      have dash : codeTag ++ rest = markupTag ++ '-' :: ("code".toList ++ rest) := rfl
      rw [dash, List.append_cancel_left_eq] at whole
      rw [(List.cons.inj whole).1] at indent
      exact absurd indent (by decide)
    simp only [languageTag?, List.filterMap_cons, List.filterMap_nil, other, own, Option.map_some,
      Option.map_none, indent, if_true, dropped]

theorem directiveIn?_isSome_iff (text : Text) :
    (directiveIn? text).isSome = true ↔ directiveName <:+: Text.firstLine text := by
  rw [directiveIn?, Option.isSome_map, Text.splitLast?_isSome_iff _ _ (by decide)]
  rfl

namespace DirectiveFence

/-- What decides a line with a marker and a language tag is what follows them. -/
theorem parse?_append (lead marker gap language tail : Text) (blank : Char)
    (leads : ∀ character ∈ lead, isLead character = true) (shape : IsMarker marker)
    (gapIndent : ∀ character ∈ gap, Text.isIndent character = true)
    (known : language = codeTag ∨ language = markupTag) (indent : Text.isIndent blank = true) :
    parse? (lead ++ (marker ++ (gap ++ (language ++ blank :: tail)))) =
      (directiveIn? (tail.dropWhile Text.isIndent)).map fun (directive, options) =>
        { lead, marker, language, directive, options } := by
  have notLead := shape.not_isLead marker (gap ++ (language ++ blank :: tail))
  have stops := head?_ne_of_tag marker gap language (blank :: tail) shape gapIndent known
  have dropped : (gap ++ (language ++ blank :: tail)).dropWhile Text.isIndent = language ++ blank :: tail := by
    refine Text.dropWhile_append_stop _ _ _ gapIndent ?_
    rcases known with rfl | rfl <;> exact fun character begins => by cases begins; decide
  simp only [parse?, withoutLead_append lead _ leads notLead, leadOf_append lead _ leads notLead,
    markerRun?_append marker _ shape stops, dropped, languageTag?_append language tail blank known indent,
    Option.bind_eq_bind, Option.bind_some]
  cases directiveIn? (tail.dropWhile Text.isIndent) <;> rfl

/-- The panel shows the opening line of its source without the copies of the directive. It opens a fence
still exactly when a directive is left on its first line, which takes a plus sign outside of the
copies. -/
theorem parse?_bare (line : Text) (fence : DirectiveFence) (opens : parse? line = some fence) :
    ∃ wrapper pieces, OpenPanel.header fence line = [wrapper, pieces.flatten] ∧
      line = Text.joinWith fence.directive pieces ∧ (∀ piece ∈ pieces, ¬fence.directive <:+: piece) ∧
      (parse? pieces.flatten = none ↔ ¬directiveName <:+: Text.firstLine pieces.flatten) ∧
      (∀ again, parse? pieces.flatten = some again →
        again.lead = fence.lead ∧ again.marker = fence.marker ∧ again.language = fence.language) ∧
      ((∀ piece ∈ pieces, '+' ∉ piece) → parse? pieces.flatten = none) := by
  obtain ⟨leads, shape, known, plus, _⟩ := parse?_parts line fence opens
  have filled : fence.directive ≠ [] := by
    intro empty
    simp [empty] at plus
  obtain ⟨first, rest, cut, bare, copyless⟩ := Text.replaceAll_pieces fence.directive line filled
  let pieces := first :: rest
  obtain ⟨gap, blank, tail, gapIndent, indent, _, parts, absent⟩ := bare_parts line fence opens
  let kept := Text.replaceAll fence.directive [] tail
  let front := fence.lead ++ (fence.marker ++ (gap ++ (fence.language ++ [blank])))
  rw [bare] at parts
  have whole : pieces.flatten = front ++ kept := by
    rw [parts]
    simp [front, kept]
  have parsed : parse? pieces.flatten =
      (directiveIn? (kept.dropWhile Text.isIndent)).map fun (directive, options) =>
        { lead := fence.lead, marker := fence.marker, language := fence.language, directive, options } := by
    rw [parts]
    exact parse?_append _ _ _ _ kept _ leads shape gapIndent known indent
  have left : parse? pieces.flatten = none ↔ ¬directiveName <:+: Text.firstLine pieces.flatten := by
    have indents : ∀ character ∈ kept.takeWhile Text.isIndent, character ≠ '+' ∧ character ≠ '\n' := by
      intro character member
      have white := List.mem_takeWhile_imp member
      constructor <;>
        · rintro rfl
          exact absurd white (by decide)
    rw [parsed, Option.map_eq_none_iff, ← Option.not_isSome_iff_eq_none, directiveIn?_isSome_iff, whole,
      Text.infix_firstLine_append_iff _ front kept '+' rfl absent,
      ← Text.infix_firstLine_append_iff _ _ (kept.dropWhile Text.isIndent) '+' rfl indents,
      List.takeWhile_append_dropWhile]
  have shown : ∃ wrapper, OpenPanel.header fence line =
      [wrapper, Text.replaceAll fence.directive [] line] := ⟨_, rfl⟩
  rw [bare] at shown
  obtain ⟨wrapper, header⟩ := shown
  refine ⟨wrapper, pieces, header, cut, copyless, left, ?_, ?_⟩
  · intro again found
    rw [parsed, Option.map_eq_some_iff] at found
    obtain ⟨_, _, rfl⟩ := found
    exact ⟨rfl, rfl, rfl⟩
  · intro lacks
    refine left.mpr fun inside => ?_
    have plusLeft : '+' ∈ pieces.flatten :=
      (List.takeWhile_sublist _).subset (inside.subset (by decide))
    obtain ⟨piece, member, held⟩ := List.mem_flatten.mp plusLeft
    exact lacks piece member held

/-- A second directive with other options is left, and opens a fence again. -/
theorem parse?_bare_second_directive :
    let line := "```typst +preview(a) +preview(b)".toList
    let bare := "```typst +preview(a) ".toList
    ∃ fence wrapper, parse? line = some fence ∧ OpenPanel.header fence line = [wrapper, bare] ∧
      parse? bare ≠ none := by
  intro line bare
  let fence : DirectiveFence :=
    ⟨[], "```".toList, markupTag, "+preview(b)".toList, ['b']⟩
  have opens : parse? line = some fence := by decide +kernel
  have removed : Text.replaceAll fence.directive [] line = bare := by decide +kernel
  have again : directiveName <:+: Text.firstLine bare := by decide +kernel
  obtain ⟨wrapper, pieces, header, _, _, left, _⟩ := parse?_bare line fence opens
  have shown : pieces.flatten = bare := by
    rw [← removed]
    exact (List.singleton_inj.mp (List.cons.inj header).2).symm
  rw [shown] at header left
  exact ⟨fence, wrapper, opens, header, fun closed => left.mp closed again⟩

/-- A directive that stands within another is put together by the cut. -/
example : (parse? (Text.replaceAll directiveName [] "```typst +pre+previewview".toList)).isSome = true := by
  decide +kernel

end DirectiveFence

end FencePreview
