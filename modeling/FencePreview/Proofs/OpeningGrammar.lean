import FencePreview.Proofs.BareOpenings

/-! The grammar of lines that open a panel. Reading goes from left to right and never back, and still finds
every line of the grammar: each part ends where the next one has to begin, and the directive is the
last one that starts on the line, whatever stands around it. -/

namespace FencePreview

namespace Text

/-- No copy of `needle` starts after more than `place` characters. -/
def NoneAfter (needle text : Text) (place : Nat) : Prop :=
  ∀ front back, text = front ++ (needle ++ back) → front.length ≤ place

theorem noneAfter_append_iff (needle front text : Text) (place : Nat) :
    NoneAfter needle (front ++ text) (front.length + place) ↔ NoneAfter needle text place := by
  constructor
  · intro none before back parts
    have bound := none (front ++ before) back (by rw [parts, List.append_assoc])
    rw [List.length_append] at bound
    omega
  · intro none before back parts
    rcases List.append_eq_append_iff.mp parts with ⟨more, rfl, tail⟩ | ⟨more, rfl, _⟩
    · have bound := none more back tail
      rw [List.length_append]
      omega
    · rw [List.length_append]
      omega

theorem noneAfter_of_splitLast? (needle text before after : Text) (filled : needle ≠ [])
    (found : splitLast? needle text = some (before, after)) : NoneAfter needle text before.length := by
  induction text generalizing before with
  | nil => simp [splitLast?] at found
  | cons character rest ih =>
      intro front back parts
      cases front with
      | nil => exact Nat.zero_le _
      | cons first front =>
          have tail : rest = front ++ (needle ++ back) := (List.cons.inj parts).2
          have later : (splitLast? needle rest).isSome = true :=
            (splitLast?_isSome_iff needle rest filled).mpr ⟨front, back, by rw [tail, List.append_assoc]⟩
          obtain ⟨⟨inner, remaining⟩, split⟩ := Option.isSome_iff_exists.mp later
          simp only [splitLast?, split, Option.some.injEq, Prod.mk.injEq] at found
          obtain ⟨rfl, rfl⟩ := found
          have bound := ih inner split front back tail
          simp only [List.length_cons]
          omega

/-- Two places that no copy follows are one place. -/
theorem splitLast?_eq_some_iff (needle text before after : Text) (filled : needle ≠ []) :
    splitLast? needle text = some (before, after) ↔
      text = before ++ (needle ++ after) ∧ NoneAfter needle text before.length := by
  constructor
  · intro found
    refine ⟨?_, noneAfter_of_splitLast? needle text before after filled found⟩
    rw [splitLast?_eq_append needle text before after found, List.append_assoc]
  · rintro ⟨parts, none⟩
    have there : (splitLast? needle text).isSome = true :=
      (splitLast?_isSome_iff needle text filled).mpr ⟨before, after, by rw [parts, List.append_assoc]⟩
    obtain ⟨⟨front, back⟩, found⟩ := Option.isSome_iff_exists.mp there
    have whole : text = front ++ (needle ++ back) := by
      rw [splitLast?_eq_append needle text front back found, List.append_assoc]
    have upper := none front back whole
    have lower := noneAfter_of_splitLast? needle text front back filled found before after parts
    obtain ⟨rfl, same⟩ := List.append_inj (parts.symm.trans whole) (by omega)
    rw [List.append_cancel_left_eq] at same
    rw [found, same]

theorem differs_of_absent (needle : Char) (text : Text) (absent : needle ∉ text) :
    ∀ character ∈ text, decide (character ≠ needle) = true := by
  intro character member
  rw [decide_eq_true_eq]
  rintro rfl
  exact absent member

end Text

theorem parenthesized?_eq_some_iff (text options : Text) :
    parenthesized? text = some options ↔
      ')' ∉ options ∧ ∃ rest, text = '(' :: (options ++ ')' :: rest) := by
  have cut : ∀ front rest : Text, ')' ∉ front →
      (front ++ ')' :: rest).takeWhile (fun character => decide (character ≠ ')')) = front :=
    fun front rest absent => Text.takeWhile_append_stop _ front (')' :: rest)
      (Text.differs_of_absent ')' front absent) (by simp)
  constructor
  · intro found
    simp only [parenthesized?] at found
    split at found
    · rename_i inner
      split at found
      · rename_i closed
        obtain ⟨front, rest, rfl, absent⟩ := List.eq_append_cons_of_mem closed
        rw [cut front rest absent, Option.some.injEq] at found
        subst found
        exact ⟨absent, rest, rfl⟩
      · simp at found
    · simp at found
  · rintro ⟨absent, rest, rfl⟩
    have closed : ')' ∈ options ++ ')' :: rest := by simp
    simp only [parenthesized?, if_pos closed, cut options rest absent]

/-- `IsDirective directive options rest`: where `rest` follows, a directive is written `directive` and has
these options. They reach to the first closing parenthesis. -/
inductive IsDirective : Text → Text → Text → Prop
  | bare (rest : Text) (unclosed : ∀ inner, rest = '(' :: inner → ')' ∉ inner) :
      IsDirective directiveName [] rest
  | closed (options rest : Text) (first : ')' ∉ options) :
      IsDirective (directiveName ++ '(' :: options ++ [')']) options rest

namespace IsDirective

theorem name (directive options rest : Text) (shape : IsDirective directive options rest) :
    ∃ more, directive ++ rest = directiveName ++ more := by
  cases shape with
  | bare _ unclosed => exact ⟨rest, rfl⟩
  | closed _ _ first => exact ⟨'(' :: options ++ [')'] ++ rest, by simp only [List.append_assoc]⟩

end IsDirective

/-- What is read as the directive of a line. -/
theorem directiveIn?_eq_some_iff (text directive options : Text) (oneLine : '\n' ∉ text) :
    directiveIn? text = some (directive, options) ↔
      ∃ before rest, text = before ++ (directive ++ rest) ∧ IsDirective directive options rest ∧
        Text.NoneAfter directiveName text before.length := by
  have onLine := Text.differs_of_absent '\n' text oneLine
  have line := List.takeWhile_eq_self_iff.mpr onLine
  have later := List.dropWhile_eq_nil_iff.mpr onLine
  have filled : directiveName ≠ [] := by decide
  simp only [directiveIn?, line, later, List.append_nil, Option.map_eq_some_iff, Prod.exists,
    Text.splitLast?_eq_some_iff _ _ _ _ filled]
  constructor
  · rintro ⟨before, after, ⟨parts, last⟩, read⟩
    split at read
    · rename_i inner found
      obtain ⟨absent, rest, rfl⟩ := (parenthesized?_eq_some_iff _ _).mp found
      cases read
      exact ⟨before, rest, by rw [parts]; simp, .closed options rest absent, last⟩
    · rename_i missing
      cases read
      refine ⟨before, after, parts, .bare after ?_, last⟩
      intro inner begins member
      obtain ⟨front, rest, rfl, absent⟩ := List.eq_append_cons_of_mem member
      have found := (parenthesized?_eq_some_iff after front).mpr ⟨absent, rest, begins⟩
      rw [missing] at found
      cases found
  · rintro ⟨before, rest, parts, shape, last⟩
    cases shape with
    | bare _ unclosed =>
        refine ⟨before, rest, ⟨parts, last⟩, ?_⟩
        cases found : parenthesized? rest with
        | none => rfl
        | some inner =>
            obtain ⟨_, tail, begins⟩ := (parenthesized?_eq_some_iff _ _).mp found
            exact absurd (List.mem_append_right inner List.mem_cons_self) (unclosed _ begins)
    | closed _ _ first =>
        have found := (parenthesized?_eq_some_iff ('(' :: (options ++ ')' :: rest)) options).mpr
          ⟨first, rest, rfl⟩
        refine ⟨before, '(' :: (options ++ ')' :: rest), ⟨by rw [parts]; simp, last⟩, ?_⟩
        rw [found]

/-- An opening line taken apart: what its fence keeps, and what stands between and after. -/
structure OpeningLine where
  fence : DirectiveFence
  /-- From the marker to the language tag. -/
  gap : Text
  /-- Right after the tag. -/
  blanks : Text
  /-- From the blanks to the directive. -/
  before : Text
  /-- Behind the directive. -/
  rest : Text

namespace OpeningLine

variable (parts : OpeningLine)

/-- What stands before the directive. -/
def front : Text :=
  parts.fence.lead ++ (parts.fence.marker ++
    (parts.gap ++ (parts.fence.language ++ (parts.blanks ++ parts.before))))

def text : Text := parts.front ++ (parts.fence.directive ++ parts.rest)

def afterMarker : Text :=
  parts.gap ++ (parts.fence.language ++
    (parts.blanks ++ (parts.before ++ (parts.fence.directive ++ parts.rest))))

theorem text_eq : parts.text = parts.fence.lead ++ (parts.fence.marker ++ parts.afterMarker) := by
  simp only [text, front, afterMarker, List.append_assoc]

/-- The grammar of opening lines. Lead and marker are as long as they can be, and no directive starts
behind the one that counts. -/
structure Grammatical : Prop where
  lead : ∀ character ∈ parts.fence.lead, isLead character = true
  leadEnds : ∀ character ∈ (parts.fence.marker ++ parts.afterMarker).head?, isLead character = false
  marker : IsMarker parts.fence.marker
  markerEnds : parts.afterMarker.head? ≠ parts.fence.marker.head?
  gap : ∀ character ∈ parts.gap, Text.isIndent character = true
  language : parts.fence.language = codeTag ∨ parts.fence.language = markupTag
  blanksFilled : parts.blanks ≠ []
  blanks : ∀ character ∈ parts.blanks, Text.isIndent character = true
  directive : IsDirective parts.fence.directive parts.fence.options parts.rest
  last : Text.NoneAfter directiveName parts.text parts.front.length

end OpeningLine

namespace DirectiveFence

theorem parse?_of_grammatical (parts : OpeningLine) (shape : parts.Grammatical)
    (oneLine : '\n' ∉ parts.text) : parse? parts.text = some parts.fence := by
  obtain ⟨blank, more, blanks⟩ := List.exists_cons_of_ne_nil shape.blanksFilled
  have indents := shape.blanks
  rw [blanks] at indents
  let directive := parts.fence.directive ++ parts.rest
  have plus : directive.dropWhile Text.isIndent = directive := by
    obtain ⟨rest, begins⟩ := shape.directive.name
    simp only [directive, begins]
    rfl
  -- The blanks that are left out of the tag may reach into the text before the directive.
  obtain ⟨passed, kept, whole, dropped⟩ : ∃ passed kept, more ++ parts.before = passed ++ kept ∧
      (more ++ (parts.before ++ directive)).dropWhile Text.isIndent = kept ++ directive := by
    refine ⟨_, _, (List.takeWhile_append_dropWhile (p := Text.isIndent)).symm, ?_⟩
    rw [← List.append_assoc, List.dropWhile_append, plus]
    split
    · rename_i empty
      rw [List.isEmpty_iff.mp empty, List.nil_append]
    · rfl
  let before := parts.fence.lead ++ (parts.fence.marker ++
    (parts.gap ++ (parts.fence.language ++ (blank :: passed))))
  have front : parts.front = before ++ kept := by
    simp only [OpeningLine.front, before, blanks, List.cons_append, List.append_assoc, ← whole]
  have text : parts.text = before ++ (kept ++ directive) := by
    rw [OpeningLine.text, front, List.append_assoc]
  have last : Text.NoneAfter directiveName (kept ++ directive) kept.length := by
    have placed := shape.last
    rw [text, front, List.length_append] at placed
    exact (Text.noneAfter_append_iff _ before _ _).mp placed
  have oneLineKept : '\n' ∉ kept ++ directive := fun member =>
    oneLine (by rw [text]; exact List.mem_append_right _ member)
  have found : directiveIn? (kept ++ directive) = some (parts.fence.directive, parts.fence.options) :=
    (directiveIn?_eq_some_iff _ _ _ oneLineKept).mpr ⟨kept, parts.rest, rfl, shape.directive, last⟩
  have read := parse?_append parts.fence.lead parts.fence.marker parts.gap parts.fence.language
    (more ++ (parts.before ++ directive)) blank shape.lead shape.marker shape.gap shape.language
    (indents blank List.mem_cons_self)
  rw [dropped, found] at read
  rw [parts.text_eq, OpeningLine.afterMarker, blanks]
  exact read

theorem grammatical_of_parse? (line : Text) (fence : DirectiveFence) (oneLine : '\n' ∉ line)
    (opens : parse? line = some fence) :
    ∃ parts : OpeningLine, parts.Grammatical ∧ parts.text = line ∧ parts.fence = fence := by
  obtain ⟨leads, shape, known, _, gap, blank, tail, gapIndent, indent, _, whole⟩ :=
    parse?_parts line fence opens
  rw [whole, parse?_append _ _ _ _ tail blank leads shape gapIndent known indent,
    Option.map_eq_some_iff] at opens
  obtain ⟨⟨directive, options⟩, found, rebuilt⟩ := opens
  have indented := List.takeWhile_append_dropWhile (p := Text.isIndent) (l := tail)
  have oneLineTail : '\n' ∉ tail.dropWhile Text.isIndent := by
    intro member
    have inTail := (List.dropWhile_sublist Text.isIndent).subset member
    rw [whole] at oneLine
    simp only [List.mem_append, List.mem_cons, not_or] at oneLine
    exact oneLine.2.2.2.2.2 inTail
  obtain ⟨before, rest, kept, reads, last⟩ := (directiveIn?_eq_some_iff _ _ _ oneLineTail).mp found
  let parts : OpeningLine := ⟨fence, gap, blank :: tail.takeWhile Text.isIndent, before, rest⟩
  have same : fence.directive = directive ∧ fence.options = options := by
    rw [← rebuilt]
    exact ⟨rfl, rfl⟩
  let passed := fence.lead ++ (fence.marker ++
    (gap ++ (fence.language ++ (blank :: tail.takeWhile Text.isIndent))))
  have front : parts.front = passed ++ before := by
    simp only [OpeningLine.front, parts, passed, List.cons_append, List.append_assoc]
  have text : parts.text = line := by
    rw [OpeningLine.text, front, whole, same.1, List.append_assoc, ← kept]
    simp only [passed, List.cons_append, List.append_assoc, indented]
  refine ⟨parts, ?_, text, rfl⟩
  constructor
  · exact leads
  · exact shape.not_isLead _ _
  · exact shape
  · exact head?_ne_of_tag _ _ _ _ shape gapIndent known
  · exact gapIndent
  · exact known
  · exact List.cons_ne_nil _ _
  · exact List.forall_mem_cons.mpr ⟨indent, fun _ => List.mem_takeWhile_imp⟩
  · rw [same.1, same.2]
    exact reads
  · rw [OpeningLine.text, front, List.append_assoc, List.length_append, same.1, ← kept]
    exact (Text.noneAfter_append_iff _ passed _ _).mpr last

end DirectiveFence

/-- The directive that counts stands at one place only. -/
theorem OpeningLine.front_eq (first second : OpeningLine) (shape : first.Grammatical)
    (other : second.Grammatical) (same : first.text = second.text) :
    first.front = second.front ∧
      first.fence.directive ++ first.rest = second.fence.directive ++ second.rest := by
  obtain ⟨firstMore, firstName⟩ := shape.directive.name
  obtain ⟨secondMore, secondName⟩ := other.directive.name
  have upper := other.last first.front firstMore (by rw [← same, text, firstName])
  have lower := shape.last second.front secondMore (by rw [same, text, secondName])
  exact List.append_inj same (by omega)

theorem OpeningLine.gap_eq (first second : OpeningLine) (shape : first.Grammatical)
    (other : second.Grammatical) (same : first.afterMarker = second.afterMarker) :
    first.gap = second.gap := by
  have run : ∀ parts : OpeningLine, parts.Grammatical →
      parts.afterMarker.takeWhile Text.isIndent = parts.gap := by
    intro parts grammatical
    refine Text.takeWhile_append_stop _ _ _ grammatical.gap ?_
    rcases grammatical.language with tag | tag <;>
      · rw [tag]
        intro character begins
        cases begins
        decide
  rw [← run first shape, ← run second other, same]

namespace DirectiveFence

/-- A line opens a panel exactly if the grammar has a reading of it, and the fence is the one of that
reading. Two readings of a line differ only in how much of the blanks behind the language tag they
count to the text before the directive. -/
theorem parse?_eq_some_iff_grammatical (line : Text) (oneLine : '\n' ∉ line) :
    (∀ fence, parse? line = some fence ↔
      ∃ parts : OpeningLine, parts.Grammatical ∧ parts.text = line ∧ parts.fence = fence) ∧
    ∀ first second : OpeningLine, first.Grammatical → second.Grammatical →
      first.text = line → second.text = line →
        first.fence = second.fence ∧ first.gap = second.gap ∧
          first.blanks ++ first.before = second.blanks ++ second.before ∧ first.rest = second.rest := by
  constructor
  · intro fence
    constructor
    · exact grammatical_of_parse? line fence oneLine
    · rintro ⟨parts, shape, rfl, rfl⟩
      exact parse?_of_grammatical parts shape oneLine
  · intro first second shape other firstText secondText
    have same : first.text = second.text := firstText.trans secondText.symm
    have fence : first.fence = second.fence := by
      have read := parse?_of_grammatical first shape (firstText ▸ oneLine)
      rw [same, parse?_of_grammatical second other (secondText ▸ oneLine)] at read
      exact (Option.some.inj read).symm
    obtain ⟨fronts, endings⟩ := OpeningLine.front_eq first second shape other same
    have gap : first.gap = second.gap := by
      refine OpeningLine.gap_eq first second shape other ?_
      rw [OpeningLine.text_eq, OpeningLine.text_eq, fence, List.append_cancel_left_eq,
        List.append_cancel_left_eq] at same
      exact same
    refine ⟨fence, gap, ?_, ?_⟩
    · simpa only [OpeningLine.front, fence, gap, List.append_cancel_left_eq] using fronts
    · rwa [fence, List.append_cancel_left_eq] at endings

/-- Four tildes in a quotation; the last directive is closed, the one before it is not. -/
theorem parse?_eq_some_iff_grammatical_quoted :
    let line := "> ~~~~\ttypst-code  +preview(a +preview(mode=basic) b)".toList
    '\n' ∉ line ∧ ∃ parts : OpeningLine, parts.Grammatical ∧ parts.text = line ∧
      parts.fence = ⟨"> ".toList, "~~~~".toList, codeTag, "+preview(mode=basic)".toList,
        "mode=basic".toList⟩ := by
  intro line
  have oneLine : '\n' ∉ line := by decide
  have opens : parse? line = some ⟨"> ".toList, "~~~~".toList, codeTag, "+preview(mode=basic)".toList,
      "mode=basic".toList⟩ := by decide +kernel
  exact ⟨oneLine, ((parse?_eq_some_iff_grammatical line oneLine).1 _).mp opens⟩

end DirectiveFence

end FencePreview
