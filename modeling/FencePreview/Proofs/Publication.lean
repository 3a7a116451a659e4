import FencePreview.Proofs.Walk

/-! What a processed document publishes. Of the preview blocks that the scanner wrote, those whose
opening can be read are rendered, and the others stand in the output as they were written. -/

namespace FencePreview

namespace Example

theorem newline_not_mem_title (text title : Text) (opens : opening? text = some title)
    (oneLine : '\n' ∉ text) : '\n' ∉ title := by
  simp only [opening?] at opens
  split at opens
  · simp at opens
  · rename_i rest stripped
    have default : '\n' ∉ defaultTitle := by decide
    have inner : '\n' ∉ rest.dropWhile Text.isWhite := by
      intro member
      rw [(Text.stripStart?_eq_some_iff _ _ _).mp stripped] at oneLine
      exact oneLine (List.mem_append_right _ ((List.dropWhile_sublist _).subset member))
    split at opens
    · simp only [Option.some.injEq] at opens
      subst opens
      simp only [takeTitle]
      split
      · rename_i content begins
        split
        · rename_i first more tail taken dropped
          intro member
          refine inner ?_
          rw [begins]
          exact List.mem_cons_of_mem _ ((List.takeWhile_sublist _).subset (taken ▸ member))
        · exact default
      · exact default
    · simp at opens

theorem openTag_head? (title : Text) : (openTag title).head? = some '<' := by
  have first : "<details class=\"example\" markdown=\"1\"><summary>".toList.head? = some '<' := by
    decide +kernel
  unfold openTag
  simp only [List.head?_append, first, Option.some_or]

end Example

theorem newline_not_mem_trim (text : Text) (oneLine : '\n' ∉ text) : '\n' ∉ Text.trim text := fun member =>
  oneLine ((List.dropWhile_sublist _).subset (Text.mem_of_mem_trimEndWhile _ _ _ member))

theorem inert_ofPlain (openExample : Option Nat) (line : Nat) (content : Text) (inert : Inert content) :
    Inert (Emission.ofPlain openExample line content).2.1 := by
  simp only [Emission.ofPlain]
  split
  · rename_i title opens
    have oneLine := Example.newline_not_mem_title _ title opens (newline_not_mem_trim content inert.2)
    refine ⟨opensPreview_eq_false_of_isUnfenced _ (isUnfenced_of_head? _ '<' (Example.openTag_head? title)
      (by decide) (by decide)), ?_⟩
    unfold Example.openTag
    simp only [List.mem_append, not_or]
    exact ⟨⟨by decide, oneLine⟩, by decide⟩
  · split
    · exact ⟨by decide, by decide⟩
    · exact inert

namespace PanelSource

def before (source : PanelSource) : List Text :=
  source.wrapper :: source.bareOpening :: source.copied ++ source.itemLines ++ [source.divider]

def after (source : PanelSource) : List Text := source.ending :: source.trailing

theorem around_eq (source : PanelSource) (inner : List Text) :
    source.around inner = source.before ++ (inner ++ source.after) := by
  simp [around, before, after]

theorem mem_itemLines (source : PanelSource) (line : Text) (member : line ∈ source.itemLines) :
    line ∈ source.items ∨ line = [] := by
  simp only [itemLines] at member
  split at member
  · simp at member
  · rcases List.mem_append.mp member with item | empty
    · exact .inl item
    · exact .inr (List.mem_singleton.mp empty)

/-- The lines between the source and the preview block of a panel neither open nor end a block. -/
theorem isUnfenced_between (source : PanelSource) (sound : source.Sound) :
    ∀ line ∈ source.itemLines ++ [source.divider], isUnfenced line = true := by
  intro line member
  rcases List.mem_append.mp member with inItems | last
  · rcases mem_itemLines source line inItems with item | rfl
    · exact isUnfenced_of_attaches _ _ sound.leads (sound.attached line (List.mem_append_left _ item))
    · decide
  · rw [List.mem_singleton.mp last]
    exact isUnfenced_divider source sound

theorem isUnfenced_after (source : PanelSource) (sound : source.Sound) :
    ∀ line ∈ source.after, isUnfenced line = true := by
  intro line member
  rcases List.mem_cons.mp member with rfl | trails
  · exact isUnfenced_ending source sound
  · exact isUnfenced_of_attaches _ _ sound.leads (sound.attached line (List.mem_append_right _ trails))

variable (source : PanelSource) (own : ∀ line ∈ (Passage.panel source).own, Inert line)

include own

theorem inert_copied : ∀ line ∈ source.copied, Inert line :=
  fun line member => own line (by simp [Passage.own, member])

variable (sound : source.Sound)

include sound

theorem inert_before : ∀ line ∈ source.before, Inert line := by
  have opening := own source.opening (by simp [Passage.own])
  intro line member
  simp only [before, List.cons_append, List.append_assoc, List.mem_cons, List.mem_append,
    List.not_mem_nil, or_false] at member
  rcases member with rfl | rfl | inBody | inItems | rfl
  · exact inert_wrapper source sound
  · exact inert_bareOpening source sound opening.2
  · exact own line (by simp [Passage.own, inBody])
  · rcases mem_itemLines source line inItems with item | rfl
    · exact own line (by simp [Passage.own, item])
    · exact ⟨by decide, by decide⟩
  · exact inert_divider source sound

theorem inert_after : ∀ line ∈ source.after, Inert line := by
  intro line member
  rcases List.mem_cons.mp member with rfl | trails
  · exact inert_ending source sound
  · exact own line (by simp [Passage.own, trails])

theorem countP_written :
    source.written.countP opensPreview = if source.legible then 1 else 0 := by
  have silent : ∀ content : List Text, (∀ line ∈ content, Inert line) →
      content.countP opensPreview = 0 := fun content inert =>
    List.countP_eq_zero.mpr fun line member => by simp [(inert line member).1]
  have opening := own source.opening (by simp [Passage.own])
  have nested := opensPreview_nestedOpening source sound opening.2 [] (by simp) (by simp)
  rw [List.append_nil] at nested
  rw [written, around_eq, List.countP_append, List.countP_append, List.countP_cons,
    silent _ (inert_before source own sound), silent _ (inert_after source own sound),
    silent _ (inert_copied source own), nested]
  simp

variable (rest kept : List Text) (later : Walkable rest kept)

include later

/-- A panel whose nested opening cannot be read is copied as a whole. -/
theorem walkable_illegible (illegible : source.legible = false) :
    Walkable (source.written ++ rest) (source.written ++ kept) := by
  have opening := own source.opening (by simp [Passage.own])
  have nested := opensPreview_nestedOpening source sound opening.2 [] (by simp) (by simp)
  rw [List.append_nil] at nested
  refine Walkable.append_inert _ _ _ ?_ later
  intro line member
  rw [written, around_eq, List.mem_append, List.mem_append, List.mem_cons] at member
  rcases member with front | (rfl | body) | back
  · exact inert_before source own sound line front
  · exact ⟨nested.trans illegible, newline_not_mem_nestedOpening source sound opening.2⟩
  · exact inert_copied source own line body
  · exact inert_after source own sound line back

theorem walkable_closed (parsed : CodeFence.parse? source.nestedOpening = some source.block)
    (closed : source.block.closes source.closing = true) :
    Walkable (source.written ++ rest) (source.before ++ (source.after ++ kept)) := by
  have tail := Walkable.append_inert source.after rest kept (inert_after source own sound) later
  have block := Walkable.block source.nestedOpening source.closing source.block source.body _ _
    parsed (isPreview_block source)
    (fun line member => block_continues source line (sound.continues line member)) closed
    (fun line member => (own line (by simp [Passage.own, copied, member])).1) tail
  have whole := Walkable.append_inert source.before _ _ (inert_before source own sound) block
  have parts : source.written ++ rest = source.before ++ (source.nestedOpening ::
      (source.body ++ source.closing :: (source.after ++ rest))) := by
    simp [written, around_eq, copied]
  rw [parts]
  exact whole

omit later

/-- A closing line that opens a block of its own: the nested opening falls into that block. -/
theorem walkable_barred (opened : CodeFence)
    (opens : CodeFence.parse? source.closing = some opened) (foreign : opened.isPreview = false)
    (shut : isClosable source.closing = false) (nested : opensPreview source.nestedOpening = true) :
    Walkable (source.written ++ rest) (source.wrapper :: source.bareOpening :: source.body ++ kept) := by
  have unclosed : ∀ line ∈ source.closing :: (source.itemLines ++ [source.divider]),
      isClosable line = false := by
    intro line member
    rcases List.mem_cons.mp member with rfl | inside
    · exact shut
    · exact isClosable_eq_false_of_isUnfenced line (isUnfenced_between source sound line inside)
  have inert : ∀ line ∈ source.wrapper :: source.bareOpening :: source.body, Inert line := by
    intro line member
    refine inert_before source own sound line ?_
    simp only [before, copied, List.cons_append, List.append_assoc, List.mem_cons, List.mem_append]
    simp only [List.mem_cons] at member
    tauto
  have barred := Walkable.barred source.closing source.nestedOpening opened
    (source.itemLines ++ [source.divider]) (source.copied ++ source.after ++ rest) kept opens foreign
    unclosed nested
  have parts : source.written ++ rest = (source.wrapper :: source.bareOpening :: source.body) ++
      (source.closing :: (source.itemLines ++ [source.divider] ++
        source.nestedOpening :: (source.copied ++ source.after ++ rest))) := by
    simp [written, around_eq, copied, before]
  rw [parts]
  exact Walkable.append_inert _ _ _ inert barred

include later

theorem walkable_written :
    ∃ front, Walkable (source.written ++ rest) (front ++ kept) ∧
      (source.legible = false → source.nestedOpening ∈ front) := by
  have opening := own source.opening (by simp [Passage.own])
  have nested := opensPreview_nestedOpening source sound opening.2 [] (by simp) (by simp)
  have parsed := parse?_nestedOpening source sound opening.2 [] (by simp) (by simp)
  rw [List.append_nil] at nested parsed
  cases readable : source.legible with
  | false =>
      exact ⟨source.written, walkable_illegible source own sound rest kept later readable,
        fun _ => by simp [written, around_eq]⟩
  | true =>
      rw [readable, if_pos rfl] at parsed
      have closing := own source.closing (by simp [Passage.own, copied])
      rcases closing_cases source sound closing.2 with closed | ⟨shut, opened, opens, foreign⟩
      · have walkable := walkable_closed source own sound rest kept later parsed closed
        exact ⟨source.before ++ source.after, by rwa [List.append_assoc], by simp⟩
      · exact ⟨_, walkable_barred source own sound rest kept opened opens foreign shut
          (nested.trans readable), by simp⟩

end PanelSource

theorem Layout.mem_panels (layout : Layout) (source : PanelSource) :
    source ∈ layout.panels ↔ Passage.panel source ∈ layout.passages := by
  simp only [panels, List.mem_filterMap]
  constructor
  · rintro ⟨passage, member, found⟩
    cases passage with
    | plain line content => simp at found
    | panel other =>
        rw [← Option.some.inj found]
        exact member
  · exact fun member => ⟨.panel source, member, rfl⟩

namespace Emission

theorem walkable_lines (openExample : Option Nat) (passages : List Passage)
    (sound : ∀ source, Passage.panel source ∈ passages → source.Sound)
    (own : ∀ passage ∈ passages, ∀ line ∈ passage.own, Inert line) :
    ∃ kept, Walkable (ofPassages openExample passages).lines kept ∧
      ∀ source, Passage.panel source ∈ passages → source.legible = false →
        source.nestedOpening ∈ kept := by
  induction passages generalizing openExample with
  | nil => exact ⟨[], .nil, by simp⟩
  | cons passage rest ih =>
      have later := fun openAfter => ih openAfter
        (fun source member => sound source (List.mem_cons_of_mem _ member))
        (fun other member => own other (List.mem_cons_of_mem _ member))
      cases passage with
      | plain line content =>
          obtain ⟨kept, walkable, shown⟩ := later (ofPlain openExample line content).1
          have inert := inert_ofPlain openExample line content (own (.plain line content) (by simp) content
            (by simp [Passage.own]))
          refine ⟨_, .line _ _ kept inert walkable, ?_⟩
          intro source member lost
          rcases List.mem_cons.mp member with same | inside
          · exact absurd same (by simp)
          · exact List.mem_cons_of_mem _ (shown source inside lost)
      | panel first =>
          obtain ⟨kept, walkable, shown⟩ := later openExample
          obtain ⟨front, whole, lostFirst⟩ := PanelSource.walkable_written first (own _ (by simp))
            (sound first (by simp)) _ kept walkable
          refine ⟨front ++ kept, whole, ?_⟩
          intro source member lost
          rcases List.mem_cons.mp member with same | inside
          · rw [Passage.panel.injEq] at same
            subst same
            exact List.mem_append_left _ (lostFirst lost)
          · exact List.mem_append_right _ (shown source inside lost)

theorem countP_lines (openExample : Option Nat) (passages : List Passage) (stop : Option ScanError)
    (sound : ∀ source, Passage.panel source ∈ passages → source.Sound)
    (own : ∀ passage ∈ passages, ∀ line ∈ passage.own, Inert line) :
    (ofPassages openExample passages).lines.countP opensPreview =
      ((Layout.panels ⟨passages, stop⟩).filter PanelSource.legible).length := by
  induction passages generalizing openExample with
  | nil => rfl
  | cons passage rest ih =>
      have later := fun openAfter => ih openAfter
        (fun source member => sound source (List.mem_cons_of_mem _ member))
        (fun other member => own other (List.mem_cons_of_mem _ member))
      cases passage with
      | plain line content =>
          have inert := inert_ofPlain openExample line content (own (.plain line content) (by simp) content
            (by simp [Passage.own]))
          have counted := later (ofPlain openExample line content).1
          simp only [Layout.panels] at counted
          simp only [ofPassages, List.countP_cons, counted, inert.1, Layout.panels, List.filterMap_cons]
          simp
      | panel first =>
          have written := PanelSource.countP_written first (own _ (by simp)) (sound first (by simp))
          have counted := later openExample
          simp only [Layout.panels] at counted
          simp only [ofPassages, List.countP_append, counted, written, Layout.panels, List.filterMap_cons,
            List.filter_cons]
          split <;> simp [Nat.add_comm]

end Emission

/-- Whether a text ends with a quote, line ends apart, that opens no value. -/
def EndsQuoted (text : Text) : Prop :=
  ∃ front tail, text = front ++ '"' :: tail ∧ (∀ character ∈ tail, character = '\r') ∧
    front.getLast? ≠ some '='

theorem not_endsQuoted_append (front back : Text) (frontPlain : ¬EndsQuoted front)
    (backPlain : ¬EndsQuoted back) : ¬EndsQuoted (front ++ back) := by
  rintro ⟨before, tail, parts, returns, last⟩
  rcases List.append_eq_append_iff.mp parts with ⟨more, rfl, rest⟩ | ⟨more, rfl, rest⟩
  · refine backPlain ⟨more, tail, rest, returns, ?_⟩
    cases more with
    | nil => simp
    | cons first rest =>
        rw [List.getLast?_append] at last
        intro same
        exact last (by simp [same])
  · cases more with
    | nil => exact backPlain ⟨[], tail, by simpa using rest.symm, returns, by simp⟩
    | cons first more =>
        obtain ⟨rfl, rfl⟩ := List.cons.inj rest
        exact frontPlain ⟨before, more, rfl,
          fun character member => returns character (List.mem_append_left _ member), last⟩

theorem not_endsQuoted_of_no_quote (text : Text) (absent : '"' ∉ text) : ¬EndsQuoted text := by
  rintro ⟨front, tail, rfl, _⟩
  exact absent (by simp)

/-- Every line of a text that may hold line feeds is free of a closing quote at its end. -/
def LinesUnquoted (text : Text) : Prop := ∀ piece ∈ Text.splitAtEach '\n' text, ¬EndsQuoted piece

theorem LinesUnquoted.append (front back : Text) (frontPlain : LinesUnquoted front)
    (backPlain : LinesUnquoted back) : LinesUnquoted (front ++ back) := by
  intro piece member
  rcases Text.mem_splitAtEach_append '\n' front back piece member with
    early | late | ⟨last, lastIn, first, firstIn, rfl⟩
  · exact frontPlain piece early
  · exact backPlain piece late
  · exact not_endsQuoted_append last first (frontPlain last lastIn) (backPlain first firstIn)

theorem linesUnquoted_of_no_quote (text : Text) (absent : '"' ∉ text) : LinesUnquoted text := by
  intro piece member
  refine not_endsQuoted_of_no_quote piece fun inside => absent ?_
  exact Text.mem_of_mem_piece '\n' text piece member '"' inside

theorem endsQuoted_concat (front : Text) (last : Char) (ends : EndsQuoted (front ++ [last])) :
    last = '\r' ∨ last = '"' ∧ front.getLast? ≠ some '=' := by
  obtain ⟨before, tail, parts, returns, other⟩ := ends
  rcases List.eq_nil_or_concat tail with rfl | ⟨more, final, rfl⟩
  · obtain ⟨rfl, same⟩ := List.append_inj' parts rfl
    exact .inr ⟨(List.cons.inj same).1, other⟩
  · left
    rw [List.concat_eq_append, ← List.cons_append, ← List.append_assoc] at parts
    obtain ⟨_, same⟩ := List.append_inj' parts rfl
    rw [(List.cons.inj same).1]
    exact returns final (by simp)

theorem Markup.quote_not_mem_escape (text : Text) : '"' ∉ Markup.escape text := by
  simp only [escape, List.mem_flatMap, not_exists, not_and]
  intro character _
  unfold escapeCharacter
  split
  · decide
  · decide
  · decide
  · decide
  · decide
  · rename_i notQuote _
    simpa using fun same => notQuote same.symm

theorem linesUnquoted_of_concat (front : Text) (last : Char) (oneLine : '\n' ∉ front ++ [last])
    (notReturn : last ≠ '\r') (opens : last = '"' → front.getLast? = some '=') :
    LinesUnquoted (front ++ [last]) := by
  intro piece member
  rw [Text.splitAtEach_eq_singleton _ _ oneLine, List.mem_singleton] at member
  subst member
  intro ends
  rcases endsQuoted_concat front last ends with isReturn | ⟨isQuote, closed⟩
  · exact notReturn isReturn
  · exact closed (opens isQuote)

theorem Markup.linesUnquoted_image (url : Text) : LinesUnquoted (Markup.image url) := by
  have opening : LinesUnquoted "<img src=\"".toList :=
    linesUnquoted_of_concat "<img src=".toList '"' (by decide) (by decide) (fun _ => by decide)
  have ending : LinesUnquoted "\" alt=\"Preview\" loading=\"lazy\">".toList :=
    linesUnquoted_of_concat "\" alt=\"Preview\" loading=\"lazy\"".toList '>' (by decide) (by decide)
      (fun same => absurd same (by decide))
  exact .append _ _ (.append _ _ opening (linesUnquoted_of_no_quote _ (quote_not_mem_escape url))) ending

/-- No line of a published image reads as a nested opening, whatever the address of the site. -/
theorem linesUnquoted_markup (lead : Text) (rendered : RenderedPreview)
    (leads : ∀ character ∈ lead, isLead character = true) : LinesUnquoted (lead ++ rendered.markup) := by
  have plain : '"' ∉ lead := fun member => absurd (leads _ member) (by decide)
  exact .append _ _ (linesUnquoted_of_no_quote lead plain)
    (.append _ _ (Markup.linesUnquoted_image _) (Markup.linesUnquoted_image _))

theorem PanelSource.endsQuoted_nestedOpening (source : PanelSource) (sound : source.Sound) (tail : Text)
    (returns : ∀ character ∈ tail, character = '\r') : EndsQuoted (source.nestedOpening ++ tail) := by
  obtain ⟨front, last, parts, other⟩ := DirectiveFence.nestedInfo_ends _ sound.language
  refine ⟨source.fence.lead ++ (source.fence.marker ++ (front ++ [last])), tail, ?_, returns, ?_⟩
  · rw [nestedOpening_eq, parts]
    simp
  · rw [← List.append_assoc, ← List.append_assoc, List.getLast?_concat]
    simpa using other

theorem PanelSource.getLast?_nestedOpening (source : PanelSource) (sound : source.Sound) :
    source.nestedOpening.getLast? = some '"' := by
  obtain ⟨front, last, parts, _⟩ := DirectiveFence.nestedInfo_ends _ sound.language
  rw [nestedOpening_eq, parts, ← List.append_assoc, ← List.append_assoc, List.getLast?_concat]

/-- Of the published lines only the nested opening itself reads as the nested opening, and it is
published where it is not legible. -/
theorem PanelSource.nestedOpening_mem_lines_iff (source : PanelSource) (sound : source.Sound)
    (oneLine : '\n' ∉ source.opening) (input : Text) (published : List Text)
    (all : ∀ line ∈ published, IsPublished line)
    (copied : source.legible = false → source.nestedOpening ∈ published) :
    source.nestedOpening ∈ Text.lines (Text.assemble input published) ↔ source.legible = false := by
  have whole := newline_not_mem_nestedOpening source sound oneLine
  have last := getLast?_nestedOpening source sound
  have filled : source.nestedOpening ≠ [] := by
    intro empty
    rw [empty] at last
    exact absurd last (by simp)
  constructor
  · intro found
    obtain ⟨piece, pieceIn, shape⟩ := Text.mem_lines _ _ found
    obtain ⟨tail, returns, rfl⟩ : ∃ tail, (∀ character ∈ tail, character = '\r') ∧
        piece = source.nestedOpening ++ tail := by
      rcases shape with rfl | rfl
      · exact ⟨[], by simp, by simp⟩
      · exact ⟨['\r'], by simp, rfl⟩
    obtain ⟨line, lineIn, inside⟩ := (Text.mem_splitAtEach_assemble _ _ _ (by simp [filled])).mp pieceIn
    rcases all line lineIn with inert | ⟨lead, rendered, leads, rfl⟩
    · rw [Text.splitAtEach_eq_singleton _ _ inert.2, List.mem_singleton] at inside
      rw [← opensPreview_nestedOpening source sound oneLine tail
        (fun character member => by rw [returns character member]; decide)
        (fun member => absurd (returns _ member) (by decide)), inside]
      exact inert.1
    · -- The nested opening ends with the quote of a value, and no piece of a line of images does.
      exact absurd (endsQuoted_nestedOpening source sound tail returns)
        (linesUnquoted_markup lead rendered leads _ inside)
  · intro lost
    refine Text.mem_lines_of_piece _ _ ?_ filled (by rw [last]; decide)
    refine (Text.mem_splitAtEach_assemble _ _ _ filled).mpr ⟨source.nestedOpening, copied lost, ?_⟩
    rw [Text.splitAtEach_eq_singleton _ _ whole]
    simp

namespace Formatter

theorem process_eq (formatter : Formatter) (input : Text) :
    formatter.process input =
      let layout := Layout.read 1 (Text.lines input)
      let emission := Emission.ofPassages none layout.passages
      match layout.unterminated with
      | some error => throw (.scan error)
      | none => do
          let publication ← formatter.publishSegments (Segment.cut 1 emission.lines)
          return { output := Text.assemble input publication.lines
                   warnings := emission.warnings
                   previews := publication.previews
                   compiled := publication.compiled } := by
  have scanned := Scanner.scanLines_eq_ofLayout [] [] (Text.lines input)
  simp only [process, Scanner.new, scanned, Scanner.ofLayout]
  cases (Layout.read 1 (Text.lines input)).unterminated with
  | some error => rfl
  | none => rfl

theorem printed_of_process (formatter : Formatter) (input : Text) (before after : Workspace)
    (document : ProcessedDocument) (finished : formatter.process input before = .ok document after) :
    ∃ publication,
      Printed (Emission.ofPassages none (Layout.read 1 (Text.lines input)).passages).lines publication ∧
      document.output = Text.assemble input publication.lines ∧
      document.previews = publication.previews := by
  rw [process_eq] at finished
  cases stop : (Layout.read 1 (Text.lines input)).unterminated with
  | some error =>
      simp only [stop] at finished
      exact absurd finished (Job.throw_ne_ok _ _ _ _)
  | none =>
      simp only [stop] at finished
      obtain ⟨publication, between, published, rest⟩ := (Job.bind_eq_ok_iff _ _ _ _ _).mp finished
      obtain ⟨rfl, _⟩ := (Job.pure_eq_ok_iff _ _ _ _).mp rest
      have printed := printed_of_published _ _ _ (published_of_ok _ _ _ _ _ published)
      exact ⟨publication, printed, rfl, rfl⟩

/-- A document without preview blocks of its own that is processed renders the panels whose nested
opening can be read and publishes the openings of all others as they are. So no preview stays
raw exactly when no option holds a backtick behind a run of backticks. -/
theorem process_previews (formatter : Formatter) (input : Text) (before after : Workspace)
    (document : ProcessedDocument) (own : ∀ line ∈ Text.lines input, opensPreview line = false)
    (finished : formatter.process input before = .ok document after) :
    let panels := (Layout.read 1 (Text.lines input)).panels
    let recorded := (Scanner.new.scanLines (Text.lines input)).1.previews
    recorded = panels.map PanelSource.record ∧
      document.previews = (panels.filter PanelSource.legible).length ∧
      (∀ source ∈ panels,
        source.nestedOpening ∈ Text.lines document.output ↔ source.legible = false) ∧
      ((document.previews = recorded.length ∧
          ∀ source ∈ panels, source.nestedOpening ∉ Text.lines document.output) ↔
        ∀ source ∈ panels, source.legible = true) := by
  intro panels recorded
  obtain ⟨publication, printed, output, previews⟩ :=
    printed_of_process formatter input before after document finished
  have recordedPanels : recorded = panels.map PanelSource.record := by
    have scanned := Scanner.scanLines_eq_ofLayout [] [] (Text.lines input)
    exact congrArg (fun result => result.1.previews) scanned
  have sound : ∀ source, Passage.panel source ∈ (Layout.read 1 (Text.lines input)).passages →
      source.Sound := fun source member =>
    Layout.read_sound 1 _ source ((Layout.mem_panels _ _).mpr member)
  have inert : ∀ passage ∈ (Layout.read 1 (Text.lines input)).passages,
      ∀ line ∈ passage.own, Inert line := by
    intro passage member line inside
    have ownLine := Layout.mem_of_mem_own 1 (Text.lines input) passage line member inside
    exact ⟨own line ownLine, Text.newline_not_mem_of_mem_lines _ _ ownLine⟩
  obtain ⟨kept, walkable, shown⟩ := Emission.walkable_lines none _ sound inert
  obtain ⟨count, copies, all⟩ := printed_walkable _ kept publication walkable printed
  have counted : document.previews = (panels.filter PanelSource.legible).length := by
    rw [previews, count, Emission.countP_lines none _ (Layout.read 1 (Text.lines input)).unterminated
      sound inert]
  have raw : ∀ source ∈ panels,
      source.nestedOpening ∈ Text.lines document.output ↔ source.legible = false := by
    intro source member
    have passage := (Layout.mem_panels _ _).mp member
    have opening := inert _ passage source.opening (by simp [Passage.own])
    rw [output]
    exact PanelSource.nestedOpening_mem_lines_iff source (sound source passage) opening.2 input _ all
      fun lost => copies _ (shown source passage lost)
  refine ⟨recordedPanels, counted, raw, ?_⟩
  constructor
  · rintro ⟨_, gone⟩ source member
    have kept := gone source member
    rw [raw source member] at kept
    simpa using kept
  · intro legible
    refine ⟨?_, ?_⟩
    · rw [counted, recordedPanels, List.filter_eq_self.mpr legible, List.length_map]
    · intro source member
      rw [raw source member, legible source member]
      decide

/-- A backtick in an option: the document is processed, nothing is rendered, and the nested opening
is published. -/
theorem process_previews_backtick_option :
    let formatter : Formatter :=
      { templates := .default
        artifacts := .below ⟨"docs".toList⟩ ⟨"site".toList⟩
        compiler := Compiler.writing fun _ => ByteArray.empty
        sitePath := some ['/'] }
    let workspace : Workspace := ⟨⟨.empty, []⟩, [], []⟩
    let input : Text := "```typst +preview(a=`b`)\nx\n```\n".toList
    ∃ document after, formatter.process input workspace = .ok document after ∧
      document.previews = 0 ∧
      "```typst-preview a=`b` lang=\"typst\"".toList ∈ Text.lines document.output := by
  intro formatter workspace input
  have succeeds : (Job.result? (formatter.process input) workspace).isSome = true := by decide +kernel
  obtain ⟨document, result⟩ := Option.isSome_iff_exists.mp succeeds
  obtain ⟨after, finished⟩ := (Job.result?_eq_some_iff _ _ _).mp result
  have own : ∀ line ∈ Text.lines input, opensPreview line = false := by decide +kernel
  have lost : ∃ source ∈ (Layout.read 1 (Text.lines input)).panels,
      source.nestedOpening = "```typst-preview a=`b` lang=\"typst\"".toList ∧
        source.legible = false := by decide +kernel
  obtain ⟨_, counted, raw, _⟩ := process_previews formatter input workspace after document own finished
  obtain ⟨source, member, opening, illegible⟩ := lost
  refine ⟨document, after, finished, ?_, ?_⟩
  · rw [counted]
    decide +kernel
  · rw [← opening, raw source member]
    exact illegible

end Formatter

end FencePreview
