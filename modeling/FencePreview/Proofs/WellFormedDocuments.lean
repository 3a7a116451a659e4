import FencePreview.Proofs.StoredImages
import FencePreview.Proofs.TidyLayout

/-! Documents written from plain lines and closed blocks. Both passes see them as their author
does, so that each block becomes the images of its own body. -/

namespace FencePreview

/-- A piece of a document: a line by itself, or the block of a request with its closing line. -/
inductive Part where
  | line (content : Text)
  | block (request : PreviewRequest) (opening : Text)
deriving DecidableEq, Repr

namespace Part

def lines : Part → List Text
  | .line content => [content]
  | .block request opening =>
      opening :: (request.body ++ [request.fence.lead ++ request.fence.marker])

def request? : Part → Option PreviewRequest
  | .line _ => none
  | .block request _ => some request

/-- A line by itself opens nothing, and neither does a line inside a block. -/
def WellFormed : Part → Prop
  | .line content => DirectiveFence.parse? content = none ∧ CodeFence.parse? content = none ∧
      Example.opening? (Text.trim content) = none
  | .block request opening => request.fence.Plain opening ∧
      ∀ line ∈ request.body, CodeFence.parse? line = none

def attachesTo (lead : Text) : Part → Bool
  | .line content => attaches lead content
  | .block _ _ => false

end Part

def requests (parts : List Part) : List PreviewRequest := parts.filterMap Part.request?

theorem DirectiveFence.parse?_of_isUnfenced (line : Text) (unfenced : isUnfenced line = true) :
    parse? line = none := by
  simp only [isUnfenced, Option.isNone_iff_eq_none] at unfenced
  simp [parse?, unfenced]

theorem attaches_eq_false_of_opens (lead opening : Text) (fence : DirectiveFence)
    (leads : ∀ character ∈ lead, isLead character = true)
    (opens : DirectiveFence.parse? opening = some fence) : attaches lead opening = false := by
  rw [Bool.eq_false_iff]
  intro attached
  rw [DirectiveFence.parse?_of_isUnfenced _ (isUnfenced_of_attaches lead opening leads attached)] at opens
  exact absurd opens.symm (Option.some_ne_none fence)

theorem DirectiveFence.closes_marker (fence : DirectiveFence) :
    fence.closes (fence.lead ++ fence.marker) = true := by
  have whole := Text.stripStart?_append (fence.lead ++ fence.marker) []
  rw [List.append_nil] at whole
  simp only [closes, whole]
  rfl

/-- What a panel takes in is made of whole pieces. -/
theorem dropWhile_attaches_lines (lead : Text) (parts : List Part)
    (leads : ∀ character ∈ lead, isLead character = true) (wellFormed : ∀ part ∈ parts, part.WellFormed) :
    (parts.flatMap Part.lines).dropWhile (attaches lead) =
      (parts.dropWhile (Part.attachesTo lead)).flatMap Part.lines := by
  induction parts with
  | nil => rfl
  | cons part rest ih =>
      have later := ih fun other member => wellFormed other (List.mem_cons_of_mem _ member)
      cases part with
      | line content =>
          cases attached : attaches lead content with
          | true => simpa [Part.lines, Part.attachesTo, attached] using later
          | false => simp [Part.lines, Part.attachesTo, attached]
      | block request opening =>
          have plain := (wellFormed (.block request opening) (by simp)).1
          have detached := attaches_eq_false_of_opens lead opening _ leads plain.opens
          simp [Part.lines, Part.attachesTo, detached]

theorem requests_dropWhile (lead : Text) (parts : List Part) :
    requests (parts.dropWhile (Part.attachesTo lead)) = requests parts := by
  induction parts with
  | nil => rfl
  | cons part rest ih =>
      cases part with
      | line content =>
          cases attached : attaches lead content with
          | true =>
              have attachesTo : Part.attachesTo lead (.line content) = true := attached
              rw [List.dropWhile_cons_of_pos attachesTo, ih]
              rfl
          | false => simp [Part.attachesTo, attached]
      | block request opening => simp [Part.attachesTo]

namespace Layout

theorem read_block (line : Nat) (request : PreviewRequest) (opening : Text) (rest : List Part)
    (wellFormed : ∀ part ∈ .block request opening :: rest, part.WellFormed)
    (oneLine : ∀ content ∈ (Part.block request opening :: rest).flatMap Part.lines, '\n' ∉ content) :
    ∃ number source,
      read line ((Part.block request opening :: rest).flatMap Part.lines) =
        (read number ((rest.dropWhile (Part.attachesTo request.fence.lead)).flatMap Part.lines)).push
          (.panel source) ∧
      source.request = request ∧ (Passage.panel source).Tidy := by
  obtain ⟨plain, silent⟩ := wellFormed (.block request opening) (by simp)
  have leads := (DirectiveFence.parse?_parts _ _ plain.opens).1
  let closing := request.fence.lead ++ request.fence.marker
  let after := rest.flatMap Part.lines
  have content : (Part.block request opening :: rest).flatMap Part.lines =
      opening :: (request.body ++ closing :: after) := by
    simp [Part.lines, closing, after]
  rw [content] at oneLine ⊢
  have continues : ∀ other ∈ request.body, request.fence.closes other = false := by
    intro other member
    rw [Bool.eq_false_iff]
    intro closes
    obtain ⟨_, _, _, parsed⟩ := DirectiveFence.parse?_of_closes _ _ _ plain.opens closes
      (oneLine other (by simp [member]))
    rw [silent other member] at parsed
    exact absurd parsed.symm (Option.some_ne_none _)
  have found := Segment.splitAtClosing?_append request.fence.closes request.body after closing
    continues request.fence.closes_marker
  have readPanel := read_panel line _ _ _ _ _ _ plain.opens found
  have sound := read_sound line _ _ (by rw [readPanel]; exact List.mem_cons_self)
  rw [dropWhile_attaches_lines _ rest leads fun other member =>
    wellFormed other (List.mem_cons_of_mem _ member)] at readPanel
  exact ⟨_, _, readPanel, rfl, sound, plain, rfl, silent⟩

/-- A document of well formed pieces is read as these pieces: every fence is closed, the panels are
the blocks, and nothing else opens anything. -/
theorem read_parts (line : Nat) (parts : List Part) (wellFormed : ∀ part ∈ parts, part.WellFormed)
    (oneLine : ∀ content ∈ parts.flatMap Part.lines, '\n' ∉ content) :
    (read line (parts.flatMap Part.lines)).unterminated = none ∧
      (read line (parts.flatMap Part.lines)).panels.map PanelSource.request = requests parts ∧
      ∀ passage ∈ (read line (parts.flatMap Part.lines)).passages, passage.Tidy := by
  -- A panel takes in items after its block, so the induction is on the number of pieces left.
  induction size : parts.length using Nat.strongRecOn generalizing line parts with
  | ind bound ih =>
      cases parts with
      | nil => simp [read, panels, requests]
      | cons part rest =>
          have restFormed : ∀ other ∈ rest, other.WellFormed :=
            fun other member => wellFormed other (List.mem_cons_of_mem _ member)
          have restOneLine : ∀ content ∈ rest.flatMap Part.lines, '\n' ∉ content :=
            fun content member => oneLine content (List.mem_append_right _ member)
          cases part with
          | line content =>
              obtain ⟨plain, quiet, unmarked⟩ := wellFormed (.line content) (by simp)
              obtain ⟨closed, same, tidy⟩ :=
                ih rest.length (by simp [← size]) (line + 1) rest restFormed restOneLine rfl
              simp only [List.flatMap_cons, Part.lines, List.singleton_append, read_plain _ _ _ plain]
              refine ⟨closed, same, ?_⟩
              intro passage member
              rcases List.mem_cons.mp member with rfl | later
              · exact ⟨quiet, unmarked⟩
              · exact tidy passage later
          | block request opening =>
              obtain ⟨number, source, readBlock, sameRequest, sourceTidy⟩ :=
                read_block line request opening rest wellFormed oneLine
              let remaining := rest.dropWhile (Part.attachesTo request.fence.lead)
              obtain ⟨front, whole⟩ : remaining <:+ rest := List.dropWhile_suffix _
              rw [← whole] at restFormed restOneLine size
              rw [List.flatMap_append] at restOneLine
              have fewer : remaining.length < bound := by
                simp only [← size, List.length_cons, List.length_append]
                omega
              obtain ⟨closed, same, tidy⟩ := ih remaining.length fewer number remaining
                (fun other member => restFormed other (List.mem_append_right _ member))
                (fun content member => restOneLine content (List.mem_append_right _ member)) rfl
              rw [readBlock]
              refine ⟨closed, ?_, ?_⟩
              · have requested : requests remaining = requests rest := requests_dropWhile _ rest
                rw [requested] at same
                exact congrArg₂ List.cons sameRequest same
              · intro passage member
                rcases List.mem_cons.mp member with rfl | later
                · exact sourceTidy
                · exact tidy passage later

end Layout

namespace Formatter

/-- A document of well formed pieces, whose blocks have attributes that are accepted, is processed
exactly when nothing outside fails, and fails for nothing else. Every block is then one preview: its
images stand in its panel, and they are made from its body and the mode that it asks for. -/
theorem process_wellFormed (formatter : Formatter) (input site : Text) (parts : List Part)
    (settings : PreviewRequest → PreviewSettings)
    (shape : Text.lines input = parts.flatMap Part.lines) (wellFormed : ∀ part ∈ parts, part.WellFormed)
    (accepted : ∀ request ∈ requests parts,
      PreviewSettings.ofAttributes request.fence.declared = .ok (settings request))
    (hasSite : formatter.sitePath = some site) (before after : Workspace)
    (document : ProcessedDocument) :
    let layout := Layout.read 1 (Text.lines input)
    layout.panels.map PanelSource.request = requests parts ∧
      (formatter.process input before = .ok document after ↔
        ∃ flags,
          formatter.Undisturbed ((requests parts).map (formatter.requestDocument settings))
            before flags after ∧
          after.compiled = before.compiled ++
            calls ((requests parts).map (formatter.requestDocument settings)) flags ∧
          document =
            { output := Text.assemble input (layout.passages.flatMap
                (Passage.linesWith fun source => [formatter.imageLine settings site source]))
              warnings := []
              previews := (requests parts).length
              compiled := flags.count true }) ∧
      ∀ error, formatter.process input before = .error error after → error.IsOutside := by
  intro layout
  have oneLine : ∀ content ∈ Text.lines input, '\n' ∉ content := Text.newline_not_mem_of_mem_lines input
  have reading := Layout.read_parts 1 parts wellFormed (shape ▸ oneLine)
  rw [← shape] at reading
  obtain ⟨closed, same, tidy⟩ := reading
  have own : ∀ passage ∈ layout.passages, ∀ line ∈ passage.own, '\n' ∉ line :=
    fun passage member line inside =>
      oneLine line (Layout.mem_of_mem_own 1 _ passage line member inside)
  have acceptedPanels : ∀ source, Passage.panel source ∈ layout.passages →
      PreviewSettings.ofAttributes source.fence.declared = .ok (settings source.request) := by
    intro source member
    have requested : source.request ∈ requests parts := by
      rw [← same]
      exact List.mem_map_of_mem ((Layout.mem_panels _ _).mpr member)
    exact accepted source.request requested
  have published := formatter.publishes_passages settings site hasSite layout.passages layout.unterminated
    tidy own acceptedPanels
  have documents : (Layout.panels ⟨layout.passages, layout.unterminated⟩).map
      (fun source => formatter.requestDocument settings source.request) =
        (requests parts).map (formatter.requestDocument settings) := by
    rw [← same, List.map_map]
    rfl
  have count : (Layout.panels ⟨layout.passages, layout.unterminated⟩).length = (requests parts).length := by
    rw [← same, List.length_map]
  rw [documents, count] at published
  have run := formatter.process_eq_of_tidy input closed tidy
  refine ⟨same, ?_, ?_⟩
  · rw [run, Job.bind_eq_ok_iff]
    constructor
    · rintro ⟨publication, between, publishing, last⟩
      obtain ⟨rfl, rfl⟩ := (Job.pure_eq_ok_iff _ _ _ _).mp last
      obtain ⟨flags, undisturbed, rfl⟩ := (published.ok_iff _ _ _ _).mp publishing
      exact ⟨flags, undisturbed, (undisturbed.compiled_eq _ _ _ _ _).2, rfl⟩
    · rintro ⟨flags, undisturbed, _, rfl⟩
      have publishing := (published.ok_iff 1 before _ after).mpr ⟨flags, undisturbed, rfl⟩
      exact ⟨_, after, publishing, rfl⟩
  · intro error failed
    rw [run] at failed
    rcases Job.bind_eq_error_cases _ _ _ _ _ failed with publishing | ⟨_, _, _, last⟩
    · exact formatter.publishSegments_error_isOutside site hasSite _ (published.acceptable 1) _ _ error
        publishing
    · exact absurd last (Job.pure_ne_error _ _ _ _)

/-- A quoted block between two lines, with nothing in store: the compiler is called for both
variants of the line in the block. -/
theorem process_wellFormed_quoted_block :
    let formatter : Formatter :=
      { templates := .default
        artifacts := .below ⟨"docs".toList⟩ ⟨"site".toList⟩
        compiler := Compiler.writing fun _ => ByteArray.empty
        sitePath := some ['/'] }
    let workspace : Workspace := ⟨⟨.empty, []⟩, [], []⟩
    let input : Text := "See:\n> ~~~typst +preview(mode=basic)\n> x\n> ~~~\n> 1. one\n".toList
    ∃ document after, formatter.process input workspace = .ok document after ∧ document.previews = 1 ∧
      after.compiled = Variant.all.map fun variant => formatter.templates.render .basic variant ['x'] := by
  intro formatter workspace input
  let fence : DirectiveFence :=
    ⟨['>', ' '], ['~', '~', '~'], markupTag, "+preview(mode=basic)".toList, "mode=basic".toList⟩
  let request : PreviewRequest := ⟨fence, [['>', ' ', 'x']]⟩
  let opening : Text := "> ~~~typst +preview(mode=basic)".toList
  let parts : List Part :=
    [.line "See:".toList, .block request opening, .line "> 1. one".toList]
  have plain : fence.Plain opening := by
    refine ⟨by decide +kernel, ?_, ?_, ?_⟩
    · intro rest whole member
      have quiet : backtick ∉ opening := by decide +kernel
      rw [whole] at quiet
      exact quiet (List.mem_append_right _ (List.mem_append_right _ member))
    · unfold DirectiveFence.QuotesClosed
      decide +kernel
    · exact fence.plainSpaced_of_all (by decide)
  have wellFormed : ∀ part ∈ parts, part.WellFormed := by
    intro part member
    simp only [parts, List.mem_cons, List.not_mem_nil, or_false] at member
    rcases member with rfl | rfl | rfl
    · exact ⟨by decide +kernel, by decide +kernel, by decide +kernel⟩
    · exact ⟨plain, by decide +kernel⟩
    · exact ⟨by decide +kernel, by decide +kernel, by decide +kernel⟩
  have accepted : ∀ request ∈ requests parts,
      PreviewSettings.ofAttributes request.fence.declared = .ok ⟨.basic, false⟩ := by decide +kernel
  have shape : Text.lines input = parts.flatMap Part.lines := by decide +kernel
  -- The fingerprint of the block is at hand: the run past it is what is evaluated here.
  have render : formatter.render ['x'] Attributes.basic = _ :=
    formatter.render_eq_smallDigits rfl rfl
  have compiledOnce : (Job.result? (formatter.render ['x'] Attributes.basic) workspace).map
      RenderedPreview.compiled = some true := by
    rw [render]
    decide +kernel
  obtain ⟨rendered, finished, compiled⟩ := Job.exists_ok_of_result?_map _ _ _ _ compiledOnce
  obtain ⟨ran, rfl, undisturbed⟩ := (formatter.render_eq_ok_iff _ _ _ _
    PreviewSettings.ofAttributes_basic rfl _ _ _).mp finished
  obtain rfl : ran = true := compiled
  obtain ⟨_, runs, _⟩ := process_wellFormed formatter input ['/'] parts (fun _ => ⟨.basic, false⟩)
    shape wellFormed accepted rfl workspace _ _
  have calling := (undisturbed.compiled_eq _ _ _ _ _).2
  exact ⟨_, _, runs.mpr ⟨[true], undisturbed, calling, rfl⟩, rfl, calling⟩

end Formatter

end FencePreview
