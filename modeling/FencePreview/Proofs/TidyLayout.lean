import FencePreview.Proofs.Publication
import FencePreview.Proofs.Rendering

/-! Layouts in which every block stands where it seems to stand: plain lines open nothing, bodies open
nothing, and every panel closes with its lead and marker. The second pass keeps step with
such a layout and renders its panels in order. -/

namespace FencePreview

structure PreviewRequest where
  fence : DirectiveFence
  body : List Text
deriving DecidableEq, Repr

/-- The source to be rendered: the body without the lead of the fence, where a line has it. -/
def PreviewRequest.source (request : PreviewRequest) : Text :=
  Text.joinLines (request.body.map fun line => (Text.stripStart? request.fence.lead line).getD line)

def PanelSource.request (source : PanelSource) : PreviewRequest := ⟨source.fence, source.body⟩

/-- What makes a block render whatever follows the tag on its opening line. -/
structure DirectiveFence.Plain (fence : DirectiveFence) (opening : Text) : Prop where
  opens : DirectiveFence.parse? opening = some fence
  unquoted : ∀ rest, opening = fence.lead ++ (fence.marker ++ rest) → backtick ∉ rest
  quotes : fence.QuotesClosed
  spaced : fence.PlainSpaced

/-- A passage in which nothing opens or ends a block but the panel itself. -/
def Passage.Tidy : Passage → Prop
  | .plain _ content => CodeFence.parse? content = none ∧ Example.opening? (Text.trim content) = none
  | .panel source => source.Sound ∧ source.fence.Plain source.opening ∧
      source.closing = source.fence.lead ++ source.fence.marker ∧
      ∀ line ∈ source.body, CodeFence.parse? line = none

def Passage.linesWith (inner : PanelSource → List Text) : Passage → List Text
  | .plain _ content => [content]
  | .panel source => source.around (inner source)

theorem Emission.ofPassages_tidy (passages : List Passage)
    (tidy : ∀ passage ∈ passages, passage.Tidy) :
    Emission.ofPassages none passages =
      ⟨passages.flatMap (Passage.linesWith fun source => source.nestedOpening :: source.copied), []⟩ := by
  induction passages with
  | nil => rfl
  | cons passage rest ih =>
      have later := ih fun other member => tidy other (List.mem_cons_of_mem _ member)
      cases passage with
      | plain line content =>
          have marker := (tidy (.plain line content) (by simp)).2
          have kept : Emission.ofPlain none line content = (none, content, []) := by
            simp [Emission.ofPlain, marker]
          simp [Emission.ofPassages, kept, later, Passage.linesWith]
      | panel source => simp [Emission.ofPassages, later, Passage.linesWith, PanelSource.written]

namespace PanelSource

theorem legible_of_plain (source : PanelSource) (plain : source.fence.Plain source.opening) :
    source.legible = true := by
  obtain ⟨_, _, _, _, gap, blank, tail, _, _, inside, parts⟩ :=
    DirectiveFence.parse?_parts _ _ plain.opens
  have absent := plain.unquoted _ parts
  rw [legible, Bool.not_eq_true', Bool.and_eq_false_iff]
  right
  rw [List.any_eq_false]
  intro token passed
  rw [decide_eq_true_eq]
  intro stands
  have found := ((PanelOptions.mem_passthrough _ _).mp passed).1
  have read := (Text.mem_of_mem_tokensFrom _ _ _ _ _ found backtick stands).resolve_left List.not_mem_nil
  exact absent (by simp [inside _ read])

end PanelSource

theorem CodeFence.closes_marker (fence : CodeFence) (shape : IsMarker fence.marker) :
    fence.closes (fence.lead ++ fence.marker) = true := by
  have run : fence.afterClosingRun? fence.marker = some [] := by
    obtain ⟨mark, count, marks, enough, same⟩ := shape
    simp only [afterClosingRun?]
    split
    · have whole := Text.stripStart?_append fence.marker []
      rw [List.append_nil] at whole
      exact whole
    · have first : fence.marker.headD backtick = mark := by
        rw [same]
        obtain ⟨less, rfl⟩ : ∃ less, count = less + 1 := ⟨count - 1, by omega⟩
        rfl
      have all : ∀ character ∈ fence.marker, decide (character = mark) = true := by
        rw [same]
        intro character member
        simp [List.eq_of_mem_replicate member]
      rw [first, List.takeWhile_eq_self_iff.mpr all, List.dropWhile_eq_nil_iff.mpr all, if_pos le_rfl]
  simp only [closes, Text.stripStart?_append, Option.bind_some, run]
  rfl

namespace PanelSource

variable (source : PanelSource) (tidy : (Passage.panel source).Tidy)

include tidy

theorem opens_nestedOpening (oneLine : '\n' ∉ source.opening) :
    CodeFence.parse? source.nestedOpening = some source.block ∧
      (∀ line ∈ source.body, source.block.closes line = false) ∧
      source.block.closes source.closing = true := by
  obtain ⟨sound, plain, closing, _⟩ := tidy
  have nested := parse?_nestedOpening source sound oneLine [] (by simp) (by simp)
  rw [List.append_nil, legible_of_plain source plain, if_pos rfl] at nested
  refine ⟨nested, fun line member => block_continues source line (sound.continues line member), ?_⟩
  rw [closing]
  exact CodeFence.closes_marker source.block sound.marker

/-- The source of a panel stands in a block of another kind, which ends where the source does. -/
theorem opens_bareOpening (own : ∀ line ∈ (Passage.panel source).own, '\n' ∉ line) :
    ∃ fence, CodeFence.parse? source.bareOpening = some fence ∧ fence.isPreview = false ∧
      (∀ line ∈ source.body, fence.closes line = false) ∧ fence.closes source.closing = true := by
  obtain ⟨sound, plain, closing, body⟩ := tidy
  obtain ⟨_, _, _, _, gap, blank, tail, _, _, _, parts⟩ := DirectiveFence.parse?_parts _ _ plain.opens
  obtain ⟨info, word, inside, parsed⟩ := parse?_bareOpening source sound (own _ (by simp [Passage.own]))
  have absent : backtick ∉ info := fun member =>
    plain.unquoted _ parts (inside _ parts backtick member)
  rw [if_neg fun lost => absent lost.2] at parsed
  refine ⟨_, parsed, isPreview_bareOpening source sound info word, ?_, ?_⟩
  · intro line member
    have unclosed := isClosable_eq_false_of_parse?_eq_none line
      (own line (by simp [Passage.own, copied, member])) (body line member)
    rw [Bool.eq_false_iff]
    intro closes
    rw [CodeFence.isClosable_of_closes _ line _ parsed closes] at unclosed
    exact absurd unclosed (by decide)
  · rw [closing]
    exact CodeFence.closes_marker ⟨source.fence.lead, source.fence.marker, info⟩ sound.marker

end PanelSource

/-- A segment that is published unless something outside fails. -/
def Segment.Acceptable : Segment → Prop
  | .copied _ => True
  | .enclosed _ => False
  | .preview _ fence _ =>
      ∃ settings, PreviewSettings.ofAttributes (Attributes.ofInfo fence.info).2 = .ok settings

def DocumentError.IsOutside : DocumentError → Prop
  | .fence _ error => error.IsOutside
  | _ => False

namespace Formatter

/-- Publishing the cut of `content` ends well in `runs` and in no others, and only something outside
makes it fail, whatever number its first line has. -/
structure Publishes (formatter : Formatter) (content : List Text)
    (runs : Workspace → Publication → Workspace → Prop) : Prop where
  acceptable : ∀ line, ∀ segment ∈ Segment.cut line content, segment.Acceptable
  ok_iff : ∀ line before publication after,
    formatter.publishSegments (Segment.cut line content) before = .ok publication after ↔
      runs before publication after

theorem process_eq_of_tidy (formatter : Formatter) (input : Text)
    (closed : (Layout.read 1 (Text.lines input)).unterminated = none)
    (tidy : ∀ passage ∈ (Layout.read 1 (Text.lines input)).passages, passage.Tidy) :
    formatter.process input = do
      let publication ← formatter.publishSegments (Segment.cut 1
        ((Layout.read 1 (Text.lines input)).passages.flatMap
          (Passage.linesWith fun source => source.nestedOpening :: source.copied)))
      return { output := Text.assemble input publication.lines
               warnings := []
               previews := publication.previews
               compiled := publication.compiled } := by
  rw [process_eq]
  simp only [closed, Emission.ofPassages_tidy _ tidy]

theorem publishSegments_cons_eq_ok_iff (formatter : Formatter) (segment : Segment) (rest : List Segment)
    (before after : Workspace) (publication : Publication) :
    formatter.publishSegments (segment :: rest) before = .ok publication after ↔
      ∃ first between later, formatter.publishSegment segment before = .ok first between ∧
        formatter.publishSegments rest between = .ok later after ∧ publication = first.append later := by
  simp only [publishSegments, Job.bind_eq_ok_iff, Job.pure_eq_ok_iff]
  constructor
  · rintro ⟨first, between, published, later, _, continued, rfl, rfl⟩
    exact ⟨first, between, later, published, continued, rfl⟩
  · rintro ⟨first, between, later, published, continued, rfl⟩
    exact ⟨first, between, published, later, after, continued, rfl, rfl⟩

theorem publishSegments_copied_eq_ok_iff (formatter : Formatter) (lines : List Text)
    (rest : List Segment) (before after : Workspace) (publication : Publication) :
    formatter.publishSegments (.copied lines :: rest) before = .ok publication after ↔
      ∃ later, formatter.publishSegments rest before = .ok later after ∧
        publication = .append ⟨lines, 0, 0⟩ later := by
  rw [publishSegments_cons_eq_ok_iff]
  simp only [publishSegment, Job.pure_eq_ok_iff]
  constructor
  · rintro ⟨_, _, later, ⟨rfl, rfl⟩, continued, rfl⟩
    exact ⟨later, continued, rfl⟩
  · rintro ⟨later, continued, rfl⟩
    exact ⟨_, before, later, ⟨rfl, rfl⟩, continued, rfl⟩

theorem publishSegments_preview_eq_ok_iff (formatter : Formatter) (line : Nat) (fence : CodeFence)
    (body : List Text) (rest : List Segment) (before after : Workspace) (publication : Publication) :
    formatter.publishSegments (.preview line fence body :: rest) before = .ok publication after ↔
      ∃ rendered between later,
        formatter.render (sourceOf fence body) (Attributes.ofInfo fence.info).2 before =
          .ok rendered between ∧
        formatter.publishSegments rest between = .ok later after ∧
        publication = .append
          ⟨[fence.lead ++ rendered.markup], 1, if rendered.compiled then 1 else 0⟩ later := by
  rw [publishSegments_cons_eq_ok_iff]
  simp only [publishSegment, Job.bind_eq_ok_iff, Job.orFail_eq_ok_iff, Job.pure_eq_ok_iff]
  constructor
  · rintro ⟨_, _, later, ⟨rendered, between, render, rfl, rfl⟩, continued, rfl⟩
    exact ⟨rendered, between, later, render, continued, rfl⟩
  · rintro ⟨rendered, between, later, render, continued, rfl⟩
    exact ⟨_, between, later, ⟨rendered, between, render, rfl, rfl⟩, continued, rfl⟩

theorem publishSegments_error_isOutside (formatter : Formatter) (site : Text)
    (hasSite : formatter.sitePath = some site) (segments : List Segment)
    (acceptable : ∀ segment ∈ segments, segment.Acceptable) (before after : Workspace)
    (error : DocumentError) (failed : formatter.publishSegments segments before = .error error after) :
    error.IsOutside := by
  induction segments generalizing before with
  | nil => exact absurd failed (Job.pure_ne_error _ _ _ _)
  | cons segment rest ih =>
      have later := ih fun other member => acceptable other (List.mem_cons_of_mem _ member)
      have first := acceptable segment (by simp)
      simp only [publishSegments] at failed
      rcases Job.bind_eq_error_cases _ _ _ _ _ failed with stopped | ⟨_, between, _, continued⟩
      · cases segment with
        | copied lines => exact absurd stopped (Job.pure_ne_error _ _ _ _)
        | enclosed line => exact first.elim
        | preview line fence body =>
            obtain ⟨settings, accepted⟩ := first
            simp only [publishSegment] at stopped
            rcases Job.bind_eq_error_cases _ _ _ _ _ stopped with rendering | ⟨_, _, _, last⟩
            · obtain ⟨cause, render, rfl⟩ := Job.orFail_eq_error _ _ _ _ _ rendering
              exact formatter.render_error_isOutside _ site _ settings accepted hasSite _ _ cause render
            · exact absurd last (Job.pure_ne_error _ _ _ _)
      · rcases Job.bind_eq_error_cases _ _ _ _ _ continued with remaining | ⟨_, _, _, last⟩
        · exact later between remaining
        · exact absurd last (Job.pure_ne_error _ _ _ _)

variable (formatter : Formatter) (rest : List Text) (runs : Workspace → Publication → Workspace → Prop)

theorem Publishes.congr {formatter : Formatter} {content : List Text}
    {runs others : Workspace → Publication → Workspace → Prop} (published : formatter.Publishes content runs)
    (same : ∀ before publication after, runs before publication after ↔ others before publication after) :
    formatter.Publishes content others where
  acceptable := published.acceptable
  ok_iff line before publication after :=
    (published.ok_iff line before publication after).trans (same before publication after)

theorem publishes_nil :
    formatter.Publishes [] fun before publication after => publication = .empty ∧ after = before := by
  constructor
  · intro line
    simp [Segment.cut]
  · intro line before publication after
    rw [Segment.cut, publishSegments, Job.pure_eq_ok_iff]
    exact and_congr eq_comm eq_comm

theorem publishes_front (front : List Text) (plain : ∀ line ∈ front, CodeFence.parse? line = none)
    (continued : formatter.Publishes rest runs) :
    formatter.Publishes (front ++ rest) fun before publication after =>
      ∃ later, runs before later after ∧ publication = .append ⟨front, 0, 0⟩ later := by
  induction front with
  | nil =>
      refine ⟨continued.acceptable, ?_⟩
      intro line before publication after
      simp [continued.ok_iff line before publication after, Publication.append]
  | cons first more ih =>
      have published := ih fun line member => plain line (List.mem_cons_of_mem _ member)
      have cut := fun line => Segment.cut_plain line first (more ++ rest) (plain first (by simp))
      constructor
      · intro line
        rw [List.cons_append, cut]
        exact List.forall_mem_cons.mpr ⟨trivial, published.acceptable (line + 1)⟩
      · intro line before publication after
        rw [List.cons_append, cut, publishSegments_copied_eq_ok_iff]
        simp only [published.ok_iff (line + 1) before _ after]
        constructor
        · rintro ⟨_, ⟨later, ran, rfl⟩, rfl⟩
          exact ⟨later, ran, by simp [Publication.append]⟩
        · rintro ⟨later, ran, rfl⟩
          exact ⟨_, ⟨later, ran, rfl⟩, by simp [Publication.append]⟩

theorem publishes_block (opening closing : Text) (fence : CodeFence) (body : List Text)
    (opens : CodeFence.parse? opening = some fence) (foreign : fence.isPreview = false)
    (continues : ∀ line ∈ body, fence.closes line = false) (closed : fence.closes closing = true)
    (silent : ∀ line ∈ body, opensPreview line = false) (continued : formatter.Publishes rest runs) :
    formatter.Publishes (opening :: (body ++ closing :: rest)) fun before publication after =>
      ∃ later, runs before later after ∧
        publication = .append ⟨opening :: body ++ [closing], 0, 0⟩ later := by
  have cut := fun line => Segment.cut_block line _ _ _ _ _ _ opens
    (Segment.splitAtClosing?_append _ _ rest _ continues closed) (by simp [foreign])
  simp only [(firstPreview?_eq_none_iff _ _).mpr silent] at cut
  constructor
  · intro line
    rw [cut]
    exact List.forall_mem_cons.mpr ⟨trivial, continued.acceptable _⟩
  · intro line before publication after
    rw [cut, publishSegments_copied_eq_ok_iff]
    simp only [continued.ok_iff _ before _ after]

theorem publishes_preview (opening closing : Text) (fence : CodeFence) (body : List Text)
    (opens : CodeFence.parse? opening = some fence) (preview : fence.isPreview = true)
    (continues : ∀ line ∈ body, fence.closes line = false) (closed : fence.closes closing = true)
    (settings : PreviewSettings)
    (accepted : PreviewSettings.ofAttributes (Attributes.ofInfo fence.info).2 = .ok settings)
    (continued : formatter.Publishes rest runs) :
    formatter.Publishes (opening :: (body ++ closing :: rest)) fun before publication after =>
      ∃ rendered between later,
        formatter.render (sourceOf fence body) (Attributes.ofInfo fence.info).2 before =
          .ok rendered between ∧
        runs between later after ∧
        publication = .append
          ⟨[fence.lead ++ rendered.markup], 1, if rendered.compiled then 1 else 0⟩ later := by
  have cut := fun line => Segment.cut_preview line _ _ _ _ _ _ opens
    (Segment.splitAtClosing?_append _ _ rest _ continues closed) preview
  constructor
  · intro line
    rw [cut]
    exact List.forall_mem_cons.mpr ⟨⟨settings, accepted⟩, continued.acceptable _⟩
  · intro line before publication after
    rw [cut, publishSegments_preview_eq_ok_iff]
    simp only [continued.ok_iff _ _ _ after]

def requestDocument (settings : PreviewRequest → PreviewSettings) (request : PreviewRequest) :
    Variant → Text :=
  formatter.document (settings request) request.source

def requestImages (settings : PreviewRequest → PreviewSettings) (site : Text) (request : PreviewRequest) :
    Text :=
  let name := fingerprint (formatter.requestDocument settings request .light)
  Markup.imagePair (url site name .light) (url site name .dark)

/-- The line that stands in a panel for its preview block. -/
def imageLine (settings : PreviewRequest → PreviewSettings) (site : Text) (source : PanelSource) : Text :=
  source.fence.lead ++ formatter.requestImages settings site source.request

/-- A panel with its images, put together from what is published for its parts. -/
theorem append_around (settings : PreviewRequest → PreviewSettings) (site : Text) (source : PanelSource)
    (ran : Bool) (later : Publication) :
    Publication.append ⟨source.around [formatter.imageLine settings site source], 1,
        if ran then 1 else 0⟩ later =
      .append ⟨[source.wrapper], 0, 0⟩ (.append ⟨source.bareOpening :: source.body ++ [source.closing], 0, 0⟩
        (.append ⟨source.itemLines ++ [source.divider], 0, 0⟩
          (.append ⟨[source.block.lead ++ (renderedAs site
              (formatter.requestDocument settings source.request) ran).markup], 1,
              if ran then 1 else 0⟩
            (.append ⟨source.after, 0, 0⟩ later)))) := by
  simp [Publication.append, PanelSource.around, PanelSource.copied, PanelSource.after, imageLine,
    requestImages, RenderedPreview.markup, renderedAs, PanelSource.block]

/-- A tidy panel is published with its images for its preview block. -/
theorem publishes_panel (settings : PreviewRequest → PreviewSettings) (site : Text)
    (source : PanelSource) (tidy : (Passage.panel source).Tidy)
    (own : ∀ line ∈ (Passage.panel source).own, '\n' ∉ line)
    (accepted : PreviewSettings.ofAttributes source.fence.declared = .ok (settings source.request))
    (hasSite : formatter.sitePath = some site) (continued : formatter.Publishes rest runs) :
    formatter.Publishes (source.around (source.nestedOpening :: source.copied) ++ rest)
      fun before publication after => ∃ ran between later,
        formatter.Undisturbed [formatter.requestDocument settings source.request] before [ran] between ∧
        runs between later after ∧
        publication = .append
          ⟨source.around [formatter.imageLine settings site source], 1, if ran then 1 else 0⟩ later := by
  obtain ⟨nested, continues, ends⟩ :=
    PanelSource.opens_nestedOpening source tidy (own _ (by simp [Passage.own]))
  obtain ⟨fence, bare, foreign, bareContinues, bareEnds⟩ := PanelSource.opens_bareOpening source tidy own
  obtain ⟨sound, plain, _, body⟩ := tidy
  have unfenced : ∀ content : List Text, (∀ line ∈ content, isUnfenced line = true) →
      ∀ line ∈ content, CodeFence.parse? line = none := fun content all line member =>
    CodeFence.parse?_of_isUnfenced line (all line member)
  have silent : ∀ line ∈ source.body, opensPreview line = false :=
    fun line member => by simp [opensPreview, body line member]
  have decoded : (Attributes.ofInfo source.block.info).2 = source.fence.declared :=
    DirectiveFence.ofInfo_nestedInfo_declared _ sound.language plain.quotes plain.spaced
  -- The parts of the panel from its end to its beginning.
  have tail := formatter.publishes_front rest runs source.after
    (unfenced _ (PanelSource.isUnfenced_after source sound)) continued
  have preview := formatter.publishes_preview (source.after ++ rest) _
    source.nestedOpening source.closing source.block source.body nested
    (PanelSource.isPreview_block source) continues ends _ (decoded ▸ accepted) tail
  have items := formatter.publishes_front _ _ _
    (unfenced _ (PanelSource.isUnfenced_between source sound)) preview
  have block := formatter.publishes_block _ _ source.bareOpening source.closing fence source.body
    bare foreign bareContinues bareEnds silent items
  have whole := formatter.publishes_front _ _ [source.wrapper]
    (unfenced _ (by simpa using PanelSource.isUnfenced_wrapper source sound)) block
  have content : source.around (source.nestedOpening :: source.copied) ++ rest =
      [source.wrapper] ++ source.bareOpening :: (source.body ++ source.closing ::
        (source.itemLines ++ [source.divider] ++ source.nestedOpening ::
          (source.body ++ source.closing :: (source.after ++ rest)))) := by
    simp [PanelSource.around, PanelSource.copied, PanelSource.after]
  rw [content]
  refine whole.congr fun before publication after => ?_
  rw [decoded]
  simp only [formatter.render_eq_ok_iff _ site _ _ accepted hasSite]
  constructor
  · rintro ⟨_, ⟨_, ⟨_, ⟨_, between, _, ⟨ran, rfl, undisturbed⟩, ⟨later, continuing, rfl⟩, rfl⟩, rfl⟩, rfl⟩,
      rfl⟩
    exact ⟨ran, between, later, undisturbed, continuing, (formatter.append_around _ _ _ ran later).symm⟩
  · rintro ⟨ran, between, later, undisturbed, continuing, rfl⟩
    exact ⟨_, ⟨_, ⟨_, ⟨_, between, _, ⟨ran, rfl, undisturbed⟩, ⟨later, continuing, rfl⟩, rfl⟩, rfl⟩, rfl⟩,
      formatter.append_around _ _ _ ran later⟩

theorem append_panel (image : PanelSource → List Text) (source : PanelSource) (others : List Passage)
    (stop : Option ScanError) (ran : Bool) (more : List Bool) :
    Publication.append ⟨source.around (image source), 1, if ran then 1 else 0⟩
        ⟨others.flatMap (Passage.linesWith image), (Layout.panels ⟨others, stop⟩).length, more.count true⟩ =
      ⟨(Passage.panel source :: others).flatMap (Passage.linesWith image),
        (Layout.panels ⟨.panel source :: others, stop⟩).length, (ran :: more).count true⟩ := by
  cases ran <;> simp [Publication.append, Passage.linesWith, Layout.panels, Nat.add_comm]

/-- Tidy passages are published with images for their preview blocks, in order, and only a failure
outside stops this. -/
theorem publishes_passages (settings : PreviewRequest → PreviewSettings) (site : Text)
    (hasSite : formatter.sitePath = some site) (passages : List Passage) (stop : Option ScanError)
    (tidy : ∀ passage ∈ passages, passage.Tidy)
    (own : ∀ passage ∈ passages, ∀ line ∈ passage.own, '\n' ∉ line)
    (accepted : ∀ source, Passage.panel source ∈ passages →
      PreviewSettings.ofAttributes source.fence.declared = .ok (settings source.request)) :
    formatter.Publishes
      (passages.flatMap (Passage.linesWith fun source => source.nestedOpening :: source.copied))
      fun before publication after => ∃ flags,
        formatter.Undisturbed ((Layout.panels ⟨passages, stop⟩).map fun source =>
          formatter.requestDocument settings source.request) before flags after ∧
        publication =
          ⟨passages.flatMap (Passage.linesWith fun source => [formatter.imageLine settings site source]),
            (Layout.panels ⟨passages, stop⟩).length, flags.count true⟩ := by
  induction passages with
  | nil =>
      refine formatter.publishes_nil.congr fun before publication after => ?_
      constructor
      · rintro ⟨rfl, rfl⟩
        exact ⟨[], .nil _, rfl⟩
      · rintro ⟨flags, undisturbed, rfl⟩
        cases undisturbed with
        | nil => exact ⟨rfl, rfl⟩
  | cons passage others ih =>
      have later := ih (fun other member => tidy other (List.mem_cons_of_mem _ member))
        (fun other member => own other (List.mem_cons_of_mem _ member))
        (fun source member => accepted source (List.mem_cons_of_mem _ member))
      cases passage with
      | plain line content =>
          have quiet : ∀ other ∈ [content], CodeFence.parse? other = none := by
            intro other member
            rw [List.mem_singleton.mp member]
            exact (tidy (.plain line content) (by simp)).1
          have published := formatter.publishes_front _ _ [content] quiet later
          refine published.congr fun before publication after => ?_
          constructor
          · rintro ⟨_, ⟨flags, undisturbed, rfl⟩, rfl⟩
            exact ⟨flags, undisturbed, by simp [Publication.append, Passage.linesWith, Layout.panels]⟩
          · rintro ⟨flags, undisturbed, rfl⟩
            exact ⟨_, ⟨flags, undisturbed, rfl⟩,
              by simp [Publication.append, Passage.linesWith, Layout.panels]⟩
      | panel source =>
          have published := formatter.publishes_panel _ _ settings site source
            (tidy (.panel source) (by simp)) (own (.panel source) (by simp)) (accepted source (by simp))
            hasSite later
          have joined := append_panel (fun source => [formatter.imageLine settings site source]) source
            others stop
          refine published.congr fun before publication after => ?_
          constructor
          · rintro ⟨ran, between, _, first, ⟨more, remaining, rfl⟩, rfl⟩
            exact ⟨ran :: more, (formatter.undisturbed_cons_iff _ _ _ _ _).mpr
              ⟨ran, more, between, rfl, first, remaining⟩, joined ran more⟩
          · rintro ⟨flags, undisturbed, rfl⟩
            obtain ⟨ran, more, middle, rfl, first, remaining⟩ :=
              (formatter.undisturbed_cons_iff _ _ _ _ _).mp undisturbed
            exact ⟨ran, middle, _, first, ⟨more, remaining, rfl⟩, (joined ran more).symm⟩

end Formatter

end FencePreview
