import FencePreview.Proofs.Walk

/-! The second pass, stretch by stretch. A scanned document falls into lines outside blocks, closed
blocks and perhaps a last block that nothing closes. Images take the place of closed preview blocks,
every other stretch is copied, and the first stretch that can be neither rendered nor copied fails
the document. -/

namespace FencePreview

/-- What the walk over a scanned document steps over at once. -/
inductive Stretch where
  | line (content : Text)
  | closed (fence : CodeFence) (opening : Text) (body : List Text) (closing : Text)
  /-- A block that runs to the end of the document. -/
  | unclosed (opening : Text) (rest : List Text)
deriving DecidableEq, Repr

namespace Stretch

def lines : Stretch → List Text
  | .line content => [content]
  | .closed _ opening body closing => opening :: body ++ [closing]
  | .unclosed opening rest => opening :: rest

def isPreview : Stretch → Bool
  | .closed fence _ _ _ => fence.isPreview
  | _ => false

/-- Steps over a line that opens no block, and else over the block up to its closing line. -/
def read : List Text → List Stretch
  | [] => []
  | opening :: rest =>
      match CodeFence.parse? opening with
      | none => .line opening :: read rest
      | some fence =>
          match _found : Segment.splitAtClosing? fence.closes rest with
          | none => [.unclosed opening rest]
          | some (body, closing, after) => .closed fence opening body closing :: read after
termination_by content => content.length
decreasing_by
  all_goals simp_wf
  all_goals
    have size := Segment.splitAtClosing?_length _ _ _ _ _ _found
    omega

theorem read_line (opening : Text) (rest : List Text) (plain : CodeFence.parse? opening = none) :
    read (opening :: rest) = .line opening :: read rest := by
  rw [read]
  simp only [plain]

theorem read_unclosed (opening : Text) (rest : List Text) (fence : CodeFence)
    (opens : CodeFence.parse? opening = some fence)
    (missing : Segment.splitAtClosing? fence.closes rest = none) :
    read (opening :: rest) = [.unclosed opening rest] := by
  rw [read]
  simp only [opens]
  split
  · rfl
  · rename_i found
    simp [missing] at found

theorem read_closed (opening : Text) (rest : List Text) (fence : CodeFence) (body after : List Text)
    (closing : Text) (opens : CodeFence.parse? opening = some fence)
    (found : Segment.splitAtClosing? fence.closes rest = some (body, closing, after)) :
    read (opening :: rest) = .closed fence opening body closing :: read after := by
  rw [read]
  simp only [opens]
  split
  · rename_i missing
    simp [found] at missing
  · rename_i other
    simp only [found, Option.some.injEq, Prod.mk.injEq] at other
    obtain ⟨rfl, rfl, rfl⟩ := other
    rfl

theorem read_lines (content : List Text) : (read content).flatMap lines = content := by
  induction content using read.induct with
  | case1 => simp [read]
  | case2 opening rest plain ih =>
      rw [read_line _ _ plain, List.flatMap_cons, ih]
      rfl
  | case3 opening rest fence opens missing =>
      rw [read_unclosed _ _ _ opens missing]
      simp [lines]
  | case4 opening rest fence opens body closing after found ih =>
      rw [read_closed _ _ _ _ _ _ opens found, List.flatMap_cons, ih,
        (Segment.splitAtClosing?_parts _ _ _ _ _ found).1]
      simp [lines]

/-- What the walk finds where it stands. -/
structure Sound (stretch : Stretch) : Prop where
  outside : ∀ content, stretch = .line content → CodeFence.parse? content = none
  block : ∀ fence opening body closing, stretch = .closed fence opening body closing →
    CodeFence.parse? opening = some fence ∧ fence.closes closing = true

theorem read_sound (content : List Text) (stretch : Stretch) (member : stretch ∈ read content) :
    stretch.Sound := by
  induction content using read.induct with
  | case1 => simp [read] at member
  | case2 opening rest plain ih =>
      rw [read_line _ _ plain] at member
      rcases List.mem_cons.mp member with rfl | later
      · refine ⟨?_, ?_⟩
        · rintro content same
          cases same
          exact plain
        · rintro fence opening body closing same
          cases same
      · exact ih later
  | case3 opening rest fence opens missing =>
      rw [read_unclosed _ _ _ opens missing, List.mem_singleton] at member
      subst member
      exact ⟨by simp, by simp⟩
  | case4 opening rest fence opens body closing after found ih =>
      rw [read_closed _ _ _ _ _ _ opens found] at member
      rcases List.mem_cons.mp member with rfl | later
      · refine ⟨by simp, ?_⟩
        rintro other first inner last same
        cases same
        exact ⟨opens, (Segment.splitAtClosing?_parts _ _ _ _ _ found).2.2⟩
      · exact ih later

/-- In a closed block a preview can open on the first line and on those of the body. -/
theorem mem_of_opensPreview (fence : CodeFence) (opening : Text) (body : List Text) (closing line : Text)
    (sound : (closed fence opening body closing).Sound)
    (member : line ∈ (closed fence opening body closing).lines) (opens : opensPreview line = true) :
    line ∈ opening :: body := by
  obtain ⟨parsed, closes⟩ := sound.block _ _ _ _ rfl
  simp only [lines, List.mem_append, List.mem_singleton] at member
  rcases member with inside | rfl
  · exact inside
  · have shut := opensPreview_eq_false_of_isClosable _
      (CodeFence.isClosable_of_closes opening _ fence parsed closes)
    rw [shut] at opens
    exact absurd opens (by decide)

/-- What becomes of a stretch whose first line has the number `line`. -/
def segment (line : Nat) : Stretch → Segment
  | .line content => .copied [content]
  | .closed fence opening body closing =>
      if fence.isPreview then .preview line fence body
      else
        match Segment.firstPreview? (line + 1) body with
        | some inner => .enclosed inner
        | none => .copied (opening :: body ++ [closing])
  | .unclosed opening rest =>
      match Segment.firstPreview? line (opening :: rest) with
      | some inner => .enclosed inner
      | none => .copied (opening :: rest)

def segments (line : Nat) : List Stretch → List Segment
  | [] => []
  | stretch :: rest =>
      match stretch.segment line with
      | .enclosed inner => [.enclosed inner]
      | other => other :: segments (line + stretch.lines.length) rest

theorem cut_eq_segments (line : Nat) (content : List Text) :
    Segment.cut line content = segments line (read content) := by
  induction line, content using Segment.cut.induct with
  | case1 line => simp [Segment.cut, read, segments]
  | case2 line opening rest plain ih =>
      rw [Segment.cut_plain _ _ _ plain, read_line _ _ plain, ih]
      rfl
  | case3 line opening rest fence opens missing inner hidden =>
      rw [Segment.cut_unclosed _ _ _ _ opens missing, read_unclosed _ _ _ opens missing]
      simp [segments, segment, hidden]
  | case4 line opening rest fence opens missing silent =>
      rw [Segment.cut_unclosed _ _ _ _ opens missing, read_unclosed _ _ _ opens missing]
      simp [segments, segment, silent]
  | case5 line opening rest fence opens body closing after found preview ih =>
      rw [Segment.cut_preview _ _ _ _ _ _ _ opens found preview, read_closed _ _ _ _ _ _ opens found, ih]
      simp [segments, segment, preview, lines, Nat.add_assoc]
  | case6 line opening rest fence opens body closing after found foreign inner hidden =>
      rw [Segment.cut_block _ _ _ _ _ _ _ opens found foreign, read_closed _ _ _ _ _ _ opens found]
      simp [segments, segment, foreign, hidden]
  | case7 line opening rest fence opens body closing after found foreign silent ih =>
      rw [Segment.cut_block _ _ _ _ _ _ _ opens found foreign, read_closed _ _ _ _ _ _ opens found, silent,
        ih]
      simp [segments, segment, foreign, silent, lines, Nat.add_assoc]

end Stretch

theorem firstPreview?_eq_some_iff (line number : Nat) (content : List Text) :
    Segment.firstPreview? line content = some number ↔
      ∃ front opening back, content = front ++ opening :: back ∧
        (∀ other ∈ front, opensPreview other = false) ∧ opensPreview opening = true ∧
        number = line + front.length := by
  induction content generalizing line with
  | nil => simp [Segment.firstPreview?]
  | cons first rest ih =>
      simp only [Segment.firstPreview?]
      by_cases opens : opensPreview first = true
      · rw [if_pos opens]
        constructor
        · intro same
          exact ⟨[], first, rest, rfl, by simp, opens, (Option.some.inj same).symm⟩
        · rintro ⟨front, opening, back, parts, silent, _, rfl⟩
          cases front with
          | nil => simp
          | cons other more =>
              obtain ⟨rfl, _⟩ := List.cons.inj parts
              rw [silent first (by simp)] at opens
              exact absurd opens (by decide)
      · rw [if_neg opens, ih]
        constructor
        · rintro ⟨front, opening, back, rfl, silent, opened, rfl⟩
          refine ⟨first :: front, opening, back, rfl, ?_, opened, ?_⟩
          · intro other member
            rcases List.mem_cons.mp member with rfl | later
            · exact Bool.eq_false_iff.mpr opens
            · exact silent other later
          · simp only [List.length_cons]
            omega
        · rintro ⟨front, opening, back, parts, silent, opened, rfl⟩
          cases front with
          | nil =>
              obtain ⟨rfl, _⟩ := List.cons.inj parts
              exact absurd opened opens
          | cons other more =>
              obtain ⟨_, rfl⟩ := List.cons.inj parts
              refine ⟨more, opening, back, rfl, fun line member => silent line (by simp [member]), opened, ?_⟩
              simp only [List.length_cons]
              omega

namespace Formatter

variable (formatter : Formatter)

/-- What stands in the output for a stretch, and what is rendered for it. -/
inductive Stands : Stretch → Workspace → List Text → List RenderedPreview → Workspace → Prop
  | copied (stretch : Stretch) (workspace : Workspace) (kept : stretch.isPreview = false)
      (silent : ∀ line ∈ stretch.lines, opensPreview line = false) :
      Stands stretch workspace stretch.lines [] workspace
  | replaced (fence : CodeFence) (opening : Text) (body : List Text) (closing : Text)
      (before after : Workspace) (rendered : RenderedPreview) (preview : fence.isPreview = true)
      (finished : formatter.render (sourceOf fence body) (Attributes.ofInfo fence.info).2 before =
        .ok rendered after) :
      Stands (.closed fence opening body closing) before [fence.lead ++ rendered.markup] [rendered] after

/-- Stretches one after the other, each from the workspace that the one before it leaves. -/
inductive Shown : List Stretch → Workspace → List Text → List RenderedPreview → Workspace → Prop
  | nil (workspace : Workspace) : Shown [] workspace [] [] workspace
  | cons (stretch : Stretch) (rest : List Stretch) (before between after : Workspace)
      (first later : List Text) (rendered more : List RenderedPreview)
      (stands : formatter.Stands stretch before first rendered between)
      (others : Shown rest between later more after) :
      Shown (stretch :: rest) before (first ++ later) (rendered ++ more) after

/-- How a stretch fails the document if its first line has the number `line`. -/
inductive Stops : Nat → Stretch → Workspace → DocumentError → Workspace → Prop
  | enclosed (line : Nat) (stretch : Stretch) (workspace : Workspace) (front back : List Text)
      (opening : Text) (kept : stretch.isPreview = false) (parts : stretch.lines = front ++ opening :: back)
      (silent : ∀ other ∈ front, opensPreview other = false) (opens : opensPreview opening = true) :
      Stops line stretch workspace (.unrendered (line + front.length)) workspace
  | fence (line : Nat) (fence : CodeFence) (opening : Text) (body : List Text) (closing : Text)
      (before after : Workspace) (error : PreviewError) (preview : fence.isPreview = true)
      (failed : formatter.render (sourceOf fence body) (Attributes.ofInfo fence.info).2 before =
        .error error after) :
      Stops line (.closed fence opening body closing) before (.fence line error) after

/-- What the counts of a publication say about the previews rendered for it. -/
def counted (lines : List Text) (rendered : List RenderedPreview) : Publication :=
  ⟨lines, rendered.length, rendered.countP RenderedPreview.compiled⟩

theorem counted_append (first later : List Text) (rendered more : List RenderedPreview) :
    (counted first rendered).append (counted later more) = counted (first ++ later) (rendered ++ more) := by
  simp [counted, Publication.append]

/-- A stretch that is not a preview block is copied, or holds a preview that nothing will render. -/
theorem segment_of_kept (line : Nat) (stretch : Stretch) (sound : stretch.Sound)
    (kept : stretch.isPreview = false) :
    (stretch.segment line = .copied stretch.lines ∧
        ∀ other ∈ stretch.lines, opensPreview other = false) ∨
      ∃ front opening back, stretch.segment line = .enclosed (line + front.length) ∧
        stretch.lines = front ++ opening :: back ∧
        (∀ other ∈ front, opensPreview other = false) ∧ opensPreview opening = true := by
  cases stretch with
  | line content =>
      left
      refine ⟨rfl, ?_⟩
      intro other member
      rw [List.mem_singleton.mp member]
      simp [opensPreview, sound.outside content rfl]
  | closed fence opening body closing =>
      have foreign : ¬fence.isPreview = true := Bool.eq_false_iff.mp kept
      obtain ⟨parsed, closes⟩ := sound.block _ _ _ _ rfl
      have quiet : opensPreview opening = false := by
        simpa [opensPreview, parsed, Stretch.isPreview] using kept
      cases hidden : Segment.firstPreview? (line + 1) body with
      | none =>
          left
          refine ⟨by simp [Stretch.segment, Stretch.lines, foreign, hidden], ?_⟩
          intro other member
          rw [Bool.eq_false_iff]
          intro opens
          rcases List.mem_cons.mp (Stretch.mem_of_opensPreview _ _ _ _ _ sound member opens) with rfl | inside
          · rw [quiet] at opens
            exact absurd opens (by decide)
          · rw [(firstPreview?_eq_none_iff _ _).mp hidden other inside] at opens
            exact absurd opens (by decide)
      | some inner =>
          right
          obtain ⟨front, found, back, parts, silent, opens, rfl⟩ :=
            (firstPreview?_eq_some_iff _ _ _).mp hidden
          refine ⟨opening :: front, found, back ++ [closing], ?_, ?_, ?_, opens⟩
          · simp only [Stretch.segment, foreign, hidden, List.length_cons]
            simp [Nat.add_assoc, Nat.add_comm 1]
          · simp [Stretch.lines, parts]
          · intro other member
            rcases List.mem_cons.mp member with rfl | inside
            · exact quiet
            · exact silent other inside
  | unclosed opening rest =>
      cases hidden : Segment.firstPreview? line (opening :: rest) with
      | none =>
          left
          exact ⟨by simp [Stretch.segment, Stretch.lines, hidden], (firstPreview?_eq_none_iff _ _).mp hidden⟩
      | some inner =>
          right
          obtain ⟨front, found, back, parts, silent, opens, rfl⟩ :=
            (firstPreview?_eq_some_iff _ _ _).mp hidden
          exact ⟨front, found, back, by simp [Stretch.segment, hidden], parts, silent, opens⟩

/-- One stretch: it stands in the output, or it stops the pass. -/
theorem publishSegment_stretch (line : Nat) (stretch : Stretch) (sound : stretch.Sound)
    (before : Workspace) :
    match formatter.publishSegment (stretch.segment line) before with
    | .ok publication after => ∃ lines rendered,
        formatter.Stands stretch before lines rendered after ∧ publication = counted lines rendered
    | .error error after => formatter.Stops line stretch before error after := by
  cases kept : stretch.isPreview with
  | false =>
      rcases segment_of_kept line stretch sound kept with
        ⟨copied, silent⟩ | ⟨front, opening, back, enclosed, parts, silent, opens⟩
      · rw [copied]
        exact ⟨stretch.lines, [], .copied stretch before kept silent, rfl⟩
      · rw [enclosed]
        exact .enclosed line stretch before front back opening kept parts silent opens
  | true =>
      cases stretch with
      | line content => exact absurd kept (by simp [Stretch.isPreview])
      | unclosed opening rest => exact absurd kept (by simp [Stretch.isPreview])
      | closed fence opening body closing =>
          have preview : fence.isPreview = true := kept
          simp only [Stretch.segment, preview, if_true]
          split
          · rename_i publication after finished
            obtain ⟨rendered, between, rendering, last⟩ := (Job.bind_eq_ok_iff _ _ _ _ _).mp finished
            obtain ⟨rfl, rfl⟩ := (Job.pure_eq_ok_iff _ _ _ _).mp last
            rw [Job.orFail_eq_ok_iff] at rendering
            refine ⟨_, _, .replaced fence opening body closing before between rendered preview rendering, ?_⟩
            cases ran : rendered.compiled <;> simp [counted, ran]
          · rename_i error after stopped
            rcases Job.bind_eq_error_cases _ _ _ _ _ stopped with rendering | ⟨_, _, _, last⟩
            · obtain ⟨cause, failed, rfl⟩ := Job.orFail_eq_error _ _ _ _ _ rendering
              exact .fence line fence opening body closing before after cause preview failed
            · exact absurd last (Job.pure_ne_error _ _ _ _)

theorem segments_of_stands (line : Nat) (stretch : Stretch) (rest : List Stretch) (before after : Workspace)
    (publication : Publication)
    (finished : formatter.publishSegment (stretch.segment line) before = .ok publication after) :
    Stretch.segments line (stretch :: rest) =
      stretch.segment line :: Stretch.segments (line + stretch.lines.length) rest := by
  rw [Stretch.segments]
  split
  · rename_i inner enclosed
    rw [enclosed] at finished
    exact absurd finished (Job.throw_ne_ok _ _ _ _)
  · rfl

theorem publishSegments_eq_error (line : Nat) (stretch : Stretch) (rest : List Stretch)
    (before after : Workspace) (error : DocumentError)
    (stopped : formatter.publishSegment (stretch.segment line) before = .error error after) :
    formatter.publishSegments (Stretch.segments line (stretch :: rest)) before = .error error after := by
  rw [Stretch.segments]
  split
  · rename_i inner enclosed
    rw [enclosed] at stopped
    exact Job.bind_of_error _ _ _ _ _ stopped
  · exact Job.bind_of_error _ _ _ _ _ stopped

/-- Stretches in order: all of them stand in the output, or one stops the pass and those before it
stand. -/
theorem publishSegments_stretches (line : Nat) (stretches : List Stretch)
    (sound : ∀ stretch ∈ stretches, stretch.Sound) (before : Workspace) :
    match formatter.publishSegments (Stretch.segments line stretches) before with
    | .ok publication after => ∃ lines rendered,
        formatter.Shown stretches before lines rendered after ∧ publication = counted lines rendered
    | .error error after => ∃ earlier stretch later lines rendered between,
        stretches = earlier ++ stretch :: later ∧ formatter.Shown earlier before lines rendered between ∧
        formatter.Stops (line + (earlier.flatMap Stretch.lines).length) stretch between error after := by
  induction stretches generalizing line before with
  | nil => exact ⟨[], [], .nil before, rfl⟩
  | cons stretch rest ih =>
      have step := formatter.publishSegment_stretch line stretch (sound stretch (by simp)) before
      cases first : formatter.publishSegment (stretch.segment line) before with
      | error error after =>
          rw [first] at step
          rw [formatter.publishSegments_eq_error line stretch rest before after error first]
          exact ⟨[], stretch, rest, [], [], before, rfl, .nil before, step⟩
      | ok publication between =>
          rw [first] at step
          obtain ⟨lines, rendered, stands, rfl⟩ := step
          have remaining := ih (line + stretch.lines.length)
            (fun other member => sound other (List.mem_cons_of_mem _ member)) between
          rw [formatter.segments_of_stands line stretch rest before between _ first, publishSegments,
            Job.bind_of_ok _ _ _ _ _ first]
          split at remaining
          · rename_i later after continued
            obtain ⟨more, others, shown, rfl⟩ := remaining
            rw [Job.bind_of_ok _ _ _ _ _ continued]
            exact ⟨_, _, .cons stretch rest before between after _ _ _ _ stands shown,
              counted_append lines more rendered others⟩
          · rename_i error after stopped
            obtain ⟨earlier, other, later, more, others, middle, parts, shown, stops⟩ := remaining
            rw [Job.bind_of_error _ _ _ _ _ stopped]
            refine ⟨stretch :: earlier, other, later, _, _, middle, by rw [parts, List.cons_append],
              .cons stretch earlier before between middle _ _ _ _ stands shown, ?_⟩
            rw [List.flatMap_cons, List.length_append, ← Nat.add_assoc]
            exact stops

variable {formatter}

theorem Shown.stands_of_mem {stretches : List Stretch} {before after : Workspace} {lines : List Text}
    {rendered : List RenderedPreview} (shown : formatter.Shown stretches before lines rendered after)
    (stretch : Stretch) (member : stretch ∈ stretches) :
    ∃ start written made stop, formatter.Stands stretch start written made stop := by
  induction shown with
  | nil workspace => simp at member
  | cons first rest before between after written more made others stands later ih =>
      rcases List.mem_cons.mp member with rfl | inside
      · exact ⟨_, _, _, _, stands⟩
      · exact ih inside

/-- Where all stretches stand, a preview opens only in those that images take the place of. -/
theorem Shown.replaced_of_opensPreview {content : List Text} {before after : Workspace}
    {lines : List Text} {rendered : List RenderedPreview}
    (shown : formatter.Shown (Stretch.read content) before lines rendered after) (stretch : Stretch)
    (member : stretch ∈ Stretch.read content) (line : Text) (inside : line ∈ stretch.lines)
    (opens : opensPreview line = true) :
    ∃ fence opening body closing, stretch = .closed fence opening body closing ∧
      fence.isPreview = true ∧ line ∈ opening :: body := by
  obtain ⟨_, _, _, _, stands⟩ := shown.stands_of_mem stretch member
  cases stands with
  | copied _ _ kept silent =>
      rw [silent line inside] at opens
      exact absurd opens (by decide)
  | replaced fence opening body closing _ _ made preview finished =>
      refine ⟨fence, opening, body, closing, rfl, preview, ?_⟩
      exact Stretch.mem_of_opensPreview _ _ _ _ _ (Stretch.read_sound content _ member) inside opens

variable (formatter)

theorem process_eq_of_scan (input : Text) (content : List Text)
    (scanned : (Scanner.new.scanLines (Text.lines input)).2 = .ok content) :
    formatter.process input = (do
      let publication ← formatter.publishSegments (Stretch.segments 1 (Stretch.read content))
      return { output := Text.assemble input publication.lines
               warnings := (Scanner.new.scanLines (Text.lines input)).1.warnings
               previews := publication.previews
               compiled := publication.compiled }) := by
  simp only [process, ← Stretch.cut_eq_segments]
  rw [scanned]

/-- A document without panels, by its segments. -/
theorem process_eq_of_cut (input : Text) (segments : List Segment)
    (plain : (Scanner.new.scanLines (Text.lines input)).2 = .ok (Text.lines input))
    (cut : Segment.cut 1 (Text.lines input) = segments) :
    formatter.process input = (do
      let publication ← formatter.publishSegments segments
      return { output := Text.assemble input publication.lines
               warnings := (Scanner.new.scanLines (Text.lines input)).1.warnings
               previews := publication.previews
               compiled := publication.compiled }) := by
  rw [formatter.process_eq_of_scan input _ plain, ← Stretch.cut_eq_segments, cut]

theorem shown_of_process (input : Text) (before after : Workspace) (document : ProcessedDocument)
    (finished : formatter.process input before = .ok document after) :
    ∃ content lines rendered, (Scanner.new.scanLines (Text.lines input)).2 = .ok content ∧
      formatter.Shown (Stretch.read content) before lines rendered after ∧
      document =
        { output := Text.assemble input lines
          warnings := (Scanner.new.scanLines (Text.lines input)).1.warnings
          previews := rendered.length
          compiled := rendered.countP RenderedPreview.compiled } := by
  cases scanned : (Scanner.new.scanLines (Text.lines input)).2 with
  | error error =>
      simp only [process] at finished
      rw [scanned] at finished
      exact absurd finished (Job.throw_ne_ok _ _ _ _)
  | ok content =>
      rw [formatter.process_eq_of_scan input content scanned] at finished
      obtain ⟨publication, between, published, last⟩ := (Job.bind_eq_ok_iff _ _ _ _ _).mp finished
      obtain ⟨rfl, rfl⟩ := (Job.pure_eq_ok_iff _ _ _ _).mp last
      have stretches := formatter.publishSegments_stretches 1 _ (Stretch.read_sound content) before
      rw [published] at stretches
      obtain ⟨lines, rendered, shown, rfl⟩ := stretches
      exact ⟨content, lines, rendered, rfl, shown, rfl⟩

/-- A document that is scanned is published stretch by stretch. Every closed preview block outside
other blocks becomes one line with the images of its own body, all other lines are copied, and no
preview opens in what is copied. A document that fails names the line of the first preview that
opens in another block or in a last block that nothing closes, or the first line of the preview block
that could not be rendered; all stretches before it were published. -/
theorem process_exact (input : Text) (before : Workspace) :
    let scan := Scanner.new.scanLines (Text.lines input)
    match scan.2 with
    | .error error => formatter.process input before = .error (.scan error) before
    | .ok content =>
        let stretches := Stretch.read content
        stretches.flatMap Stretch.lines = content ∧
          match formatter.process input before with
          | .ok document after => ∃ lines rendered,
              formatter.Shown stretches before lines rendered after ∧
              document =
                { output := Text.assemble input lines
                  warnings := scan.1.warnings
                  previews := rendered.length
                  compiled := rendered.countP RenderedPreview.compiled } ∧
              ∀ stretch ∈ stretches, ∀ line ∈ stretch.lines, opensPreview line = true →
                ∃ fence opening body closing, stretch = .closed fence opening body closing ∧
                  fence.isPreview = true ∧ line ∈ opening :: body
          | .error (.unrendered line) after => ∃ earlier stretch later lines rendered front opening back,
              stretches = earlier ++ stretch :: later ∧
              formatter.Shown earlier before lines rendered after ∧ stretch.isPreview = false ∧
              stretch.lines = front ++ opening :: back ∧
              (∀ other ∈ front, opensPreview other = false) ∧ opensPreview opening = true ∧
              line = (earlier.flatMap Stretch.lines ++ front).length + 1 ∧
              content[line - 1]? = some opening
          | .error (.fence line error) after =>
              ∃ earlier fence opening body closing later lines rendered between,
                stretches = earlier ++ .closed fence opening body closing :: later ∧
                formatter.Shown earlier before lines rendered between ∧ fence.isPreview = true ∧
                formatter.render (sourceOf fence body) (Attributes.ofInfo fence.info).2 between =
                  .error error after ∧
                line = (earlier.flatMap Stretch.lines).length + 1 ∧ content[line - 1]? = some opening
          | .error _ _ => False := by
  intro scan
  split
  · rename_i error failed
    simp only [process, scan] at failed ⊢
    rw [failed]
    rfl
  · rename_i content scanned
    intro stretches
    have whole := Stretch.read_lines content
    refine ⟨whole, ?_⟩
    have published := formatter.publishSegments_stretches 1 stretches (Stretch.read_sound content) before
    rw [formatter.process_eq_of_scan input content scanned]
    split at published
    · rename_i publication after finished
      obtain ⟨lines, rendered, shown, rfl⟩ := published
      rw [Job.bind_of_ok _ _ _ _ _ finished]
      exact ⟨lines, rendered, shown, rfl, shown.replaced_of_opensPreview⟩
    · rename_i error after stopped
      obtain ⟨earlier, stretch, later, lines, rendered, between, parts, shown, stops⟩ := published
      rw [Job.bind_of_error _ _ _ _ _ stopped]
      have placed : content = earlier.flatMap Stretch.lines ++ (stretch.lines ++ later.flatMap Stretch.lines) := by
        rw [← whole]
        change stretches.flatMap Stretch.lines = _
        rw [parts]
        simp
      cases stops with
      | enclosed _ _ front back opening kept inside silent opens =>
          have number : 1 + (earlier.flatMap Stretch.lines).length + front.length =
              (earlier.flatMap Stretch.lines ++ front).length + 1 := by
            rw [List.length_append]
            omega
          refine ⟨earlier, stretch, later, lines, rendered, front, opening, back, parts, shown, kept, inside,
            silent, opens, number, ?_⟩
          rw [number, placed, inside]
          simp
      | fence fence opening body closing _ _ cause preview failed =>
          have number : 1 + (earlier.flatMap Stretch.lines).length =
              (earlier.flatMap Stretch.lines).length + 1 := by omega
          refine ⟨earlier, fence, opening, body, closing, later, lines, rendered, between, parts, shown, preview,
            failed, number, ?_⟩
          rw [number, placed]
          simp [Stretch.lines]

end Formatter

end FencePreview
