import FencePreview.Proofs.CompilerVerdicts
import FencePreview.Proofs.MarkdownPaths
import FencePreview.Proofs.RenderPlaces

/-! Documents that only their text and the compiler can fail. What becomes of such a document, and which
images it leaves, can be told from its text alone. -/

namespace FencePreview

/-- No two pages have one name. -/
def NamedApart (pages : List (Variant → Text)) : Prop :=
  ∀ first ∈ pages, ∀ second ∈ pages, fingerprint (first .light) = fingerprint (second .light) → first = second

theorem NamedApart.mono (some all : List (Variant → Text)) (apart : NamedApart all) (subset : some ⊆ all) :
    NamedApart some :=
  fun first here second there => apart first (subset here) second (subset there)

theorem IsMarkdown.not_isImage {location : Location} (markdown : IsMarkdown location) (artifacts : Artifacts)
    (storage : Storage) : ¬artifacts.IsImage storage location := by
  rintro ⟨directory, _, light, variant, spot⟩
  rw [storage.place_join directory _ (variant.isName_fileName _ (isDigest_fingerprint light))] at spot
  exact markdown.ne_image _ _ _ _ spot

/-- A failure of a document in which file operations have no part. -/
def DocumentError.Inherent (verdict : Text → Except CompileError ByteArray) (before after : Workspace) :
    DocumentError → Prop
  | .scan _ => True
  | .fence _ error => error.Inherent verdict before after
  | .unrendered _ => True
  | .file _ _ => False

theorem Agreed.trans {verdict : Text → Except CompileError ByteArray} {first second third : Workspace}
    (early : Agreed verdict first second) (late : Agreed verdict second third) :
    Agreed verdict first third := by
  obtain ⟨before, grown, accepted⟩ := early
  obtain ⟨after, all, kept⟩ := late
  refine ⟨before ++ after, by rw [all, grown, List.append_assoc], ?_⟩
  intro document member
  rcases List.mem_append.mp member with inside | outside
  · exact accepted document inside
  · exact kept document outside

theorem DocumentError.Inherent.of_trans {verdict : Text → Except CompileError ByteArray}
    {before between after : Workspace} {error : DocumentError}
    (inherent : error.Inherent verdict before after) (agreed : Agreed verdict before between)
    (grown : between.compiled <+: after.compiled) : error.Inherent verdict between after := by
  cases error with
  | fence line cause =>
      cases cause with
      | compile refusal => exact Refused.of_trans verdict refusal before between after agreed grown inherent
      | _ => exact inherent
  | _ => exact inherent

namespace Formatter

variable (formatter : Formatter) (verdict : Text → Except CompileError ByteArray)

/-- What publishing a segment gives as far as the compiler decides it, without the count of calls. -/
def settleSegment : Segment → Except DocumentError Publication
  | .copied lines => .ok ⟨lines, 0, 0⟩
  | .enclosed line => .error (.unrendered line)
  | .preview line fence body =>
      match formatter.settle verdict (sourceOf fence body) (Attributes.ofInfo fence.info).2 with
      | .error error => .error (.fence line error)
      | .ok rendered => .ok ⟨[fence.lead ++ rendered.markup], 1, 0⟩

def settleSegments : List Segment → Except DocumentError Publication
  | [] => .ok .empty
  | segment :: rest =>
      match formatter.settleSegment verdict segment, settleSegments rest with
      | .error error, _ => .error error
      | .ok _, .error error => .error error
      | .ok first, .ok later => .ok (first.append later)

def segmentPages : Segment → List (Variant → Text)
  | .preview _ fence body => formatter.reaches (sourceOf fence body) (Attributes.ofInfo fence.info).2
  | _ => []

/-- The pages that publishing segments comes to, up to the first segment that fails. -/
def segmentsReach : List Segment → List (Variant → Text)
  | [] => []
  | segment :: rest =>
      formatter.segmentPages segment ++
        match formatter.settleSegment verdict segment with
        | .error _ => []
        | .ok _ => segmentsReach rest

/-- What becomes of a document as far as the compiler decides it, without the count of calls. -/
def settleDocument (input : Text) : Except DocumentError ProcessedDocument :=
  let scan := Scanner.new.scanLines (Text.lines input)
  match scan.2 with
  | .error error => .error (.scan error)
  | .ok content =>
      (formatter.settleSegments verdict (Segment.cut 1 content)).map fun publication =>
        { output := Text.assemble input publication.lines
          warnings := scan.1.warnings
          previews := publication.previews
          compiled := 0 }

def documentReach (input : Text) : List (Variant → Text) :=
  match (Scanner.new.scanLines (Text.lines input)).2 with
  | .error _ => []
  | .ok content => formatter.segmentsReach verdict (Segment.cut 1 content)

variable {formatter verdict}

theorem calls_prefix_of_publishSegments (segments : List Segment) (before after : Workspace)
    (error : DocumentError) (failed : formatter.publishSegments segments before = .error error after) :
    before.compiled <+: after.compiled := by
  have grown := formatter.preserves_publishSegments (fun workspace => before.compiled <+: workspace.compiled)
    (formatter.preserves_calls before.compiled) segments before (List.prefix_refl _)
  rwa [Job.final_of_error _ _ _ _ failed] at grown

theorem publishSegment_settles (follows : formatter.compiler.Follows verdict) (segment : Segment)
    (before : Workspace) (seen : List (Variant → Text))
    (holds : formatter.artifacts.Holds verdict seen before.storage)
    (named : NamedApart (seen ++ formatter.segmentPages segment)) :
    match formatter.publishSegment segment before with
    | .ok publication after =>
        formatter.settleSegment verdict segment = .ok { publication with compiled := 0 } ∧
          formatter.artifacts.Gains verdict seen (formatter.segmentPages segment) before.storage
            after.storage ∧
          Agreed verdict before after
    | .error error after => error.Inherent verdict before after →
        formatter.settleSegment verdict segment = .error error ∧
          formatter.artifacts.Gains verdict seen (formatter.segmentPages segment) before.storage
            after.storage := by
  have nothing := Artifacts.Gains.refl seen before.storage holds
  cases segment with
  | copied lines => exact ⟨rfl, nothing, [], by simp⟩
  | enclosed line => exact fun _ => ⟨rfl, nothing⟩
  | preview line fence body =>
      have settled := render_settles follows (sourceOf fence body) (Attributes.ofInfo fence.info).2 before
        seen holds fun page here other there => named other (List.mem_append_left _ there) page
          (List.mem_append_right _ here)
      simp only [publishSegment, settleSegment, segmentPages]
      split at settled
      · rename_i rendered after finished
        obtain ⟨result, gains, agreed⟩ := settled
        have run := (Job.orFail_eq_ok_iff (DocumentError.fence line) _ _ _ _).mpr finished
        rw [Job.bind_of_ok _ _ _ _ _ run, result]
        exact ⟨rfl, gains, agreed⟩
      · rename_i error after failed
        have run := Job.orFail_of_error (DocumentError.fence line) _ _ _ _ failed
        rw [Job.bind_of_error _ _ _ _ _ run]
        intro inherent
        obtain ⟨result, gains⟩ := settled inherent
        rw [result]
        exact ⟨rfl, gains⟩

theorem publishSegments_settles (follows : formatter.compiler.Follows verdict)
    (segments : List Segment) (before : Workspace) (seen : List (Variant → Text))
    (holds : formatter.artifacts.Holds verdict seen before.storage)
    (named : NamedApart (seen ++ formatter.segmentsReach verdict segments)) :
    match formatter.publishSegments segments before with
    | .ok publication after =>
        formatter.settleSegments verdict segments = .ok { publication with compiled := 0 } ∧
          formatter.artifacts.Gains verdict seen (formatter.segmentsReach verdict segments) before.storage
            after.storage ∧
          Agreed verdict before after
    | .error error after => error.Inherent verdict before after →
        formatter.settleSegments verdict segments = .error error ∧
          formatter.artifacts.Gains verdict seen (formatter.segmentsReach verdict segments) before.storage
            after.storage := by
  induction segments generalizing before seen with
  | nil => exact ⟨rfl, .refl seen before.storage holds, [], by simp⟩
  | cons segment rest ih =>
      have first := publishSegment_settles follows segment before seen holds
        (named.mono _ _ (by simp [segmentsReach]))
      simp only [publishSegments, settleSegments, segmentsReach] at named ⊢
      cases run : formatter.publishSegment segment before with
      | error error after =>
          rw [run] at first
          rw [Job.bind_of_error _ _ _ _ _ run]
          intro inherent
          obtain ⟨result, gains⟩ := first inherent
          rw [result, List.append_nil]
          exact ⟨rfl, gains⟩
      | ok publication between =>
          rw [run] at first
          obtain ⟨result, gains, agreed⟩ := first
          rw [result] at named ⊢
          have later := ih between (seen ++ formatter.segmentPages segment) gains.holds
            (by rwa [List.append_assoc])
          rw [Job.bind_of_ok _ _ _ _ _ run]
          cases continued : formatter.publishSegments rest between with
          | error error after =>
              rw [continued] at later
              rw [Job.bind_of_error _ _ _ _ _ continued]
              intro inherent
              have grown := calls_prefix_of_publishSegments rest between after error continued
              obtain ⟨stopped, more⟩ := later (inherent.of_trans agreed grown)
              rw [stopped]
              exact ⟨rfl, gains.trans _ _ _ _ _ _ more⟩
          | ok others after =>
              rw [continued] at later
              obtain ⟨finished, more, accepted⟩ := later
              rw [Job.bind_of_ok _ _ _ _ _ continued, finished]
              exact ⟨rfl, gains.trans _ _ _ _ _ _ more, agreed.trans accepted⟩

/-- A document in which no file operation fails ends as its text is settled to, and leaves the images of
the pages it comes to beside those that were there. -/
theorem process_settles (follows : formatter.compiler.Follows verdict) (input : Text) (before : Workspace)
    (seen : List (Variant → Text)) (holds : formatter.artifacts.Holds verdict seen before.storage)
    (named : NamedApart (seen ++ formatter.documentReach verdict input)) :
    match formatter.process input before with
    | .ok document after =>
        formatter.settleDocument verdict input = .ok { document with compiled := 0 } ∧
          formatter.artifacts.Gains verdict seen (formatter.documentReach verdict input) before.storage
            after.storage
    | .error error after => error.Inherent verdict before after →
        formatter.settleDocument verdict input = .error error ∧
          formatter.artifacts.Gains verdict seen (formatter.documentReach verdict input) before.storage
            after.storage := by
  simp only [process, settleDocument, documentReach] at named ⊢
  cases scanned : (Scanner.new.scanLines (Text.lines input)).2 with
  | error error => exact fun _ => ⟨rfl, .refl seen before.storage holds⟩
  | ok content =>
      rw [scanned] at named
      have published := publishSegments_settles follows (Segment.cut 1 content) before seen holds named
      cases run : formatter.publishSegments (Segment.cut 1 content) before with
      | error error after =>
          rw [run] at published
          simp only [Job.bind_of_error _ _ _ _ _ run]
          intro inherent
          obtain ⟨result, gains⟩ := published inherent
          rw [result]
          exact ⟨rfl, gains⟩
      | ok publication after =>
          rw [run] at published
          obtain ⟨result, gains, _⟩ := published
          simp only [Job.bind_of_ok _ _ _ _ _ run, result]
          exact ⟨rfl, gains⟩

variable (formatter verdict)

theorem page?_of_mem_segmentPages (line : Nat) (stretch : Stretch) (page : Variant → Text)
    (member : page ∈ formatter.segmentPages (stretch.segment line)) :
    formatter.page? stretch = some page := by
  cases stretch with
  | line content => simp [Stretch.segment, segmentPages] at member
  | unclosed opening rest =>
      simp only [Stretch.segment] at member
      split at member <;> simp [segmentPages] at member
  | closed fence opening body closing =>
      simp only [Stretch.segment] at member
      split at member
      · rename_i preview
        simp only [segmentPages, reaches] at member
        split at member
        · rename_i settings _ accepted _
          simp only [page?, preview, if_true, accepted, List.mem_singleton.mp member]
        · simp at member
      · split at member <;> simp [segmentPages] at member

theorem segmentsReach_subset (line : Nat) (stretches : List Stretch) :
    formatter.segmentsReach verdict (Stretch.segments line stretches) ⊆
      stretches.filterMap formatter.page? := by
  induction stretches generalizing line with
  | nil => simp [Stretch.segments, segmentsReach]
  | cons stretch rest ih =>
      intro page member
      rw [List.mem_filterMap]
      simp only [Stretch.segments] at member
      split at member
      · rename_i inner enclosed
        simp [segmentsReach, segmentPages, settleSegment] at member
      · simp only [segmentsReach] at member
        rcases List.mem_append.mp member with here | later
        · exact ⟨stretch, List.mem_cons_self, formatter.page?_of_mem_segmentPages line stretch page here⟩
        · split at later
          · simp at later
          · obtain ⟨other, inside, found⟩ := List.mem_filterMap.mp (ih _ later)
            exact ⟨other, List.mem_cons_of_mem _ inside, found⟩

theorem documentReach_subset (input : Text) :
    formatter.documentReach verdict input ⊆ formatter.pages input := by
  simp only [documentReach, pages]
  cases (Scanner.new.scanLines (Text.lines input)).2 with
  | error error => exact List.Subset.refl _
  | ok content =>
      simp only [Stretch.cut_eq_segments]
      exact formatter.segmentsReach_subset verdict 1 _

theorem exists_document_of_mem_pages (input : Text) (page : Variant → Text)
    (member : page ∈ formatter.pages input) :
    ∃ settings source, page = formatter.document settings source := by
  simp only [pages] at member
  split at member
  · obtain ⟨stretch, _, found⟩ := List.mem_filterMap.mp member
    cases stretch with
    | line content => simp [page?] at found
    | unclosed opening rest => simp [page?] at found
    | closed fence opening body closing =>
        simp only [page?] at found
        split at found
        · split at found
          · exact ⟨_, _, (Option.some.inj found).symm⟩
          · simp at found
        · simp at found
  · simp at member

end Formatter

/-- A failure of a file that comes of its content: of its text, or of bytes that are no text. -/
def DocumentError.Own (verdict : Text → Except CompileError ByteArray) (source : PathName)
    (before after : Workspace) (error : DocumentError) : Prop :=
  error.Inherent verdict before after ∨
    error = .file source .invalidText ∧
      ∃ content, before.storage.read source = .ok content ∧ Text.decode? content = none

theorem DocumentError.Own.inherent {verdict : Text → Except CompileError ByteArray} {source : PathName}
    {before after : Workspace} {error : DocumentError} (own : error.Own verdict source before after)
    (content : ByteArray) (text : Text) (found : before.storage.read source = .ok content)
    (decoded : Text.decode? content = some text) : error.Inherent verdict before after := by
  rcases own with inherent | ⟨_, other, there, illegible⟩
  · exact inherent
  · rw [found] at there
    rw [← Except.ok.inj there, decoded] at illegible
    exact absurd illegible (by simp)

namespace Formatter

def deliver (document : ProcessedDocument) (target : PathName) : Job DocumentError ProcessedDocument := do
  if let some parent := target.parent? then
    Job.orFail (.file parent) (Job.makeDirectories parent)
  Job.orFail (.file target) (Job.change (·.write target (Text.encode document.output)))
  return document

variable (formatter : Formatter) {verdict : Text → Except CompileError ByteArray}

theorem processFile_of_readText (source target : PathName) (before : Workspace) (text : Text)
    (legible : before.storage.readText source = .ok text) :
    formatter.processFile source target before =
      (formatter.process text >>= fun document => deliver document target) before := by
  have asked : (Job.inspect (·.readText source) : Job DocumentError _) before = .ok (.ok text) before := by
    rw [Job.inspect, legible]
  simp only [processFile]
  rw [Job.bind_of_ok _ _ _ _ _ asked]
  rfl

theorem processFile_of_text (source target : PathName) (before : Workspace) (content : ByteArray)
    (text : Text) (found : before.storage.read source = .ok content)
    (decoded : Text.decode? content = some text) :
    formatter.processFile source target before =
      (formatter.process text >>= fun document => deliver document target) before :=
  formatter.processFile_of_readText source target before text (by simp only [Storage.readText, found, decoded])

theorem processFile_of_unreadable (source target : PathName) (before : Workspace) (cause : FileError)
    (failed : before.storage.readText source = .error cause) :
    formatter.processFile source target before = .error (.file source cause) before := by
  have asked : (Job.inspect (·.readText source) : Job DocumentError _) before = .ok (.error cause) before := by
    rw [Job.inspect, failed]
  simp only [processFile]
  rw [Job.bind_of_ok _ _ _ _ _ asked]
  rfl

theorem deliver_eq_ok (document delivered : ProcessedDocument) (target : PathName) (before after : Workspace)
    (rooted : before.storage.tree.Rooted)
    (finished : deliver document target before = .ok delivered after) :
    delivered = document ∧ ∃ made, before.storage.Keeps [] made ∧
      made.write target (Text.encode document.output) = .ok after.storage := by
  cases cut : target.parent? with
  | some parent =>
      simp only [deliver, cut] at finished
      obtain ⟨_, between, made, finished⟩ := (Job.bind_eq_ok_iff _ _ _ _ _).mp finished
      obtain ⟨_, last, written, finished⟩ := (Job.bind_eq_ok_iff _ _ _ _ _).mp finished
      obtain ⟨rfl, rfl⟩ := (Job.pure_eq_ok_iff _ _ _ _).mp finished
      obtain ⟨storage, success, rfl⟩ :=
        (Job.change_eq_ok_iff _ _ _ _).mp ((Job.orFail_eq_ok_iff _ _ _ _ _).mp written)
      have keeps := Job.keeps_makeDirectories parent before rooted
      rw [Job.final_of_ok _ _ _ _ ((Job.orFail_eq_ok_iff _ _ _ _ _).mp made)] at keeps
      exact ⟨rfl, between.storage, keeps, success⟩
  | none =>
      simp only [deliver, cut] at finished
      obtain ⟨_, last, written, finished⟩ := (Job.bind_eq_ok_iff _ _ _ _ _).mp finished
      obtain ⟨rfl, rfl⟩ := (Job.pure_eq_ok_iff _ _ _ _).mp finished
      obtain ⟨storage, success, rfl⟩ :=
        (Job.change_eq_ok_iff _ _ _ _).mp ((Job.orFail_eq_ok_iff _ _ _ _ _).mp written)
      exact ⟨rfl, before.storage, .refl _ _ rooted, success⟩

theorem deliver_eq_error (document : ProcessedDocument) (target : PathName) (before after : Workspace)
    (error : DocumentError) (failed : deliver document target before = .error error after) :
    ∃ place cause, error = .file place cause := by
  have writing : ∀ between, (Job.orFail (.file target)
        (Job.change (·.write target (Text.encode document.output))) >>= fun _ => pure document :
        Job DocumentError ProcessedDocument) between = .error error after →
      ∃ place cause, error = .file place cause := by
    intro between stopped
    rcases Job.bind_eq_error_cases _ _ _ _ _ stopped with unwritten | ⟨_, last, _, impossible⟩
    · obtain ⟨cause, _, rfl⟩ := Job.orFail_eq_error _ _ _ _ _ unwritten
      exact ⟨target, cause, rfl⟩
    · exact absurd impossible (Job.pure_ne_error _ _ _ _)
  cases cut : target.parent? with
  | some parent =>
      simp only [deliver, cut] at failed
      rcases Job.bind_eq_error_cases _ _ _ _ _ failed with unmade | ⟨_, between, _, stopped⟩
      · obtain ⟨cause, _, rfl⟩ := Job.orFail_eq_error _ _ _ _ _ unmade
        exact ⟨parent, cause, rfl⟩
      · exact writing between stopped
  | none =>
      simp only [deliver, cut] at failed
      exact writing before failed

variable (verdict)

/-- What becomes of a file as far as its content and the compiler decide it, without the count of calls. -/
def settleFile (source : PathName) (content : ByteArray) : Except DocumentError ProcessedDocument :=
  match Text.decode? content with
  | none => .error (.file source .invalidText)
  | some text => formatter.settleDocument verdict text

def fileReach (content : ByteArray) : List (Variant → Text) :=
  match Text.decode? content with
  | none => []
  | some text => formatter.documentReach verdict text

variable {formatter verdict}

theorem read_of_processFile (source target : PathName) (before : Workspace)
    (own : ∀ error after, formatter.processFile source target before = .error error after →
      error.Own verdict source before after) : ∃ content, before.storage.read source = .ok content := by
  cases found : before.storage.read source with
  | ok content => exact ⟨content, rfl⟩
  | error cause =>
      have illegible : before.storage.readText source = .error cause := by simp only [Storage.readText, found]
      rcases own _ _ (formatter.processFile_of_unreadable source target before cause illegible) with
        inherent | ⟨_, content, there, _⟩
      · exact inherent.elim
      · simp [found] at there

/-- A target that is no image can be written without touching the images that are there. -/
theorem deliver_settles (document delivered : ProcessedDocument) (target : PathName)
    (markdown : ∀ now after : Storage, ∀ bytes, now.write target bytes = .ok after →
      IsMarkdown (now.place target))
    (before after : Workspace) (seen : List (Variant → Text))
    (holds : formatter.artifacts.Holds verdict seen before.storage)
    (finished : deliver document target before = .ok delivered after) :
    delivered = document ∧ IsMarkdown (before.storage.place target) ∧
      formatter.artifacts.Holds verdict seen after.storage ∧
      before.storage.Keeps [target] after.storage ∧
      after.storage.read target = .ok (Text.encode document.output) := by
  obtain ⟨rfl, made, making, written⟩ := deliver_eq_ok _ _ _ _ _ holds.rooted finished
  have writing := making.trans [] [target] _ _ _ (Storage.keeps_write _ _ _ _ making.rooted written)
  have named := markdown _ _ _ written
  rw [making.place_eq] at named
  refine ⟨rfl, named, holds.of_keeps _ writing ?_, writing, Storage.read_of_write _ _ _ _ written⟩
  intro other member
  rw [List.mem_singleton.mp member]
  exact named.not_isImage formatter.artifacts before.storage

/-- A file in which no file operation fails ends as its content is settled to. If it is processed, the
target holds the output; besides, the images of the pages it comes to are left. -/
theorem processFile_settles (follows : formatter.compiler.Follows verdict) (source target : PathName)
    (markdown : ∀ now after : Storage, ∀ bytes, now.write target bytes = .ok after →
      IsMarkdown (now.place target))
    (before : Workspace) (seen : List (Variant → Text))
    (holds : formatter.artifacts.Holds verdict seen before.storage) (content : ByteArray)
    (found : before.storage.read source = .ok content)
    (named : NamedApart (seen ++ formatter.fileReach verdict content)) :
    let pages := formatter.fileReach verdict content
    match formatter.processFile source target before with
    | .ok document after =>
        formatter.settleFile verdict source content = .ok { document with compiled := 0 } ∧
          IsMarkdown (before.storage.place target) ∧
          formatter.artifacts.Holds verdict (seen ++ pages) after.storage ∧
          before.storage.Keeps (target :: pages.flatMap formatter.artifacts.paths) after.storage ∧
          after.storage.read target = .ok (Text.encode document.output)
    | .error error after => error.Own verdict source before after →
        formatter.settleFile verdict source content = .error error ∧
          formatter.artifacts.Gains verdict seen pages before.storage after.storage ∧
          (after = before ∨ ∃ text, after = (formatter.process text).final before) := by
  intro pages
  cases decoded : Text.decode? content with
  | none =>
      have illegible : before.storage.readText source = .error .invalidText := by
        simp only [Storage.readText, found, decoded]
      rw [formatter.processFile_of_unreadable source target before _ illegible]
      have none : pages = [] := by simp only [pages, fileReach, decoded]
      rw [none]
      simp only [settleFile, decoded]
      exact fun _ => ⟨trivial, .refl seen before.storage holds, .inl trivial⟩
  | some text =>
      have reached : pages = formatter.documentReach verdict text := by
        simp only [pages, fileReach, decoded]
      have settled := process_settles follows text before seen holds (by rwa [← reached])
      rw [formatter.processFile_of_text source target before content text found decoded, ← reached] at *
      simp only [settleFile, decoded]
      cases run : formatter.process text before with
      | error error after =>
          rw [run] at settled
          rw [Job.bind_of_error _ _ _ _ _ run]
          intro own
          obtain ⟨result, gains⟩ := settled (own.inherent content text found decoded)
          exact ⟨result, gains, .inr ⟨text, (Job.final_of_error _ _ _ _ run).symm⟩⟩
      | ok document between =>
          rw [run] at settled
          obtain ⟨result, gains⟩ := settled
          rw [Job.bind_of_ok _ _ _ _ _ run]
          cases last : deliver document target between with
          | error error after =>
              obtain ⟨place, cause, rfl⟩ := deliver_eq_error _ _ _ _ _ last
              exact fun own => (own.inherent content text found decoded).elim
          | ok delivered after =>
              obtain ⟨rfl, named, left, writing, written⟩ :=
                deliver_settles document delivered target markdown between after _ gains.holds last
              refine ⟨result, by rwa [← gains.keeps.place_eq], left, ?_, written⟩
              exact (gains.keeps.trans _ _ _ _ _ writing).mono _ _ _ _ (by simp)

end Formatter

end FencePreview
