import FencePreview.Document.Process
import FencePreview.Proofs.SiteCopies
import Mathlib.Data.Set.Function

/-! Runs of formatters that share their directories of images. A document of many previews is
rendered by one call after the other, so a run is a list of calls; every image that is stored or
published on the way is the one that the compiler gives for the document of its name. -/

namespace FencePreview

/-- A compiler that writes nothing but its output, and writes the same image for the same document
whenever it succeeds. A call that fails may leave any part of it. -/
structure Compiler.Produces (image : Text → ByteArray) (compiler : Compiler) : Prop where
  confined : compiler.OnlyOutput
  output : ∀ calls document path storage,
    (compiler calls document path storage).outcome = .ok () →
      (compiler calls document path storage).storage.read path = .ok (image document)

theorem Compiler.Produces.writesFile {image : Text → ByteArray} {compiler : Compiler}
    (produces : compiler.Produces image) : compiler.WritesFile :=
  .of_read compiler produces.confined fun calls document path storage succeeds =>
    ⟨_, produces.output calls document path storage succeeds⟩

theorem Compiler.produces_writing (image : Text → ByteArray) : (writing image).Produces image := by
  refine ⟨onlyOutput_writing image, ?_⟩
  intro calls document path storage succeeds
  simp only [writing, Compilation.ofResult] at succeeds ⊢
  cases written : storage.write path (image document) with
  | ok changed => exact Storage.read_of_write _ _ _ _ written
  | error cause => simp [written] at succeeds

theorem Compiler.Produces.read_of_compile (image : Text → ByteArray) (compiler : Compiler)
    (produces : compiler.Produces image) (document : Text) (path : PathName) (before after : Workspace)
    (finished : Job.compile compiler document path before = .ok () after) :
    after.storage.read path = .ok (image document) := by
  have output := produces.output before.compiled.length document path before.storage
  simp only [Job.compile] at finished
  split at finished
  · rename_i done outcome
    cases finished
    exact output outcome
  · simp at finished

theorem Compiler.produces_failingAt (numbers : List Nat) (image : Text → ByteArray) (compiler : Compiler)
    (produces : compiler.Produces image) : (failingAt numbers compiler).Produces image := by
  refine ⟨onlyOutput_failingAt numbers compiler produces.confined, ?_⟩
  intro calls document path storage succeeds
  simp only [failingAt] at succeeds ⊢
  split at succeeds
  · simp at succeeds
  · rename_i other
    rw [if_neg other]
    exact produces.output calls document path storage succeeds

namespace Templates

/-- One variant of two documents is the same exactly when what stands below the headers is. -/
theorem render_eq_iff (first second : Templates) (firstMode secondMode : RenderMode)
    (firstSource secondSource : Text) (variant : Variant) :
    first.render firstMode variant firstSource = second.render secondMode variant secondSource ↔
      first.body firstMode firstSource = second.body secondMode secondSource := by
  simp only [render, List.append_cancel_left_eq]

/-- Documents that agree on the light page agree on the dark one, whatever their templates. -/
theorem render_dark_of_light (first second : Templates) (firstMode secondMode : RenderMode)
    (firstSource secondSource : Text) (variant : Variant)
    (same : first.render firstMode .light firstSource = second.render secondMode .light secondSource) :
    first.render firstMode variant firstSource = second.render secondMode variant secondSource :=
  (render_eq_iff ..).mpr ((render_eq_iff ..).mp same)

end Templates

structure Call where
  formatter : Formatter
  source : Text
  attributes : Attributes

namespace Call

def job (call : Call) : Job PreviewError RenderedPreview :=
  call.formatter.render call.source call.attributes

/-- The pages that a call is about, if its attributes are accepted. -/
def Uses (call : Call) (document : Variant → Text) : Prop :=
  ∃ settings, PreviewSettings.ofAttributes call.attributes = .ok settings ∧
    document = call.formatter.document settings call.source

theorem Uses.ext (first second : Call) (left right : Variant → Text) (firstUses : first.Uses left)
    (secondUses : second.Uses right) (same : left .light = right .light) : left = right := by
  obtain ⟨_, _, rfl⟩ := firstUses
  obtain ⟨_, _, rfl⟩ := secondUses
  funext variant
  exact Templates.render_dark_of_light _ _ _ _ _ _ variant same

/-- The workspace after calls in order, each made whether or not earlier ones failed. -/
def finalAll (calls : List Call) (before : Workspace) : Workspace :=
  calls.foldl (fun workspace call => call.job.final workspace) before

theorem finalAll_append (early late : List Call) (before : Workspace) :
    finalAll (early ++ late) before = finalAll late (finalAll early before) :=
  List.foldl_append ..

theorem finalAll_singleton (call : Call) (before : Workspace) :
    finalAll [call] before = call.job.final before := rfl

end Call

inductive Step where
  | render (call : Call)
  | process (formatter : Formatter) (input : Text)

namespace Formatter

def callsOf (formatter : Formatter) : Segment → List Call
  | .preview _ fence body => [⟨formatter, sourceOf fence body, (Attributes.ofInfo fence.info).2⟩]
  | _ => []

/-- The renders that publishing segments asks for, up to the first segment that fails. -/
def segmentCalls (formatter : Formatter) : List Segment → Workspace → List Call
  | [], _ => []
  | segment :: rest, before =>
      match formatter.publishSegment segment before with
      | .ok _ after => formatter.callsOf segment ++ formatter.segmentCalls rest after
      | .error _ _ => formatter.callsOf segment

def processCalls (formatter : Formatter) (input : Text) (before : Workspace) : List Call :=
  match (Scanner.new.scanLines (Text.lines input)).2 with
  | .ok content => formatter.segmentCalls (Segment.cut 1 content) before
  | .error _ => []

end Formatter

namespace Step

def formatter : Step → Formatter
  | render call => call.formatter
  | process formatter _ => formatter

def final (step : Step) (before : Workspace) : Workspace :=
  match step with
  | render call => call.job.final before
  | process formatter input => (formatter.process input).final before

def calls (step : Step) (before : Workspace) : List Call :=
  match step with
  | render call => [call]
  | process formatter input => formatter.processCalls input before

def finalAll (steps : List Step) (before : Workspace) : Workspace :=
  steps.foldl (fun workspace step => step.final workspace) before

def history : List Step → Workspace → List Call
  | [], _ => []
  | step :: rest, before => step.calls before ++ history rest (step.final before)

end Step

namespace Formatter

variable (formatter : Formatter)

theorem publishSegment_final (segment : Segment) (before : Workspace) :
    (formatter.publishSegment segment).final before =
      Call.finalAll (formatter.callsOf segment) before := by
  cases segment with
  | copied lines => rfl
  | enclosed line => rfl
  | preview line fence body =>
      simp only [publishSegment, callsOf, Call.finalAll, List.foldl_cons, List.foldl_nil, Call.job]
      rw [← Job.final_orFail (DocumentError.fence line)]
      cases result : Job.orFail (DocumentError.fence line)
          (formatter.render (sourceOf fence body) (Attributes.ofInfo fence.info).2) before with
      | ok rendered after =>
          rw [Job.final_bind_of_ok _ _ _ _ _ result, Job.final_of_ok _ _ _ _ result]
          rfl
      | error error after =>
          rw [Job.final_bind_of_error _ _ _ _ _ result, Job.final_of_error _ _ _ _ result]

theorem formatter_of_mem_segmentCalls (segments : List Segment) (before : Workspace) (call : Call)
    (member : call ∈ formatter.segmentCalls segments before) : call.formatter = formatter := by
  have own : ∀ segment, call ∈ formatter.callsOf segment → call.formatter = formatter := by
    intro segment inside
    cases segment with
    | copied lines => simp [callsOf] at inside
    | enclosed line => simp [callsOf] at inside
    | preview line fence body =>
        simp only [callsOf, List.mem_singleton] at inside
        rw [inside]
  induction segments generalizing before with
  | nil => simp [segmentCalls] at member
  | cons segment rest ih =>
      simp only [segmentCalls] at member
      split at member
      · rcases List.mem_append.mp member with first | later
        · exact own segment first
        · exact ih _ later
      · exact own segment member

theorem publishSegments_final (segments : List Segment) (before : Workspace) :
    (formatter.publishSegments segments).final before =
      Call.finalAll (formatter.segmentCalls segments before) before := by
  induction segments generalizing before with
  | nil => rfl
  | cons segment rest ih =>
      have first := formatter.publishSegment_final segment before
      simp only [publishSegments, segmentCalls]
      cases result : formatter.publishSegment segment before with
      | ok publication after =>
          rw [Job.final_of_ok _ _ _ _ result] at first
          rw [Job.final_bind_of_ok _ _ _ _ _ result, Call.finalAll_append, ← first, ← ih after]
          cases later : formatter.publishSegments rest after with
          | ok more last =>
              rw [Job.final_bind_of_ok _ _ _ _ _ later, Job.final_of_ok _ _ _ _ later]
              rfl
          | error error last =>
              rw [Job.final_bind_of_error _ _ _ _ _ later, Job.final_of_error _ _ _ _ later]
      | error error after =>
          rw [Job.final_of_error _ _ _ _ result] at first
          rw [Job.final_bind_of_error _ _ _ _ _ result, ← first]

theorem process_final (input : Text) (before : Workspace) :
    (formatter.process input).final before =
      Call.finalAll (formatter.processCalls input before) before := by
  simp only [process, processCalls]
  cases scanned : (Scanner.new.scanLines (Text.lines input)).2 with
  | error error => rfl
  | ok content =>
      simp only [← publishSegments_final]
      cases result : formatter.publishSegments (Segment.cut 1 content) before with
      | ok publication after =>
          rw [Job.final_bind_of_ok _ _ _ _ _ result, Job.final_of_ok _ _ _ _ result]
          rfl
      | error error after =>
          rw [Job.final_bind_of_error _ _ _ _ _ result, Job.final_of_error _ _ _ _ result]

end Formatter

theorem Step.finalAll_eq_history (steps : List Step) (before : Workspace) :
    finalAll steps before = Call.finalAll (history steps before) before := by
  induction steps generalizing before with
  | nil => rfl
  | cons step rest ih =>
      have first : step.final before = Call.finalAll (step.calls before) before := by
        cases step with
        | render call => rfl
        | process formatter input => exact formatter.process_final input before
      rw [history, Call.finalAll_append, ← first]
      exact ih (step.final before)

namespace Artifacts

def directories (artifacts : Artifacts) : List PathName :=
  [artifacts.dumpDirectory, artifacts.siteDirectory]

theorem dumpDirectory_mem (artifacts : Artifacts) : artifacts.dumpDirectory ∈ artifacts.directories := by
  simp [directories]

theorem siteDirectory_mem (artifacts : Artifacts) : artifacts.siteDirectory ∈ artifacts.directories := by
  simp [directories]

/-- Every image in a directory of images was made from a document in `used` of its name. -/
structure Sound (artifacts : Artifacts) (image : Text → ByteArray) (used : Set (Variant → Text))
    (storage : Storage) : Prop where
  rooted : storage.tree.Rooted
  images : ∀ directory ∈ artifacts.directories, ∀ (light : Text) (variant : Variant) (content : ByteArray),
    storage.tree.file?
        (storage.place (directory.join ⟨variant.fileName (fingerprint light)⟩)) = some content →
      ∃ document ∈ used, fingerprint (document .light) = fingerprint light ∧
        content = image (document variant)

namespace Sound

variable (artifacts : Artifacts) (image : Text → ByteArray) (used : Set (Variant → Text))

theorem of_keeps (before after : Storage) (sound : artifacts.Sound image used before)
    (keeps : before.Keeps [] after) : artifacts.Sound image used after := by
  refine ⟨keeps.rooted, ?_⟩
  intro directory member light variant content found
  refine sound.images directory member light variant content ?_
  have visible := variant.not_hidden_join _ (isDigest_fingerprint light) before directory
  rwa [keeps.place_eq, keeps.files _ (by simp) visible] at found

/-- Putting an image of a used document in its place keeps all images sound. -/
theorem put (before after : Storage) (sound : artifacts.Sound image used before) (directory : PathName)
    (light : Text) (variant : Variant) (content : ByteArray)
    (keeps : before.Keeps [directory.join ⟨variant.fileName (fingerprint light)⟩] after)
    (there : after.read (directory.join ⟨variant.fileName (fingerprint light)⟩) = .ok content)
    (origin : ∃ document ∈ used, fingerprint (document .light) = fingerprint light ∧
      content = image (document variant)) : artifacts.Sound image used after := by
  refine ⟨keeps.rooted, ?_⟩
  intro other member name kind inside found
  have digest := isDigest_fingerprint light
  have nameDigest := isDigest_fingerprint name
  by_cases same : before.place (other.join ⟨kind.fileName (fingerprint name)⟩) =
      before.place (directory.join ⟨variant.fileName (fingerprint light)⟩)
  · obtain ⟨rfl, names, _⟩ := Variant.eq_of_place_join _ _ _ _ _ _ _ nameDigest digest same
    have placed := Storage.file?_place_of_read _ _ _ there
    rw [keeps.place_eq] at placed found
    rw [same, placed, Option.some.injEq] at found
    rw [names, ← found]
    exact origin
  · refine sound.images other member name kind inside ?_
    have visible := kind.not_hidden_join _ nameDigest before other
    have outside : ∀ target ∈ [directory.join ⟨variant.fileName (fingerprint light)⟩],
        before.place (other.join ⟨kind.fileName (fingerprint name)⟩) ≠ before.place target := by
      intro target inList
      rw [List.mem_singleton.mp inList]
      exact same
    rwa [keeps.place_eq, keeps.files _ outside visible] at found

theorem image_of_read (storage : Storage) (sound : artifacts.Sound image used storage) (light : Text)
    (variant : Variant) (path : PathName)
    (member : path ∈ [artifacts.dumpPath (fingerprint light) variant,
      artifacts.sitePath (fingerprint light) variant])
    (content : ByteArray) (found : storage.read path = .ok content) :
    ∃ document ∈ used, fingerprint (document .light) = fingerprint light ∧
      content = image (document variant) := by
  have there := Storage.file?_place_of_read _ _ _ found
  rcases List.mem_cons.mp member with rfl | site
  · exact sound.images artifacts.dumpDirectory (by simp [directories]) light variant content there
  · rw [List.mem_singleton.mp site] at there
    exact sound.images artifacts.siteDirectory (by simp [directories]) light variant content there

end Sound

end Artifacts

namespace Formatter

variable (formatter : Formatter) (image : Text → ByteArray) (used : Set (Variant → Text))

def IsSound (workspace : Workspace) : Prop := formatter.artifacts.Sound image used workspace.storage

theorem preserves_makeDirectories (path : PathName) :
    Job.Preserves (formatter.IsSound image used) (Job.makeDirectories path) := by
  intro before sound
  exact sound.of_keeps _ _ _ _ _ (Job.keeps_makeDirectories path before sound.rooted)

theorem preserves_storeOne (produces : formatter.compiler.Produces image) (document : Variant → Text)
    (isUsed : document ∈ used) (variant : Variant) :
    Job.Preserves (formatter.IsSound image used)
      (formatter.artifacts.storeOne formatter.compiler (fingerprint (document .light))
        (document variant) variant) := by
  intro before sound
  cases result : formatter.artifacts.storeOne formatter.compiler (fingerprint (document .light))
      (document variant) variant before with
  | ok done after =>
      rw [Job.final_of_ok _ _ _ _ result]
      have compiled := (storeOne_eq_ok_iff formatter _ _ variant before after done).mp result
      obtain ⟨keeps, content, there, _, made, filled, _, _, call, left⟩ :=
        compiled.settles formatter produces.writesFile _ _ _ _ _ sound.rooted
      refine sound.put _ _ _ _ _ formatter.artifacts.dumpDirectory (document .light) variant content keeps
        there ⟨document, isUsed, rfl, ?_⟩
      have produced := produces.read_of_compile _ _ _ _ _ _ call
      exact Except.ok.inj (left.symm.trans produced)
  | error error after =>
      rw [Job.final_of_error _ _ _ _ result]
      exact sound.of_keeps _ _ _ _ _ (Job.keeps_of_placeFile_eq_error _ _ _ _
        (formatter.compiler.fills_compile produces.confined _) before after sound.rooted error result)

theorem preserves_publishOne (light : Text) (variant : Variant) :
    Job.Preserves (formatter.IsSound image used)
      (formatter.artifacts.publishOne (fingerprint light) variant) := by
  intro before sound
  cases result : formatter.artifacts.publishOne (fingerprint light) variant before with
  | ok copies after =>
      rw [Job.final_of_ok _ _ _ _ result]
      have onSite := (publishOne_eq_ok_iff formatter _ variant before after).mp ⟨copies, result⟩
      obtain ⟨keeps, content, there, ⟨_, rfl⟩ | ⟨_, stored⟩⟩ :=
        onSite.settles formatter _ variant (isDigest_fingerprint light) before after sound.rooted
      · exact sound
      · exact sound.put _ _ _ _ _ formatter.artifacts.siteDirectory light variant content keeps there
          (sound.images formatter.artifacts.dumpDirectory (by simp [Artifacts.directories]) light variant
            content (Storage.file?_place_of_read _ _ _ stored))
  | error error after =>
      rw [Job.final_of_error _ _ _ _ result]
      simp only [Artifacts.publishOne] at result
      rcases Job.bind_eq_error_cases _ _ _ _ _ result with looking | ⟨found, _, looked, later⟩
      · simp [Job.inspect] at looking
      · obtain ⟨_, rfl⟩ := (Job.inspect_eq_ok_iff _ _ _ _).mp looked
        cases found with
        | true => exact absurd later (Job.pure_ne_error _ _ _ _)
        | false =>
            rcases Job.bind_eq_error_cases _ _ _ _ _ later with placing | ⟨_, _, _, last⟩
            · exact sound.of_keeps _ _ _ _ _ (Job.keeps_of_placeFile_eq_error _ _ _ _
                (Artifacts.fills_copy _) before after sound.rooted error placing)
            · exact absurd last (Job.pure_ne_error _ _ _ _)

/-- A render keeps all images sound, whether or not it fails, if its document is among those used. -/
theorem preserves_render (produces : formatter.compiler.Produces image) (source : Text)
    (attributes : Attributes)
    (isUsed : ∀ document, (⟨formatter, source, attributes⟩ : Call).Uses document → document ∈ used) :
    Job.Preserves (formatter.IsSound image used) (formatter.render source attributes) := by
  refine formatter.preserves_render_of _ source attributes ?_ ?_ (formatter.preserves_publishOne image used)
  · exact fun path _ => formatter.preserves_makeDirectories image used path
  · exact fun settings accepted => formatter.preserves_storeOne image used produces _
      (isUsed _ ⟨settings, accepted, rfl⟩)

end Formatter

namespace Artifacts

def Vacant (artifacts : Artifacts) (storage : Storage) : Prop :=
  ∀ directory ∈ artifacts.directories, ∀ (light : Text) (variant : Variant),
    storage.tree.file? (storage.place (directory.join ⟨variant.fileName (fingerprint light)⟩)) = none

theorem Vacant.sound (artifacts : Artifacts) (image : Text → ByteArray) (used : Set (Variant → Text))
    (storage : Storage) (rooted : storage.tree.Rooted) (vacant : artifacts.Vacant storage) :
    artifacts.Sound image used storage := by
  refine ⟨rooted, ?_⟩
  intro directory member light variant content found
  rw [vacant directory member light variant] at found
  exact absurd found (by simp)

end Artifacts

namespace Call

def used (calls : List Call) : Set (Variant → Text) := {document | ∃ call ∈ calls, call.Uses document}

theorem used_mono (some all : List Call) (subset : some ⊆ all) : used some ⊆ used all := by
  rintro document ⟨call, member, uses⟩
  exact ⟨call, subset member, uses⟩

/-- Without collisions a name stands for one pair of pages. -/
theorem eq_of_fingerprint_eq (calls : List Call)
    (distinct : Set.InjOn fingerprint {light | ∃ document ∈ used calls, light = document .light})
    (first second : Variant → Text) (firstUsed : first ∈ used calls) (secondUsed : second ∈ used calls)
    (same : fingerprint (first .light) = fingerprint (second .light)) : first = second := by
  have lights := distinct ⟨first, firstUsed, rfl⟩ ⟨second, secondUsed, rfl⟩ same
  obtain ⟨call, _, uses⟩ := firstUsed
  obtain ⟨other, _, otherUses⟩ := secondUsed
  exact Uses.ext call other first second uses otherUses lights

theorem finalAll_sound (artifacts : Artifacts) (image : Text → ByteArray) (calls : List Call)
    (pages : Set (Variant → Text)) (before : Workspace)
    (shared : ∀ call ∈ calls, call.formatter.artifacts = artifacts)
    (produces : ∀ call ∈ calls, call.formatter.compiler.Produces image)
    (within : used calls ⊆ pages) (sound : artifacts.Sound image pages before.storage) :
    artifacts.Sound image pages (finalAll calls before).storage := by
  induction calls generalizing before with
  | nil => exact sound
  | cons call rest ih =>
      refine ih (call.job.final before) (fun other member => shared other (List.mem_cons_of_mem _ member))
        (fun other member => produces other (List.mem_cons_of_mem _ member)) ?_ ?_
      · rintro document ⟨other, member, uses⟩
        exact within ⟨other, List.mem_cons_of_mem _ member, uses⟩
      · have preserves := call.formatter.preserves_render image pages (produces call (by simp)) call.source
          call.attributes fun document uses => within ⟨call, by simp, uses⟩
        have same := shared call (by simp)
        have after := preserves before (by rw [Formatter.IsSound, same]; exact sound)
        rw [Formatter.IsSound, same] at after
        exact after

theorem onSite_of_ok (image : Text → ByteArray) (call : Call)
    (produces : call.formatter.compiler.Produces image) (before after : Workspace)
    (rooted : before.storage.tree.Rooted) (rendered : RenderedPreview)
    (finished : call.job before = .ok rendered after) :
    ∃ document, call.Uses document ∧ rendered.fingerprint = fingerprint (document .light) ∧
      ∀ variant, ∃ content, after.storage.read
        (call.formatter.artifacts.sitePath rendered.fingerprint variant) = .ok content := by
  obtain ⟨settings, site, accepted, hasSite⟩ :=
    call.formatter.accepted_of_render_eq_ok _ _ _ _ _ finished
  obtain ⟨ran, rfl, undisturbed⟩ := (Formatter.render_eq_ok_iff call.formatter call.source site
    call.attributes settings accepted hasSite _ _ _).mp finished
  obtain ⟨stored, made, half, store, directory, light, dark⟩ :=
    (Formatter.undisturbed_single_iff _ _ _ _ _).mp undisturbed
  obtain ⟨dumpOnly, _⟩ := store.settles _ produces.writesFile _ _ _ _ rooted
  obtain ⟨_, published⟩ := call.formatter.publish_settles _ (isDigest_fingerprint _) stored made half after
    dumpOnly.rooted directory light dark
  refine ⟨_, ⟨settings, accepted, rfl⟩, rfl, ?_⟩
  intro variant
  obtain ⟨content, there, _⟩ := published variant
  exact ⟨content, there⟩

section Run

variable (artifacts : Artifacts) (image : Text → ByteArray) (calls : List Call) (before : Workspace)
  (shared : ∀ call ∈ calls, call.formatter.artifacts = artifacts)
  (produces : ∀ call ∈ calls, call.formatter.compiler.Produces image)
  (rooted : before.storage.tree.Rooted) (vacant : artifacts.Vacant before.storage)

include shared produces rooted vacant

/-- The images made by a part of a run stem from pages of that part alone. -/
theorem sound_of_parts (earlier later : List Call) (parts : calls = earlier ++ later) :
    artifacts.Sound image (used earlier) (finalAll earlier before).storage := by
  refine finalAll_sound artifacts image earlier _ before ?_ ?_ subset_rfl
    (vacant.sound artifacts image _ _ rooted)
  · exact fun call member => shared call (parts ▸ List.mem_append_left _ member)
  · exact fun call member => produces call (parts ▸ List.mem_append_left _ member)

variable (distinct : Set.InjOn fingerprint {light | ∃ document ∈ used calls, light = document .light})

include distinct

theorem image_of_parts (earlier later : List Call) (parts : calls = earlier ++ later) (light : Text)
    (variant : Variant) (path : PathName)
    (member : path ∈ [artifacts.dumpPath (fingerprint light) variant,
      artifacts.sitePath (fingerprint light) variant])
    (content : ByteArray) (found : (finalAll earlier before).storage.read path = .ok content) :
    (∃ document ∈ used earlier, fingerprint (document .light) = fingerprint light) ∧
      ∀ document ∈ used calls, fingerprint (document .light) = fingerprint light →
        content = image (document variant) := by
  have sound := sound_of_parts artifacts image calls before shared produces rooted vacant earlier later parts
  obtain ⟨document, isUsed, named, made⟩ :=
    sound.image_of_read _ _ _ _ light variant path member content found
  have within := used_mono earlier calls (by rw [parts]; simp)
  refine ⟨⟨document, isUsed, named⟩, ?_⟩
  intro other otherUsed otherNamed
  -- The image was made from some pages of this name, and no others of the run have the name.
  rw [eq_of_fingerprint_eq _ distinct other document otherUsed (within isUsed)
    (otherNamed.trans named.symm)]
  exact made

theorem onSite_of_parts (earlier : List Call) (call : Call) (later : List Call)
    (rendered : RenderedPreview) (after : Workspace) (parts : calls = earlier ++ call :: later)
    (finished : call.job (finalAll earlier before) = .ok rendered after) :
    ∃ document, call.Uses document ∧ rendered.fingerprint = fingerprint (document .light) ∧
      ∀ variant, after.storage.read (artifacts.sitePath rendered.fingerprint variant) =
        .ok (image (document variant)) := by
  have member : call ∈ calls := by
    rw [parts]
    simp
  have rootedThere :=
    (sound_of_parts artifacts image calls before shared produces rooted vacant earlier _ parts).rooted
  obtain ⟨document, uses, name, onSite⟩ :=
    call.onSite_of_ok image (produces call member) _ after rootedThere rendered finished
  refine ⟨document, uses, name, ?_⟩
  intro variant
  obtain ⟨content, there⟩ := onSite variant
  rw [shared call member, name] at there
  -- The workspace after the call is one of the run.
  have partsAfter : calls = (earlier ++ [call]) ++ later := by
    rw [parts]
    simp
  have reached : finalAll (earlier ++ [call]) before = after := by
    rw [finalAll_append, finalAll_singleton]
    exact Job.final_of_ok _ _ _ _ finished
  have known := (image_of_parts artifacts image calls before shared produces rooted vacant distinct
    (earlier ++ [call]) later partsAfter (document .light) variant
    (artifacts.sitePath (fingerprint (document .light)) variant) (by simp) content
    (by rw [reached]; exact there)).2 document ⟨call, member, uses⟩ rfl
  rw [name, there, known]

end Run

end Call

namespace Step

theorem formatter_of_mem_calls (step : Step) (before : Workspace) (call : Call)
    (member : call ∈ step.calls before) : call.formatter = step.formatter := by
  cases step with
  | render own =>
      rw [List.mem_singleton.mp member]
      rfl
  | process formatter input =>
      simp only [calls, Formatter.processCalls] at member
      split at member
      · exact formatter.formatter_of_mem_segmentCalls _ before call member
      · simp at member

theorem exists_of_mem_history (steps : List Step) (before : Workspace) (call : Call)
    (member : call ∈ history steps before) : ∃ step ∈ steps, call.formatter = step.formatter := by
  induction steps generalizing before with
  | nil => simp [history] at member
  | cons step rest ih =>
      rcases List.mem_append.mp member with own | later
      · exact ⟨step, by simp, formatter_of_mem_calls step before call own⟩
      · obtain ⟨other, inside, same⟩ := ih (step.final before) later
        exact ⟨other, List.mem_cons_of_mem _ inside, same⟩

/-- Formatters that share their directories of images render previews and process documents. With
compilers that give the same image for the same document, from a tree without images and with
distinct fingerprints for distinct light pages: at every point of the run every image is the one of
each preview of its name, and each render that succeeds leaves the images of its own pages on the
site. -/
theorem history_sound (artifacts : Artifacts) (image : Text → ByteArray) (steps : List Step)
    (before : Workspace) (shared : ∀ step ∈ steps, step.formatter.artifacts = artifacts)
    (produces : ∀ step ∈ steps, step.formatter.compiler.Produces image)
    (rooted : before.storage.tree.Rooted) (vacant : artifacts.Vacant before.storage)
    (distinct : Set.InjOn fingerprint
      {light | ∃ document ∈ Call.used (history steps before), light = document .light}) :
    finalAll steps before = Call.finalAll (history steps before) before ∧
      (∀ earlier later, history steps before = earlier ++ later →
        ∀ (light : Text) (variant : Variant),
          ∀ path ∈ [artifacts.dumpPath (fingerprint light) variant,
              artifacts.sitePath (fingerprint light) variant],
            ∀ content, (Call.finalAll earlier before).storage.read path = .ok content →
              (∃ document ∈ Call.used earlier, fingerprint (document .light) = fingerprint light) ∧
                ∀ document ∈ Call.used (history steps before),
                  fingerprint (document .light) = fingerprint light →
                    content = image (document variant)) ∧
      ∀ earlier call later rendered after, history steps before = earlier ++ call :: later →
        call.job (Call.finalAll earlier before) = .ok rendered after →
          ∃ document, call.Uses document ∧ rendered.fingerprint = fingerprint (document .light) ∧
            ∀ variant, after.storage.read (artifacts.sitePath rendered.fingerprint variant) =
              .ok (image (document variant)) := by
  have sharedCalls : ∀ call ∈ history steps before, call.formatter.artifacts = artifacts := by
    intro call member
    obtain ⟨step, inside, same⟩ := exists_of_mem_history steps before call member
    rw [same]
    exact shared step inside
  have producesCalls : ∀ call ∈ history steps before, call.formatter.compiler.Produces image := by
    intro call member
    obtain ⟨step, inside, same⟩ := exists_of_mem_history steps before call member
    rw [same]
    exact produces step inside
  refine ⟨finalAll_eq_history steps before, ?_, ?_⟩
  · exact Call.image_of_parts artifacts image _ before sharedCalls producesCalls rooted vacant distinct
  · exact Call.onSite_of_parts artifacts image _ before sharedCalls producesCalls rooted vacant distinct

/-- The first render stops at the dark image and leaves a light one; the second leaves both images of
its pages on the site. -/
theorem history_sound_second_try :
    let formatter := Formatter.small (.failingAt [1] (.writing Text.encode))
    let call : Call := ⟨formatter, ['x'], .basic⟩
    let before : Workspace := ⟨⟨.empty, []⟩, [], []⟩
    Job.error? call.job before = some (.compile (.failed (.code 1) [])) ∧
      ∃ rendered after, call.job (call.job.final before) = .ok rendered after ∧
        ∀ variant, after.storage.read (formatter.artifacts.sitePath smallFingerprint variant) =
          .ok (Text.encode (formatter.document .basic ['x'] variant)) := by
  rw [smallFingerprint_eq]
  intro formatter call before
  have digest : fingerprint (formatter.document .basic ['x'] .light) = smallDigits :=
    fingerprint_eq_smallDigits _ rfl
  have run : call.job = _ := formatter.render_eq_smallDigits rfl rfl
  have outcome : Job.error? call.job before = some (.compile (.failed (.code 1) [])) ∧
      (Job.result? call.job (call.job.final before)).isSome = true := by
    rw [run]
    decide +kernel
  obtain ⟨stops, succeeds⟩ := outcome
  have uses : ∀ document, call.Uses document → document = formatter.document .basic ['x'] := by
    rintro document ⟨settings, accepted, rfl⟩
    rw [show settings = .basic from Except.ok.inj (accepted.symm.trans PreviewSettings.ofAttributes_basic)]
  have single : history [.render call, .render call] before = [call, call] := rfl
  have distinct : Set.InjOn fingerprint {light | ∃ document ∈
      Call.used (history [.render call, .render call] before), light = document .light} := by
    rw [single]
    rintro _ ⟨first, ⟨firstCall, firstIn, firstUses⟩, rfl⟩ _ ⟨second, ⟨secondCall, secondIn, secondUses⟩, rfl⟩ _
    simp only [List.mem_cons, List.not_mem_nil, or_false, or_self] at firstIn secondIn
    subst firstIn secondIn
    rw [uses first firstUses, uses second secondUses]
  have vacant : formatter.artifacts.Vacant before.storage := by
    intro directory _ light variant
    simp only [before, FileTree.file?_empty]
  have produces : formatter.compiler.Produces Text.encode :=
    Compiler.produces_failingAt _ _ _ (Compiler.produces_writing _)
  obtain ⟨rendered, result⟩ := Option.isSome_iff_exists.mp succeeds
  obtain ⟨after, finished⟩ := (Job.result?_eq_some_iff _ _ _).mp result
  obtain ⟨_, _, onSite⟩ := history_sound formatter.artifacts Text.encode [.render call, .render call] before
    (by simp [formatter, call, Step.formatter]) (by simpa [call, Step.formatter] using produces)
    (FileTree.Rooted.of_entries _ (by simp [before, FileTree.empty])) vacant distinct
  have reached := Call.finalAll_singleton call before
  rw [← reached] at finished
  obtain ⟨document, used, name, contents⟩ := onSite [call] call [] rendered after rfl finished
  rw [uses document used, digest] at name
  rw [name, uses document used] at contents
  exact ⟨stops, rendered, after, reached ▸ finished, contents⟩

end Step

end FencePreview
