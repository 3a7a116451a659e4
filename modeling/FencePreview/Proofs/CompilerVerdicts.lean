import FencePreview.Proofs.CacheSoundness
import FencePreview.Proofs.CompilerCalls
import FencePreview.Proofs.FailedRenders

/-! Renders that only the compiler can fail. What such a render gives, and which images it leaves, can be
told from its source alone: images left by earlier renders change what is compiled, and nothing else. -/

namespace FencePreview

/-- A compiler that leaves everything but its output alone. Where it succeeds, `verdict` has the image
that it writes. -/
structure Compiler.Follows (verdict : Text → Except CompileError ByteArray) (compiler : Compiler) : Prop where
  confined : compiler.OnlyOutput
  success : ∀ calls document output storage,
    (compiler calls document output storage).outcome = .ok () →
      ∃ image, verdict document = .ok image ∧
        (compiler calls document output storage).storage.read output = .ok image

theorem Compiler.Follows.writesFile {verdict : Text → Except CompileError ByteArray} {compiler : Compiler}
    (follows : compiler.Follows verdict) : compiler.WritesFile :=
  .of_read compiler follows.confined fun calls document output storage succeeds =>
    (follows.success calls document output storage succeeds).imp fun _ found => found.2

theorem Compiler.follows_writing (image : Text → ByteArray) :
    (writing image).Follows fun document => .ok (image document) := by
  obtain ⟨confined, output⟩ := produces_writing image
  exact ⟨confined, fun calls document path storage succeeds =>
    ⟨_, rfl, output calls document path storage succeeds⟩⟩

/-- The image of one variant that rendering a page leaves, where images are stored or where they are
published only. The dark document is compiled after the light one, and images are published last. -/
def imageLeft (verdict : Text → Except CompileError ByteArray) (page : Variant → Text)
    (published : Bool) (variant : Variant) : Option ByteArray :=
  match verdict (page .light), verdict (page .dark) with
  | .error _, _ => none
  | .ok light, .error _ => if published || variant.isDark then none else some light
  | .ok light, .ok dark => some (match variant with
      | .light => light
      | .dark => dark)

theorem imageLeft_of_ok (verdict : Text → Except CompileError ByteArray) (page : Variant → Text)
    (images : Variant → ByteArray) (succeeds : ∀ variant, verdict (page variant) = .ok (images variant))
    (published : Bool) (variant : Variant) :
    imageLeft verdict page published variant = some (images variant) := by
  simp only [imageLeft, succeeds .light, succeeds .dark]
  cases variant <;> rfl

theorem verdict_of_imageLeft (verdict : Text → Except CompileError ByteArray) (page : Variant → Text)
    (published : Bool) (variant : Variant) (content : ByteArray)
    (left : imageLeft verdict page published variant = some content) :
    verdict (page variant) = .ok content := by
  simp only [imageLeft] at left
  split at left
  · simp at left
  · rename_i light _ lightOk _
    split at left
    · simp at left
    · rename_i plain
      cases variant with
      | light => rw [lightOk, Option.some.inj left]
      | dark => simp [Variant.isDark] at plain
  · rename_i light dark lightOk darkOk
    cases variant with
    | light => exact lightOk.trans (congrArg Except.ok (Option.some.inj left))
    | dark => exact darkOk.trans (congrArg Except.ok (Option.some.inj left))

namespace Artifacts

variable (artifacts : Artifacts) (verdict : Text → Except CompileError ByteArray)

/-- Whether images in a directory are only published there. -/
def publishes (storage : Storage) (directory : PathName) : Bool :=
  decide (storage.place directory ≠ storage.place artifacts.dumpDirectory)

/-- The images in the directories of images are those that some of `pages` left. -/
structure Holds (pages : List (Variant → Text)) (storage : Storage) : Prop where
  rooted : storage.tree.Rooted
  images : ∀ directory ∈ artifacts.directories, ∀ (light : Text) (variant : Variant) (content : ByteArray),
    storage.tree.file? (storage.place (directory.join ⟨variant.fileName (fingerprint light)⟩)) =
        some content ↔
      ∃ page ∈ pages, fingerprint (page .light) = fingerprint light ∧
        imageLeft verdict page (artifacts.publishes storage directory) variant = some content

def paths (page : Variant → Text) : List PathName :=
  let name := fingerprint (page .light)
  [artifacts.dumpPath name .light, artifacts.dumpPath name .dark, artifacts.sitePath name .light,
    artifacts.sitePath name .dark]

def IsImage (storage : Storage) (location : Location) : Prop :=
  ∃ directory ∈ artifacts.directories, ∃ (light : Text) (variant : Variant),
    location = storage.place (directory.join ⟨variant.fileName (fingerprint light)⟩)

theorem isImage_of_mem_paths (storage : Storage) (page : Variant → Text) (path : PathName)
    (member : path ∈ artifacts.paths page) : artifacts.IsImage storage (storage.place path) := by
  simp only [paths, List.mem_cons, List.not_mem_nil, or_false] at member
  rcases member with rfl | rfl | rfl | rfl
  · exact ⟨artifacts.dumpDirectory, by simp [directories], page .light, .light, rfl⟩
  · exact ⟨artifacts.dumpDirectory, by simp [directories], page .light, .dark, rfl⟩
  · exact ⟨artifacts.siteDirectory, by simp [directories], page .light, .light, rfl⟩
  · exact ⟨artifacts.siteDirectory, by simp [directories], page .light, .dark, rfl⟩

theorem publishes_congr (before after : Storage)
    (same : after.workingDirectory = before.workingDirectory) (directory : PathName) :
    artifacts.publishes after directory = artifacts.publishes before directory := by
  simp only [publishes, Storage.place_congr before after same]

theorem Vacant.holds (storage : Storage) (rooted : storage.tree.Rooted)
    (vacant : artifacts.Vacant storage) : artifacts.Holds verdict [] storage := by
  refine ⟨rooted, ?_⟩
  intro directory member light variant content
  simp [vacant directory member light variant]

namespace Holds

variable {artifacts verdict}
variable {pages : List (Variant → Text)} {before after : Storage}

theorem of_keeps (holds : artifacts.Holds verdict pages before) (targets : List PathName)
    (keeps : before.Keeps targets after)
    (apart : ∀ target ∈ targets, ¬artifacts.IsImage before (before.place target)) :
    artifacts.Holds verdict pages after := by
  refine ⟨keeps.rooted, ?_⟩
  intro directory member light variant content
  have digest := isDigest_fingerprint light
  have unchanged := keeps.files
    (before.place (directory.join ⟨variant.fileName (fingerprint light)⟩))
    (by
      rintro target inside same
      exact apart target inside ⟨directory, member, light, variant, same.symm⟩)
    (variant.not_hidden_join _ digest before directory)
  rw [keeps.place_eq, unchanged, artifacts.publishes_congr before after keeps.sameDirectory]
  exact holds.images directory member light variant content

theorem imageLeft_of_found (holds : artifacts.Holds verdict pages before) (page : Variant → Text)
    (alone : ∀ other ∈ pages, fingerprint (other .light) = fingerprint (page .light) → other = page)
    (directory : PathName) (member : directory ∈ artifacts.directories) (variant : Variant)
    (content : ByteArray)
    (found : before.tree.file? (before.place
      (directory.join ⟨variant.fileName (fingerprint (page .light))⟩)) = some content) :
    imageLeft verdict page (artifacts.publishes before directory) variant = some content := by
  obtain ⟨other, inside, named, left⟩ := (holds.images directory member _ variant content).mp found
  rw [← alone other inside named]
  exact left

/-- Where a page leaves no image and nothing has changed, there is none of its name. -/
theorem own_of_unchanged (holds : artifacts.Holds verdict pages before) (page : Variant → Text)
    (alone : ∀ other ∈ pages, fingerprint (other .light) = fingerprint (page .light) → other = page)
    (directory : PathName) (member : directory ∈ artifacts.directories) (variant : Variant)
    (nothing : imageLeft verdict page (artifacts.publishes before directory) variant = none)
    (unchanged : after.tree.file? (before.place
        (directory.join ⟨variant.fileName (fingerprint (page .light))⟩)) =
      before.tree.file? (before.place (directory.join ⟨variant.fileName (fingerprint (page .light))⟩)))
    (content : ByteArray) :
    after.tree.file? (before.place (directory.join ⟨variant.fileName (fingerprint (page .light))⟩)) =
        some content ↔
      imageLeft verdict page (artifacts.publishes before directory) variant = some content := by
  rw [unchanged, nothing]
  constructor
  · intro found
    have left := holds.imageLeft_of_found page alone directory member variant content found
    rwa [nothing] at left
  · intro impossible
    simp at impossible

/-- One more page: its own images are as its documents make them, and no others change. -/
theorem extend (holds : artifacts.Holds verdict pages before) (page : Variant → Text)
    (alone : ∀ other ∈ pages, fingerprint (other .light) = fingerprint (page .light) → other = page)
    (keeps : before.Keeps (artifacts.paths page) after)
    (own : ∀ directory ∈ artifacts.directories, ∀ variant content,
      after.tree.file? (before.place (directory.join ⟨variant.fileName (fingerprint (page .light))⟩)) =
          some content ↔
        imageLeft verdict page (artifacts.publishes before directory) variant = some content) :
    artifacts.Holds verdict (pages ++ [page]) after := by
  refine ⟨keeps.rooted, ?_⟩
  intro directory member light variant content
  rw [keeps.place_eq, artifacts.publishes_congr before after keeps.sameDirectory]
  by_cases same : fingerprint (page .light) = fingerprint light
  · rw [← same, own directory member variant content]
    constructor
    · intro left
      exact ⟨page, by simp, rfl, left⟩
    · rintro ⟨other, inside, named, left⟩
      rcases List.mem_append.mp inside with early | last
      · rwa [alone other early named] at left
      · rwa [List.mem_singleton.mp last] at left
  · have digest := isDigest_fingerprint light
    have unchanged := keeps.files
      (before.place (directory.join ⟨variant.fileName (fingerprint light)⟩))
      (by
        intro target inside together
        simp only [paths, List.mem_cons, List.not_mem_nil, or_false] at inside
        rcases inside with rfl | rfl | rfl | rfl <;>
          exact same (Variant.eq_of_place_join _ _ _ _ _ _ _ digest (isDigest_fingerprint _)
            together).2.1.symm)
      (variant.not_hidden_join _ digest before directory)
    rw [unchanged, holds.images directory member light variant content]
    constructor
    · rintro ⟨other, inside, named, left⟩
      exact ⟨other, List.mem_append_left _ inside, named, left⟩
    · rintro ⟨other, inside, named, left⟩
      rcases List.mem_append.mp inside with early | last
      · exact ⟨other, early, named, left⟩
      · rw [List.mem_singleton.mp last] at named
        exact absurd named same

end Holds

/-- From images of `seen` to those of `pages` beside them, with no other file changed. -/
structure Gains (seen pages : List (Variant → Text)) (before after : Storage) : Prop where
  holds : artifacts.Holds verdict (seen ++ pages) after
  keeps : before.Keeps (pages.flatMap artifacts.paths) after

namespace Gains

variable {artifacts verdict}

theorem refl (seen : List (Variant → Text)) (storage : Storage)
    (holds : artifacts.Holds verdict seen storage) : artifacts.Gains verdict seen [] storage storage :=
  ⟨by rwa [List.append_nil], .refl _ _ holds.rooted⟩

theorem trans (seen early late : List (Variant → Text)) (first second third : Storage)
    (before : artifacts.Gains verdict seen early first second)
    (after : artifacts.Gains verdict (seen ++ early) late second third) :
    artifacts.Gains verdict seen (early ++ late) first third := by
  refine ⟨?_, ?_⟩
  · rw [← List.append_assoc]
    exact after.holds
  · rw [List.flatMap_append]
    exact before.keeps.trans _ _ _ _ _ after.keeps

theorem single (seen : List (Variant → Text)) (page : Variant → Text) (before after : Storage)
    (holds : artifacts.Holds verdict (seen ++ [page]) after)
    (keeps : before.Keeps (artifacts.paths page) after) :
    artifacts.Gains verdict seen [page] before after :=
  ⟨holds, by rwa [List.flatMap_singleton]⟩

end Gains

end Artifacts

/-- Calls made between two workspaces, none of which the compiler refuses. -/
def Agreed (verdict : Text → Except CompileError ByteArray) (before after : Workspace) : Prop :=
  ∃ calls, after.compiled = before.compiled ++ calls ∧
    ∀ document ∈ calls, ∃ image, verdict document = .ok image

/-- The compiler refuses a document that it was called for between two workspaces. -/
def Refused (verdict : Text → Except CompileError ByteArray) (cause : CompileError)
    (before after : Workspace) : Prop :=
  ∃ calls, after.compiled = before.compiled ++ calls ∧ ∃ document ∈ calls, verdict document = .error cause

/-- A failure of a render in which file operations have no part. -/
def PreviewError.Inherent (verdict : Text → Except CompileError ByteArray) (before after : Workspace) :
    PreviewError → Prop
  | .attributes _ => True
  | .missingSetting _ => True
  | .compile cause => Refused verdict cause before after
  | .publish _ => False

theorem Refused.ne_of_silent (verdict : Text → Except CompileError ByteArray) (cause : CompileError)
    (before after : Workspace) (refused : Refused verdict cause before after) :
    after.compiled ≠ before.compiled := by
  obtain ⟨calls, all, document, member, _⟩ := refused
  rw [all]
  intro same
  rw [List.append_right_eq_self.mp same] at member
  exact absurd member List.not_mem_nil

theorem Refused.of_single (verdict : Text → Except CompileError ByteArray) (cause : CompileError)
    (document : Text) (before after : Workspace) (single : after.compiled = before.compiled ++ [document])
    (refused : Refused verdict cause before after) : verdict document = .error cause := by
  obtain ⟨calls, all, other, member, rejected⟩ := refused
  obtain rfl := List.append_cancel_left (all.symm.trans single)
  rwa [List.mem_singleton.mp member] at rejected

theorem Refused.of_trans (verdict : Text → Except CompileError ByteArray) (cause : CompileError)
    (before between after : Workspace) (early : Agreed verdict before between)
    (grown : between.compiled <+: after.compiled) (refused : Refused verdict cause before after) :
    Refused verdict cause between after := by
  obtain ⟨agreed, first, accepted⟩ := early
  obtain ⟨calls, all, document, member, rejected⟩ := refused
  obtain ⟨later, second⟩ := grown
  rw [first, List.append_assoc, all] at second
  obtain rfl := List.append_cancel_left second
  refine ⟨later, ?_, document, ?_, rejected⟩
  · rw [all, first, List.append_assoc]
  · rcases List.mem_append.mp member with inside | outside
    · obtain ⟨image, kept⟩ := accepted document inside
      rw [kept] at rejected
      exact absurd rejected (by simp)
    · exact outside

namespace Formatter

variable (formatter : Formatter) (verdict : Text → Except CompileError ByteArray)

/-- What rendering a source gives as far as the compiler decides it. -/
def settle (source : Text) (attributes : Attributes) : Except PreviewError RenderedPreview :=
  match PreviewSettings.ofAttributes attributes, formatter.sitePath with
  | .error error, _ => .error (.attributes error)
  | .ok _, none => .error (.missingSetting "site_url".toList)
  | .ok settings, some site =>
      let page := formatter.document settings source
      match verdict (page .light), verdict (page .dark) with
      | .error cause, _ => .error (.compile cause)
      | .ok _, .error cause => .error (.compile cause)
      | .ok _, .ok _ => .ok (renderedAs site page false)

/-- The page that rendering a source comes to, if attributes and settings admit it. -/
def reaches (source : Text) (attributes : Attributes) : List (Variant → Text) :=
  match PreviewSettings.ofAttributes attributes, formatter.sitePath with
  | .ok settings, some _ => [formatter.document settings source]
  | _, _ => []

variable {formatter verdict}

theorem verdict_of_left (follows : formatter.compiler.Follows verdict) (document : Text)
    (image : ByteArray) (before after : Workspace) (left : formatter.Left document image before after) :
    verdict document = .ok image := by
  obtain ⟨temporary, made, filled, _, _, call, found⟩ := left
  have success := follows.success made.compiled.length document temporary made.storage
  simp only [Job.compile] at call
  split at call
  · rename_i done outcome
    cases call
    obtain ⟨output, accepted, written⟩ := success outcome
    rw [accepted, Except.ok.inj (written.symm.trans found)]
  · simp at call

/-- Both images of a rendered page are the compiler's, whether they were in store, on the site or neither. -/
theorem Undisturbed.accepts (follows : formatter.compiler.Follows verdict) (page : Variant → Text)
    (before after : Workspace) (ran : Bool) (seen : List (Variant → Text))
    (holds : formatter.artifacts.Holds verdict seen before.storage)
    (alone : ∀ other ∈ seen, fingerprint (other .light) = fingerprint (page .light) → other = page)
    (undisturbed : formatter.Undisturbed [page] before [ran] after) (variant : Variant) :
    ∃ image, verdict (page variant) = .ok image ∧
      after.storage.read (formatter.artifacts.dumpPath (fingerprint (page .light)) variant) = .ok image ∧
      after.storage.read (formatter.artifacts.sitePath (fingerprint (page .light)) variant) = .ok image := by
  obtain ⟨_, contents⟩ :=
    undisturbed.settles formatter follows.writesFile page before after ran holds.rooted
  obtain ⟨image, dump, origin, site⟩ := contents variant
  have judged : verdict (page variant) = .ok image := by
    cases ran with
    | true => exact verdict_of_left follows _ _ _ _ origin
    | false =>
        exact verdict_of_imageLeft _ _ _ _ _ (holds.imageLeft_of_found page alone
          formatter.artifacts.dumpDirectory (by simp [Artifacts.directories]) variant image
          (Storage.file?_place_of_read _ _ _ origin))
  refine ⟨image, judged, dump, ?_⟩
  rw [site]
  split
  · rfl
  · cases found : before.storage.tree.file? (before.storage.place
        (formatter.artifacts.sitePath (fingerprint (page .light)) variant)) with
    | none => rfl
    | some old =>
        have older := verdict_of_imageLeft _ _ _ _ _ (holds.imageLeft_of_found page alone
          formatter.artifacts.siteDirectory (by simp [Artifacts.directories]) variant old found)
        rw [judged] at older
        rw [Option.getD_some, Except.ok.inj older]

theorem Undisturbed.settled (follows : formatter.compiler.Follows verdict) (page : Variant → Text)
    (before after : Workspace) (ran : Bool) (seen : List (Variant → Text))
    (holds : formatter.artifacts.Holds verdict seen before.storage)
    (alone : ∀ other ∈ seen, fingerprint (other .light) = fingerprint (page .light) → other = page)
    (undisturbed : formatter.Undisturbed [page] before [ran] after) :
    (∃ images : Variant → ByteArray, ∀ variant, verdict (page variant) = .ok (images variant)) ∧
      formatter.artifacts.Holds verdict (seen ++ [page]) after.storage ∧
      before.storage.Keeps (formatter.artifacts.paths page) after.storage ∧
      Agreed verdict before after := by
  obtain ⟨keeps, _⟩ := undisturbed.settles formatter follows.writesFile page before after ran holds.rooted
  choose images judged dump site using undisturbed.accepts follows page before after ran seen holds alone
  refine ⟨⟨images, judged⟩, ?_, keeps, ?_⟩
  · refine holds.extend page alone keeps ?_
    intro directory member variant content
    rw [imageLeft_of_ok verdict page images judged]
    have there : after.storage.tree.file? (before.storage.place
        (directory.join ⟨variant.fileName (fingerprint (page .light))⟩)) = some (images variant) := by
      simp only [Artifacts.directories, List.mem_cons, List.not_mem_nil, or_false] at member
      rw [← keeps.place_eq]
      rcases member with rfl | rfl
      · exact Storage.file?_place_of_read _ _ _ (dump variant)
      · exact Storage.file?_place_of_read _ _ _ (site variant)
    rw [there]
  · obtain ⟨_, grown⟩ := undisturbed.compiled_eq
    refine ⟨_, grown, ?_⟩
    intro document member
    cases ran with
    | false => simp [calls] at member
    | true =>
        simp only [calls, if_true, List.append_nil, List.mem_cons, List.not_mem_nil, or_false] at member
        rcases member with rfl | rfl
        · exact ⟨_, judged .light⟩
        · exact ⟨_, judged .dark⟩

/-- Storing that the compiler stops: at the light document nothing is left, at the dark one the light
image is. -/
theorem StoreStopped.settled (follows : formatter.compiler.Follows verdict) (page : Variant → Text)
    (before after : Workspace) (rooted : before.storage.tree.Rooted) (cause : CompileError)
    (stopped : formatter.StoreStopped page before cause after)
    (refused : Refused verdict cause before after) :
    verdict (page .light) = .error cause ∧ before.storage.Keeps [] after.storage ∨
      ∃ image, verdict (page .light) = .ok image ∧ verdict (page .dark) = .error cause ∧
        before.storage.Keeps [formatter.artifacts.dumpPath (fingerprint (page .light)) .light]
          after.storage ∧
        after.storage.read (formatter.artifacts.dumpPath (fingerprint (page .light)) .light) = .ok image := by
  have directories := Job.keeps_makeDirectories formatter.artifacts.dumpDirectory before rooted
  have confined := follows.confined
  cases stopped with
  | directory _ cause failed =>
      refine absurd ?_ (refused.ne_of_silent _ _ _ _)
      rw [← Job.final_of_error _ _ _ _ failed, Job.makeDirectories_final]
  | light made _ _ directory failed =>
      left
      rw [Job.final_of_ok _ _ _ _ directory] at directories
      have unchanged := Job.keeps_of_placeFile_eq_error _ _ _ _
        (formatter.compiler.fills_compile confined _) made after directories.rooted cause failed
      refine ⟨?_, directories.trans [] [] _ _ _ unchanged⟩
      have same := Job.makeDirectories_compiled_eq _ _ _ directory
      rcases formatter.storeOne_eq_error _ _ _ _ _ _ failed with one | ⟨none, _⟩
      · rw [same] at one
        exact refused.of_single _ _ _ _ _ one
      · exact absurd (none.trans same) (refused.ne_of_silent _ _ _ _)
  | dark made half _ _ directory light failed =>
      right
      rw [Job.final_of_ok _ _ _ _ directory] at directories
      obtain ⟨lightOnly, image, there, left⟩ :=
        Compiled.settles formatter follows.writesFile _ _ _ _ _ directories.rooted light
      have unchanged := Job.keeps_of_placeFile_eq_error _ _ _ _
        (formatter.compiler.fills_compile confined _) half after lightOnly.rooted cause failed
      have judged := verdict_of_left follows _ _ _ _ left
      refine ⟨image, judged, ?_, ?_, ?_⟩
      · have agreed : Agreed verdict before half := by
          refine ⟨[page .light], ?_, ?_⟩
          · rw [Compiled.compiled_eq _ _ _ _ _ _ light, Job.makeDirectories_compiled_eq _ _ _ directory]
          · intro document member
            rw [List.mem_singleton.mp member]
            exact ⟨image, judged⟩
        rcases formatter.storeOne_eq_error _ _ _ _ _ _ failed with one | ⟨none, _⟩
        · have later := refused.of_trans _ _ _ _ _ agreed (one ▸ List.prefix_append _ _)
          exact later.of_single _ _ _ _ _ one
        · have later := refused.of_trans _ _ _ _ _ agreed (none ▸ List.prefix_refl _)
          exact absurd none (later.ne_of_silent _ _ _ _)
      · exact (directories.trans [] _ _ _ _ (lightOnly.trans _ [] _ _ _ unchanged)).mono _ _ _ _ (by simp)
      · exact unchanged.read _ _ _ _ _ (by simp)
          (formatter.artifacts.not_hidden_dumpPath _ .light _ (isDigest_fingerprint _)) there

theorem StoreStopped.holds (follows : formatter.compiler.Follows verdict) (page : Variant → Text)
    (before after : Workspace) (cause : CompileError) (seen : List (Variant → Text))
    (holds : formatter.artifacts.Holds verdict seen before.storage)
    (alone : ∀ other ∈ seen, fingerprint (other .light) = fingerprint (page .light) → other = page)
    (stopped : formatter.StoreStopped page before cause after)
    (refused : Refused verdict cause before after) :
    (verdict (page .light) = .error cause ∨
        ∃ image, verdict (page .light) = .ok image ∧ verdict (page .dark) = .error cause) ∧
      formatter.artifacts.Holds verdict (seen ++ [page]) after.storage ∧
      before.storage.Keeps (formatter.artifacts.paths page) after.storage := by
  have digest := isDigest_fingerprint (page .light)
  rcases stopped.settled follows page before after holds.rooted cause refused with
    ⟨light, keeps⟩ | ⟨image, light, dark, keeps, there⟩
  · have wider := keeps.mono _ (formatter.artifacts.paths page) _ _ (by simp)
    refine ⟨.inl light, holds.extend page alone wider ?_, wider⟩
    intro directory member variant
    have unchanged := keeps.files _ (by simp) (variant.not_hidden_join _ digest before.storage directory)
    exact holds.own_of_unchanged page alone directory member variant (by simp [imageLeft, light]) unchanged
  · have wider := keeps.mono _ (formatter.artifacts.paths page) _ _ (by simp [Artifacts.paths])
    refine ⟨.inr ⟨image, light, dark⟩, holds.extend page alone wider ?_, wider⟩
    intro directory member variant content
    by_cases same : before.storage.place (directory.join ⟨variant.fileName (fingerprint (page .light))⟩) =
        before.storage.place (formatter.artifacts.dumpPath (fingerprint (page .light)) .light)
    · obtain ⟨rfl, _, together⟩ := Variant.eq_of_place_join _ _ _ _ _ _ _ digest digest same
      have stored : formatter.artifacts.publishes before.storage directory = false := by
        simp [Artifacts.publishes, together]
      have found := Storage.file?_place_of_read _ _ _ there
      rw [keeps.place_eq] at found
      rw [same, found, stored]
      simp [imageLeft, light, dark, Variant.isDark]
    · refine holds.own_of_unchanged page alone directory member variant ?_ ?_ content
      · simp only [imageLeft, light, dark]
        cases variant with
        | dark => simp [Variant.isDark]
        | light =>
            have published : formatter.artifacts.publishes before.storage directory = true := by
              simp only [Artifacts.publishes, decide_eq_true_eq]
              intro together
              refine same ?_
              rw [before.storage.place_join directory _ (Variant.light.isName_fileName _ digest), together,
                formatter.artifacts.place_dumpPath _ .light _ digest]
            simp [published]
      · refine keeps.files _ ?_ (variant.not_hidden_join _ digest before.storage directory)
        intro target inside
        rw [List.mem_singleton.mp inside]
        exact same

section Page

variable (follows : formatter.compiler.Follows verdict) (source site : Text) (attributes : Attributes)
  (settings : PreviewSettings) (accepted : PreviewSettings.ofAttributes attributes = .ok settings)
  (hasSite : formatter.sitePath = some site) (before after : Workspace) (seen : List (Variant → Text))
  (holds : formatter.artifacts.Holds verdict seen before.storage)
  (alone : ∀ other ∈ seen,
    fingerprint (other .light) = fingerprint (formatter.document settings source .light) →
      other = formatter.document settings source)

include follows accepted hasSite holds alone

theorem settles_of_ok (rendered : RenderedPreview)
    (finished : formatter.render source attributes before = .ok rendered after) :
    formatter.settle verdict source attributes = .ok { rendered with compiled := false } ∧
      formatter.artifacts.Gains verdict seen [formatter.document settings source] before.storage after.storage ∧
      Agreed verdict before after := by
  obtain ⟨ran, rfl, undisturbed⟩ :=
    (render_eq_ok_iff formatter source site attributes settings accepted hasSite _ _ _).mp finished
  obtain ⟨⟨images, judged⟩, left, keeps, agreed⟩ :=
    undisturbed.settled follows _ before after ran seen holds alone
  refine ⟨?_, .single _ _ _ _ left keeps, agreed⟩
  simp only [settle, accepted, hasSite, judged .light, judged .dark]
  rfl

theorem settles_of_error (error : PreviewError)
    (failed : formatter.render source attributes before = .error error after)
    (inherent : error.Inherent verdict before after) :
    formatter.settle verdict source attributes = .error error ∧
      formatter.artifacts.Gains verdict seen [formatter.document settings source] before.storage
        after.storage := by
  have outside := formatter.render_error_isOutside source site attributes settings accepted hasSite before
    after error failed
  cases error with
  | attributes error => exact outside.elim
  | missingSetting name => exact outside.elim
  | publish cause => exact inherent.elim
  | compile cause =>
      obtain ⟨_, stop⟩ :=
        (formatter.render_eq_compile_error_iff source attributes settings accepted _ _ _).mp failed
      obtain ⟨_, stopped⟩ := formatter.storeIfMissing_eq_error _ before after cause stop
      obtain ⟨judged, left, keeps⟩ := stopped.holds follows _ before after cause seen holds alone inherent
      refine ⟨?_, .single _ _ _ _ left keeps⟩
      simp only [settle, accepted, hasSite]
      rcases judged with light | ⟨image, light, dark⟩
      · simp only [light]
      · simp only [light, dark]

end Page

/-- A render in which no file operation fails gives what its source is settled to give, and leaves the
images of its page beside those that were there. -/
theorem render_settles (follows : formatter.compiler.Follows verdict) (source : Text)
    (attributes : Attributes) (before : Workspace) (seen : List (Variant → Text))
    (holds : formatter.artifacts.Holds verdict seen before.storage)
    (alone : ∀ page ∈ formatter.reaches source attributes, ∀ other ∈ seen,
      fingerprint (other .light) = fingerprint (page .light) → other = page) :
    let pages := formatter.reaches source attributes
    match formatter.render source attributes before with
    | .ok rendered after =>
        formatter.settle verdict source attributes = .ok { rendered with compiled := false } ∧
          formatter.artifacts.Gains verdict seen pages before.storage after.storage ∧
          Agreed verdict before after
    | .error error after => error.Inherent verdict before after →
        formatter.settle verdict source attributes = .error error ∧
          formatter.artifacts.Gains verdict seen pages before.storage after.storage := by
  intro pages
  have nothing := Artifacts.Gains.refl seen before.storage holds
  cases accepted : PreviewSettings.ofAttributes attributes with
  | error error =>
      simp only [pages, render, reaches, settle, accepted]
      exact fun _ => ⟨rfl, nothing⟩
  | ok settings =>
      cases hasSite : formatter.sitePath with
      | none =>
          simp only [pages, render, reaches, settle, accepted, hasSite]
          exact fun _ => ⟨rfl, nothing⟩
      | some site =>
          have reached : pages = [formatter.document settings source] := by
            simp only [pages, reaches, accepted, hasSite]
          have distinct := alone (formatter.document settings source) (by
            change _ ∈ pages
            rw [reached]
            exact List.mem_singleton_self _)
          rw [reached]
          split
          · rename_i rendered after finished
            exact settles_of_ok follows source site attributes settings accepted hasSite before after seen
              holds distinct rendered finished
          · rename_i error after failed
            exact settles_of_error follows source site attributes settings accepted hasSite before after
              seen holds distinct error failed

variable (formatter)

theorem preserves_calls (start : List Text) (source : Text) (attributes : Attributes) :
    Job.Preserves (fun workspace => start <+: workspace.compiled) (formatter.render source attributes) := by
  have edited : ∀ (workspace : Workspace) (storage : Storage), workspace.storage.tree.Edited storage.tree →
      start <+: workspace.compiled → start <+: ({ workspace with storage } : Workspace).compiled :=
    fun _ _ _ same => same
  refine formatter.preserves_render_of _ source attributes ?_ ?_ ?_
  · exact fun path _ => .makeDirectories _ edited path
  · intro settings _ variant document
    refine .placeFile _ edited _ _ _ _ fun path before grown => ?_
    simp only [Job.compile_final_compiled]
    exact grown.trans (List.prefix_append _ _)
  · intro light variant
    refine formatter.preserves_publishOne_of _ _ variant (.placeFile _ edited _ _ _ _ fun path => ?_)
    exact .change _ edited _ fun _ _ => Storage.edited_copy _ _ _ _

end Formatter

end FencePreview
