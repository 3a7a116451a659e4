import FencePreview.Document.Process
import FencePreview.Proofs.CacheSoundness

/-! Where rendering changes anything. In the directories of images it puts images and, for a time,
temporary files. Outside of them it makes directories where nothing was: the two of images and
those that remain when steps are cut off from their paths. -/

namespace FencePreview

namespace Storage

/-- One try to make a directory, told by where the path leads. -/
theorem makeDirectory_eq_ok_iff (before after : Storage) (path : PathName) :
    before.makeDirectory path = .ok after ↔
      before.resolve path.trimmed = .ok (before.place path) ∧
        before.tree.get? (before.place path) = none ∧
        after = before.withEntry (before.place path) (.directory FileTree.directoryMode) := by
  simp only [makeDirectory]
  constructor
  · intro made
    split at made
    · split at made <;> simp at made
    · rename_i location leads
      obtain rfl : location = before.place path := by
        rw [resolve_eq_ok _ _ _ leads, before.place_trimmed path ((resolve_eq_ok_iff _ _ _).mp leads).1]
      split at made
      · simp at made
      · rename_i free
        exact ⟨leads, free, (Except.ok.inj made).symm⟩
  · rintro ⟨leads, free, rfl⟩
    simp only [leads, free]

theorem makeDirectory_of_isDirectory (storage : Storage) (path : PathName)
    (there : storage.isDirectory path = true) : storage.makeDirectory path = .error .alreadyExists := by
  obtain ⟨location, leads, inside⟩ := (isDirectory_eq_true_iff _ _).mp there
  obtain ⟨mode, found⟩ := (FileTree.isDirectory_eq_true_iff _ _).mp inside
  have present : storage.exists? path = true := by simp [exists?, entry?, leads, found]
  simp only [makeDirectory]
  split
  · rw [if_pos present]
  · rename_i reached trimmed
    have filled := ((resolve_eq_ok_iff _ _ _).mp trimmed).1
    have same : reached = location := by
      rw [resolve_eq_ok _ _ _ trimmed, storage.place_trimmed path filled, resolve_eq_ok _ _ _ leads]
    simp only [same, found]

theorem makeDirectories_of_isDirectory (storage : Storage) (path : PathName)
    (there : path.text = [] ∨ storage.isDirectory path = true) :
    storage.makeDirectories path = (storage, .ok ()) := by
  rw [makeDirectories, makeDirectoriesWithin]
  split
  · rfl
  · rename_i filled
    have inside := there.resolve_left filled
    simp only [makeDirectory_of_isDirectory storage path inside, inside, if_true]

/-- Outside of the places `inside` all entries stay. Where there is none, a directory may come to be
at a place in `made`. -/
structure Adds (inside made : Location → Prop) (before after : Storage) : Prop where
  sameDirectory : after.workingDirectory = before.workingDirectory
  entries : ∀ location, ¬inside location →
    after.tree.get? location = before.tree.get? location ∨
      before.tree.get? location = none ∧ after.tree.isDirectory location = true ∧ made location

namespace Adds

variable (inside made : Location → Prop)

theorem refl (storage : Storage) : Adds inside made storage storage := ⟨rfl, fun _ _ => .inl rfl⟩

theorem trans (first second third : Storage) (early : Adds inside made first second)
    (late : Adds inside made second third) : Adds inside made first third := by
  refine ⟨late.sameDirectory.trans early.sameDirectory, ?_⟩
  intro location outside
  rcases early.entries location outside, late.entries location outside with
    ⟨same | ⟨free, there, new⟩, kept | ⟨free', there', new'⟩⟩
  · exact .inl (kept.trans same)
  · exact .inr ⟨same ▸ free', there', new'⟩
  · refine .inr ⟨free, ?_, new⟩
    simpa only [FileTree.isDirectory, kept] using there
  · simp [FileTree.isDirectory, free'] at there

theorem mono (some all : Location → Prop) (wider : ∀ location, some location → all location)
    (before after : Storage) (adds : Adds inside some before after) : Adds inside all before after :=
  ⟨adds.sameDirectory, fun location outside =>
    (adds.entries location outside).imp_right fun ⟨free, there, new⟩ => ⟨free, there, wider location new⟩⟩

theorem of_confinedTo (path : PathName) (before after : Storage) (within : inside (before.place path))
    (confined : ConfinedTo path before after) : Adds inside made before after := by
  refine ⟨confined.sameDirectory, fun location outside => .inl (confined.others location ?_)⟩
  rintro rfl
  exact outside within

end Adds

variable (inside : Location → Prop)

theorem adds_makeDirectory (before after : Storage) (path : PathName)
    (finished : before.makeDirectory path = .ok after) :
    Adds inside (fun location => location = before.place path) before after := by
  obtain ⟨_, free, rfl⟩ := (makeDirectory_eq_ok_iff _ _ _).mp finished
  have filled := FileTree.ne_nil_of_get?_eq_none _ _ free
  refine ⟨rfl, fun sought _ => ?_⟩
  simp only [withEntry, FileTree.isDirectory, FileTree.get?_insert _ _ _ _ filled]
  by_cases same : sought = before.place path
  · exact .inr ⟨same ▸ free, by simp [same], same⟩
  · exact .inl (by simp [same])

theorem adds_makeDirectories (storage : Storage) (path : PathName) :
    Adds inside (fun location => ∃ above, path.Above above ∧ location = storage.place above) storage
      (storage.makeDirectories path).1 := by
  refine makeDirectoriesWithin_steps (Adds inside _ storage) _ storage path ?_ (.refl _ _ storage)
  intro now after above higher adds made
  refine adds.trans _ _ _ _ _ ((adds_makeDirectory inside now after above made).mono _ _ _ ?_ _ _)
  rintro location rfl
  exact ⟨above, higher, place_congr _ _ adds.sameDirectory above⟩

theorem place_of_createTemporary (before made : Storage) (directory path : PathName)
    (created : before.createTemporary directory = .ok (made, path)) :
    ∃ number, before.place path =
      before.place (before.absolute directory) ++ [temporaryName number] := by
  obtain ⟨number, _, _, _, _, spot, _⟩ := createTemporary_eq_ok before made directory path created
  exact ⟨number, spot⟩

theorem adds_rename (made : Location → Prop) (before after : Storage) (source target : PathName)
    (bare : Bare source before) (left : inside (before.place source)) (reached : inside (before.place target))
    (renamed : before.rename source target = .ok after) : Adds inside made before after := by
  obtain ⟨entry, moved⟩ := rename_eq_ok _ _ _ _ renamed
  rcases moved.of_bare bare with ⟨_, rfl⟩ | ⟨free, rfl⟩
  · exact .refl _ _ _
  · exact (Adds.of_confinedTo inside made source _ _ left (confinedTo_withoutEntry before source bare)).trans
      _ _ _ _ _ (.of_confinedTo inside made target _ _ reached
        (confinedTo_withEntry (before.withoutEntry _) target _ free.ne_nil))

end Storage

namespace Job

variable {ε : Type}

variable (inside made : Location → Prop) (directory target : PathName) (wrap : FileError → ε)
  (fill : PathName → Job ε Unit) (fills : Fills fill) (before after : Workspace)
  (rooted : before.storage.tree.Rooted)
  (temporaries : ∀ number, inside
    (before.storage.place (before.storage.absolute directory) ++ [Storage.temporaryName number]))

include temporaries in
theorem inside_of_createTemporary (storage : Storage) (path : PathName)
    (created : before.storage.createTemporary directory = .ok (storage, path)) :
    inside (before.storage.place path) := by
  obtain ⟨number, spot⟩ := Storage.place_of_createTemporary _ _ _ _ created
  rw [spot]
  exact temporaries number

include fills rooted temporaries in
theorem adds_of_placeFile_eq_ok (within : inside (before.storage.place target))
    (finished : placeFile directory target wrap fill before = .ok () after) :
    Storage.Adds inside made before.storage after.storage := by
  obtain ⟨path, _, filled, opened, moved, created, full, readable, renamed, rfl⟩ :=
    (placeFile_eq_ok_iff _ _ _ _ _ _ _).mp finished
  obtain ⟨storage, success, rfl⟩ := createTemporary_eq_ok _ _ _ _ created
  obtain ⟨fresh, making, _⟩ := Storage.fresh_of_createTemporary _ _ _ _ success
  have writing := fills path { before with storage }
  rw [final_of_ok _ _ _ _ full] at writing
  have filling := making.trans _ _ _ _ writing
  have inner := fresh.ne_nil
  rw [← filling.place_eq] at inner
  have opening := filling.trans _ _ _ _ (Storage.confinedTo_setMode _ _ _ _ inner readable).1
  have here := inside_of_createTemporary inside directory before temporaries _ _ success
  refine (Storage.Adds.of_confinedTo inside made path _ _ here opening).trans _ _ _ _ _
    (Storage.adds_rename inside made _ _ path target (fresh.bare _ _ _ rooted opening) ?_ ?_ renamed)
  · rwa [opening.place_eq]
  · rwa [opening.place_eq]

include fills rooted temporaries in
theorem adds_of_placeFile_eq_error (error : ε)
    (failed : placeFile directory target wrap fill before = .error error after) :
    Storage.Adds inside made before.storage after.storage := by
  rcases stopped_of_placeFile_eq_error _ _ _ _ fills _ _ _ failed with
    rfl | ⟨path, _, halted, success, fresh, stopping, _, shape⟩
  · exact .refl _ _ _
  · rw [shape]
    have here := inside_of_createTemporary inside directory before temporaries _ _ success
    have bare := fresh.bare _ _ _ rooted stopping
    exact .of_confinedTo inside made path _ _ here
      (stopping.trans _ _ _ _ (Storage.confinedTo_discard halted path bare))

include fills rooted temporaries in
/-- Putting a file in place changes nothing but that place and temporary ones, whether or not it
fails. -/
theorem adds_placeFile (within : inside (before.storage.place target)) :
    let after := (placeFile directory target wrap fill).final before
    after.storage.tree.Rooted ∧ Storage.Adds inside made before.storage after.storage := by
  intro after
  cases result : placeFile directory target wrap fill before with
  | ok done finished =>
      simp only [after, final_of_ok _ _ _ _ result]
      have placed := (placeFile_eq_ok_iff _ _ _ _ _ _ _).mp result
      have kept := Placed.keeps _ _ _ (fun path made filled full => by
        have writing := fills path made
        rwa [final_of_ok _ _ _ _ full] at writing) before finished rooted placed
      exact ⟨kept.1.rooted, adds_of_placeFile_eq_ok inside made directory target wrap fill fills before finished
        rooted temporaries within result⟩
  | error error stopped =>
      simp only [after, final_of_error _ _ _ _ result]
      exact ⟨(keeps_of_placeFile_eq_error _ _ _ _ fills _ _ rooted _ result).rooted,
        adds_of_placeFile_eq_error inside made directory target wrap fill fills before stopped rooted temporaries
          error result⟩

end Job

namespace Artifacts

/-- The places directly in the directories of images. -/
def Inside (artifacts : Artifacts) (storage : Storage) (location : Location) : Prop :=
  ∃ directory ∈ artifacts.directories, ∃ name, location = storage.place directory ++ [name]

/-- The places of the directories of images and of those that their paths run through. -/
def Furnished (artifacts : Artifacts) (storage : Storage) (location : Location) : Prop :=
  ∃ directory ∈ artifacts.directories, ∃ above, directory.Above above ∧ location = storage.place above

end Artifacts

namespace Formatter

variable (formatter : Formatter)

theorem preserves_publishSegment (property : Workspace → Prop)
    (renders : ∀ source attributes, Job.Preserves property (formatter.render source attributes))
    (segment : Segment) : Job.Preserves property (formatter.publishSegment segment) := by
  cases segment with
  | copied lines => exact .pure _ _
  | enclosed line => exact .throw _ _
  | preview line fence body => exact .bind _ _ _ (.orFail _ _ _ (renders _ _)) fun _ => .pure _ _

theorem preserves_publishSegments (property : Workspace → Prop)
    (renders : ∀ source attributes, Job.Preserves property (formatter.render source attributes))
    (segments : List Segment) : Job.Preserves property (formatter.publishSegments segments) := by
  induction segments with
  | nil => exact .pure _ _
  | cons segment rest ih =>
      exact .bind _ _ _ (formatter.preserves_publishSegment property renders segment)
        fun _ => .bind _ _ _ ih fun _ => .pure _ _

theorem preserves_process (property : Workspace → Prop)
    (renders : ∀ source attributes, Job.Preserves property (formatter.render source attributes))
    (input : Text) : Job.Preserves property (formatter.process input) := by
  simp only [process]
  split
  · exact .throw _ _
  · exact .bind _ _ _ (formatter.preserves_publishSegments property renders _) fun _ => .pure _ _

/-- Since `start`, nothing changed outside of the directories of images but that directories which lead to
them were made. -/
structure Contained (start : Storage) (workspace : Workspace) : Prop where
  rooted : workspace.storage.tree.Rooted
  adds : Storage.Adds (formatter.artifacts.Inside start) (formatter.artifacts.Furnished start) start
    workspace.storage

theorem Contained.place_eq {formatter : Formatter} {start : Storage} {workspace : Workspace}
    (contained : formatter.Contained start workspace) (path : PathName) :
    workspace.storage.place path = start.place path :=
  Storage.place_congr _ _ contained.adds.sameDirectory path

/-- A file is put at a place in a directory of images, by way of temporary ones there. -/
theorem preserves_placeFile_contained (start : Storage) (named : ∀ name ∈ start.workingDirectory, IsName name)
    {ε : Type} (directory path target : PathName) (wrap : FileError → ε) (fill : PathName → Job ε Unit)
    (name : Text) (member : directory ∈ formatter.artifacts.directories)
    (same : start.place path = start.place directory)
    (spot : start.place target = start.place directory ++ [name]) (fills : Job.Fills fill) :
    Job.Preserves (formatter.Contained start) (Job.placeFile path target wrap fill) := by
  intro workspace contained
  have temporaries : ∀ number, formatter.artifacts.Inside start
      (workspace.storage.place (workspace.storage.absolute path) ++ [Storage.temporaryName number]) := by
    intro number
    refine ⟨directory, member, Storage.temporaryName number, ?_⟩
    rw [Storage.place_absolute _ (contained.adds.sameDirectory ▸ named), contained.place_eq, same]
  have within : formatter.artifacts.Inside start (workspace.storage.place target) :=
    ⟨directory, member, name, (contained.place_eq target).trans spot⟩
  obtain ⟨rooted, adds⟩ :=
    Job.adds_placeFile _ _ path target wrap fill fills workspace contained.rooted temporaries within
  exact ⟨rooted, contained.adds.trans _ _ _ _ _ adds⟩

theorem preserves_makeDirectories_contained (start : Storage) (path : PathName)
    (member : path ∈ formatter.artifacts.directories) :
    Job.Preserves (formatter.Contained start) (Job.makeDirectories path) := by
  intro workspace contained
  rw [Job.makeDirectories_final]
  refine ⟨(Storage.keeps_makeDirectories workspace.storage path contained.rooted).rooted,
    contained.adds.trans _ _ _ _ _
      ((Storage.adds_makeDirectories _ workspace.storage path).mono _ _ _ ?_ _ _)⟩
  rintro location ⟨above, higher, rfl⟩
  exact ⟨path, member, above, higher, contained.place_eq above⟩

/-- Outside of the directories of images, processing a document makes directories that lead to them where
there are none, and changes nothing else. -/
theorem process_adds (confined : formatter.compiler.OnlyOutput) (input : Text) (before : Workspace)
    (rooted : before.storage.tree.Rooted)
    (named : ∀ name ∈ before.storage.workingDirectory, IsName name) :
    Storage.Adds (formatter.artifacts.Inside before.storage) (formatter.artifacts.Furnished before.storage)
      before.storage ((formatter.process input).final before).storage := by
  refine (formatter.preserves_process (formatter.Contained before.storage) ?_ input before
    ⟨rooted, .refl _ _ _⟩).adds
  intro source attributes
  refine formatter.preserves_render_of _ source attributes
    (formatter.preserves_makeDirectories_contained before.storage) ?_ ?_
  · intro settings accepted variant document
    have digest := isDigest_fingerprint (document .light)
    exact formatter.preserves_placeFile_contained before.storage named formatter.artifacts.dumpDirectory _ _ _ _ _
      (by simp [Artifacts.directories])
      (before.storage.place_parent_join _ _ (variant.isName_fileName _ digest))
      (formatter.artifacts.place_dumpPath _ variant _ digest)
      (formatter.compiler.fills_compile confined (document variant))
  · intro light variant
    exact formatter.preserves_publishOne_of _ _ variant
      (formatter.preserves_placeFile_contained before.storage named formatter.artifacts.siteDirectory _ _ _ _ _
        (by simp [Artifacts.directories]) rfl
        (formatter.artifacts.place_sitePath _ variant _ (isDigest_fingerprint light))
        (Artifacts.fills_copy _))

end Formatter

end FencePreview
