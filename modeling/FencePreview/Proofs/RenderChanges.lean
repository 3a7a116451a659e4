import FencePreview.Proofs.FailedRenders
import FencePreview.Proofs.RenderPlaces

/-! All that a render changes, however it ends. A temporary file is gone when it stops: it was moved to
where its image belongs, or removed. -/

namespace FencePreview

namespace Storage

/-- A temporary file that is discarded, with whatever was done at its place since it was made, leaves no
change at all, unless a directory is there. -/
theorem discard_entries (before made stopped : Storage) (directory temporary : PathName)
    (rooted : before.tree.Rooted) (created : before.createTemporary directory = .ok (made, temporary))
    (confined : ConfinedTo temporary before stopped)
    (plain : stopped.tree.isDirectory (before.place temporary) = false) (location : Location) :
    (Job.discard temporary stopped).tree.get? location = before.tree.get? location := by
  obtain ⟨fresh, _, _⟩ := fresh_of_createTemporary before made directory temporary created
  obtain ⟨_, _, _, _, _, _, leads, _⟩ := createTemporary_eq_ok before made directory temporary created
  have bare := fresh.bare _ _ _ rooted confined
  have directories : ∀ inner, before.tree.isDirectory inner = true → stopped.tree.isDirectory inner = true :=
    (confined.keeps _ _ _ rooted fresh).directories
  have leads := resolve_mono before stopped confined.sameDirectory directories temporary _ leads
  by_cases spot : location = before.place temporary
  · subst spot
    rw [fresh.free]
    rcases entry : stopped.tree.get? (before.place temporary) with _ | ⟨content, mode⟩ | mode
    · have missing : stopped.removeFile temporary = .error .notFound := by
        simp only [removeFile, requireEntry, leads, entry]
      simp only [Job.discard, missing, entry]
    · have removed : stopped.removeFile temporary = .ok (stopped.withoutEntry (before.place temporary)) := by
        simp only [removeFile, requireEntry, leads, entry, withoutEntry]
      simp [Job.discard, removed, withoutEntry, FileTree.get?_erase _ _ _ fresh.ne_nil]
    · simp [FileTree.isDirectory, entry] at plain
  · rw [(confinedTo_discard stopped temporary bare).others location (by rwa [confined.place_eq])]
    exact confined.others location spot

/-- A temporary file that is moved leaves no change but at the target. -/
theorem confinedTo_of_rename (before opened moved : Storage) (temporary target : PathName)
    (rooted : before.tree.Rooted) (fresh : Fresh temporary before) (confined : ConfinedTo temporary before opened)
    (visible : ¬Hidden (before.place target)) (renamed : opened.rename temporary target = .ok moved) :
    ConfinedTo target before moved := by
  have bare := fresh.bare _ _ _ rooted confined
  obtain ⟨entry, move⟩ := rename_eq_ok _ _ _ _ renamed
  rcases move.of_bare bare with ⟨same, _⟩ | ⟨free, rfl⟩
  · rw [confined.place_eq, confined.place_eq] at same
    exact absurd (same ▸ fresh.hidden) visible
  have taken := confinedTo_withoutEntry opened temporary bare
  have put := confinedTo_withEntry (opened.withoutEntry (opened.place temporary)) target entry free.ne_nil
  refine ⟨confined.sameDirectory, fun location elsewhere => ?_⟩
  have beyond : location ≠ (opened.withoutEntry (opened.place temporary)).place target := by
    rwa [place_congr opened (opened.withoutEntry (opened.place temporary)) rfl, confined.place_eq]
  refine (put.others location beyond).trans ?_
  by_cases spot : location = before.place temporary
  · subst spot
    rw [fresh.free, ← confined.place_eq _ _ _ temporary]
    simp [withoutEntry, FileTree.get?_erase _ _ _ bare.1]
  · rw [taken.others location (by rwa [confined.place_eq]), confined.others location spot]

theorem Adds.file?_eq (inside made : Location → Prop) (first second : Storage)
    (adds : Adds inside made first second) (place : Location) (outside : ¬inside place)
    (there : first.tree.file? place ≠ none) : second.tree.file? place = first.tree.file? place := by
  rcases adds.entries place outside with same | ⟨free, _, _⟩
  · simp only [FileTree.file?, same]
  · simp [FileTree.file?, free] at there

end Storage

namespace Job

variable {ε : Type} (directory target : PathName) (wrap : FileError → ε) (fill : PathName → Job ε Unit)
  (fills : Fills fill) (before after : Workspace) (rooted : before.storage.tree.Rooted)

include fills rooted

theorem settled_of_placeFile_eq_error (only : OnlyFile fill) (error : ε)
    (failed : placeFile directory target wrap fill before = .error error after) :
    after.storage.tree.Rooted ∧ after.storage.workingDirectory = before.storage.workingDirectory ∧
      ∀ location, after.storage.tree.get? location = before.storage.tree.get? location := by
  refine ⟨(keeps_of_placeFile_eq_error _ _ _ _ fills before after rooted error failed).rooted, ?_⟩
  rcases stopped_of_placeFile_eq_error _ _ _ _ fills _ _ _ failed with
    rfl | ⟨temporary, made, stopped, created, fresh, stopping, plain, shape⟩
  · exact ⟨rfl, fun _ => rfl⟩
  · have emptied := Storage.confinedTo_discard stopped temporary (fresh.bare _ _ _ rooted stopping)
    rw [shape]
    exact ⟨emptied.sameDirectory.trans stopping.sameDirectory,
      Storage.discard_entries before.storage made stopped directory temporary rooted created stopping
        (plain only)⟩

theorem settled_of_placeFile_eq_ok (visible : ¬Hidden (before.storage.place target))
    (finished : placeFile directory target wrap fill before = .ok () after) :
    after.storage.tree.Rooted ∧ Storage.ConfinedTo target before.storage after.storage := by
  obtain ⟨path, _, filled, opened, moved, created, full, readable, renamed, rfl⟩ :=
    (placeFile_eq_ok_iff _ _ _ _ _ _ _).mp finished
  obtain ⟨storage, success, rfl⟩ := createTemporary_eq_ok _ _ _ _ created
  obtain ⟨fresh, making, _⟩ := Storage.fresh_of_createTemporary _ _ _ _ success
  have writing := fills path { before with storage }
  rw [final_of_ok _ _ _ _ full] at writing
  have filling := making.trans _ _ _ _ writing
  have inner := fresh.ne_nil
  rw [← filling.place_eq] at inner
  have opening := filling.trans _ _ _ _ (Storage.confinedTo_setMode _ _ _ _ inner readable).1
  exact ⟨(Storage.keeps_rename _ _ _ _ _ rooted fresh opening renamed).1.rooted,
    Storage.confinedTo_of_rename before.storage opened moved path target rooted fresh opening visible renamed⟩

end Job

namespace Artifacts

theorem publishOne_final (artifacts : Artifacts) (name : Text) (variant : Variant) (before : Workspace) :
    (artifacts.publishOne name variant).final before =
      if before.storage.isFile (artifacts.sitePath name variant) then before
      else (Job.placeFile artifacts.siteDirectory (artifacts.sitePath name variant) id fun temporary =>
        Job.change (·.copy (artifacts.dumpPath name variant) temporary)).final before := by
  simp only [publishOne]
  cases found : before.storage.isFile (artifacts.sitePath name variant) with
  | true =>
      rw [Job.final_bind_of_ok _ _ _ before true ((Job.inspect_eq_ok_iff _ _ _ _).mpr ⟨found, rfl⟩)]
      rfl
  | false =>
      rw [Job.final_bind_of_ok _ _ _ before false ((Job.inspect_eq_ok_iff _ _ _ _).mpr ⟨found, rfl⟩)]
      simp only [Bool.false_eq_true, if_false]
      cases result : (Job.placeFile artifacts.siteDirectory (artifacts.sitePath name variant) id fun temporary =>
          Job.change (·.copy (artifacts.dumpPath name variant) temporary)) before with
      | ok done after =>
          rw [Job.final_bind_of_ok _ _ _ _ _ result, Job.final_of_ok _ _ _ _ result]
          rfl
      | error error after =>
          rw [Job.final_bind_of_error _ _ _ _ _ result, Job.final_of_error _ _ _ _ result]

end Artifacts

namespace Formatter

variable (formatter : Formatter) (document : Variant → Text)

/-- What storing the images of a preview can do to a place. -/
inductive Touched (before now : Workspace) (location : Location) : Prop
  | kept (same : now.storage.tree.get? location = before.storage.tree.get? location)
  | directory (free : before.storage.tree.get? location = none)
      (made : now.storage.tree.isDirectory location = true)
      (way : formatter.artifacts.Furnished before.storage location)
  | stored (variant : Variant) (image : ByteArray)
      (spot : location =
        before.storage.place (formatter.artifacts.dumpPath (fingerprint (document .light)) variant))
      (there : now.storage.tree.file? location = some image)
      (left : formatter.Left (document variant) image before now)

/-- A place on the site had nothing and has the image now that is in store. -/
structure Copied (before now : Workspace) (location : Location) (variant : Variant) : Prop where
  spot : location =
    before.storage.place (formatter.artifacts.sitePath (fingerprint (document .light)) variant)
  free : before.storage.tree.get? location = none
  there : now.storage.tree.file? location ≠ none
  same : now.storage.tree.file? location = now.storage.tree.file?
    (before.storage.place (formatter.artifacts.dumpPath (fingerprint (document .light)) variant))

/-- What a render can do to a place. -/
def Changes (before now : Workspace) (location : Location) : Prop :=
  formatter.Touched document before now location ∨ ∃ variant, formatter.Copied document before now location variant

/-- A run has done to every place only what `allowed` tells. -/
structure Traces (allowed : Workspace → Location → Prop) (before now : Workspace) : Prop where
  rooted : now.storage.tree.Rooted
  sameDirectory : now.storage.workingDirectory = before.storage.workingDirectory
  calls : before.compiled <+: now.compiled
  entries : ∀ location, allowed now location

theorem Left.later (text : Text) (image : ByteArray) (before now later : Workspace)
    (left : formatter.Left text image before now) (calls : now.compiled <+: later.compiled) :
    formatter.Left text image before later :=
  left.widen formatter text image before before now later (List.prefix_refl _) calls

section Later

variable {formatter document} {before now later : Workspace} {location : Location}

theorem Touched.of_eq (touched : formatter.Touched document before now location)
    (calls : now.compiled <+: later.compiled)
    (same : later.storage.tree.get? location = now.storage.tree.get? location) :
    formatter.Touched document before later location := by
  cases touched with
  | kept old => exact .kept (same.trans old)
  | directory free made way =>
      exact .directory free (by simpa only [FileTree.isDirectory, same] using made) way
  | stored variant image spot there left =>
      exact .stored variant image spot (by simpa only [FileTree.file?, same] using there)
        (left.later formatter _ _ _ _ _ calls)

theorem Touched.of_adds (touched : formatter.Touched document before now location)
    (calls : now.compiled <+: later.compiled)
    (adds : Storage.Adds (fun _ => False) (formatter.artifacts.Furnished before.storage) now.storage later.storage) :
    formatter.Touched document before later location := by
  rcases adds.entries location (by simp) with same | ⟨free, made, way⟩
  · exact touched.of_eq calls same
  · cases touched with
    | kept old => exact .directory (old ▸ free) made way
    | directory _ there _ => simp [FileTree.isDirectory, free] at there
    | stored _ _ _ there _ => simp [FileTree.file?, free] at there

theorem Copied.of_eq {variant : Variant} (copied : formatter.Copied document before now location variant)
    (here : later.storage.tree.file? location = now.storage.tree.file? location)
    (dump : later.storage.tree.file?
        (before.storage.place (formatter.artifacts.dumpPath (fingerprint (document .light)) variant)) =
      now.storage.tree.file?
        (before.storage.place (formatter.artifacts.dumpPath (fingerprint (document .light)) variant))) :
    formatter.Copied document before later location variant :=
  ⟨copied.spot, copied.free, here ▸ copied.there, here.trans (copied.same.trans dump.symm)⟩

theorem Copied.of_adds {variant : Variant} (copied : formatter.Copied document before now location variant)
    (adds : Storage.Adds (fun _ => False) (formatter.artifacts.Furnished before.storage) now.storage later.storage) :
    formatter.Copied document before later location variant :=
  copied.of_eq (adds.file?_eq _ _ _ _ _ not_false copied.there)
    (adds.file?_eq _ _ _ _ _ not_false (copied.same ▸ copied.there))

theorem Traces.makeDirectories {allowed : Workspace → Location → Prop} (path : PathName)
    (member : path ∈ formatter.artifacts.directories) (traces : Traces allowed before now)
    (stays : ∀ later location, now.compiled <+: later.compiled →
      Storage.Adds (fun _ => False) (formatter.artifacts.Furnished before.storage) now.storage later.storage →
      allowed now location → allowed later location) :
    Traces allowed before ((Job.makeDirectories path).final now) := by
  have keeps := Storage.keeps_makeDirectories now.storage path traces.rooted
  have adds : Storage.Adds (fun _ => False) (formatter.artifacts.Furnished before.storage) now.storage
      (now.storage.makeDirectories path).1 := by
    refine (Storage.adds_makeDirectories _ now.storage path).mono _ _ _ ?_ _ _
    rintro location ⟨above, higher, rfl⟩
    exact ⟨path, member, above, higher, Storage.place_congr _ _ traces.sameDirectory above⟩
  rw [Job.makeDirectories_final]
  exact ⟨keeps.rooted, keeps.sameDirectory.trans traces.sameDirectory, traces.calls,
    fun location => stays _ location (List.prefix_refl _) adds (traces.entries location)⟩

end Later

section Runs

variable (tidy : formatter.compiler.OnlyFile) (before : Workspace)

include tidy in
theorem traces_storeOne (variant : Variant) :
    Job.Preserves (Traces (formatter.Touched document before) before)
      (formatter.artifacts.storeOne formatter.compiler (fingerprint (document .light)) (document variant)
        variant) := by
  intro now traces
  have digest := isDigest_fingerprint (document .light)
  have fills := formatter.compiler.fills_compile tidy.confined (document variant)
  cases result : formatter.artifacts.storeOne formatter.compiler (fingerprint (document .light))
      (document variant) variant now with
  | ok done after =>
      rw [Job.final_of_ok _ _ _ _ result]
      have visible := formatter.artifacts.not_hidden_dumpPath (fingerprint (document .light)) variant now.storage digest
      obtain ⟨nowRooted, only⟩ :=
        Job.settled_of_placeFile_eq_ok _ _ _ _ fills now after traces.rooted visible result
      have compiled := (storeOne_eq_ok_iff _ _ _ _ _ _ _).mp result
      obtain ⟨keeps, image, there, left⟩ := compiled.settles formatter tidy.writesFile _ _ _ _ _ traces.rooted
      have grown : now.compiled <+: after.compiled :=
        Compiled.compiled_eq _ _ _ _ _ _ compiled ▸ List.prefix_append _ _
      refine ⟨nowRooted, only.sameDirectory.trans traces.sameDirectory, traces.calls.trans grown, fun location => ?_⟩
      have spot := Storage.place_congr _ _ traces.sameDirectory
        (formatter.artifacts.dumpPath (fingerprint (document .light)) variant)
      by_cases here : location =
          now.storage.place (formatter.artifacts.dumpPath (fingerprint (document .light)) variant)
      · refine .stored variant image (here.trans spot) ?_
          (left.widen _ _ _ _ _ _ _ traces.calls (List.prefix_refl _))
        rw [here, ← keeps.place_eq]
        exact Storage.file?_place_of_read _ _ _ there
      · exact (traces.entries location).of_eq grown (only.others location here)
  | error error after =>
      rw [Job.final_of_error _ _ _ _ result]
      obtain ⟨nowRooted, sameDirectory, same⟩ :=
        Job.settled_of_placeFile_eq_error _ _ _ _ fills now after traces.rooted
          (tidy.compile (document variant)) error result
      have grown : now.compiled <+: after.compiled := by
        rcases formatter.storeOne_eq_error _ _ _ _ _ _ result with called | ⟨silent, _⟩
        · exact called ▸ List.prefix_append _ _
        · exact silent ▸ List.prefix_refl _
      exact ⟨nowRooted, sameDirectory.trans traces.sameDirectory, traces.calls.trans grown,
        fun location => (traces.entries location).of_eq grown (same location)⟩

include tidy in
theorem traces_storeIfMissing (rooted : before.storage.tree.Rooted) :
    Traces (formatter.Touched document before) before
      ((formatter.storeIfMissing (fingerprint (document .light)) document).final before) := by
  refine formatter.preserves_storeIfMissing_of (Traces (formatter.Touched document before) before) _ document ?_
    (formatter.traces_storeOne document tidy before) before
    ⟨rooted, rfl, List.prefix_refl _, fun _ => .kept rfl⟩
  intro now traces
  exact traces.makeDirectories _ formatter.artifacts.dumpDirectory_mem fun later location calls adds touched =>
    touched.of_adds calls adds

theorem Copied.of_placed (variant : Variant) (now after : Workspace)
    (traces : Traces (formatter.Changes document before) before now)
    (missing : now.storage.isFile (formatter.artifacts.sitePath (fingerprint (document .light)) variant) = false)
    (finished : (Job.placeFile formatter.artifacts.siteDirectory
      (formatter.artifacts.sitePath (fingerprint (document .light)) variant) id fun temporary =>
        Job.change (·.copy (formatter.artifacts.dumpPath (fingerprint (document .light)) variant) temporary)) now =
          .ok () after) :
    let site := before.storage.place (formatter.artifacts.sitePath (fingerprint (document .light)) variant)
    now.storage.tree.get? site = none ∧ formatter.Copied document before after site variant := by
  intro site
  have digest := isDigest_fingerprint (document .light)
  have place := fun path => Storage.place_congr _ _ traces.sameDirectory path
  have onSite : formatter.OnSite (fingerprint (document .light)) variant now after := by
    refine .copied now after missing ?_
    have placed := (Job.placeFile_eq_ok_iff _ _ _ _ _ _ _).mp finished
    simpa only [Job.change_eq_ok_iff] using placed
  obtain ⟨keeps, image, there, ⟨_, rfl⟩ | ⟨absent, stored⟩⟩ :=
    onSite.settles formatter _ variant digest now after traces.rooted
  · rw [(Storage.isFile_eq_true_iff _ _).mpr ⟨image, there⟩] at missing
    exact absurd missing (by decide)
  have siteThere := Storage.file?_place_of_read _ _ _ there
  have dumpThere := Storage.file?_place_of_read _ _ _ stored
  rw [keeps.place_eq, place] at siteThere
  rw [place] at absent dumpThere
  have free : now.storage.tree.get? site = none :=
    keeps.get?_eq_none_of_file? _ _ _ site image siteThere absent
  have apart : before.storage.place (formatter.artifacts.dumpPath (fingerprint (document .light)) variant) ≠ site := by
    intro same
    rw [same, absent] at dumpThere
    simp at dumpThere
  obtain ⟨_, only⟩ := Job.settled_of_placeFile_eq_ok _ _ _ _ (Artifacts.fills_copy _) now after traces.rooted
    (formatter.artifacts.not_hidden_sitePath _ variant now.storage digest) finished
  have dumpKept := only.others
    (before.storage.place (formatter.artifacts.dumpPath (fingerprint (document .light)) variant))
    (by rw [place]; exact apart)
  refine ⟨free, rfl, ?_, by simp [site, siteThere], ?_⟩
  · rcases traces.entries site with touched | ⟨_, copied⟩
    · cases touched with
      | kept same => exact same ▸ free
      | directory free _ _ => exact free
      | stored _ _ _ there _ => simp [FileTree.file?, free] at there
    · exact copied.free
  · rw [siteThere]
    simpa only [FileTree.file?, dumpKept] using dumpThere.symm

/-- Beside the image that comes to the site, every place stays as it is. An earlier copy is of an image
elsewhere, since nothing was at this place. -/
theorem Changes.of_placed (variant : Variant) (now after : Workspace) (location : Location)
    (changes : formatter.Changes document before now location) (calls : now.compiled <+: after.compiled)
    (free : now.storage.tree.get?
      (before.storage.place (formatter.artifacts.sitePath (fingerprint (document .light)) variant)) = none)
    (others : ∀ location, location ≠
        before.storage.place (formatter.artifacts.sitePath (fingerprint (document .light)) variant) →
      after.storage.tree.get? location = now.storage.tree.get? location)
    (apart : location ≠
      before.storage.place (formatter.artifacts.sitePath (fingerprint (document .light)) variant)) :
    formatter.Changes document before after location := by
  rcases changes with touched | ⟨other, earlier⟩
  · exact .inl (touched.of_eq calls (others location apart))
  · have elsewhere : before.storage.place
        (formatter.artifacts.dumpPath (fingerprint (document .light)) other) ≠
          before.storage.place (formatter.artifacts.sitePath (fingerprint (document .light)) variant) := by
      intro same
      refine earlier.there (earlier.same.trans ?_)
      simp [FileTree.file?, same, free]
    refine .inr ⟨other, earlier.of_eq ?_ ?_⟩
    · simp only [FileTree.file?, others location apart]
    · simp only [FileTree.file?, others _ elsewhere]

theorem traces_publishOne (variant : Variant) :
    Job.Preserves (Traces (formatter.Changes document before) before)
      (formatter.artifacts.publishOne (fingerprint (document .light)) variant) := by
  intro now traces
  have digest := isDigest_fingerprint (document .light)
  have silent := formatter.preserves_compiled_publishOne now.compiled (fingerprint (document .light)) variant now rfl
  rw [Artifacts.publishOne_final] at silent ⊢
  split at silent
  · rename_i found
    rw [if_pos found]
    exact traces
  rename_i missing
  rw [if_neg missing]
  have fills := Artifacts.fills_copy
    (formatter.artifacts.dumpPath (fingerprint (document .light)) variant)
  cases result : (Job.placeFile formatter.artifacts.siteDirectory
      (formatter.artifacts.sitePath (fingerprint (document .light)) variant) id fun temporary =>
        Job.change (·.copy (formatter.artifacts.dumpPath (fingerprint (document .light)) variant) temporary)) now with
  | ok done after =>
      rw [Job.final_of_ok _ _ _ _ result] at silent ⊢
      obtain ⟨free, copied⟩ := Copied.of_placed formatter document before variant now after traces
        (Bool.eq_false_iff.mpr missing) result
      obtain ⟨nowRooted, only⟩ := Job.settled_of_placeFile_eq_ok _ _ _ _ fills now after traces.rooted
        (formatter.artifacts.not_hidden_sitePath _ variant now.storage digest) result
      have others := only.others
      rw [Storage.place_congr _ _ traces.sameDirectory] at others
      refine ⟨nowRooted, only.sameDirectory.trans traces.sameDirectory, silent ▸ traces.calls, fun location => ?_⟩
      by_cases here : location =
          before.storage.place (formatter.artifacts.sitePath (fingerprint (document .light)) variant)
      · exact .inr ⟨variant, here ▸ copied⟩
      · exact Changes.of_placed formatter document before variant now after location (traces.entries location)
          (silent ▸ List.prefix_refl _) free others here
  | error error after =>
      rw [Job.final_of_error _ _ _ _ result] at silent ⊢
      obtain ⟨nowRooted, sameDirectory, same⟩ :=
        Job.settled_of_placeFile_eq_error _ _ _ _ fills now after traces.rooted (Artifacts.onlyFile_copy _) error
          result
      refine ⟨nowRooted, sameDirectory.trans traces.sameDirectory, silent ▸ traces.calls, fun location => ?_⟩
      rcases traces.entries location with touched | ⟨other, earlier⟩
      · exact .inl (touched.of_eq (silent ▸ List.prefix_refl _) (same location))
      · exact .inr ⟨other, earlier.of_eq (by simp only [FileTree.file?, same]) (by simp only [FileTree.file?, same])⟩

theorem traces_publish :
    Job.Preserves (Traces (formatter.Changes document before) before)
      (formatter.artifacts.publish (fingerprint (document .light))) := by
  refine formatter.preserves_publish_of (Traces (formatter.Changes document before) before) _ ?_
    (formatter.traces_publishOne document before)
  intro now traces
  refine traces.makeDirectories _ formatter.artifacts.siteDirectory_mem fun later location calls adds changes => ?_
  exact changes.imp (fun touched => touched.of_adds calls adds)
    fun ⟨variant, copied⟩ => ⟨variant, copied.of_adds adds⟩

include tidy in
theorem traces_render (source site : Text) (attributes : Attributes) (settings : PreviewSettings)
    (accepted : PreviewSettings.ofAttributes attributes = .ok settings) (hasSite : formatter.sitePath = some site)
    (rooted : before.storage.tree.Rooted) :
    Traces (formatter.Changes (formatter.document settings source) before) before
      ((formatter.render source attributes).final before) := by
  let document := formatter.document settings source
  have stored := formatter.traces_storeIfMissing document tidy before rooted
  have begun : Traces (formatter.Changes document before) before
      ((formatter.storeIfMissing (fingerprint (document .light)) document).final before) :=
    ⟨stored.rooted, stored.sameDirectory, stored.calls, fun location => .inl (stored.entries location)⟩
  rw [formatter.render_eq source site attributes settings accepted hasSite _ rfl]
  cases result : Job.orFail PreviewError.compile
      (formatter.storeIfMissing (fingerprint (document .light)) document) before with
  | error error middle =>
      rw [Job.final_bind_of_error _ _ _ _ _ result]
      rwa [← Job.final_orFail PreviewError.compile, Job.final_of_error _ _ _ _ result] at begun
  | ok ran middle =>
      rw [Job.final_bind_of_ok _ _ _ _ _ result]
      rw [← Job.final_orFail PreviewError.compile, Job.final_of_ok _ _ _ _ result] at begun
      refine Job.Preserves.bind _ _ _ (.orFail _ _ _ (formatter.traces_publish document before)) ?_ middle begun
      exact fun _ => .pure _ _

include tidy in
/-- Whether or not a render ends well, it changes the places of its images, those on the site only where
nothing was, and makes directories on the way to them. No temporary file is left, and no file is lost.
Where it is refused, nothing happens. -/
theorem render_changes (source : Text) (attributes : Attributes) (rooted : before.storage.tree.Rooted) :
    let after := (formatter.render source attributes).final before
    (∀ settings site, PreviewSettings.ofAttributes attributes = .ok settings → formatter.sitePath = some site →
      (∀ location, formatter.Changes (formatter.document settings source) before after location) ∧
        (∀ location, Hidden location →
          after.storage.tree.file? location = before.storage.tree.file? location) ∧
        ∀ location, before.storage.tree.file? location ≠ none → after.storage.tree.file? location ≠ none) ∧
    (∀ error, PreviewSettings.ofAttributes attributes = .error error → after = before) ∧
    (formatter.sitePath = none → after = before) := by
  intro after
  refine ⟨fun settings site accepted hasSite => ?_, fun error refused => ?_, fun missing => ?_⟩
  · let document := formatter.document settings source
    have changes : ∀ location, formatter.Changes document before after location :=
      (formatter.traces_render tidy before source site attributes settings accepted hasSite rooted).entries
    have digest := isDigest_fingerprint (document .light)
    refine ⟨changes, fun location hidden => ?_, fun location there => ?_⟩
    · rcases changes location with touched | ⟨variant, copied⟩
      · cases touched with
        | kept same => simp only [FileTree.file?, same]
        | directory free made _ =>
            obtain ⟨mode, found⟩ := (FileTree.isDirectory_eq_true_iff _ _).mp made
            simp only [FileTree.file?, free, found]
        | stored variant _ spot _ _ =>
            exact absurd (spot ▸ hidden)
              (formatter.artifacts.not_hidden_dumpPath (fingerprint (document .light)) variant before.storage digest)
      · exact absurd (copied.spot ▸ hidden)
          (formatter.artifacts.not_hidden_sitePath (fingerprint (document .light)) variant before.storage digest)
    · rcases changes location with touched | ⟨variant, copied⟩
      · cases touched with
        | kept same => simpa only [FileTree.file?, same] using there
        | directory free _ _ => simp [FileTree.file?, free] at there
        | stored _ image _ found _ => simp [found]
      · exact copied.there
  · simp only [after, render, refused]
    rfl
  · simp only [after, render, missing]
    cases PreviewSettings.ofAttributes attributes <;> rfl

end Runs

/-- A light image on the site is kept when the compiler fails on the dark page; the light page is stored,
and no temporary file is left. -/
theorem render_changes_dark_failure :
    let formatter := Formatter.small (.failingAt [1] (.writing fun _ => ByteArray.empty))
    let tree := FileTree.oneImage "site".toList (Variant.light.fileName smallFingerprint) ⟨#[111]⟩
    let workspace : Workspace := ⟨⟨tree, []⟩, [], []⟩
    let after := (formatter.render ['x'] .basic).final workspace
    formatter.compiler.OnlyFile ∧ tree.Rooted ∧
      (∀ location, formatter.Changes (formatter.document .basic ['x']) workspace after location) ∧
      (∀ location, Hidden location → after.storage.tree.file? location = tree.file? location) ∧
      after.storage.tree.file? ["site".toList, renderedDirectory, Variant.light.fileName smallFingerprint] ≠ none := by
  intro formatter tree workspace after
  have tidy : formatter.compiler.OnlyFile :=
    Compiler.onlyFile_failingAt _ _ (Compiler.onlyFile_writing _)
  have rooted : tree.Rooted := FileTree.rooted_oneImage _ _ _
  obtain ⟨accepted, _, _⟩ := formatter.render_changes tidy workspace ['x'] .basic rooted
  obtain ⟨changes, hidden, files⟩ := accepted .basic ['/'] PreviewSettings.ofAttributes_basic rfl
  refine ⟨tidy, rooted, changes, hidden, files _ ?_⟩
  simp only [workspace, tree, FileTree.file?_oneImage]
  simp

/-- Where the site is the store, an image on the site that was there can change. -/
theorem render_changes_shared_site :
    let formatter := { Formatter.small (.writing fun _ => ByteArray.empty) with
      artifacts := .below ⟨"docs".toList⟩ ⟨"docs".toList⟩ }
    let tree := FileTree.oneImage "docs".toList (Variant.light.fileName smallFingerprint) ⟨#[111]⟩
    let workspace : Workspace := ⟨⟨tree, []⟩, [], []⟩
    let content : Workspace → Option (Array UInt8) := fun workspace =>
      (workspace.storage.read (formatter.artifacts.sitePath smallFingerprint .light)).toOption.map ByteArray.data
    formatter.compiler.OnlyFile ∧ tree.Rooted ∧
      fingerprint (formatter.document .basic ['x'] .light) = smallFingerprint ∧
      content workspace = some #[111] ∧
      content ((formatter.render ['x'] .basic).final workspace) = some #[] := by
  rw [smallFingerprint_eq]
  intro formatter tree workspace content
  have digest : fingerprint (formatter.document .basic ['x'] .light) = smallDigits :=
    fingerprint_eq_smallDigits _ rfl
  have run := formatter.render_eq_smallDigits rfl rfl
  have contents : content workspace = some #[111] ∧
      content ((formatter.render ['x'] .basic).final workspace) = some #[] := by
    rw [run]
    decide +kernel
  exact ⟨Compiler.onlyFile_writing _, FileTree.rooted_oneImage _ _ _, digest, contents⟩

end Formatter

end FencePreview
