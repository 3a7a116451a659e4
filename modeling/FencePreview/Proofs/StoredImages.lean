import FencePreview.Proofs.FileChanges
import FencePreview.Proofs.Rendering

/-! What rendering leaves in the directories of images, whether or not it fails. -/

namespace FencePreview

namespace Job

variable {ε α β δ : Type}

/-- The workspace that a job leaves, also when it fails. -/
def final (job : Job ε α) (before : Workspace) : Workspace :=
  match job before with
  | .ok _ after => after
  | .error _ after => after

theorem final_of_ok (job : Job ε α) (before after : Workspace) (value : α)
    (finished : job before = .ok value after) : job.final before = after := by
  simp [final, finished]

theorem final_of_error (job : Job ε α) (before after : Workspace) (error : ε)
    (failed : job before = .error error after) : job.final before = after := by
  simp [final, failed]

/-- What is seen of the value of a job, evaluated, says how the job ends. -/
theorem exists_ok_of_result?_map (job : Job ε α) (before : Workspace) (observe : α → β) (seen : β)
    (observed : (result? job before).map observe = some seen) :
    ∃ value, job before = .ok value (job.final before) ∧ observe value = seen := by
  obtain ⟨value, result, same⟩ := Option.map_eq_some_iff.mp observed
  obtain ⟨after, finished⟩ := (result?_eq_some_iff _ _ _).mp result
  exact ⟨value, by rw [final_of_ok _ _ _ _ finished, finished], same⟩

theorem final_bind_of_ok (job : Job ε α) (next : α → Job ε β) (before between : Workspace) (value : α)
    (finished : job before = .ok value between) : (job >>= next).final before = (next value).final between := by
  change (match EStateM.bind job next before with
    | .ok _ after => after
    | .error _ after => after) = _
  simp only [EStateM.bind, finished]
  rfl

theorem final_bind_of_error (job : Job ε α) (next : α → Job ε β) (before after : Workspace) (error : ε)
    (failed : job before = .error error after) : (job >>= next).final before = after :=
  final_of_error _ _ _ _ (bind_of_error job next before after error failed)

theorem final_orFail (wrap : δ → ε) (job : Job δ α) (before : Workspace) :
    (orFail wrap job).final before = job.final before := by
  simp only [final, orFail]
  cases job before <;> rfl

theorem makeDirectories_final (path : PathName) (before : Workspace) :
    (makeDirectories path).final before =
      { before with storage := (before.storage.makeDirectories path).1 } := by
  simp only [final, makeDirectories]
  rcases before.storage.makeDirectories path with ⟨storage, _ | done⟩ <;> rfl

/-- A property of workspaces that a job preserves, also when it fails. -/
def Preserves (property : Workspace → Prop) (job : Job ε α) : Prop :=
  ∀ before, property before → property (job.final before)

namespace Preserves

variable (property : Workspace → Prop)

theorem bind (job : Job ε α) (next : α → Job ε β) (first : Preserves property job)
    (later : ∀ value, Preserves property (next value)) : Preserves property (job >>= next) := by
  intro before holds
  have between := first before holds
  cases result : job before with
  | ok value middle =>
      rw [final_of_ok job before middle value result] at between
      rw [final_bind_of_ok job next before middle value result]
      exact later value middle between
  | error error middle =>
      rw [final_of_error job before middle error result] at between
      rw [final_bind_of_error job next before middle error result]
      exact between

theorem pure (value : α) : Preserves property (Pure.pure value : Job ε α) := fun _ holds => holds

theorem throw (error : ε) : Preserves property (MonadExcept.throw error : Job ε α) := fun _ holds => holds

theorem orFail (wrap : δ → ε) (job : Job δ α) (preserves : Preserves property job) :
    Preserves property (Job.orFail wrap job) := by
  intro before holds
  rw [final_orFail]
  exact preserves before holds

theorem inspect (question : Storage → α) : Preserves property (Job.inspect question : Job ε α) :=
  fun _ holds => holds

section Edited

variable (edited : ∀ (workspace : Workspace) (storage : Storage), workspace.storage.tree.Edited storage.tree →
  property workspace → property { workspace with storage })

include edited

theorem makeDirectories (path : PathName) : Preserves property (Job.makeDirectories path) := by
  intro before holds
  rw [makeDirectories_final]
  exact edited before _ (before.storage.edited_makeDirectories path) holds

theorem change (operation : Storage → Except FileError Storage)
    (edits : ∀ before after, operation before = .ok after → before.tree.Edited after.tree) :
    Preserves property (Job.change operation) := by
  intro before holds
  simp only [final, Job.change]
  cases result : operation before.storage with
  | ok storage => exact edited before storage (edits _ _ result) holds
  | error error => exact holds

theorem createTemporary (directory : PathName) : Preserves property (Job.createTemporary directory) := by
  intro before holds
  simp only [final, Job.createTemporary]
  cases result : before.storage.createTemporary directory with
  | ok made => exact edited before made.1 (Storage.edited_createTemporary _ _ _ result) holds
  | error error => exact holds

theorem discarding (path : PathName) (job : Job ε α) (preserves : Preserves property job) :
    Preserves property (Job.cleaningUp (discard path) job) := by
  intro before holds
  have after := preserves before holds
  simp only [final, Job.cleaningUp] at after ⊢
  cases result : job before with
  | ok value changed =>
      simp only [result] at after
      exact after
  | error error changed =>
      simp only [result] at after
      exact edited changed _ (changed.storage.edited_discard path) after

theorem placeFile (directory target : PathName) (wrap : FileError → ε) (fill : PathName → Job ε Unit)
    (filling : ∀ path, Preserves property (fill path)) :
    Preserves property (Job.placeFile directory target wrap fill) := by
  refine .bind property _ _ (.orFail property wrap _ (createTemporary property edited directory)) ?_
  intro temporary
  refine discarding property edited temporary _ (.bind property _ _ (filling temporary) fun _ => ?_)
  exact .bind property _ _
    (.orFail property wrap _ (change property edited _ fun _ _ => Storage.edited_setMode _ _ _ _))
    fun _ => .orFail property wrap _ (change property edited _ fun _ _ => Storage.edited_rename _ _ _ _)

end Edited

end Preserves

theorem keeps_makeDirectories (path : PathName) (before : Workspace) (rooted : before.storage.tree.Rooted) :
    before.storage.Keeps [] ((makeDirectories path).final before).storage := by
  rw [makeDirectories_final]
  exact Storage.keeps_makeDirectories before.storage path rooted

theorem createTemporary_eq_ok (directory path : PathName) (before made : Workspace)
    (created : createTemporary directory before = .ok path made) :
    ∃ storage, before.storage.createTemporary directory = .ok (storage, path) ∧
      made = { before with storage } := by
  simp only [createTemporary] at created
  split at created
  · rename_i storage other success
    cases created
    exact ⟨storage, success, rfl⟩
  · simp at created

theorem createTemporary_eq_error (directory : PathName) (before after : Workspace) (cause : FileError)
    (failed : createTemporary directory before = .error cause after) : after = before := by
  simp only [createTemporary] at failed
  split at failed
  · simp at failed
  · cases failed
    rfl

theorem change_eq_error (operation : Storage → Except FileError Storage) (before after : Workspace)
    (cause : FileError) (failed : change operation before = .error cause after) : after = before := by
  simp only [change] at failed
  split at failed
  · simp at failed
  · cases failed
    rfl

theorem cleaningUp_eq_error (cleanUp : Storage → Storage) (job : Job ε α) (before after : Workspace)
    (error : ε) (failed : cleaningUp cleanUp job before = .error error after) :
    ∃ stopped, job before = .error error stopped ∧
      after = { stopped with storage := cleanUp stopped.storage } := by
  simp only [cleaningUp] at failed
  split at failed
  · simp at failed
  · rename_i cause stopped stop
    cases failed
    exact ⟨stopped, stop, rfl⟩

/-- How putting a file in place fails: before it is filled, or with what was filled in by then taken
away again. -/
theorem placeFile_eq_error (directory target : PathName) (wrap : FileError → ε)
    (fill : PathName → Job ε Unit) (before after : Workspace) (error : ε)
    (failed : placeFile directory target wrap fill before = .error error after) :
    (after = before ∧ ∃ cause, error = wrap cause) ∨
      ∃ temporary made stopped, createTemporary directory before = .ok temporary made ∧
        (stopped = (fill temporary).final made ∨
          ∃ opened, ((fill temporary).final made).storage.setMode temporary FileTree.fileMode =
              .ok opened ∧
            stopped = { (fill temporary).final made with storage := opened }) ∧
        after = { stopped with storage := discard temporary stopped.storage } := by
  simp only [placeFile] at failed
  rcases bind_eq_error_cases _ _ _ _ _ failed with early | ⟨temporary, made, created, later⟩
  · obtain ⟨cause, stop, rfl⟩ := orFail_eq_error _ _ _ _ _ early
    exact .inl ⟨createTemporary_eq_error _ _ _ _ stop, cause, rfl⟩
  · rw [orFail_eq_ok_iff] at created
    obtain ⟨stopped, stop, rfl⟩ := cleaningUp_eq_error _ _ _ _ _ later
    refine .inr ⟨temporary, made, stopped, created, ?_, rfl⟩
    rcases bind_eq_error_cases _ _ _ _ _ stop with filling | ⟨_, filled, full, rest⟩
    · exact .inl (final_of_error _ _ _ _ filling).symm
    · rw [final_of_ok _ _ _ _ full]
      rcases bind_eq_error_cases _ _ _ _ _ rest with opening | ⟨_, between, readable, moving⟩
      · obtain ⟨cause, unchanged, _⟩ := orFail_eq_error _ _ _ _ _ opening
        exact .inl (change_eq_error _ _ _ _ unchanged)
      · rw [orFail_eq_ok_iff, change_eq_ok_iff] at readable
        obtain ⟨opened, success, rfl⟩ := readable
        obtain ⟨cause, unchanged, _⟩ := orFail_eq_error _ _ _ _ _ moving
        exact .inr ⟨opened, success, change_eq_error _ _ _ _ unchanged⟩

/-- A filling that writes to the file it is given and to nothing else. -/
def Fills (fill : PathName → Job ε Unit) : Prop :=
  ∀ path before, Storage.ConfinedTo path before.storage ((fill path).final before).storage

/-- A filling that leaves a file or nothing where it writes if it succeeds. Nothing else changes. -/
structure WritesFile (fill : PathName → Job ε Unit) : Prop where
  fills : Fills fill
  plain : ∀ path made filled, fill path made = .ok () filled → made.storage.isFile path = true →
    filled.storage.tree.isDirectory (made.storage.place path) = false

/-- A filling that leaves a file or nothing where it writes, whether or not it fails. Nothing else changes. -/
structure OnlyFile (fill : PathName → Job ε Unit) : Prop where
  fills : Fills fill
  plain : ∀ path before, before.storage.isFile path = true →
    ((fill path).final before).storage.tree.isDirectory (before.storage.place path) = false

theorem OnlyFile.writesFile {fill : PathName → Job ε Unit} (only : OnlyFile fill) : WritesFile fill :=
  ⟨only.fills, fun path made _ finished file => final_of_ok _ _ _ _ finished ▸ only.plain path made file⟩

/-- A file that could not be put in place leaves nothing but a hidden place changed. -/
theorem stopped_of_placeFile_eq_error (directory target : PathName) (wrap : FileError → ε)
    (fill : PathName → Job ε Unit) (fills : Fills fill) (before after : Workspace) (error : ε)
    (failed : placeFile directory target wrap fill before = .error error after) :
    after = before ∨ ∃ temporary made stopped,
      before.storage.createTemporary directory = .ok (made, temporary) ∧
        Storage.Fresh temporary before.storage ∧ Storage.ConfinedTo temporary before.storage stopped ∧
        (OnlyFile fill → stopped.tree.isDirectory (before.storage.place temporary) = false) ∧
        after.storage = discard temporary stopped := by
  rcases placeFile_eq_error _ _ _ _ _ _ _ failed with
    ⟨rfl, _⟩ | ⟨temporary, made, stopped, created, stop, rfl⟩
  · exact .inl rfl
  · obtain ⟨storage, success, rfl⟩ := createTemporary_eq_ok _ _ _ _ created
    obtain ⟨fresh, making, _⟩ := Storage.fresh_of_createTemporary _ _ _ _ success
    have filling := making.trans _ _ _ _ (fills temporary { before with storage })
    have still : OnlyFile fill → ((fill temporary).final { before with storage }).storage.tree.isDirectory
        (before.storage.place temporary) = false := by
      intro only
      rw [← making.place_eq]
      exact only.plain temporary { before with storage } (Storage.isFile_of_createTemporary _ _ _ _ success)
    refine .inr ⟨temporary, storage, stopped.storage, success, fresh, ?_⟩
    rcases stop with rfl | ⟨opened, readable, rfl⟩
    · exact ⟨filling, still, rfl⟩
    · have inner := fresh.ne_nil
      rw [← filling.place_eq] at inner
      have same := Storage.isDirectory_setMode _ _ _ _ readable
      rw [filling.place_eq] at same
      exact ⟨filling.trans _ _ _ _ (Storage.confinedTo_setMode _ _ _ _ inner readable).1,
        fun only => same.trans (still only), rfl⟩

theorem keeps_of_placeFile_eq_error (directory target : PathName) (wrap : FileError → ε)
    (fill : PathName → Job ε Unit) (fills : Fills fill) (before after : Workspace)
    (rooted : before.storage.tree.Rooted) (error : ε)
    (failed : placeFile directory target wrap fill before = .error error after) :
    Storage.Keeps [] before.storage after.storage := by
  rcases stopped_of_placeFile_eq_error _ _ _ _ fills _ _ _ failed with
    rfl | ⟨temporary, _, stopped, _, fresh, stopping, _, shape⟩
  · exact .refl [] _ rooted
  · rw [shape]
    have emptied := Storage.confinedTo_discard stopped temporary (fresh.bare _ _ _ rooted stopping)
    exact (stopping.trans _ _ _ _ emptied).keeps _ _ _ rooted fresh

end Job

section Placed

variable (directory target : PathName) (fill : PathName → Workspace → Workspace → Prop)
  (fills : ∀ path made filled, fill path made filled → Storage.ConfinedTo path made.storage filled.storage)
  (before after : Workspace) (rooted : before.storage.tree.Rooted)
  (placed : Placed directory target fill before after)

include fills placed

/-- Until it is moved, what is put in place is the only thing that changes. -/
theorem Placed.renames :
    ∃ temporary storage filled opened, Storage.Fresh temporary before.storage ∧
      Storage.ConfinedTo temporary before.storage storage ∧ storage.isFile temporary = true ∧
      fill temporary { before with storage } filled ∧
      filled.storage.setMode temporary FileTree.fileMode = .ok opened ∧
      Storage.ConfinedTo temporary before.storage opened ∧
      opened.rename temporary target = .ok after.storage := by
  obtain ⟨temporary, made, filled, opened, moved, created, full, readable, renamed, rfl⟩ := placed
  obtain ⟨storage, success, rfl⟩ := Job.createTemporary_eq_ok _ _ _ _ created
  obtain ⟨fresh, making, _⟩ := Storage.fresh_of_createTemporary _ _ _ _ success
  have filling := making.trans _ _ _ _ (fills temporary _ filled full)
  have inner := fresh.ne_nil
  rw [← filling.place_eq] at inner
  have opening := (Storage.confinedTo_setMode _ _ _ _ inner readable).1
  have file := Storage.isFile_of_createTemporary _ _ _ _ success
  exact ⟨temporary, storage, filled, opened, fresh, making, file, full, readable,
    filling.trans _ _ _ _ opening, renamed⟩

include rooted

/-- Putting something in place changes no other file that is not hidden, and a file that was there has a file
in its place. -/
theorem Placed.keeps :
    Storage.Keeps [target] before.storage after.storage ∧
      (before.storage.tree.file? (before.storage.place target) ≠ none →
        after.storage.tree.file? (before.storage.place target) ≠ none) := by
  obtain ⟨temporary, _, _, opened, fresh, _, _, _, _, opening, renamed⟩ :=
    placed.renames directory target fill fills before after
  exact Storage.keeps_rename before.storage opened after.storage temporary target rooted fresh opening renamed

/-- A file that was put in place holds what it was filled with. -/
theorem Placed.settles
    (plain : ∀ path made filled, fill path made filled → made.storage.isFile path = true →
      filled.storage.tree.isDirectory (made.storage.place path) = false) :
    Storage.Keeps [target] before.storage after.storage ∧
      before.storage.resolve target = .ok (before.storage.place target) ∧
      ∃ temporary made filled content,
        (∀ path inner, ¬Hidden (before.storage.place path) → made.storage.read path = .ok inner →
          before.storage.read path = .ok inner) ∧
        made.compiled = before.compiled ∧ fill temporary made filled ∧
        filled.storage.read temporary = .ok content ∧ after.storage.read target = .ok content := by
  have keeps := (placed.keeps directory target fill fills before after rooted).1
  obtain ⟨temporary, storage, filled, opened, fresh, making, file, full, readable, opening, renamed⟩ :=
    placed.renames directory target fill fills before after
  have filling := fills temporary _ filled full
  have still := plain temporary { before with storage } filled full file
  have made := storage.isDirectory_place_of_isFile temporary file
  rw [making.place_eq] at made
  have inner := fresh.ne_nil
  rw [← (making.trans _ _ _ _ filling).place_eq] at inner
  have same := (Storage.confinedTo_setMode _ _ _ _ inner readable).2
  have openedPlain : opened.tree.isDirectory (before.storage.place temporary) = false := by
    rw [← (making.trans _ _ _ _ filling).place_eq, Storage.isDirectory_setMode _ _ _ _ readable, filling.place_eq]
    exact still
  obtain ⟨leads, content, inside, result⟩ := Storage.read_of_rename before.storage opened after.storage temporary
    target rooted fresh opening renamed openedPlain
  exact ⟨keeps, leads, temporary, { before with storage }, filled, content,
    fun path inner visible found =>
      Storage.read_of_confinedTo _ path _ _ making fresh made visible inner found,
    rfl, full, same content inside, result⟩

end Placed

structure IsDigest (name : Text) : Prop where
  length : name.length = 56
  digits : ∀ character ∈ name, character ∈ "0123456789abcdef".toList

theorem Sha224.isDigest_hex (message : List UInt8) : IsDigest (hex message) := by
  refine ⟨hex_length message, ?_⟩
  intro character member
  simp only [hex, List.mem_flatMap, hexWord, List.mem_map] at member
  obtain ⟨word, _, shift, _, rfl⟩ := member
  have small : ∀ digit : Fin 16, Nat.digitChar digit ∈ "0123456789abcdef".toList := by decide
  exact small ⟨(word.toNat >>> shift) % 16, Nat.mod_lt _ (by decide)⟩

theorem isDigest_fingerprint (document : Text) : IsDigest (fingerprint document) :=
  Sha224.isDigest_hex _

namespace Variant

theorem mem_fileName (variant : Variant) (name : Text) (digest : IsDigest name) (character : Char)
    (member : character ∈ variant.fileName name) : character ∈ "0123456789abcdef_ld.svg".toList := by
  simp only [fileName, List.mem_append] at member
  rcases member with inside | ending
  · have wider : "0123456789abcdef".toList ⊆ "0123456789abcdef_ld.svg".toList := by decide
    exact wider (digest.digits character inside)
  · have light : "_l.svg".toList ⊆ "0123456789abcdef_ld.svg".toList := by decide
    have dark : "_d.svg".toList ⊆ "0123456789abcdef_ld.svg".toList := by decide
    cases variant with
    | light => exact light ending
    | dark => exact dark ending

theorem length_fileName (variant : Variant) (name : Text) (digest : IsDigest name) :
    (variant.fileName name).length = 62 := by
  cases variant <;> simp [fileName, digest.length]

theorem isName_fileName (variant : Variant) (name : Text) (digest : IsDigest name) :
    IsName (variant.fileName name) := by
  have long := length_fileName variant name digest
  refine ⟨?_, ?_, ?_⟩
  · intro member
    exact absurd (mem_fileName variant name digest _ member) (by decide)
  · simp only [PathName.isIdle, Bool.or_eq_false_iff, decide_eq_false_iff_not]
    constructor
    · intro same
      simp [same] at long
    · intro same
      simp [same] at long
  · intro same
    simp [same] at long

theorem fileName_injective (first second : Variant) (left right : Text) (leftDigest : IsDigest left)
    (rightDigest : IsDigest right) (same : first.fileName left = second.fileName right) :
    first = second ∧ left = right := by
  obtain ⟨names, endings⟩ := List.append_inj same (leftDigest.length.trans rightDigest.length.symm)
  refine ⟨?_, names⟩
  cases first <;> cases second <;> simp at endings ⊢

theorem not_hidden_fileName (variant : Variant) (name : Text) (digest : IsDigest name)
    (above : Location) : ¬Hidden (above ++ [variant.fileName name]) := by
  rintro ⟨other, number, same⟩
  have names := List.append_inj_right' same rfl
  have first : (variant.fileName name).head? = some '.' := by
    rw [List.singleton_inj.mp names]
    rfl
  simp only [fileName, List.head?_append] at first
  cases shape : name with
  | nil =>
      have long := digest.length
      simp [shape] at long
  | cons head rest =>
      simp only [shape, List.head?_cons, Option.some_or, Option.some.injEq] at first
      have digit := digest.digits head (by simp [shape])
      rw [first] at digit
      exact absurd digit (by decide)

theorem not_hidden_join (variant : Variant) (name : Text) (digest : IsDigest name) (storage : Storage)
    (directory : PathName) : ¬Hidden (storage.place (directory.join ⟨variant.fileName name⟩)) := by
  rw [storage.place_join directory _ (variant.isName_fileName name digest)]
  exact variant.not_hidden_fileName name digest _

/-- Images of different variants or fingerprints lie apart, whatever their directories. -/
theorem eq_of_place_join (storage : Storage) (here there : PathName) (first second : Variant)
    (left right : Text) (leftDigest : IsDigest left) (rightDigest : IsDigest right)
    (same : storage.place (here.join ⟨first.fileName left⟩) =
      storage.place (there.join ⟨second.fileName right⟩)) :
    first = second ∧ left = right ∧ storage.place here = storage.place there := by
  rw [storage.place_join here _ (isName_fileName first left leftDigest),
    storage.place_join there _ (isName_fileName second right rightDigest)] at same
  obtain ⟨above, names⟩ := List.append_inj' same rfl
  obtain ⟨variants, digests⟩ :=
    fileName_injective first second left right leftDigest rightDigest (List.singleton_inj.mp names)
  exact ⟨variants, digests, above⟩

end Variant

theorem Storage.Keeps.file?_image (before after : Storage) (here there : PathName)
    (variant other : Variant) (name : Text) (digest : IsDigest name) (apart : variant ≠ other)
    (keeps : before.Keeps [there.join ⟨other.fileName name⟩] after) :
    after.tree.file? (after.place (here.join ⟨variant.fileName name⟩)) =
      before.tree.file? (before.place (here.join ⟨variant.fileName name⟩)) := by
  rw [keeps.place_eq]
  refine keeps.files _ ?_ ?_
  · intro target member
    rw [List.mem_singleton.mp member]
    exact fun same => apart (Variant.eq_of_place_join _ _ _ variant other name name digest digest same).1
  · exact variant.not_hidden_join name digest before here

theorem Storage.Keeps.read_image (before after : Storage) (here there : PathName)
    (variant other : Variant) (name : Text) (digest : IsDigest name) (apart : variant ≠ other)
    (keeps : before.Keeps [there.join ⟨other.fileName name⟩] after) (image : ByteArray)
    (found : before.read (here.join ⟨variant.fileName name⟩) = .ok image) :
    after.read (here.join ⟨variant.fileName name⟩) = .ok image := by
  refine keeps.read _ _ _ _ _ ?_ ?_ found
  · intro target member
    rw [List.mem_singleton.mp member]
    exact fun same => apart (Variant.eq_of_place_join _ _ _ variant other name name digest digest same).1
  · exact variant.not_hidden_join name digest before here

namespace Artifacts

variable (artifacts : Artifacts) (name : Text) (variant : Variant)

theorem place_dumpPath (storage : Storage) (digest : IsDigest name) :
    storage.place (artifacts.dumpPath name variant) =
      storage.place artifacts.dumpDirectory ++ [variant.fileName name] :=
  storage.place_join _ _ (variant.isName_fileName name digest)

theorem place_sitePath (storage : Storage) (digest : IsDigest name) :
    storage.place (artifacts.sitePath name variant) =
      storage.place artifacts.siteDirectory ++ [variant.fileName name] :=
  storage.place_join _ _ (variant.isName_fileName name digest)

theorem not_hidden_dumpPath (storage : Storage) (digest : IsDigest name) :
    ¬Hidden (storage.place (artifacts.dumpPath name variant)) :=
  variant.not_hidden_join name digest storage _

theorem not_hidden_sitePath (storage : Storage) (digest : IsDigest name) :
    ¬Hidden (storage.place (artifacts.sitePath name variant)) :=
  variant.not_hidden_join name digest storage _

/-- Both images are in store exactly when the dark one lies at its place and the light one can be
reached: what leads to the one leads to the other. -/
theorem isCached_eq_true_iff (storage : Storage) (digest : IsDigest name) :
    artifacts.isCached storage name = true ↔
      storage.isFile (artifacts.dumpPath name .light) = true ∧
        storage.tree.file? (storage.place (artifacts.dumpPath name .dark)) ≠ none := by
  simp only [isCached, Variant.all, List.all_cons, List.all_nil, Bool.and_true, Bool.and_eq_true]
  refine and_congr_right fun light => ?_
  constructor
  · intro dark
    obtain ⟨image, found⟩ := (Storage.isFile_eq_true_iff _ _).mp dark
    rw [Storage.file?_place_of_read _ _ _ found]
    simp
  · intro there
    obtain ⟨image, found⟩ := Option.ne_none_iff_exists'.mp there
    obtain ⟨_, lightRead⟩ := (Storage.isFile_eq_true_iff _ _).mp light
    obtain ⟨location, leads, _⟩ := (Storage.read_eq_ok_iff _ _ _).mp lightRead
    obtain ⟨other, otherLeads⟩ := Storage.resolve_join_of_resolve_join storage artifacts.dumpDirectory
      (Variant.light.fileName name) (Variant.dark.fileName name) (Variant.isName_fileName _ _ digest)
      (Variant.isName_fileName _ _ digest)
      (fun member => absurd (Variant.mem_fileName _ _ digest _ member) (by decide))
      (by simp [Variant.fileName, Text.byteSize_append]; decide) location leads
    have spot := Storage.resolve_eq_ok _ _ _ otherLeads
    refine (Storage.isFile_eq_true_iff _ _).mpr ⟨image, ?_⟩
    refine (Storage.read_eq_ok_iff _ _ _).mpr ⟨other, otherLeads, ?_⟩
    rw [spot]
    exact found

end Artifacts

namespace Compiler

/-- A call changes nothing but what lies at the place it is told to write to. -/
def OnlyOutput (compiler : Compiler) : Prop :=
  ∀ calls document output storage,
    Storage.ConfinedTo output storage (compiler calls document output storage).storage

/-- A call changes nothing else, and one that is given a file to write to and succeeds leaves a file or nothing
there. Only a call that fails may leave a directory. -/
structure WritesFile (compiler : Compiler) : Prop where
  confined : compiler.OnlyOutput
  plain : ∀ calls document output storage, storage.isFile output = true →
    (compiler calls document output storage).outcome = .ok () →
      (compiler calls document output storage).storage.tree.isDirectory (storage.place output) = false

/-- A call changes nothing but the file that it is given to write to: whether or not it fails, a file or nothing
is there. -/
structure OnlyFile (compiler : Compiler) : Prop where
  confined : compiler.OnlyOutput
  plain : ∀ calls document output storage, storage.isFile output = true →
    (compiler calls document output storage).storage.tree.isDirectory (storage.place output) = false

theorem OnlyFile.writesFile (compiler : Compiler) (only : compiler.OnlyFile) : compiler.WritesFile :=
  ⟨only.confined, fun calls document output storage file _ => only.plain calls document output storage file⟩

/-- A file that can be read is no directory. -/
theorem WritesFile.of_read (compiler : Compiler) (confined : compiler.OnlyOutput)
    (reads : ∀ calls document output storage, (compiler calls document output storage).outcome = .ok () →
      ∃ image, (compiler calls document output storage).storage.read output = .ok image) : compiler.WritesFile := by
  refine ⟨confined, fun calls document output storage _ succeeds => ?_⟩
  obtain ⟨image, found⟩ := reads calls document output storage succeeds
  have there := Storage.file?_place_of_read _ _ _ found
  rw [(confined calls document output storage).place_eq] at there
  exact FileTree.isDirectory_eq_false_of_file? _ _ image there

theorem compile_final_storage (compiler : Compiler) (document : Text) (output : PathName) (before : Workspace) :
    ((Job.compile compiler document output).final before).storage =
      (compiler before.compiled.length document output before.storage).storage := by
  simp only [Job.final, Job.compile]
  cases (compiler before.compiled.length document output before.storage).outcome <;> rfl

theorem fills_compile (compiler : Compiler) (confined : compiler.OnlyOutput) (document : Text) :
    Job.Fills (Job.compile compiler document) := by
  intro path before
  rw [compiler.compile_final_storage]
  exact confined before.compiled.length document path before.storage

theorem OnlyFile.compile {compiler : Compiler} (only : compiler.OnlyFile) (document : Text) :
    Job.OnlyFile (Job.compile compiler document) := by
  refine ⟨compiler.fills_compile only.confined document, fun path before file => ?_⟩
  rw [compiler.compile_final_storage]
  exact only.plain before.compiled.length document path before.storage file

theorem WritesFile.compile {compiler : Compiler} (writes : compiler.WritesFile) (document : Text) :
    Job.WritesFile (Job.compile compiler document) := by
  refine ⟨compiler.fills_compile writes.confined document, fun path made filled finished file => ?_⟩
  have left := writes.plain made.compiled.length document path made.storage file
  simp only [Job.compile] at finished
  split at finished
  · rename_i outcome
    cases finished
    exact left outcome
  · simp at finished

theorem onlyOutput_writing (image : Text → ByteArray) : (Compiler.writing image).OnlyOutput := by
  intro calls document output storage
  simp only [writing, Compilation.ofResult]
  cases written : storage.write output (image document) with
  | ok changed => exact Storage.confinedTo_write _ _ _ _ written
  | error cause => exact .refl _ _

theorem onlyFile_writing (image : Text → ByteArray) : (Compiler.writing image).OnlyFile := by
  refine ⟨onlyOutput_writing image, fun calls document output storage file => ?_⟩
  simp only [writing, Compilation.ofResult]
  cases written : storage.write output (image document) with
  | ok changed =>
      obtain ⟨mode, _, other, rfl⟩ := Storage.write_eq_ok _ _ _ _ written
      exact Storage.isDirectory_withEntry _ _ _ (storage.tree.ne_nil_of_not_isDirectory _ other)
  | error cause => exact storage.isDirectory_place_of_isFile output file

/-- Fails at the calls with these numbers, before anything is written. -/
def failingAt (numbers : List Nat) (compiler : Compiler) : Compiler :=
  fun calls document output storage =>
    if calls ∈ numbers then { storage, outcome := .error (.failed (.code 1) []), log := [] }
    else compiler calls document output storage

theorem onlyOutput_failingAt (numbers : List Nat) (compiler : Compiler) (confined : compiler.OnlyOutput) :
    (failingAt numbers compiler).OnlyOutput := by
  intro calls document output storage
  simp only [failingAt]
  split
  · exact .refl _ _
  · exact confined calls document output storage

theorem onlyFile_failingAt (numbers : List Nat) (compiler : Compiler) (only : compiler.OnlyFile) :
    (failingAt numbers compiler).OnlyFile := by
  refine ⟨onlyOutput_failingAt numbers compiler only.confined, fun calls document output storage file => ?_⟩
  simp only [failingAt]
  split
  · exact storage.isDirectory_place_of_isFile output file
  · exact only.plain calls document output storage file

/-- Puts an empty directory in the place of the file that it is given. -/
def leavingDirectory : Compiler := fun _ _ output storage =>
  { storage := if storage.isFile output then
        storage.withEntry (storage.place output) (.directory FileTree.directoryMode)
      else storage
    outcome := .ok ()
    log := [] }

theorem onlyOutput_leavingDirectory : leavingDirectory.OnlyOutput := by
  intro calls document output storage
  simp only [leavingDirectory]
  split
  · rename_i file
    have other := storage.isDirectory_place_of_isFile output file
    exact Storage.confinedTo_withEntry storage output _ (storage.tree.ne_nil_of_not_isDirectory _ other)
  · exact .refl _ _

end Compiler

theorem Artifacts.fills_copy (source : PathName) :
    Job.Fills fun temporary => Job.change (·.copy source temporary) := by
  intro path before
  simp only [Job.final, Job.change]
  cases copied : before.storage.copy source path with
  | ok storage => exact Storage.confinedTo_copy _ _ _ _ copied
  | error error => exact .refl _ _

theorem Artifacts.onlyFile_copy (source : PathName) :
    Job.OnlyFile fun temporary => Job.change (·.copy source temporary) := by
  refine ⟨fills_copy source, fun path before file => ?_⟩
  simp only [Job.final, Job.change]
  cases copied : before.storage.copy source path with
  | ok storage => exact Storage.isDirectory_of_copy _ _ _ _ copied
  | error error => exact before.storage.isDirectory_place_of_isFile path file

namespace Formatter

/-- An image was left by a compiler call for this document, made between the two workspaces. -/
def Left (formatter : Formatter) (document : Text) (image : ByteArray) (before after : Workspace) : Prop :=
  ∃ temporary made filled, before.compiled <+: made.compiled ∧ filled.compiled <+: after.compiled ∧
    Job.compile formatter.compiler document temporary made = .ok () filled ∧
    filled.storage.read temporary = .ok image

theorem Compiled.keeps (formatter : Formatter) (confined : formatter.compiler.OnlyOutput)
    (name document : Text) (variant : Variant) (before after : Workspace)
    (rooted : before.storage.tree.Rooted)
    (compiled : formatter.Compiled name document variant before after) :
    Storage.Keeps [formatter.artifacts.dumpPath name variant] before.storage after.storage :=
  (Placed.keeps _ _ _ (fun path made filled finished => by
    have fills := formatter.compiler.fills_compile confined document path made
    rwa [Job.final_of_ok _ _ _ _ finished] at fills) before after rooted compiled).1

theorem Compiled.settles (formatter : Formatter) (writes : formatter.compiler.WritesFile)
    (name document : Text) (variant : Variant) (before after : Workspace)
    (rooted : before.storage.tree.Rooted)
    (compiled : formatter.Compiled name document variant before after) :
    Storage.Keeps [formatter.artifacts.dumpPath name variant] before.storage after.storage ∧
      ∃ image, after.storage.read (formatter.artifacts.dumpPath name variant) = .ok image ∧
        formatter.Left document image before after := by
  have grown := Compiled.compiled_eq formatter name document variant before after compiled
  obtain ⟨keeps, _, temporary, made, filled, image, _, same, call, left, there⟩ :=
    Placed.settles _ _ _ (fun path made filled finished => by
      have fills := formatter.compiler.fills_compile writes.confined document path made
      rwa [Job.final_of_ok _ _ _ _ finished] at fills) before after rooted compiled
      (writes.compile document).plain
  refine ⟨keeps, image, there, temporary, made, filled, ?_, ?_, call, left⟩
  · exact same ▸ List.prefix_refl _
  · have whole : filled.compiled = after.compiled := by
      rw [grown, Job.compile_compiled_eq _ _ _ _ _ call, same]
    exact whole ▸ List.prefix_refl _

/-- An image on the site was there, or was copied to where nothing was. -/
theorem OnSite.settles (formatter : Formatter) (name : Text) (variant : Variant)
    (digest : IsDigest name) (before after : Workspace) (rooted : before.storage.tree.Rooted)
    (onSite : formatter.OnSite name variant before after) :
    let dump := formatter.artifacts.dumpPath name variant
    let site := formatter.artifacts.sitePath name variant
    Storage.Keeps [site] before.storage after.storage ∧
      ∃ published, after.storage.read site = .ok published ∧
        (before.storage.tree.file? (before.storage.place site) = some published ∧ after = before ∨
          before.storage.tree.file? (before.storage.place site) = none ∧
            before.storage.read dump = .ok published) := by
  intro dump site
  cases onSite with
  | present found =>
      obtain ⟨published, there⟩ := (Storage.isFile_eq_true_iff _ _).mp found
      exact ⟨.refl _ _ rooted, published, there,
        .inl ⟨Storage.file?_place_of_read _ _ _ there, rfl⟩⟩
  | copied _ absent placed =>
      obtain ⟨keeps, leads, temporary, made, _, published, quiet, _, ⟨storage, copied, rfl⟩, left, there⟩ :=
        Placed.settles _ _ _ (fun path made filled copy => by
          obtain ⟨storage, copied, rfl⟩ := copy
          exact Storage.confinedTo_copy _ _ _ _ copied) before after rooted placed
          fun path made filled ⟨storage, success, shape⟩ _ => shape ▸ Storage.isDirectory_of_copy _ _ _ _ success
      refine ⟨keeps, published, there, .inr ⟨?_, ?_⟩⟩
      · cases found : before.storage.tree.file? (before.storage.place site) with
        | none => rfl
        | some old =>
            have isThere := (Storage.isFile_eq_true_iff _ _).mpr
              ⟨old, (Storage.read_eq_ok_iff _ _ _).mpr ⟨_, leads, found⟩⟩
            rw [absent] at isThere
            exact absurd isThere (by decide)
      · exact quiet dump published (formatter.artifacts.not_hidden_dumpPath name variant _ digest)
          (Storage.read_of_copy _ _ _ _ _ copied left)

theorem preserves_publishOne_of (formatter : Formatter) (property : Workspace → Prop) (name : Text)
    (variant : Variant)
    (places : Job.Preserves property (Job.placeFile formatter.artifacts.siteDirectory
      (formatter.artifacts.sitePath name variant) id fun temporary =>
        Job.change (·.copy (formatter.artifacts.dumpPath name variant) temporary))) :
    Job.Preserves property (formatter.artifacts.publishOne name variant) := by
  refine .bind _ _ _ (.inspect _ _) fun found => ?_
  cases found with
  | true => exact .pure _ _
  | false => exact .bind _ _ _ places fun _ => .pure _ _

theorem preserves_publish_of (formatter : Formatter) (property : Workspace → Prop) (name : Text)
    (directory : Job.Preserves property (Job.makeDirectories formatter.artifacts.siteDirectory))
    (publishes : ∀ variant, Job.Preserves property (formatter.artifacts.publishOne name variant)) :
    Job.Preserves property (formatter.artifacts.publish name) := by
  refine .bind _ _ _ directory fun _ => ?_
  exact .bind _ _ _ (publishes .light) fun _ => .bind _ _ _ (publishes .dark) fun _ => .pure _ _

theorem preserves_compiled_publishOne (formatter : Formatter) (calls : List Text) (name : Text)
    (variant : Variant) :
    Job.Preserves (fun workspace => workspace.compiled = calls) (formatter.artifacts.publishOne name variant) := by
  refine formatter.preserves_publishOne_of _ name variant (.placeFile _ (fun _ _ _ same => same) _ _ _ _ fun path => ?_)
  exact .change _ (fun _ _ _ same => same) _ fun _ _ => Storage.edited_copy _ _ _ _

/-- Publishing calls no compiler, whether or not it fails. -/
theorem publish_final_compiled (formatter : Formatter) (name : Text) (before : Workspace) :
    ((formatter.artifacts.publish name).final before).compiled = before.compiled :=
  formatter.preserves_publish_of (fun workspace => workspace.compiled = before.compiled) name
    (.makeDirectories _ (fun _ _ _ same => same) _)
    (formatter.preserves_compiled_publishOne before.compiled name) before rfl

theorem preserves_storeIfMissing_of (formatter : Formatter) (property : Workspace → Prop) (name : Text)
    (document : Variant → Text)
    (directory : Job.Preserves property (Job.makeDirectories formatter.artifacts.dumpDirectory))
    (stores : ∀ variant, Job.Preserves property
      (formatter.artifacts.storeOne formatter.compiler name (document variant) variant)) :
    Job.Preserves property (formatter.storeIfMissing name document) := by
  refine .bind _ _ _ (.inspect _ _) fun cached => ?_
  cases cached with
  | true => exact .pure _ _
  | false =>
      refine .bind _ _ _ ?_ fun _ => .pure _ _
      refine .bind _ _ _ (.orFail _ _ _ directory) fun _ => ?_
      exact .bind _ _ _ (stores .light) fun _ => stores .dark

/-- What a render preserves if every operation it consists of does. -/
theorem preserves_render_of (formatter : Formatter) (property : Workspace → Prop) (source : Text)
    (attributes : Attributes)
    (directories : ∀ path ∈ [formatter.artifacts.dumpDirectory, formatter.artifacts.siteDirectory],
      Job.Preserves property (Job.makeDirectories path))
    (stores : ∀ settings, PreviewSettings.ofAttributes attributes = .ok settings → ∀ variant,
      let document := formatter.document settings source
      Job.Preserves property (formatter.artifacts.storeOne formatter.compiler (fingerprint (document .light))
        (document variant) variant))
    (publishes : ∀ light variant,
      Job.Preserves property (formatter.artifacts.publishOne (fingerprint light) variant)) :
    Job.Preserves property (formatter.render source attributes) := by
  simp only [render]
  split
  · exact .throw _ _
  · exact .throw _ _
  · rename_i settings site accepted hasSite
    have store := formatter.preserves_storeIfMissing_of property
      (fingerprint (formatter.document settings source .light)) (formatter.document settings source)
      (directories _ (by simp)) (stores settings accepted)
    have publish := formatter.preserves_publish_of property
      (fingerprint (formatter.document settings source .light)) (directories _ (by simp)) (publishes _)
    exact .bind _ _ _ (.orFail _ _ _ store) fun _ => .bind _ _ _ (.orFail _ _ _ publish) fun _ => .pure _ _

end Formatter

/-! A small preview and a tree with one image in it, for runs that show what the theorems are about. -/

def Attributes.basic : Attributes := (Attributes.ofInfo "typst-preview mode=basic".toList).2

def PreviewSettings.basic : PreviewSettings := ⟨.basic, false⟩

theorem PreviewSettings.ofAttributes_basic : ofAttributes Attributes.basic = .ok basic := by
  decide +kernel

/-- Fingerprint of the source `x` without imports. -/
def smallFingerprint : Text := "566c405927cf233bd132d5abdaf5ad31430fb8d09146e68f988ed0ec".toList

/-- Fingerprint of the source `y` without imports. -/
def otherFingerprint : Text := "c27d37dd2cc6a18c529b60932f7df84a5c84e5a1ad4ac4fa7d96e847".toList

/-- The digits of `smallFingerprint`, from a number: evaluation is quick with them. -/
def smallDigits : Text := Nat.toDigits 16 0x566c405927cf233bd132d5abdaf5ad31430fb8d09146e68f988ed0ec

/-- The digits of `otherFingerprint`. -/
def otherDigits : Text := Nat.toDigits 16 0xc27d37dd2cc6a18c529b60932f7df84a5c84e5a1ad4ac4fa7d96e847

theorem smallFingerprint_eq : smallFingerprint = smallDigits :=
  Text.toList_eq_of_eq_ofList _ _ (by decide +kernel)

theorem otherFingerprint_eq : otherFingerprint = otherDigits :=
  Text.toList_eq_of_eq_ofList _ _ (by decide +kernel)

theorem headerTemplate_eq_lines :
    headerTemplate = "\n#let _is-dark = \x7bis_dark\x7d\n".toList ++
      "#set page(width: auto, height: auto, margin: 0.75cm, fill: none)\n".toList ++
      "#let _accent = if _is-dark \x7b white \x7d else \x7b black \x7d\n".toList ++
      "#set text(fill: _accent)\n".toList ++ "#set table(stroke: _accent.transparentize(30%))\n\n".toList := by
  have split (a b c d e : String) : (a ++ b ++ c ++ d ++ e).toList =
      a.toList ++ b.toList ++ c.toList ++ d.toList ++ e.toList := by
    simp only [String.toList_append]
  exact split _ _ _ _ _

theorem fingerprint_letters :
    fingerprint (Templates.default.render .basic .light ['x']) = smallDigits ∧
      fingerprint (Templates.default.render .basic .light ['y']) = otherDigits := by
  have dark : "\n#let _is-dark = \x7bis_dark\x7d\n".toList = _ := Text.toList_eq_of_eq_ofList _ _ rfl
  have page : "#set page(width: auto, height: auto, margin: 0.75cm, fill: none)\n".toList = _ :=
    Text.toList_eq_of_eq_ofList _ _ rfl
  have accent : "#let _accent = if _is-dark \x7b white \x7d else \x7b black \x7d\n".toList = _ :=
    Text.toList_eq_of_eq_ofList _ _ rfl
  have text : "#set text(fill: _accent)\n".toList = _ := Text.toList_eq_of_eq_ofList _ _ rfl
  have table : "#set table(stroke: _accent.transparentize(30%))\n\n".toList = _ :=
    Text.toList_eq_of_eq_ofList _ _ rfl
  simp only [fingerprint, Templates.render, header, Text.encode_toList]
  rw [headerTemplate_eq_lines, dark, page, accent, text, table]
  decide +kernel

theorem fingerprint_eq_smallDigits (formatter : Formatter) (default : formatter.templates = .default) :
    fingerprint (formatter.document .basic ['x'] .light) = smallDigits := by
  rw [Formatter.document, default]
  exact fingerprint_letters.1

theorem fingerprint_eq_otherDigits (formatter : Formatter) (default : formatter.templates = .default) :
    fingerprint (formatter.document .basic ['y'] .light) = otherDigits := by
  rw [Formatter.document, default]
  exact fingerprint_letters.2

/-- A render of the source `x`, for evaluation: its fingerprint is at hand. -/
theorem Formatter.render_eq_smallDigits (formatter : Formatter) (default : formatter.templates = .default)
    (hasSite : formatter.sitePath = some ['/']) :
    formatter.render ['x'] .basic = (do
      let ran ← Job.orFail .compile (formatter.storeIfMissing smallDigits (formatter.document .basic ['x']))
      let _ ← Job.orFail .publish (formatter.artifacts.publish smallDigits)
      return { fingerprint := smallDigits
               lightUrl := url ['/'] smallDigits .light
               darkUrl := url ['/'] smallDigits .dark
               compiled := ran }) :=
  formatter.render_eq ['x'] ['/'] .basic .basic PreviewSettings.ofAttributes_basic hasSite smallDigits
    (fingerprint_eq_smallDigits formatter default)

theorem fingerprint_small (compiler : Compiler) :
    fingerprint ((Formatter.small compiler).document .basic ['x'] .light) = smallFingerprint :=
  (fingerprint_eq_smallDigits _ rfl).trans smallFingerprint_eq.symm

theorem fingerprint_other (compiler : Compiler) :
    fingerprint ((Formatter.small compiler).document .basic ['y'] .light) = otherFingerprint :=
  (fingerprint_eq_otherDigits _ rfl).trans otherFingerprint_eq.symm

def FileTree.oneImage (top name : Text) (content : ByteArray) : FileTree :=
  ⟨[([top], .directory directoryMode), ([top, renderedDirectory], .directory directoryMode),
    ([top, renderedDirectory, name], .file content fileMode)]⟩

theorem FileTree.rooted_oneImage (top name : Text) (content : ByteArray) :
    (FileTree.oneImage top name content).Rooted := by
  refine Rooted.of_entries _ ?_
  simp [oneImage, isDirectory, get?, List.lookup_cons]

/-- Both images of the small preview are on the site, and nothing is in store. -/
def publishedStart : Workspace :=
  let old : ByteArray := ⟨#[111]⟩
  let tree := FileTree.oneImage "site".toList (Variant.light.fileName smallDigits) old
  let dark := ["site".toList, renderedDirectory, Variant.dark.fileName smallDigits]
  ⟨⟨tree.insert dark (.file old FileTree.fileMode), []⟩, [], []⟩

theorem FileTree.file?_oneImage (top name : Text) (content : ByteArray) :
    (FileTree.oneImage top name content).file? [top, renderedDirectory, name] = some content := by
  simp [oneImage, file?, get?, List.lookup_cons]

end FencePreview
