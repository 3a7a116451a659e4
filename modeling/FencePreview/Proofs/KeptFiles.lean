import FencePreview.Proofs.IsolatedDocuments

/-! What processing leaves of the files that were there, whether or not it fails: none is taken away, and
of the Markdown files only those are changed that a document is written to. -/

namespace FencePreview

/-- Directories stay and files stay files, hidden ones apart. Of the Markdown files only those at the places
`written` change. -/
structure Storage.Grown (written : Location → Prop) (before after : Storage) : Prop where
  sameDirectory : after.workingDirectory = before.workingDirectory
  directories : ∀ location, before.tree.isDirectory location = true →
    after.tree.isDirectory location = true
  files : ∀ location, ¬Hidden location → before.tree.file? location ≠ none →
    after.tree.file? location ≠ none
  documents : ∀ location, IsMarkdown location → ¬written location →
    after.tree.file? location = before.tree.file? location
  rooted : after.tree.Rooted

namespace Storage.Grown

variable {written : Location → Prop}

theorem refl (storage : Storage) (rooted : storage.tree.Rooted) : Grown written storage storage :=
  ⟨rfl, fun _ directory => directory, fun _ _ file => file, fun _ _ _ => rfl, rooted⟩

theorem place_eq {before after : Storage} (grown : Grown written before after) (path : PathName) :
    after.place path = before.place path :=
  place_congr _ _ grown.sameDirectory path

theorem trans {first second third : Storage} (early : Grown written first second)
    (late : Grown written second third) : Grown written first third where
  sameDirectory := late.sameDirectory.trans early.sameDirectory
  directories := fun location directory => late.directories location (early.directories location directory)
  files := fun location visible file => late.files location visible (early.files location visible file)
  documents := fun location markdown outside =>
    (late.documents location markdown outside).trans (early.documents location markdown outside)
  rooted := late.rooted

theorem mono {all : Location → Prop} {before after : Storage} (grown : Grown written before after)
    (wider : ∀ location, written location → all location) : Grown all before after :=
  { grown with
    documents := fun location markdown outside =>
      grown.documents location markdown fun inside => outside (wider location inside) }

theorem of_keeps {before after : Storage} (targets : List PathName) (keeps : before.Keeps targets after)
    (replaced : ∀ target ∈ targets, before.tree.file? (before.place target) ≠ none →
      after.tree.file? (before.place target) ≠ none)
    (known : ∀ target ∈ targets, IsMarkdown (before.place target) → written (before.place target)) :
    Grown written before after := by
  refine ⟨keeps.sameDirectory, keeps.directories, ?_, ?_, keeps.rooted⟩
  · intro location visible file
    by_cases outside : ∀ target ∈ targets, location ≠ before.place target
    · rwa [keeps.files location outside visible]
    · push Not at outside
      obtain ⟨target, member, rfl⟩ := outside
      exact replaced target member file
  · intro location markdown outside
    refine keeps.files location ?_ markdown.not_hidden
    rintro target member rfl
    exact outside (known target member markdown)

theorem of_write {before after : Storage} (rooted : before.tree.Rooted) (path : PathName) (content : ByteArray)
    (success : before.write path content = .ok after)
    (known : IsMarkdown (before.place path) → written (before.place path)) : Grown written before after := by
  have keeps := keeps_write _ _ _ _ rooted success
  have there := file?_place_of_read _ _ _ (read_of_write _ _ _ _ success)
  rw [keeps.place_eq] at there
  exact .of_keeps [path] keeps (by simp [there]) (by simpa using known)

theorem isDirectory {before after : Storage} (grown : Grown written before after) (path : PathName)
    (there : before.isDirectory path = true) : after.isDirectory path = true := by
  obtain ⟨location, leads, inside⟩ := (isDirectory_eq_true_iff _ _).mp there
  exact (isDirectory_eq_true_iff _ _).mpr ⟨location,
    resolve_mono _ _ grown.sameDirectory grown.directories _ _ leads, grown.directories _ inside⟩

theorem read {before after : Storage} (grown : Grown written before after) (path : PathName)
    (markdown : IsMarkdown (before.place path)) (outside : ¬written (before.place path)) (content : ByteArray)
    (found : before.read path = .ok content) : after.read path = .ok content := by
  obtain ⟨location, leads, there⟩ := (read_eq_ok_iff _ _ _).mp found
  obtain rfl := resolve_eq_ok _ _ _ leads
  exact (read_eq_ok_iff _ _ _).mpr ⟨_, resolve_mono _ _ grown.sameDirectory grown.directories _ _ leads,
    (grown.documents _ markdown outside).trans there⟩

theorem isFile {before after : Storage} (grown : Grown written before after) (path : PathName)
    (visible : ¬Hidden (before.place path)) (there : before.isFile path = true) : after.isFile path = true := by
  obtain ⟨content, found⟩ := (isFile_eq_true_iff _ _).mp there
  obtain ⟨location, leads, file⟩ := (read_eq_ok_iff _ _ _).mp found
  obtain rfl := resolve_eq_ok _ _ _ leads
  obtain ⟨still, stays⟩ := Option.ne_none_iff_exists'.mp (grown.files _ visible (by simp [file]))
  exact (isFile_eq_true_iff _ _).mpr ⟨still, (read_eq_ok_iff _ _ _).mpr
    ⟨_, resolve_mono _ _ grown.sameDirectory grown.directories _ _ leads, stays⟩⟩

end Storage.Grown

namespace Job

variable {ε : Type} (start : Storage) (written : Location → Prop)

theorem grown_makeDirectories (path : PathName) :
    Preserves (fun workspace => start.Grown written workspace.storage) (makeDirectories path) :=
  fun before grown =>
    grown.trans (.of_keeps [] (keeps_makeDirectories path before grown.rooted) (by simp) (by simp))

theorem grown_placeFile (directory target : PathName) (wrap : FileError → ε) (fill : PathName → Job ε Unit)
    (fills : Fills fill) (other : ∀ storage : Storage, ¬IsMarkdown (storage.place target)) :
    Preserves (fun workspace => start.Grown written workspace.storage)
      (placeFile directory target wrap fill) := by
  intro before grown
  cases result : placeFile directory target wrap fill before with
  | ok done after =>
      rw [final_of_ok _ _ _ _ result]
      obtain ⟨keeps, replaced⟩ :=
        Placed.keeps _ _ _ (fun path made filled full => by
          have writing := fills path made
          rwa [final_of_ok _ _ _ _ full] at writing) before after grown.rooted
          ((placeFile_eq_ok_iff _ _ _ _ _ _ _).mp result)
      refine grown.trans (.of_keeps [target] keeps ?_ ?_)
      · simpa using replaced
      · simpa using fun markdown => absurd markdown (other before.storage)
  | error error after =>
      rw [final_of_error _ _ _ _ result]
      exact grown.trans (.of_keeps []
        (keeps_of_placeFile_eq_error _ _ _ _ fills _ _ grown.rooted _ result) (by simp) (by simp))

end Job

namespace Formatter

variable (formatter : Formatter)

theorem preserves_deliver (property : Workspace → Prop) (document : ProcessedDocument) (target : PathName)
    (directories : ∀ path, Job.Preserves property (Job.makeDirectories path))
    (writes : ∀ content, Job.Preserves property (Job.change (·.write target content))) :
    Job.Preserves property (deliver document target) := by
  have writing : Job.Preserves property (Job.orFail (.file target)
      (Job.change (·.write target (Text.encode document.output))) >>=
        fun _ => (pure document : Job DocumentError ProcessedDocument)) :=
    .bind _ _ _ (.orFail _ _ _ (writes _)) fun _ => .pure _ _
  cases cut : target.parent? with
  | none =>
      simp only [deliver, cut]
      exact writing
  | some parent =>
      simp only [deliver, cut]
      exact .bind _ _ _ (.orFail _ _ _ (directories parent)) fun _ => writing

theorem preserves_processFile (property : Workspace → Prop) (source target : PathName)
    (renders : ∀ source attributes, Job.Preserves property (formatter.render source attributes))
    (directories : ∀ path, Job.Preserves property (Job.makeDirectories path))
    (writes : ∀ content, Job.Preserves property (Job.change (·.write target content))) :
    Job.Preserves property (formatter.processFile source target) := by
  refine .bind _ _ _ (.inspect _ _) fun content => ?_
  cases content with
  | error cause => exact .throw _ _
  | ok text =>
      exact .bind _ _ _ (formatter.preserves_process property renders text)
        fun document => preserves_deliver property document target directories writes

section Grown

variable (confined : formatter.compiler.OnlyOutput) (start : Storage) (written : Location → Prop)

include confined

theorem grown_render (source : Text) (attributes : Attributes) :
    Job.Preserves (fun workspace => start.Grown written workspace.storage)
      (formatter.render source attributes) := by
  refine formatter.preserves_render_of _ source attributes ?_ ?_ ?_
  · exact fun path _ => Job.grown_makeDirectories start written path
  · intro settings accepted variant document
    refine Job.grown_placeFile start written _ _ _ _
      (formatter.compiler.fills_compile confined (document variant)) fun storage markdown => ?_
    rw [formatter.artifacts.place_dumpPath _ variant _ (isDigest_fingerprint _)] at markdown
    exact markdown.ne_image _ _ _ _ rfl
  · intro light variant
    refine formatter.preserves_publishOne_of _ _ variant
      (Job.grown_placeFile start written _ _ _ _ (Artifacts.fills_copy _) fun storage markdown => ?_)
    rw [formatter.artifacts.place_sitePath _ variant _ (isDigest_fingerprint _)] at markdown
    exact markdown.ne_image _ _ _ _ rfl

theorem grown_processFile (source target : PathName) (known : written (start.place target)) :
    Job.Preserves (fun workspace => start.Grown written workspace.storage)
      (formatter.processFile source target) := by
  refine formatter.preserves_processFile _ source target (formatter.grown_render confined start written)
    (Job.grown_makeDirectories start written) fun content before grown => ?_
  simp only [Job.final, Job.change]
  cases result : before.storage.write target content with
  | error cause => exact grown
  | ok after =>
      exact grown.trans (.of_write grown.rooted target content result fun _ => grown.place_eq target ▸ known)

end Grown

variable (documents output : PathName)

theorem preserves_processMembers (property : Workspace → Prop) (paths : List PathName)
    (each : ∀ path ∈ paths,
      Job.Preserves property (formatter.processFile path (targetOf documents output path)))
    (before : Workspace) (holds : property before) :
    property (formatter.processMembers documents output paths before).2 := by
  induction paths generalizing before with
  | nil => exact holds
  | cons path rest ih =>
      rw [processMembers_cons]
      refine ih (fun other member => each other (List.mem_cons_of_mem _ member)) _ ?_
      have first := each path List.mem_cons_self before holds
      simp only [Job.final] at first
      simp only [processMember]
      cases result : formatter.processFile path (targetOf documents output path) before <;>
        simpa only [result] using first

theorem grown_processMembers (confined : formatter.compiler.OnlyOutput) (paths : List PathName)
    (before : Workspace) (rooted : before.storage.tree.Rooted) :
    before.storage.Grown
      (fun location => ∃ path ∈ paths, location = before.storage.place (targetOf documents output path))
      (formatter.processMembers documents output paths before).2.storage :=
  formatter.preserves_processMembers documents output
    (fun workspace => before.storage.Grown _ workspace.storage) paths
    (fun path member => formatter.grown_processFile confined before.storage _ path _ ⟨path, member, rfl⟩)
    before (.refl _ rooted)

end Formatter

end FencePreview
