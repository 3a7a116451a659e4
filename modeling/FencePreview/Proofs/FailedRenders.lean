import FencePreview.Proofs.StoredImages

/-! Renders that stop at the compiler. The dark image is stored last and is not touched before, so
only an image from an earlier run can make a preview count as stored after a failure. -/

namespace FencePreview

theorem Job.compile_final_compiled (compiler : Compiler) (document : Text) (output : PathName)
    (before : Workspace) :
    ((Job.compile compiler document output).final before).compiled = before.compiled ++ [document] := by
  simp only [Job.final, Job.compile]
  cases (compiler before.compiled.length document output before.storage).outcome <;> rfl

namespace Formatter

variable (formatter : Formatter)

/-- Where storing the two images stops, and how. -/
inductive StoreStopped (document : Variant → Text) : Workspace → CompileError → Workspace → Prop
  | directory (before after : Workspace) (cause : FileError)
      (failed : Job.makeDirectories formatter.artifacts.dumpDirectory before = .error cause after) :
      StoreStopped document before (.file cause) after
  | light (before made after : Workspace) (error : CompileError)
      (directory : Job.makeDirectories formatter.artifacts.dumpDirectory before = .ok () made)
      (failed : formatter.artifacts.storeOne formatter.compiler (fingerprint (document .light))
        (document .light) .light made = .error error after) :
      StoreStopped document before error after
  | dark (before made half after : Workspace) (error : CompileError)
      (directory : Job.makeDirectories formatter.artifacts.dumpDirectory before = .ok () made)
      (light : formatter.Compiled (fingerprint (document .light)) (document .light) .light made half)
      (failed : formatter.artifacts.storeOne formatter.compiler (fingerprint (document .light))
        (document .dark) .dark half = .error error after) :
      StoreStopped document before error after

theorem storeIfMissing_eq_error (document : Variant → Text) (before after : Workspace)
    (error : CompileError)
    (failed : formatter.storeIfMissing (fingerprint (document .light)) document before =
      .error error after) :
    formatter.artifacts.isCached before.storage (fingerprint (document .light)) = false ∧
      formatter.StoreStopped document before error after := by
  simp only [storeIfMissing] at failed
  rcases Job.bind_eq_error_cases _ _ _ _ _ failed with looking | ⟨cached, between, looked, storing⟩
  · simp [Job.inspect] at looking
  · obtain ⟨present, rfl⟩ := (Job.inspect_eq_ok_iff _ _ _ _).mp looked
    cases cached with
    | true => exact absurd storing (Job.pure_ne_error _ _ _ _)
    | false =>
        refine ⟨present, ?_⟩
        simp only [Bool.false_eq_true, if_false, Artifacts.store] at storing
        rcases Job.bind_eq_error_cases _ _ _ _ _ storing with stop | ⟨_, _, _, last⟩
        · rcases Job.bind_eq_error_cases _ _ _ _ _ stop with making | ⟨_, made, directory, later⟩
          · obtain ⟨cause, unmade, rfl⟩ := Job.orFail_eq_error _ _ _ _ _ making
            exact .directory before after cause unmade
          · rw [Job.orFail_eq_ok_iff] at directory
            rcases Job.bind_eq_error_cases _ _ _ _ _ later with lightStop | ⟨_, half, light, darkStop⟩
            · exact .light before made after error directory lightStop
            · exact .dark before made half after error directory
                ((storeOne_eq_ok_iff _ _ _ _ _ _ _).mp light) darkStop
        · exact absurd last (Job.pure_ne_error _ _ _ _)

theorem storeOne_eq_error (name document : Text) (variant : Variant) (before after : Workspace)
    (error : CompileError)
    (failed : formatter.artifacts.storeOne formatter.compiler name document variant before =
      .error error after) :
    after.compiled = before.compiled ++ [document] ∨
      after.compiled = before.compiled ∧ ∃ cause, error = .file cause := by
  rcases Job.placeFile_eq_error _ _ _ _ _ _ _ failed with
    ⟨rfl, cause, rfl⟩ | ⟨temporary, made, stopped, created, stop, rfl⟩
  · exact .inr ⟨rfl, cause, rfl⟩
  · left
    obtain ⟨storage, _, rfl⟩ := Job.createTemporary_eq_ok _ _ _ _ created
    have called := Job.compile_final_compiled formatter.compiler document temporary { before with storage }
    rcases stop with rfl | ⟨opened, _, rfl⟩
    · exact called
    · exact called

/-- Storing that stops calls the compiler on the light document, unless a file operation fails
before. -/
theorem StoreStopped.calls (document : Variant → Text) (before after : Workspace)
    (error : CompileError) (stopped : formatter.StoreStopped document before error after) :
    before.compiled ++ [document .light] <+: after.compiled ∨
      after.compiled = before.compiled ∧ ∃ cause, error = .file cause := by
  cases stopped with
  | directory _ cause failed =>
      refine .inr ⟨?_, cause, rfl⟩
      rw [← Job.final_of_error _ _ _ _ failed, Job.makeDirectories_final]
  | light made _ _ directory failed =>
      have same := Job.makeDirectories_compiled_eq _ _ _ directory
      rcases formatter.storeOne_eq_error _ _ _ _ _ _ failed with called | ⟨silent, cause⟩
      · left
        rw [same] at called
        exact called ▸ List.prefix_refl _
      · exact .inr ⟨silent.trans same, cause⟩
  | dark made half _ _ directory light failed =>
      left
      have same := Job.makeDirectories_compiled_eq _ _ _ directory
      have called := Compiled.compiled_eq _ _ _ _ _ _ light
      rw [same] at called
      rcases formatter.storeOne_eq_error _ _ _ _ _ _ failed with more | ⟨silent, _⟩
      · rw [more, called]
        exact List.prefix_append _ _
      · exact (silent.trans called) ▸ List.prefix_refl _

/-- Storing that stops changes no image but the light one. -/
theorem StoreStopped.keeps (confined : formatter.compiler.OnlyOutput) (document : Variant → Text)
    (before after : Workspace) (rooted : before.storage.tree.Rooted) (error : CompileError)
    (stopped : formatter.StoreStopped document before error after) :
    before.storage.Keeps [formatter.artifacts.dumpPath (fingerprint (document .light)) .light]
      after.storage := by
  have directories := Job.keeps_makeDirectories formatter.artifacts.dumpDirectory before rooted
  cases stopped with
  | directory _ cause failed =>
      rw [Job.final_of_error _ _ _ _ failed] at directories
      exact directories.mono _ _ _ _ (by simp)
  | light made _ _ directory failed =>
      rw [Job.final_of_ok _ _ _ _ directory] at directories
      have unchanged := Job.keeps_of_placeFile_eq_error _ _ _ _
        (formatter.compiler.fills_compile confined _) made after directories.rooted error failed
      exact (directories.trans _ _ _ _ _ unchanged).mono _ _ _ _ (by simp)
  | dark made half _ _ directory light failed =>
      rw [Job.final_of_ok _ _ _ _ directory] at directories
      have lightOnly := Compiled.keeps formatter confined _ _ _ _ _ directories.rooted light
      have unchanged := Job.keeps_of_placeFile_eq_error _ _ _ _
        (formatter.compiler.fills_compile confined _) half after lightOnly.rooted error failed
      exact ((directories.trans _ _ _ _ _ lightOnly).trans _ _ _ _ _ unchanged).mono _ _ _ _ (by simp)

/-- The compiler stops a render exactly when it stops storing. -/
theorem render_eq_compile_error_iff (source : Text) (attributes : Attributes)
    (settings : PreviewSettings) (accepted : PreviewSettings.ofAttributes attributes = .ok settings)
    (before after : Workspace) (cause : CompileError) :
    formatter.render source attributes before = .error (.compile cause) after ↔
      formatter.sitePath ≠ none ∧
        formatter.storeIfMissing (fingerprint (formatter.document settings source .light))
          (formatter.document settings source) before = .error cause after := by
  cases site : formatter.sitePath with
  | none =>
      constructor
      · intro failed
        simp only [render, accepted, site] at failed
        cases failed
      · rintro ⟨absent, _⟩
        exact absurd rfl absent
  | some path =>
      simp only [render, accepted, site]
      constructor
      · intro failed
        refine ⟨by simp, ?_⟩
        rcases Job.bind_eq_error_cases _ _ _ _ _ failed with storing | ⟨_, _, _, later⟩
        · obtain ⟨inner, stop, same⟩ := Job.orFail_eq_error _ _ _ _ _ storing
          cases same
          exact stop
        · rcases Job.bind_eq_error_cases _ _ _ _ _ later with publishing | ⟨_, _, _, last⟩
          · obtain ⟨_, _, same⟩ := Job.orFail_eq_error _ _ _ _ _ publishing
            cases same
          · exact absurd last (Job.pure_ne_error _ _ _ _)
      · rintro ⟨_, stop⟩
        exact Job.bind_of_error _ _ _ _ _ (Job.orFail_of_error _ _ _ _ _ stop)

theorem render_final_compiled (source site : Text) (attributes : Attributes) (settings : PreviewSettings)
    (accepted : PreviewSettings.ofAttributes attributes = .ok settings)
    (hasSite : formatter.sitePath = some site) (before : Workspace) :
    ((formatter.render source attributes).final before).compiled =
      ((formatter.storeIfMissing (fingerprint (formatter.document settings source .light))
        (formatter.document settings source)).final before).compiled := by
  cases result : formatter.render source attributes before with
  | ok rendered after =>
      rw [Job.final_of_ok _ _ _ _ result]
      obtain ⟨ran, _, undisturbed⟩ :=
        (render_eq_ok_iff formatter source site attributes settings accepted hasSite _ _ _).mp result
      obtain ⟨stored, made, half, store, directory, light, dark⟩ :=
        (undisturbed_single_iff _ _ _ _ _).mp undisturbed
      rw [Job.final_of_ok _ _ _ _ ((storeIfMissing_eq_ok_iff _ _ _ _ _).mpr store),
        OnSite.compiled_eq _ _ _ _ _ dark, OnSite.compiled_eq _ _ _ _ _ light,
        Job.makeDirectories_compiled_eq _ _ _ directory]
  | error error after =>
      rw [Job.final_of_error _ _ _ _ result]
      simp only [render, accepted, hasSite] at result
      rcases Job.bind_eq_error_cases _ _ _ _ _ result with storing | ⟨ran, stored, store, later⟩
      · obtain ⟨_, stop, _⟩ := Job.orFail_eq_error _ _ _ _ _ storing
        rw [Job.final_of_error _ _ _ _ stop]
      · rw [Job.orFail_eq_ok_iff] at store
        rw [Job.final_of_ok _ _ _ _ store]
        rcases Job.bind_eq_error_cases _ _ _ _ _ later with publishing | ⟨_, _, _, last⟩
        · obtain ⟨_, stop, _⟩ := Job.orFail_eq_error _ _ _ _ _ publishing
          rw [← publish_final_compiled formatter _ stored, Job.final_of_error _ _ _ _ stop]
        · exact absurd last (Job.pure_ne_error _ _ _ _)

section Calls

variable (source site : Text) (attributes : Attributes) (settings : PreviewSettings)
  (accepted : PreviewSettings.ofAttributes attributes = .ok settings)
  (hasSite : formatter.sitePath = some site) (before : Workspace)

include accepted hasSite

theorem calls_of_isCached (cached : formatter.artifacts.isCached before.storage
      (fingerprint (formatter.document settings source .light)) = true) :
    ((formatter.render source attributes).final before).compiled = before.compiled := by
  have hit := (storeIfMissing_eq_ok_iff formatter _ before before false).mpr (.cached before cached)
  rw [formatter.render_final_compiled source site attributes settings accepted hasSite,
    Job.final_of_ok _ _ _ _ hit]

/-- A render whose images are not both in store begins with its light document, unless a file operation
fails before. -/
theorem calls_of_missing (missing : formatter.artifacts.isCached before.storage
      (fingerprint (formatter.document settings source .light)) = false) :
    let again := (formatter.render source attributes).final before
    before.compiled ++ [formatter.document settings source .light] <+: again.compiled ∨
      again.compiled = before.compiled ∧
        ∃ fault last, formatter.render source attributes before = .error (.compile (.file fault)) last := by
  intro again
  have calls := formatter.render_final_compiled source site attributes settings accepted hasSite before
  cases result : formatter.storeIfMissing (fingerprint (formatter.document settings source .light))
      (formatter.document settings source) before with
  | ok ran stored =>
      left
      have store := (storeIfMissing_eq_ok_iff formatter _ before stored ran).mp result
      have grown := Stored.compiled_eq _ _ _ _ _ store
      rw [Job.final_of_ok _ _ _ _ result] at calls
      cases store with
      | cached present =>
          rw [missing] at present
          exact absurd present (by decide)
      | missing =>
          rw [calls, grown]
          exact List.prefix_append_right_inj _ |>.mpr ⟨[formatter.document settings source .dark], rfl⟩
  | error error last =>
      rw [Job.final_of_error _ _ _ _ result] at calls
      obtain ⟨_, stops⟩ := formatter.storeIfMissing_eq_error _ before last error result
      rcases stops.calls formatter _ before last error with called | ⟨silent, fault, rfl⟩
      · exact .inl (calls ▸ called)
      · refine .inr ⟨calls.trans silent, fault, last, ?_⟩
        exact (formatter.render_eq_compile_error_iff source attributes settings accepted _ _ _).mpr
          ⟨by simp [hasSite], result⟩

end Calls

/-- A render that the compiler stops leaves both images in store exactly when the dark one was
there before it and the light one is there now. Only then does the next render not call the compiler,
unless a file operation fails before. -/
theorem render_failed_isCached (confined : formatter.compiler.OnlyOutput) (source : Text)
    (attributes : Attributes) (settings : PreviewSettings)
    (accepted : PreviewSettings.ofAttributes attributes = .ok settings) (before after : Workspace)
    (rooted : before.storage.tree.Rooted) (cause : CompileError)
    (failed : formatter.render source attributes before = .error (.compile cause) after) :
    let document := formatter.document settings source
    let name := fingerprint (document .light)
    let light := formatter.artifacts.dumpPath name .light
    let dark := formatter.artifacts.dumpPath name .dark
    let again := (formatter.render source attributes).final after
    formatter.artifacts.isCached before.storage name = false ∧
      before.storage.Keeps [light] after.storage ∧
      (formatter.artifacts.isCached after.storage name = true ↔
        before.storage.tree.file? (before.storage.place dark) ≠ none ∧
          after.storage.isFile light = true) ∧
      (formatter.artifacts.isCached after.storage name = true → again.compiled = after.compiled) ∧
      (formatter.artifacts.isCached after.storage name = false →
        after.compiled ++ [document .light] <+: again.compiled ∨
          again.compiled = after.compiled ∧
            ∃ fault last, formatter.render source attributes after =
              .error (.compile (.file fault)) last) := by
  intro document name light dark again
  have digest := isDigest_fingerprint (document .light)
  obtain ⟨hasSite, stop⟩ :=
    (formatter.render_eq_compile_error_iff source attributes settings accepted _ _ _).mp failed
  obtain ⟨site, isSite⟩ := Option.ne_none_iff_exists'.mp hasSite
  obtain ⟨absent, stopped⟩ := formatter.storeIfMissing_eq_error document before after cause stop
  have keeps := stopped.keeps formatter confined document before after rooted cause
  refine ⟨absent, keeps, ?_, formatter.calls_of_isCached source site attributes settings accepted isSite after,
    formatter.calls_of_missing source site attributes settings accepted isSite after⟩
  rw [Artifacts.isCached_eq_true_iff _ _ _ digest, and_comm]
  have darkKept : after.storage.tree.file? (after.storage.place dark) =
      before.storage.tree.file? (before.storage.place dark) :=
    keeps.file?_image _ _ _ _ .dark .light name digest (by decide)
  rw [darkKept]

/-- A dark image from an earlier run, a light one compiled now and a failure on the dark one: both
images count as stored. -/
theorem render_failed_isCached_old_dark :
    let formatter := Formatter.small (.failingAt [1] (.writing fun _ => ByteArray.empty))
    let tree := FileTree.oneImage "docs".toList (Variant.dark.fileName smallFingerprint) ByteArray.empty
    let workspace : Workspace := ⟨⟨tree, []⟩, [], []⟩
    ∃ after, formatter.render ['x'] .basic workspace = .error (.compile (.failed (.code 1) [])) after ∧
      formatter.artifacts.isCached after.storage smallFingerprint = true ∧
      ((formatter.render ['x'] .basic).final after).compiled = after.compiled := by
  rw [smallFingerprint_eq]
  intro formatter tree workspace
  have digest : fingerprint (formatter.document .basic ['x'] .light) = smallDigits :=
    fingerprint_eq_smallDigits _ rfl
  have confined : formatter.compiler.OnlyOutput :=
    Compiler.onlyOutput_failingAt _ _ (Compiler.onlyOutput_writing _)
  have outcome :
      let job := formatter.storeIfMissing smallDigits (formatter.document .basic ['x'])
      let dump := formatter.artifacts.dumpPath smallDigits
      Job.error? job workspace = some (.failed (.code 1) []) ∧
        (workspace.storage.tree.file? (workspace.storage.place (dump .dark))).isSome = true ∧
        (job.final workspace).storage.isFile (dump .light) = true := by
    decide +kernel
  obtain ⟨stops, darkBefore, lightAfter⟩ := outcome
  obtain ⟨after, stop⟩ := (Job.error?_eq_some_iff _ _ _).mp stops
  rw [Job.final_of_error _ _ _ _ stop] at lightAfter
  rw [← digest] at stop darkBefore lightAfter ⊢
  have failed := (formatter.render_eq_compile_error_iff ['x'] .basic .basic
    PreviewSettings.ofAttributes_basic workspace after _).mpr ⟨by simp [formatter, small], stop⟩
  obtain ⟨_, _, stored, hit, _⟩ := formatter.render_failed_isCached confined ['x'] .basic .basic
    PreviewSettings.ofAttributes_basic workspace after (FileTree.rooted_oneImage _ _ _) _ failed
  have cached := stored.mpr ⟨Option.ne_none_iff_isSome.mpr darkBefore, lightAfter⟩
  exact ⟨after, failed, cached, hit cached⟩

end Formatter

end FencePreview
