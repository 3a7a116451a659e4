import FencePreview.Proofs.RenderPlaces
import FencePreview.Proofs.SiteCopies

/-! Rendering twice. Whatever a render found in store and on the site, both images lie in both places
once it has succeeded. A render that finds them there asks no compiler and changes nothing. -/

namespace FencePreview

/-- Both images of a preview are in store and on the site. -/
structure Artifacts.Complete (artifacts : Artifacts) (storage : Storage) (name : Text) : Prop where
  stored : artifacts.isCached storage name = true
  published : ∀ variant, storage.isFile (artifacts.sitePath name variant) = true

namespace Formatter

variable (formatter : Formatter) (document : Variant → Text)

theorem complete_of_undisturbed (writes : formatter.compiler.WritesFile) (before after : Workspace)
    (ran : Bool) (rooted : before.storage.tree.Rooted)
    (undisturbed : formatter.Undisturbed [document] before [ran] after) :
    formatter.artifacts.Complete after.storage (fingerprint (document .light)) := by
  obtain ⟨_, images⟩ := undisturbed.settles formatter writes document before after ran rooted
  constructor
  · refine List.all_eq_true.mpr fun variant _ => ?_
    obtain ⟨image, there, _⟩ := images variant
    exact (Storage.isFile_eq_true_iff _ _).mpr ⟨image, there⟩
  · intro variant
    obtain ⟨_, _, _, there⟩ := images variant
    exact (Storage.isFile_eq_true_iff _ _).mpr ⟨_, there⟩

theorem undisturbed_of_complete (workspace : Workspace)
    (complete : formatter.artifacts.Complete workspace.storage (fingerprint (document .light))) :
    formatter.Undisturbed [document] workspace [false] workspace := by
  have digest := isDigest_fingerprint (document .light)
  -- The images on the site were reached through their directory, so it is there.
  have directory : formatter.artifacts.siteDirectory.text = [] ∨
      workspace.storage.isDirectory formatter.artifacts.siteDirectory = true := by
    refine or_iff_not_imp_left.mpr fun filled => ?_
    obtain ⟨image, there⟩ := (Storage.isFile_eq_true_iff _ _).mp (complete.published .light)
    obtain ⟨location, leads, _⟩ := (Storage.read_eq_ok_iff _ _ _).mp there
    exact Storage.isDirectory_of_resolve_join _ _ _ (Variant.light.isName_fileName _ digest).whole filled _ leads
  refine (undisturbed_single_iff _ _ _ _ _).mpr ⟨workspace, workspace, workspace, .cached _ complete.stored,
    ?_, .present _ (complete.published .light), .present _ (complete.published .dark)⟩
  simp only [Job.makeDirectories, Storage.makeDirectories_of_isDirectory _ _ directory]

/-- A render that succeeded succeeds wherever its images are in store and on the site, with whatever
compiler: it gives the same fingerprint and addresses, calls no compiler, and leaves every file and
directory as it was. -/
theorem render_of_complete (writes : formatter.compiler.WritesFile) (source : Text) (attributes : Attributes)
    (before after : Workspace) (rooted : before.storage.tree.Rooted) (rendered : RenderedPreview)
    (finished : formatter.render source attributes before = .ok rendered after) :
    ∃ name, IsDigest name ∧ formatter.artifacts.Complete after.storage name ∧
      ∀ (later : Compiler) (workspace : Workspace), formatter.artifacts.Complete workspace.storage name →
        { formatter with compiler := later }.render source attributes workspace =
          .ok { rendered with compiled := false } workspace := by
  obtain ⟨settings, site, accepted, hasSite⟩ :=
    formatter.accepted_of_render_eq_ok source attributes before after rendered finished
  obtain ⟨ran, rfl, undisturbed⟩ :=
    (render_eq_ok_iff formatter source site attributes settings accepted hasSite _ _ _).mp finished
  refine ⟨_, isDigest_fingerprint _, formatter.complete_of_undisturbed _ writes before after ran rooted
    undisturbed, fun later workspace complete => ?_⟩
  refine (render_eq_ok_iff { formatter with compiler := later } source site attributes settings accepted hasSite
    _ _ _).mpr ⟨false, rfl, ?_⟩
  exact undisturbed_of_complete { formatter with compiler := later } _ workspace complete

/-- A render that succeeded succeeds again right after. -/
theorem render_again (writes : formatter.compiler.WritesFile) (source : Text) (attributes : Attributes)
    (before after : Workspace) (rooted : before.storage.tree.Rooted) (rendered : RenderedPreview)
    (finished : formatter.render source attributes before = .ok rendered after) (later : Compiler) :
    { formatter with compiler := later }.render source attributes after =
      .ok { rendered with compiled := false } after := by
  obtain ⟨name, _, complete, again⟩ :=
    formatter.render_of_complete writes source attributes before after rooted rendered finished
  exact again later after complete

/-- One image lies on the site from before, and the compiler fails at any call after the first two. -/
theorem render_again_small :
    let compiler := (Compiler.writing fun _ => ByteArray.empty).failingAt [2, 3]
    let formatter := Formatter.small compiler
    let tree := FileTree.oneImage "site".toList (Variant.dark.fileName smallFingerprint) ⟨#[111]⟩
    let workspace : Workspace := ⟨⟨tree, []⟩, [], []⟩
    ∃ rendered after, formatter.render ['x'] .basic workspace = .ok rendered after ∧
      rendered.compiled = true ∧
      formatter.render ['x'] .basic after = .ok { rendered with compiled := false } after := by
  rw [smallFingerprint_eq]
  intro compiler formatter tree workspace
  have run := formatter.render_eq_smallDigits rfl rfl
  have succeeds : (Job.result? (formatter.render ['x'] .basic) workspace).map RenderedPreview.compiled =
      some true := by
    rw [run]
    decide +kernel
  obtain ⟨rendered, finished, compiled⟩ := Job.exists_ok_of_result?_map _ _ _ _ succeeds
  have writes : formatter.compiler.WritesFile :=
    (Compiler.onlyFile_failingAt _ _ (Compiler.onlyFile_writing _)).writesFile
  exact ⟨rendered, _, finished, compiled, formatter.render_again writes ['x'] .basic workspace _
    (FileTree.rooted_oneImage _ _ _) rendered finished compiler⟩

/-- A compiler that leaves directories puts no image in store, so the second render calls it again. -/
theorem render_again_directory :
    let formatter := Formatter.small .leavingDirectory
    formatter.compiler.OnlyOutput ∧
      ∃ rendered after, formatter.render ['x'] .basic publishedStart = .ok rendered after ∧
        rendered.compiled = true ∧ after.compiled.length = 2 ∧
        ∃ again later, formatter.render ['x'] .basic after = .ok again later ∧
          again.compiled = true ∧ later.compiled.length = 4 := by
  intro formatter
  obtain ⟨rendered, after, finished, _, compiled, calls, _⟩ := render_leavingDirectory
  have run := formatter.render_eq_smallDigits rfl rfl
  have left : (formatter.render ['x'] .basic).final publishedStart = after := Job.final_of_ok _ _ _ _ finished
  have repeated : (Job.result? (formatter.render ['x'] .basic)
        ((formatter.render ['x'] .basic).final publishedStart)).map RenderedPreview.compiled = some true ∧
      ((formatter.render ['x'] .basic).final
        ((formatter.render ['x'] .basic).final publishedStart)).compiled.length = 4 := by
    rw [run]
    decide +kernel
  rw [left] at repeated
  obtain ⟨second, total⟩ := repeated
  obtain ⟨again, ended, recompiled⟩ := Job.exists_ok_of_result?_map _ _ _ _ second
  exact ⟨Compiler.onlyOutput_leavingDirectory, rendered, after, finished, compiled, calls, again, _, ended,
    recompiled, total⟩

end Formatter

end FencePreview
