import FencePreview.Proofs.StoredImages

/-! What a site holds after a render. An image is copied where the site has none; a file that is there
is not replaced, whatever it holds. -/

namespace FencePreview

/-- A compiler after whose call every entry lies in a directory still. -/
def Compiler.KeepsRooted (compiler : Compiler) : Prop :=
  ∀ calls document output storage, storage.tree.Rooted →
    (compiler calls document output storage).storage.tree.Rooted

theorem Compiler.keepsRooted_writing (image : Text → ByteArray) : (Compiler.writing image).KeepsRooted := by
  intro calls document output storage rooted
  simp only [writing, Compilation.ofResult]
  cases written : storage.write output (image document) with
  | ok changed => exact (Storage.keeps_write _ _ _ _ rooted written).rooted
  | error cause => exact rooted

theorem Placed.rooted (directory target : PathName) (fill : PathName → Workspace → Workspace → Prop)
    (filling : ∀ path made filled, fill path made filled → made.storage.tree.Rooted →
      filled.storage.tree.Rooted)
    (before after : Workspace) (rooted : before.storage.tree.Rooted)
    (placed : Placed directory target fill before after) : after.storage.tree.Rooted := by
  obtain ⟨temporary, made, filled, opened, moved, created, full, readable, renamed, rfl⟩ := placed
  obtain ⟨storage, success, rfl⟩ := Job.createTemporary_eq_ok _ _ _ _ created
  obtain ⟨fresh, making, _⟩ := Storage.fresh_of_createTemporary _ _ _ _ success
  have full := filling temporary _ filled full (making.keeps _ _ _ rooted fresh).rooted
  -- A temporary file has a name, wherever the paths of what was filled in start.
  obtain ⟨number, spelled, _⟩ := Storage.createTemporary_eq_ok _ _ _ _ success
  have inner : filled.storage.place temporary ≠ [] := by
    rw [spelled, Storage.place_join _ _ _ (Storage.isName_temporaryName number)]
    simp
  obtain ⟨entry, move⟩ := Storage.rename_eq_ok _ _ _ _ renamed
  exact move.rooted (Storage.rooted_setMode _ _ _ _ full inner readable)

namespace Formatter

theorem Stored.rooted (formatter : Formatter) (tidy : formatter.compiler.KeepsRooted)
    (document : Variant → Text) (before after : Workspace) (ran : Bool)
    (rooted : before.storage.tree.Rooted) (stored : formatter.Stored document before ran after) :
    after.storage.tree.Rooted := by
  have compiles : ∀ text path made filled,
      Job.compile formatter.compiler text path made = .ok () filled → made.storage.tree.Rooted →
        filled.storage.tree.Rooted := by
    intro text path made filled finished madeRooted
    have call := tidy made.compiled.length text path made.storage madeRooted
    simp only [Job.compile] at finished
    split at finished
    · cases finished
      exact call
    · simp at finished
  cases stored with
  | cached present => exact rooted
  | missing made half _ absent directory light dark =>
      have directories := Job.keeps_makeDirectories formatter.artifacts.dumpDirectory before rooted
      rw [Job.final_of_ok _ _ _ _ directory] at directories
      exact dark.rooted _ _ _ (compiles _) _ _ (light.rooted _ _ _ (compiles _) _ _ directories.rooted)

theorem Left.widen (formatter : Formatter) (document : Text) (image : ByteArray)
    (before first second after : Workspace) (early : before.compiled <+: first.compiled)
    (late : second.compiled <+: after.compiled) (left : formatter.Left document image first second) :
    formatter.Left document image before after := by
  obtain ⟨temporary, made, filled, start, stop, call, found⟩ := left
  exact ⟨temporary, made, filled, early.trans start, stop.trans late, call, found⟩

/-- Both images are there once they are stored, as the compiler left them if it ran. -/
theorem Stored.settles (formatter : Formatter) (writes : formatter.compiler.WritesFile)
    (document : Variant → Text) (before after : Workspace) (ran : Bool)
    (rooted : before.storage.tree.Rooted) (stored : formatter.Stored document before ran after) :
    let dump := formatter.artifacts.dumpPath (fingerprint (document .light))
    before.storage.Keeps [dump .light, dump .dark] after.storage ∧
      ∀ variant, ∃ image, after.storage.read (dump variant) = .ok image ∧
        if ran then formatter.Left (document variant) image before after
        else before.storage.read (dump variant) = .ok image := by
  intro dump
  have digest := isDigest_fingerprint (document .light)
  cases stored with
  | cached present =>
      refine ⟨.refl _ _ rooted, ?_⟩
      intro variant
      have all := List.all_eq_true.mp present variant (by cases variant <;> simp [Variant.all])
      obtain ⟨image, found⟩ := (Storage.isFile_eq_true_iff _ _).mp all
      exact ⟨image, found, found⟩
  | missing made half _ absent directory light dark =>
      have directories := Job.keeps_makeDirectories formatter.artifacts.dumpDirectory before rooted
      rw [Job.final_of_ok _ _ _ _ directory] at directories
      obtain ⟨lightOnly, lightImage, lightThere, lightLeft⟩ :=
        light.settles formatter writes _ _ _ _ _ directories.rooted
      obtain ⟨darkOnly, darkImage, darkThere, darkLeft⟩ :=
        dark.settles formatter writes _ _ _ _ _ lightOnly.rooted
      have same := Job.makeDirectories_compiled_eq _ _ _ directory
      have lightGrown := Compiled.compiled_eq _ _ _ _ _ _ light
      have darkGrown := Compiled.compiled_eq _ _ _ _ _ _ dark
      refine ⟨(directories.trans _ _ _ _ _ lightOnly).trans _ _ _ _ _ darkOnly, ?_⟩
      intro variant
      cases variant with
      | light =>
          refine ⟨lightImage, ?_, ?_⟩
          · exact darkOnly.read_image _ _ _ _ .light .dark _ digest (by decide) lightImage lightThere
          · refine lightLeft.widen _ _ _ _ _ _ _ (same ▸ List.prefix_refl _) ?_
            rw [darkGrown]
            exact List.prefix_append _ _
      | dark =>
          refine ⟨darkImage, darkThere, darkLeft.widen _ _ _ _ _ _ _ ?_ (List.prefix_refl _)⟩
          rw [lightGrown, same]
          exact List.prefix_append _ _

/-- What lies at an image's place on the site stays; where nothing lies, the stored image is
copied. -/
theorem OnSite.published (formatter : Formatter) (name : Text) (variant : Variant)
    (digest : IsDigest name) (before after : Workspace) (rooted : before.storage.tree.Rooted)
    (onSite : formatter.OnSite name variant before after) :
    let dump := formatter.artifacts.dumpPath name variant
    let site := formatter.artifacts.sitePath name variant
    ∃ image, after.storage.read site = .ok image ∧
      (before.storage.tree.file? (before.storage.place site) = some image ∨
        before.storage.tree.file? (before.storage.place site) = none ∧
          after.storage.read dump = .ok image) := by
  intro dump site
  obtain ⟨keeps, image, there, ⟨found, _⟩ | ⟨absent, stored⟩⟩ :=
    onSite.settles formatter name variant digest before after rooted
  · exact ⟨image, there, .inl found⟩
  · refine ⟨image, there, .inr ⟨absent, ?_⟩⟩
    refine keeps.read _ _ _ _ _ ?_ (formatter.artifacts.not_hidden_dumpPath name variant _ digest) stored
    intro target member
    rw [List.mem_singleton.mp member]
    intro together
    have found := Storage.file?_place_of_read _ _ _ stored
    rw [together, absent] at found
    exact absurd found (by simp)

theorem publish_settles (formatter : Formatter) (name : Text) (digest : IsDigest name)
    (before made half after : Workspace) (rooted : before.storage.tree.Rooted)
    (directory : Job.makeDirectories formatter.artifacts.siteDirectory before = .ok () made)
    (light : formatter.OnSite name .light made half) (dark : formatter.OnSite name .dark half after) :
    let dump := formatter.artifacts.dumpPath name
    let site := formatter.artifacts.sitePath name
    before.storage.Keeps [site .light, site .dark] after.storage ∧
      ∀ variant, ∃ image, after.storage.read (site variant) = .ok image ∧
        (before.storage.tree.file? (before.storage.place (site variant)) = some image ∨
          before.storage.tree.file? (before.storage.place (site variant)) = none ∧
            after.storage.read (dump variant) = .ok image) := by
  intro dump site
  have directories := Job.keeps_makeDirectories formatter.artifacts.siteDirectory before rooted
  rw [Job.final_of_ok _ _ _ _ directory] at directories
  obtain ⟨lightOnly, _⟩ := light.settles formatter name .light digest _ _ directories.rooted
  obtain ⟨darkOnly, _⟩ := dark.settles formatter name .dark digest _ _ lightOnly.rooted
  have early := directories.trans _ _ _ _ _ lightOnly
  refine ⟨early.trans _ _ _ _ _ darkOnly, ?_⟩
  intro variant
  cases variant with
  | light =>
      obtain ⟨image, there, origin⟩ := light.published formatter name .light digest _ _ directories.rooted
      have kept := fun here =>
        darkOnly.read_image _ _ here _ .light .dark name digest (by decide) image
      have same : made.storage.tree.file? (made.storage.place (site .light)) =
          before.storage.tree.file? (before.storage.place (site .light)) := by
        rw [directories.place_eq]
        exact directories.files _ (by simp) (formatter.artifacts.not_hidden_sitePath name .light _ digest)
      rw [same] at origin
      exact ⟨image, kept _ there, origin.imp_right (And.imp_right (kept _))⟩
  | dark =>
      obtain ⟨image, there, origin⟩ := dark.published formatter name .dark digest _ _ lightOnly.rooted
      have same : half.storage.tree.file? (half.storage.place (site .dark)) =
          before.storage.tree.file? (before.storage.place (site .dark)) :=
        early.file?_image _ _ _ _ .dark .light name digest (by decide)
      rw [same] at origin
      exact ⟨image, there, origin⟩

theorem accepted_of_render_eq_ok (formatter : Formatter) (source : Text) (attributes : Attributes)
    (before after : Workspace) (rendered : RenderedPreview)
    (finished : formatter.render source attributes before = .ok rendered after) :
    ∃ settings site, PreviewSettings.ofAttributes attributes = .ok settings ∧
      formatter.sitePath = some site := by
  cases accepted : PreviewSettings.ofAttributes attributes with
  | error error =>
      simp only [render, accepted] at finished
      exact absurd finished (Job.throw_ne_ok _ _ _ _)
  | ok settings =>
      cases hasSite : formatter.sitePath with
      | none =>
          simp only [render, accepted, hasSite] at finished
          exact absurd finished (Job.throw_ne_ok _ _ _ _)
      | some site => exact ⟨settings, site, rfl, rfl⟩

section Published

variable (formatter : Formatter) (name : Text) (digest : IsDigest name) (variant : Variant)
  (before stored after : Storage) (image copy : ByteArray)
  (dumpOnly : before.Keeps [formatter.artifacts.dumpPath name .light,
    formatter.artifacts.dumpPath name .dark] stored)
  (siteOnly : stored.Keeps [formatter.artifacts.sitePath name .light,
    formatter.artifacts.sitePath name .dark] after)
  (there : stored.read (formatter.artifacts.dumpPath name variant) = .ok image)

include dumpOnly siteOnly there

/-- Where an image has one place in store and on the site, publishing leaves it there. -/
theorem read_of_together
    (together : before.place (formatter.artifacts.sitePath name variant) =
      before.place (formatter.artifacts.dumpPath name variant))
    (onSite : after.read (formatter.artifacts.sitePath name variant) = .ok copy)
    (taken : stored.tree.file? (stored.place (formatter.artifacts.sitePath name variant)) = some copy ∨
      stored.tree.file? (stored.place (formatter.artifacts.sitePath name variant)) = none) :
    copy = image ∧ after.read (formatter.artifacts.dumpPath name variant) = .ok image := by
  have storedTogether : stored.place (formatter.artifacts.sitePath name variant) =
      stored.place (formatter.artifacts.dumpPath name variant) := by
    rw [dumpOnly.place_eq, dumpOnly.place_eq, together]
  have found : stored.tree.file? (stored.place (formatter.artifacts.sitePath name variant)) = some image := by
    rw [storedTogether]
    exact Storage.file?_place_of_read _ _ _ there
  obtain rfl : copy = image := by
    rcases taken with present | absent
    · exact Option.some.inj (present.symm.trans found)
    · rw [absent] at found
      exact absurd found (by simp)
  refine ⟨rfl, ?_⟩
  obtain ⟨location, leads, _⟩ := (Storage.read_eq_ok_iff _ _ _).mp there
  have spot := Storage.resolve_eq_ok _ _ _ leads
  refine (Storage.read_eq_ok_iff _ _ _).mpr ⟨location,
    Storage.resolve_mono _ _ siteOnly.sameDirectory siteOnly.directories _ _ leads, ?_⟩
  rw [spot, ← storedTogether, ← siteOnly.place_eq]
  exact Storage.file?_place_of_read _ _ _ onSite

include digest

/-- Where it has two, storing and publishing each keep the other one. -/
theorem kept_of_apart
    (apart : before.place (formatter.artifacts.sitePath name variant) ≠
      before.place (formatter.artifacts.dumpPath name variant)) :
    after.read (formatter.artifacts.dumpPath name variant) = .ok image ∧
      stored.tree.file? (stored.place (formatter.artifacts.sitePath name variant)) =
        before.tree.file? (before.place (formatter.artifacts.sitePath name variant)) := by
  -- Images of the other variant lie elsewhere in any case.
  have elsewhere : ∀ first second, before.place (formatter.artifacts.sitePath name first) =
      before.place (formatter.artifacts.dumpPath name second) → first ≠ variant ∧ second ≠ variant := by
    intro first second same
    obtain ⟨rfl, _⟩ := Variant.eq_of_place_join _ _ _ _ _ _ _ digest digest same
    have other : first ≠ variant := by
      rintro rfl
      exact apart same
    exact ⟨other, other⟩
  refine ⟨?_, ?_⟩
  · refine siteOnly.read _ _ _ _ _ ?_ (formatter.artifacts.not_hidden_dumpPath name variant _ digest) there
    simp only [List.forall_mem_cons, List.not_mem_nil, false_implies, implies_true, and_true,
      dumpOnly.place_eq]
    exact ⟨fun same => (elsewhere _ _ same.symm).2 rfl, fun same => (elsewhere _ _ same.symm).2 rfl⟩
  · rw [dumpOnly.place_eq]
    refine dumpOnly.files _ ?_ (formatter.artifacts.not_hidden_sitePath name variant _ digest)
    simp only [List.forall_mem_cons, List.not_mem_nil, false_implies, implies_true, and_true]
    exact ⟨fun same => (elsewhere _ _ same).1 rfl, fun same => (elsewhere _ _ same).1 rfl⟩

/-- What a published image holds, and that the stored one is still there. -/
theorem content_of_published
    (onSite : after.read (formatter.artifacts.sitePath name variant) = .ok copy)
    (taken : stored.tree.file? (stored.place (formatter.artifacts.sitePath name variant)) = some copy ∨
      stored.tree.file? (stored.place (formatter.artifacts.sitePath name variant)) = none ∧
        after.read (formatter.artifacts.dumpPath name variant) = .ok copy) :
    let dump := formatter.artifacts.dumpPath name variant
    let site := formatter.artifacts.sitePath name variant
    after.read dump = .ok image ∧
      copy = if before.place site = before.place dump then image
        else (before.tree.file? (before.place site)).getD image := by
  intro dump site
  by_cases together : before.place site = before.place dump
  · obtain ⟨rfl, dumpThere⟩ := read_of_together formatter name variant before stored after image copy
      dumpOnly siteOnly there together onSite (taken.imp_right And.left)
    exact ⟨dumpThere, by rw [if_pos together]⟩
  · obtain ⟨dumpThere, unchanged⟩ := kept_of_apart formatter name digest variant before stored after image
      dumpOnly siteOnly there together
    refine ⟨dumpThere, ?_⟩
    rw [if_neg together, ← unchanged]
    rcases taken with present | ⟨absent, copied⟩
    · rw [present, Option.getD_some]
    · rw [absent, Option.getD_none]
      exact Except.ok.inj (copied.symm.trans dumpThere)

end Published

/-- All four images of a preview that is rendered, and that no other file changes. -/
theorem Undisturbed.settles (formatter : Formatter) (writes : formatter.compiler.WritesFile)
    (document : Variant → Text) (before after : Workspace) (ran : Bool)
    (rooted : before.storage.tree.Rooted)
    (undisturbed : formatter.Undisturbed [document] before [ran] after) :
    let dump := formatter.artifacts.dumpPath (fingerprint (document .light))
    let site := formatter.artifacts.sitePath (fingerprint (document .light))
    before.storage.Keeps [dump .light, dump .dark, site .light, site .dark] after.storage ∧
      ∀ variant, ∃ image, after.storage.read (dump variant) = .ok image ∧
        (if ran then formatter.Left (document variant) image before after
          else before.storage.read (dump variant) = .ok image) ∧
        after.storage.read (site variant) = .ok
          (if before.storage.place (site variant) = before.storage.place (dump variant) then image
            else (before.storage.tree.file? (before.storage.place (site variant))).getD image) := by
  intro dump site
  obtain ⟨stored, made, half, store, directory, light, dark⟩ :=
    (undisturbed_single_iff _ _ _ _ _).mp undisturbed
  have digest := isDigest_fingerprint (document .light)
  obtain ⟨dumpOnly, images⟩ := store.settles formatter writes document before stored ran rooted
  obtain ⟨siteOnly, published⟩ :=
    publish_settles formatter _ digest stored made half after dumpOnly.rooted directory light dark
  refine ⟨dumpOnly.trans _ _ _ _ _ siteOnly, ?_⟩
  intro variant
  obtain ⟨image, there, origin⟩ := images variant
  obtain ⟨copy, onSite, taken⟩ := published variant
  obtain ⟨dumpThere, content⟩ := content_of_published formatter _ digest variant before.storage
    stored.storage after.storage image copy dumpOnly siteOnly there onSite taken
  have silent : stored.compiled = after.compiled := by
    rw [OnSite.compiled_eq _ _ _ _ _ dark, OnSite.compiled_eq _ _ _ _ _ light,
      Job.makeDirectories_compiled_eq _ _ _ directory]
  refine ⟨image, dumpThere, ?_, content ▸ onSite⟩
  cases ran with
  | true => exact origin.widen _ _ _ _ _ _ _ (List.prefix_refl _) (silent ▸ List.prefix_refl _)
  | false => exact origin

/-- A render that succeeds leaves both images on the site. Where the site had no file when publishing
began, it holds what is in store then; a file that was there stays as it was. With a compiler that
changes nothing but its output and leaves no directory there when it succeeds, what is in store is what
it left for the document or was there before, and the site holds the same wherever it had no file of its
own before. -/
theorem render_published (formatter : Formatter) (tidy : formatter.compiler.KeepsRooted)
    (source : Text) (attributes : Attributes) (settings : PreviewSettings)
    (accepted : PreviewSettings.ofAttributes attributes = .ok settings) (before after : Workspace)
    (rooted : before.storage.tree.Rooted) (rendered : RenderedPreview)
    (finished : formatter.render source attributes before = .ok rendered after) :
    let document := formatter.document settings source
    let dump := formatter.artifacts.dumpPath rendered.fingerprint
    let site := formatter.artifacts.sitePath rendered.fingerprint
    rendered.fingerprint = fingerprint (document .light) ∧
      (∃ stored, formatter.Stored document before rendered.compiled stored ∧
        ∀ variant, ∃ image, after.storage.read (site variant) = .ok image ∧
          (stored.storage.tree.file? (stored.storage.place (site variant)) = some image ∨
            stored.storage.tree.file? (stored.storage.place (site variant)) = none ∧
              after.storage.read (dump variant) = .ok image)) ∧
      (formatter.compiler.WritesFile → ∀ variant, ∃ image,
        after.storage.read (dump variant) = .ok image ∧
          (if rendered.compiled then formatter.Left (document variant) image before after
            else before.storage.read (dump variant) = .ok image) ∧
          after.storage.read (site variant) = .ok
            (if before.storage.place (site variant) = before.storage.place (dump variant) then image
              else (before.storage.tree.file? (before.storage.place (site variant))).getD image)) := by
  intro document dump site
  obtain ⟨_, path, _, hasSite⟩ := formatter.accepted_of_render_eq_ok source attributes before after rendered
    finished
  obtain ⟨ran, rfl, undisturbed⟩ :=
    (render_eq_ok_iff formatter source path attributes settings accepted hasSite _ _ _).mp finished
  obtain ⟨stored, made, half, store, directory, light, dark⟩ :=
    (undisturbed_single_iff _ _ _ _ _).mp undisturbed
  have digest := isDigest_fingerprint (document .light)
  have storedRooted := store.rooted formatter tidy document before stored ran rooted
  obtain ⟨siteOnly, published⟩ :=
    publish_settles formatter _ digest stored made half after storedRooted directory light dark
  refine ⟨rfl, ⟨stored, store, published⟩, ?_⟩
  intro writes variant
  obtain ⟨dumpOnly, images⟩ := store.settles formatter writes document before stored ran rooted
  obtain ⟨image, there, origin⟩ := images variant
  obtain ⟨copy, onSite, taken⟩ := published variant
  obtain ⟨dumpThere, content⟩ := content_of_published formatter _ digest variant before.storage
    stored.storage after.storage image copy dumpOnly siteOnly there onSite taken
  have silent : stored.compiled = after.compiled := by
    rw [OnSite.compiled_eq _ _ _ _ _ dark, OnSite.compiled_eq _ _ _ _ _ light,
      Job.makeDirectories_compiled_eq _ _ _ directory]
  refine ⟨image, dumpThere, ?_, content ▸ onSite⟩
  cases ran with
  | true => exact origin.widen _ _ _ _ _ _ _ (List.prefix_refl _) (silent ▸ List.prefix_refl _)
  | false => exact origin

/-- A light image that an earlier run left on the site: it is kept, and the dark image is copied. -/
theorem render_published_old_light :
    let formatter := Formatter.small (.writing fun _ => ByteArray.empty)
    let old : ByteArray := ⟨#[111]⟩
    let tree := FileTree.oneImage "site".toList (Variant.light.fileName smallFingerprint) old
    let workspace : Workspace := ⟨⟨tree, []⟩, [], []⟩
    let dump := formatter.artifacts.dumpPath smallFingerprint
    let site := formatter.artifacts.sitePath smallFingerprint
    ∃ rendered after, formatter.render ['x'] .basic workspace = .ok rendered after ∧
      after.storage.read (site .light) = .ok old ∧
      after.storage.read (site .dark) = after.storage.read (dump .dark) := by
  rw [smallFingerprint_eq]
  intro formatter old tree workspace dump site
  have digest : fingerprint (formatter.document .basic ['x'] .light) = smallDigits :=
    fingerprint_eq_smallDigits _ rfl
  have run := formatter.render_eq_smallDigits rfl rfl
  have succeeds : (Job.result? (formatter.render ['x'] .basic) workspace).isSome = true := by
    rw [run]
    decide +kernel
  have places : workspace.storage.place (site .light) ≠ workspace.storage.place (dump .light) ∧
      workspace.storage.place (site .dark) ≠ workspace.storage.place (dump .dark) ∧
      workspace.storage.place (site .light) =
        ["site".toList, renderedDirectory, Variant.light.fileName smallDigits] ∧
      (workspace.storage.tree.file? (workspace.storage.place (site .dark))).isNone = true := by
    decide +kernel
  obtain ⟨lightApart, darkApart, lightPlace, darkBefore⟩ := places
  obtain ⟨rendered, result⟩ := Option.isSome_iff_exists.mp succeeds
  obtain ⟨after, finished⟩ := (Job.result?_eq_some_iff _ _ _).mp result
  have writes : formatter.compiler.WritesFile := (Compiler.onlyFile_writing _).writesFile
  obtain ⟨name, _, contents⟩ := formatter.render_published (Compiler.keepsRooted_writing _) ['x'] .basic
    .basic PreviewSettings.ofAttributes_basic workspace after (FileTree.rooted_oneImage _ _ _) rendered
    finished
  rw [digest] at name
  rw [name] at contents
  refine ⟨rendered, after, finished, ?_, ?_⟩
  · obtain ⟨image, _, _, there⟩ := contents writes .light
    rw [there, if_neg lightApart, lightPlace, FileTree.file?_oneImage, Option.getD_some]
  · obtain ⟨image, stored, _, there⟩ := contents writes .dark
    rw [there, if_neg darkApart, Option.isNone_iff_eq_none.mp darkBefore, Option.getD_none, stored]

/-- With both images on the site from before, nothing stops a compiler that leaves directories. -/
theorem render_leavingDirectory :
    let formatter := Formatter.small .leavingDirectory
    ∃ rendered after, formatter.render ['x'] .basic publishedStart = .ok rendered after ∧
      rendered.fingerprint = smallFingerprint ∧ rendered.compiled = true ∧ after.compiled.length = 2 ∧
      ∀ variant, after.storage.isDirectory (formatter.artifacts.dumpPath smallFingerprint variant) = true := by
  rw [smallFingerprint_eq]
  intro formatter
  have run := formatter.render_eq_smallDigits rfl rfl
  have outcome : (Job.result? (formatter.render ['x'] .basic) publishedStart).map
        (fun rendered => (rendered.fingerprint, rendered.compiled)) = some (smallDigits, true) ∧
      let left := (formatter.render ['x'] .basic).final publishedStart
      left.compiled.length = 2 ∧
        left.storage.isDirectory (formatter.artifacts.dumpPath smallDigits .light) = true ∧
        left.storage.isDirectory (formatter.artifacts.dumpPath smallDigits .dark) = true := by
    rw [run]
    decide +kernel
  obtain ⟨succeeds, calls, light, dark⟩ := outcome
  obtain ⟨rendered, finished, same⟩ := Job.exists_ok_of_result?_map _ _ _ _ succeeds
  obtain ⟨name, compiled⟩ := Prod.mk.inj same
  refine ⟨rendered, _, finished, name, compiled, calls, fun variant => ?_⟩
  cases variant with
  | light => exact light
  | dark => exact dark

/-- The site may hold something else than what was compiled, and what was compiled need not be a file. -/
theorem render_leaves_old_light :
    let formatter := Formatter.small (.writing fun _ => ByteArray.empty)
    let tree := FileTree.oneImage "site".toList (Variant.light.fileName smallFingerprint) ⟨#[111]⟩
    let workspace : Workspace := ⟨⟨tree, []⟩, [], []⟩
    let content : Workspace → PathName → Option (Array UInt8) := fun workspace path =>
      (workspace.storage.read path).toOption.map ByteArray.data
    (∃ rendered after, formatter.render ['x'] .basic workspace = .ok rendered after ∧
        rendered.fingerprint = smallFingerprint ∧ rendered.compiled = true ∧
        content after (formatter.artifacts.dumpPath smallFingerprint .light) = some #[] ∧
        content after (formatter.artifacts.sitePath smallFingerprint .light) = some #[111]) ∧
      Compiler.leavingDirectory.OnlyOutput ∧
      ∃ rendered after,
        { formatter with compiler := .leavingDirectory }.render ['x'] .basic publishedStart = .ok rendered after ∧
          rendered.compiled = true ∧
          after.storage.isDirectory (formatter.artifacts.dumpPath smallFingerprint .light) = true := by
  rw [smallFingerprint_eq]
  intro formatter tree workspace content
  have run := formatter.render_eq_smallDigits rfl rfl
  have outcome : (Job.result? (formatter.render ['x'] .basic) workspace).map
        (fun rendered => (rendered.fingerprint, rendered.compiled)) = some (smallDigits, true) ∧
      let left := (formatter.render ['x'] .basic).final workspace
      content left (formatter.artifacts.dumpPath smallDigits .light) = some #[] ∧
        content left (formatter.artifacts.sitePath smallDigits .light) = some #[111] := by
    rw [run]
    decide +kernel
  obtain ⟨succeeds, contents⟩ := outcome
  obtain ⟨rendered, finished, same⟩ := Job.exists_ok_of_result?_map _ _ _ _ succeeds
  obtain ⟨name, compiled⟩ := Prod.mk.inj same
  refine ⟨⟨rendered, _, finished, name, compiled, contents⟩, Compiler.onlyOutput_leavingDirectory, ?_⟩
  obtain ⟨other, later, ended, _, ran, _, directories⟩ := render_leavingDirectory
  exact ⟨other, later, ended, ran, smallFingerprint_eq ▸ directories .light⟩

end Formatter

end FencePreview
