import FencePreview.Proofs.DirectoryTurns

/-! Files that renders put in place while others do so too. Each is made, filled and moved, and only its
own render sees it before it is moved. -/

namespace FencePreview

namespace Storage

theorem null_not_mem_temporaryName (number : Nat) : Char.ofNat 0 ∉ temporaryName number := by
  simp only [temporaryName, List.mem_append, not_or]
  refine ⟨⟨by decide, fun member => ?_⟩, by decide⟩
  have digit := Nat.isDigit_of_mem_toDigits (by decide) (by decide) member
  exact absurd digit (by decide)

theorem createTemporary_of_isDirectory (storage : Storage) (directory : PathName)
    (there : storage.isDirectory (storage.absolute directory) = true)
    (room : ∀ number, (∀ earlier < number, temporaryName earlier ∈
        storage.tree.names (storage.place (storage.absolute directory))) →
      Text.byteSize (temporaryName number) ≤ nameLimit ∧
        Text.byteSize ((storage.absolute directory).join ⟨temporaryName number⟩).text < pathLimit) :
    ∃ made path, storage.createTemporary directory = .ok (made, path) := by
  obtain ⟨location, leads, inside⟩ := (isDirectory_eq_true_iff _ _).mp there
  obtain rfl := resolve_eq_ok _ _ _ leads
  obtain ⟨number, free, taken⟩ :=
    exists_freeNumber (storage.tree.names (storage.place (storage.absolute directory)))
  obtain ⟨short, fits⟩ := room number taken
  obtain ⟨spot, reached⟩ := resolve_join storage (storage.absolute directory) (temporaryName number)
    (isName_temporaryName number) (null_not_mem_temporaryName number) short fits there
  have entered : enter storage.tree (storage.place (storage.absolute directory)) = .ok () :=
    (enter_eq_ok_iff _ _ _).mpr inside
  simp only [createTemporary, leads, entered, free, reached]
  exact ⟨_, _, rfl⟩

end Storage

namespace Scene

variable {scene : Scene}

theorem Ready.page_eq (ready : scene.Ready) (first second : Variant → Text) (firstUsed : first ∈ scene.used)
    (secondUsed : second ∈ scene.used) (same : fingerprint (first .light) = fingerprint (second .light)) :
    first = second :=
  Call.eq_of_fingerprint_eq scene.calls ready.distinct first second firstUsed secondUsed same

theorem Progress.isFile {before after : Storage} (settled : scene.Settled before)
    (progress : scene.Progress before after) (page : Variant → Text) (member : page ∈ scene.used)
    (directory : PathName) (known : directory ∈ scene.artifacts.directories) (variant : Variant)
    (there : before.isFile (directory.join ⟨variant.fileName (fingerprint (page .light))⟩) = true) :
    after.isFile (directory.join ⟨variant.fileName (fingerprint (page .light))⟩) = true := by
  obtain ⟨content, found⟩ := (Storage.isFile_eq_true_iff _ _).mp there
  obtain ⟨location, leads, image⟩ := (Storage.read_eq_ok_iff _ _ _).mp found
  have spot : location = scene.imagePlace directory page variant := by
    rw [Storage.resolve_eq_ok _ _ _ leads, settled.place_eq, imagePlace]
  obtain ⟨later, still⟩ := Option.ne_none_iff_exists'.mp (progress.images location
    ⟨page, member, directory, known, variant, spot⟩ (by simp [image]))
  exact (Storage.isFile_eq_true_iff _ _).mpr
    ⟨later, (Storage.read_eq_ok_iff _ _ _).mpr ⟨location, progress.resolve settled _ _ leads, still⟩⟩

/-- So many renders cannot use up the room for temporary files. -/
theorem Ready.creates (ready : scene.Ready) (now : Storage) (settled : scene.Settled now)
    (uncrowded : scene.Uncrowded now) (host : PathName) (hosts : scene.Hosts host)
    (there : now.isDirectory (now.absolute host) = true) :
    ∃ made path, now.createTemporary host = .ok (made, path) := by
  have same := settled.adds.sameDirectory
  have written : now.absolute host = scene.start.absolute host := by simp only [Storage.absolute, same]
  have spot : now.place (now.absolute host) = scene.start.place host := by
    rw [settled.place_eq, written, Storage.place_absolute _ ready.named]
  refine Storage.createTemporary_of_isDirectory now host there fun number taken => ?_
  rw [written]
  refine ready.room host hosts number ?_
  rw [spot] at taken
  obtain ⟨owned, few, known⟩ := uncrowded
  have bound := Storage.le_length_of_temporaryNames
    (scene.start.tree.names (scene.start.place host) ++ owned.filterMap List.getLast?) number fun earlier below => ?_
  · rw [List.length_append] at bound
    have short := List.length_filterMap_le (List.getLast? (α := Text)) owned
    omega
  · rw [List.mem_append]
    have found := Storage.get?_of_mem_names _ _ _ (taken earlier below)
    rcases known _ ⟨_, earlier, rfl⟩ found with old | mine
    · obtain ⟨entry, entered⟩ := Option.ne_none_iff_exists'.mp old
      exact .inl (Storage.mem_names _ _ _ entry entered)
    · exact .inr (List.mem_filterMap.mpr ⟨_, mine, by simp⟩)

theorem Holds.of_createTemporary (now made : Storage) (host path : PathName) (settled : scene.Settled now)
    (created : now.createTemporary host = .ok (made, path)) :
    scene.Guarantees none (some (scene.start.place path)) now made ∧
      scene.Holds path (some (scene.start.place path)) made := by
  obtain ⟨fresh, confined, plain⟩ := Storage.fresh_of_createTemporary now made host path created
  obtain ⟨number, spelled, _, _, _, _, leads, shape⟩ := Storage.createTemporary_eq_ok now made host path created
  have inner := fresh.ne_nil
  obtain ⟨free, inside, hidden⟩ := fresh
  have others := confined.others
  simp only [settled.place_eq] at free inside hidden leads plain shape inner others
  have entry : made.tree.get? (scene.start.place path) = some (.file ByteArray.empty FileTree.temporaryMode) := by
    rw [shape]
    simp [Storage.withEntry, FileTree.get?_insert _ _ _ _ inner]
  have turn : scene.Guarantees none (some (scene.start.place path)) now made :=
    .of_put settled _ hidden confined.sameDirectory others inside (by simp [FileTree.isDirectory, free]) plain
      (.inr ⟨rfl, free, rfl, by simp [entry]⟩)
  refine ⟨turn, turn.progress.settled, ⟨_, number, spelled⟩, rfl, hidden, ?_, by simp [FileTree.file?, entry]⟩
  exact turn.progress.resolve settled path _ leads

theorem Guarantees.andThen {own : Option Location} {first second third : Storage}
    (early : scene.Guarantees own none first second) (late : scene.Guarantees none none second third)
    (hidden : ∀ location, own = some location → Hidden location) : scene.Guarantees own none first third := by
  refine ⟨early.progress.trans late.progress, fun location inside other _ => ?_, by simp, fun location mine => ?_⟩
  · exact (late.others location inside (by simp) (by simp)).trans (early.others location inside other (by simp))
  · rw [late.others location (hidden location mine) (by simp) (by simp)]
    exact .inr ((early.left location mine).resolve_left (by simp))

theorem Guarantees.of_image (ready : scene.Ready) (now : Storage) (page : Variant → Text) (member : page ∈ scene.used)
    (directory : PathName) (known : directory ∈ scene.artifacts.directories) (variant : Variant) (mode : Nat)
    (settled : scene.Settled now) (compiled : scene.outcome (page variant) = .ok ())
    (parent : now.tree.isDirectory (scene.imagePlace directory page variant).dropLast = true)
    (plain : now.tree.isDirectory (scene.imagePlace directory page variant) = false) :
    scene.Guarantees none none now (now.withEntry (scene.imagePlace directory page variant)
      (.file (scene.output (page variant)) mode)) := by
  have entries := fun sought => FileTree.get?_insert now.tree (scene.imagePlace directory page variant) sought
    (.file (scene.output (page variant)) mode) (now.tree.ne_nil_of_not_isDirectory _ plain)
  have others : ∀ location, location ≠ scene.imagePlace directory page variant →
      (now.withEntry (scene.imagePlace directory page variant)
        (.file (scene.output (page variant)) mode)).tree.get? location = now.tree.get? location :=
    fun location apart => by simp [Storage.withEntry, entries, apart]
  refine ⟨⟨?_, FileTree.isDirectory_of_others _ _ _ others plain, ?_⟩, ?_, by simp, by simp⟩
  · refine settled.put _ (.inr ⟨page, member, directory, known, variant, rfl⟩) rfl others parent plain
      (by simp [Storage.withEntry, FileTree.isDirectory, entries]) ?_
    intro other otherUsed holder _ kind content same found
    -- No other page has its image there.
    obtain ⟨rfl, prints, _⟩ := Variant.eq_of_place_join scene.start _ _ _ _ _ _ (isDigest_fingerprint _)
      (isDigest_fingerprint _) same
    obtain rfl := ready.page_eq page other member otherUsed prints
    have image : some (scene.output (page variant)) = some content := by
      simpa [Storage.withEntry, FileTree.file?, entries] using found
    exact ⟨compiled, (Option.some.inj image).symm⟩
  · intro location _ found
    by_cases here : location = scene.imagePlace directory page variant
    · simp [Storage.withEntry, FileTree.file?, entries, here]
    · simpa only [FileTree.file?, others location here] using found
  · intro location hidden _ _
    refine others location ?_
    rintro rfl
    exact scene.not_hidden_imagePlace directory page variant hidden

namespace Holds

variable {path : PathName} {own : Option Location} {now after : Storage}

theorem isFile (holds : scene.Holds path own now) : now.isFile path = true := by
  obtain ⟨content, found⟩ := Option.ne_none_iff_exists'.mp holds.there
  exact (Storage.isFile_eq_true_iff _ _).mpr
    ⟨content, (Storage.read_eq_ok_iff _ _ _).mpr ⟨_, holds.leads, found⟩⟩

theorem setMode (holds : scene.Holds path own now) (mode : Nat) :
    ∃ after, now.setMode path mode = .ok after ∧ scene.Guarantees own own now after ∧ scene.Holds path own after ∧
      after.tree.file? (scene.start.place path) = now.tree.file? (scene.start.place path) := by
  obtain ⟨content, found⟩ := Option.ne_none_iff_exists'.mp holds.there
  obtain ⟨bits, entry⟩ := (FileTree.file?_eq_some_iff _ _ _).mp found
  have inner := now.tree.ne_nil_of_not_isDirectory _ holds.plain
  have changed : now.setMode path mode = .ok (now.withEntry (scene.start.place path) (.file content mode)) := by
    simp only [Storage.setMode, Storage.requireEntry, holds.leads, entry, Entry.withMode]
  have still : (now.withEntry (scene.start.place path) (.file content mode)).tree.file? (scene.start.place path) =
      some content := by
    simp [Storage.withEntry, FileTree.file?, FileTree.get?_insert _ _ _ _ inner]
  have confined := (Storage.confinedTo_setMode now _ path mode (holds.place_eq ▸ inner) changed).1
  obtain ⟨turn, more⟩ := holds.confined confined (by simp [still])
  exact ⟨_, changed, turn, more, still.trans found.symm⟩

theorem rename (holds : scene.Holds path own now) (directory : PathName) (name : Text) (proper : IsName name)
    (location : Location) (leads : now.resolve (directory.join ⟨name⟩) = .ok location)
    (plain : now.tree.isDirectory location = false) :
    ∃ after, now.rename path (directory.join ⟨name⟩) = .ok after := by
  obtain ⟨host, number, rfl⟩ := holds.spelled
  obtain ⟨content, found⟩ := Option.ne_none_iff_exists'.mp holds.there
  exact now.rename_of_file holds.settled.rooted host directory _ name (Storage.isName_temporaryName number) proper _
    location content holds.leads found leads plain

/-- The own temporary file becomes the image of its page. -/
theorem renamed (holds : scene.Holds path own now) (ready : scene.Ready) (page : Variant → Text)
    (member : page ∈ scene.used) (directory : PathName) (known : directory ∈ scene.artifacts.directories)
    (variant : Variant) (compiled : scene.outcome (page variant) = .ok ())
    (content : now.tree.file? (scene.start.place path) = some (scene.output (page variant)))
    (moved : now.rename path (directory.join ⟨variant.fileName (fingerprint (page .light))⟩) = .ok after) :
    scene.Guarantees own none now after ∧
      after.isFile (directory.join ⟨variant.fileName (fingerprint (page .light))⟩) = true := by
  obtain ⟨entry, move⟩ := Storage.rename_eq_ok _ _ _ _ moved
  have bare := Storage.bare_of_not_directory now path holds.settled.rooted (holds.place_eq ▸ holds.plain)
  have target : now.place (directory.join ⟨variant.fileName (fingerprint (page .light))⟩) =
      scene.imagePlace directory page variant := holds.settled.place_eq _
  have there := move.there
  rw [holds.place_eq] at there
  obtain ⟨mode, rfl⟩ : ∃ mode, entry = .file (scene.output (page variant)) mode := by
    obtain ⟨mode, found⟩ := (FileTree.file?_eq_some_iff _ _ _).mp content
    exact ⟨mode, Option.some.inj (there.symm.trans found)⟩
  have targetLeads := (move.leads rfl).2
  rw [target] at targetLeads
  rcases move.of_bare bare with ⟨same, _⟩ | ⟨_, rfl⟩
  · rw [target, holds.place_eq] at same
    exact absurd (same ▸ holds.hidden) (scene.not_hidden_imagePlace directory page variant)
  have plain := move.plain (holds.place_eq ▸ holds.plain)
  rw [target] at plain
  rw [target, holds.place_eq]
  -- First the temporary file is gone, then the image is there.
  have gone := holds.withdrawn
  have reached := gone.progress.resolve holds.settled _ _ targetLeads
  have other := gone.progress.settled.kinds _ (.inr ⟨page, member, directory, known, variant, rfl⟩)
  rw [← holds.settled.kinds _ (.inr ⟨page, member, directory, known, variant, rfl⟩), plain] at other
  have put := Guarantees.of_image ready _ page member directory known variant mode gone.progress.settled compiled
    (Storage.isDirectory_dropLast_of_resolve _ gone.progress.settled.rooted _ _ reached) other
  refine ⟨gone.andThen put fun place mine => ?_, ?_⟩
  · obtain rfl := Option.some.inj (holds.own.symm.trans mine)
    exact holds.hidden
  · have still := put.progress.resolve gone.progress.settled _ _ reached
    have filled := FileTree.ne_nil_of_not_isDirectory _ _ other
    refine (Storage.isFile_eq_true_iff _ _).mpr ⟨scene.output (page variant), (Storage.read_eq_ok_iff _ _ _).mpr
      ⟨_, still, ?_⟩⟩
    simp [Storage.withEntry, FileTree.file?, FileTree.get?_insert _ _ _ _ filled]

end Holds

/-- How filling a temporary file ends among the others. `able` makes it succeed. -/
structure Filled (scene : Scene) {ε : Type} (page : Variant → Text) (variant : Variant) (path : PathName) (able : Prop)
    (now : Storage) (result : Except ε Unit) (own : Option Location) (later : Storage) : Prop where
  holds : scene.Holds path own later
  progress : scene.Progress now later
  compiled : result = .ok () → scene.outcome (page variant) = .ok ()
  content : result = .ok () → later.tree.file? (scene.start.place path) = some (scene.output (page variant))
  succeeds : able → result = .ok ()

section Fills

variable (page : Variant → Text) (variant : Variant) (path : PathName) (own : Option Location) (now : Storage)
  (holds : scene.Holds path own now)

theorem Filled.of_relies {ε : Type} {able : Prop} {page : Variant → Text} {variant : Variant} {path : PathName}
    {own : Option Location} {now later last : Storage} (result : Except ε Unit)
    (filled : scene.Filled page variant path able now result own later) (relied : scene.Relies own later last) :
    scene.Filled page variant path able now result own last := by
  refine ⟨filled.holds.stable relied, filled.progress.trans relied.progress, filled.compiled, ?_, filled.succeeds⟩
  intro finished
  rw [← filled.content finished]
  simp only [FileTree.file?, relied.own _ filled.holds.own]

include holds

theorem safe_compile (compiler : Compiler) (depends : compiler.Depends scene.outcome scene.output) :
    (Thread.ofJob (Job.compile compiler (page variant) path)).Safe scene.rules
      (scene.Filled page variant path (scene.outcome (page variant) = .ok ()) now) own now := by
  refine .ofJob _ fun later relied => ?_
  have held := holds.stable relied
  have present := held.isFile
  have confined := depends.confined later.compiled.length (page variant) path later.storage
  have ends := depends.ends later.compiled.length (page variant) path later.storage present
  obtain ⟨content, file⟩ := (Storage.isFile_eq_true_iff _ _).mp
    (depends.stays later.compiled.length (page variant) path later.storage present)
  have there := Storage.file?_place_of_read _ _ _ file
  rw [confined.place_eq, held.place_eq] at there
  obtain ⟨turn, still⟩ := held.confined confined (by simp [there])
  have written := depends.leaves later.compiled.length (page variant) path later.storage present
  simp only [Job.compile, ends] at written ⊢
  cases compiled : scene.outcome (page variant) with
  | ok done =>
      refine ⟨own, turn, fun last more => .of_relies _ ⟨still, relied.progress.trans turn.progress, ?_, ?_, ?_⟩ more⟩
      · exact fun _ => compiled
      · intro _
        have image := Storage.file?_place_of_read _ _ _ (written compiled)
        rwa [confined.place_eq, held.place_eq] at image
      · exact fun _ => rfl
  | error error =>
      exact ⟨own, turn, fun last more =>
        .of_relies _ ⟨still, relied.progress.trans turn.progress, by simp, by simp, by simp⟩ more⟩

theorem safe_copy (member : page ∈ scene.used) :
    (Thread.ofJob (Job.change (·.copy (scene.artifacts.dumpPath (fingerprint (page .light)) variant) path))).Safe
      scene.rules (scene.Filled page variant path
        (now.isFile (scene.artifacts.dumpPath (fingerprint (page .light)) variant) = true) now) own now := by
  refine .ofJob _ fun later relied => ?_
  have held := holds.stable relied
  simp only [Job.change]
  cases result : later.storage.copy (scene.artifacts.dumpPath (fingerprint (page .light)) variant) path with
  | ok after =>
      obtain ⟨origin, content, mode, location, leads, there, targetLeads, plain, shape⟩ :=
        (Storage.copy_eq_ok_iff _ _ _ _).mp result
      obtain rfl : location = scene.start.place path := by
        rw [Storage.resolve_eq_ok _ _ _ targetLeads, held.place_eq]
      have written : after.tree.file? (scene.start.place path) = some content := by
        have filled := FileTree.ne_nil_of_not_isDirectory _ _ plain
        rw [shape]
        simp [Storage.withEntry, FileTree.file?, FileTree.get?_insert _ _ _ _ filled]
      obtain ⟨turn, still⟩ := held.confined (Storage.confinedTo_copy _ _ _ _ result) (by simp [written])
      -- What is at the place of an image is the image.
      have image : later.storage.tree.file?
          (scene.imagePlace scene.artifacts.dumpDirectory page variant) = some content := by
        rw [Storage.resolve_eq_ok _ _ _ leads, relied.progress.place_eq] at there
        exact (FileTree.file?_eq_some_iff _ _ _).mpr ⟨mode, there⟩
      obtain ⟨compiled, rfl⟩ := relied.progress.settled.images page member scene.artifacts.dumpDirectory
        scene.artifacts.dumpDirectory_mem variant content image
      refine ⟨own, turn, fun last more => .of_relies _ ⟨still, relied.progress.trans turn.progress, ?_, ?_, ?_⟩ more⟩
      · exact fun _ => compiled
      · exact fun _ => written
      · exact fun _ => rfl
  | error error =>
      refine ⟨own, held.unchanged, fun last more => .of_relies _ ⟨held, relied.progress, by simp, by simp, ?_⟩ more⟩
      intro present
      have there := relied.progress.isFile holds.settled page member scene.artifacts.dumpDirectory
        scene.artifacts.dumpDirectory_mem variant present
      obtain ⟨content, found⟩ := (Storage.isFile_eq_true_iff _ _).mp there
      obtain ⟨origin, leads, image⟩ := (Storage.read_eq_ok_iff _ _ _).mp found
      obtain ⟨mode, entry⟩ := (FileTree.file?_eq_some_iff _ _ _).mp image
      have copied := (Storage.copy_eq_ok_iff later.storage _
        (scene.artifacts.dumpPath (fingerprint (page .light)) variant) path).mpr
        ⟨origin, content, mode, _, leads, entry, held.leads, held.plain, rfl⟩
      simp [result] at copied

end Fills

structure Able (host target : PathName) (now : Storage) : Prop where
  host : now.isDirectory (now.absolute host) = true
  target : ∃ location, now.resolve target = .ok location ∧ now.tree.isDirectory location = false

/-- How putting an image in place ends among the others. -/
structure Puts (scene : Scene) {ε : Type} (target : PathName) (able : Prop) (now : Storage) (result : Except ε Unit)
    (own : Option Location) (later : Storage) : Prop where
  own : own = none
  progress : scene.Progress now later
  there : result = .ok () → later.isFile target = true
  succeeds : able → result = .ok ()

section Places

variable (ready : scene.Ready) {ε : Type} (page : Variant → Text) (member : page ∈ scene.used) (directory : PathName)
  (known : directory ∈ scene.artifacts.directories) (variant : Variant)

include member known

theorem Able.later (host : PathName) (now later : Storage) (settled : scene.Settled now)
    (progress : scene.Progress now later)
    (able : Able host (directory.join ⟨variant.fileName (fingerprint (page .light))⟩) now) :
    Able host (directory.join ⟨variant.fileName (fingerprint (page .light))⟩) later := by
  obtain ⟨there, location, leads, plain⟩ := able
  have same : later.absolute host = now.absolute host := by
    simp only [Storage.absolute, progress.settled.adds.sameDirectory, settled.adds.sameDirectory]
  refine ⟨same ▸ progress.isDirectory settled _ there, location, progress.resolve settled _ _ leads, ?_⟩
  have inside : scene.Inside location := by
    refine .inr ⟨page, member, directory, known, variant, ?_⟩
    rw [Storage.resolve_eq_ok _ _ _ leads, settled.place_eq, imagePlace]
  rw [progress.settled.kinds location inside, ← settled.kinds location inside, plain]

include ready

/-- A temporary file that its render has is filled, opened to all and moved. -/
theorem safe_fillAndMove (host path : PathName) (wrap : FileError → ε) (fill : Thread ε Unit) (able : Prop)
    (own : Option Location) (first now : Storage) (started : scene.Settled first) (progress : scene.Progress first now)
    (fills : fill.Safe scene.rules (scene.Filled page variant path able now) own now) :
    let target := directory.join ⟨variant.fileName (fingerprint (page .light))⟩
    (do
      fill
      Thread.orFail wrap (Thread.ofJob (Job.change (·.setMode path FileTree.fileMode)))
      Thread.orFail wrap (Thread.ofJob (Job.change (·.rename path target))) : Thread ε Unit).Safe scene.rules
      (fun result own last => match result with
        | .ok () => scene.Puts target (able ∧ Able host target first) first (.ok () : Except ε Unit) own last
        | .error _ => scene.Holds path own last ∧ scene.Progress first last ∧ ¬(able ∧ Able host target first))
      own now := by
  intro target
  refine .bind _ _ (.mono _ fills ?_)
  intro result own last filled
  have far := progress.trans filled.progress
  cases result with
  | error error =>
      refine ⟨filled.holds, far, fun can => ?_⟩
      simpa using filled.succeeds can.1
  | ok done =>
      refine .bind _ _ (.orFail _ _ (.ofJob _ fun later relied => ?_))
      have filled := filled.of_relies _ relied
      have compiled := filled.compiled rfl
      have content := filled.content rfl
      obtain ⟨after, changed, turn, opened, same⟩ := filled.holds.setMode FileTree.fileMode
      simp only [Job.change, changed]
      refine ⟨own, turn, fun last more => .orFail _ _ (.ofJob _ fun final relied => ?_)⟩
      -- Nobody else touches the file between the turns, so what is moved is what was filled in.
      have settled := (opened.stable more).stable relied
      have reached := (((progress.trans filled.progress).trans turn.progress).trans more.progress).trans relied.progress
      have written : final.storage.tree.file? (scene.start.place path) = some (scene.output (page variant)) := by
        rw [← content, ← same]
        simp only [FileTree.file?, relied.own _ opened.own, more.own _ opened.own]
      simp only [Job.change]
      cases result : final.storage.rename path target with
      | ok moved =>
          obtain ⟨turn, there⟩ := settled.renamed ready page member directory known variant compiled written result
          refine ⟨none, turn, fun last more =>
            ⟨rfl, (reached.trans turn.progress).trans more.progress, fun _ => ?_, ?_⟩⟩
          · exact more.progress.isFile turn.progress.settled page member directory known variant there
          · exact fun _ => rfl
      | error error =>
          refine ⟨own, settled.unchanged, fun last more => ⟨settled.stable more, reached.trans more.progress, ?_⟩⟩
          rintro ⟨_, can⟩
          obtain ⟨_, location, leads, plain⟩ :=
            can.later page member directory known variant host first final.storage started reached
          obtain ⟨moved, success⟩ := settled.rename directory _ (variant.isName_fileName _ (isDigest_fingerprint _))
            location leads plain
          exact absurd (result.symm.trans success) (by simp)

/-- Putting an image in place keeps the rules, and succeeds where nothing stands in its way. -/
theorem safe_placeFile (host : PathName) (hosts : scene.Hosts host) (wrap : FileError → ε)
    (fill : PathName → Thread ε Unit) (able : Prop) (now : Storage) (settled : scene.Settled now)
    (fills : ∀ path own later, scene.Progress now later → scene.Holds path own later →
      (fill path).Safe scene.rules (scene.Filled page variant path able later) own later) :
    let target := directory.join ⟨variant.fileName (fingerprint (page .light))⟩
    (Thread.placeFile host target wrap fill).Safe scene.rules
      (scene.Puts target (able ∧ Able host target now) now) none now := by
  intro target
  refine .bind _ _ (.orFail _ _ (.ofJob _ fun later relied => ?_))
  simp only [Job.createTemporary]
  cases created : later.storage.createTemporary host with
  | error error =>
      refine ⟨none, .unchanged relied.progress.settled, fun last more =>
        ⟨rfl, relied.progress.trans more.progress, by simp, ?_⟩⟩
      rintro ⟨_, can⟩
      have still := can.later page member directory known variant host now later.storage settled relied.progress
      obtain ⟨made, path, success⟩ :=
        ready.creates later.storage relied.progress.settled relied.uncrowded host hosts still.host
      simp [created] at success
  | ok pair =>
      obtain ⟨made, path⟩ := pair
      obtain ⟨turn, holds⟩ := Holds.of_createTemporary _ _ _ _ relied.progress.settled created
      have progress := relied.progress.trans turn.progress
      have moving := safe_fillAndMove ready page member directory known variant host path wrap (fill path) able _
        now made settled progress (fills path _ made progress holds)
      refine ⟨_, turn, fun last more => .stable _ (.cleaningUp _ _ (.mono _ moving ?_)) more⟩
      intro result own last ended
      cases result with
      | ok done => exact ended
      | error error =>
          obtain ⟨held, reached, stuck⟩ := ended
          have turn := held.discarded
          exact ⟨none, turn, fun final more =>
            ⟨rfl, (reached.trans turn.progress).trans more.progress, by simp, fun can => absurd can stuck⟩⟩

end Places

end Scene

end FencePreview
