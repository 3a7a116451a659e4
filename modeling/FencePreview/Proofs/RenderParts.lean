import FencePreview.Proofs.FileTurns
import FencePreview.Proofs.RepeatedRenders

/-! The parts of renders that share their directories: making a directory, storing an image, publishing it.
Each succeeds among the others wherever it succeeds alone. -/

namespace FencePreview

namespace Scene

variable {scene : Scene}

/-- How a part of a render ends among the others: with what is `good`, and with success wherever a lone run
succeeds from files that have come no further. -/
structure Ends (scene : Scene) {ε α : Type} (lone : Workspace → Workspace → Prop) (good : α → Storage → Prop)
    (now : Storage) (result : Except ε α) (own : Option Location) (later : Storage) : Prop where
  own : own = none
  progress : scene.Progress now later
  good : ∀ value, result = .ok value → good value later
  follows : ∀ alone after, scene.Shared [none] alone.storage → scene.Progress alone.storage now → lone alone after →
    (∃ value, result = .ok value) ∧ scene.Shared [none] after.storage ∧ scene.Progress after.storage later

namespace Ends

variable {ε δ α β : Type} {lone wider : Workspace → Workspace → Prop} {good : α → Storage → Prop} {now : Storage}

theorem widen (result : Except ε α) (own : Option Location) (first later : Storage)
    (ends : scene.Ends lone good now result own later) (progress : scene.Progress first now)
    (runs : ∀ alone after, scene.Shared [none] alone.storage → scene.Progress alone.storage first →
      wider alone after → lone alone after) : scene.Ends wider good first result own later :=
  ⟨ends.own, progress.trans ends.progress, ends.good, fun alone after shared ahead run =>
    ends.follows alone after shared (ahead.trans progress) (runs alone after shared ahead run)⟩

theorem pure (good : α → Storage → Prop) (value : α) (holds : ∀ later, scene.Progress now later → good value later) :
    (Pure.pure value : Thread ε α).Safe scene.rules (scene.Ends (fun alone after => after = alone) good now) none
      now := by
  refine .done _ fun later relied => ⟨rfl, relied.progress, ?_, ?_⟩
  · rintro _ ⟨⟩
    exact holds later relied.progress
  · rintro alone _ shared ahead rfl
    exact ⟨⟨value, rfl⟩, shared, ahead.trans relied.progress⟩

theorem orFail (wrap : δ → ε) (thread : Thread δ α)
    (safe : thread.Safe scene.rules (scene.Ends lone good now) none now) :
    (thread.orFail wrap).Safe scene.rules (scene.Ends lone good now) none now := by
  refine .orFail _ _ (.mono _ safe fun result own later ends => ?_)
  cases result with
  | ok value =>
      refine ⟨ends.own, ends.progress, fun other same => ?_, fun alone after shared ahead run => ?_⟩
      · obtain rfl := Except.ok.inj same
        exact ends.good value rfl
      · exact ⟨⟨value, rfl⟩, (ends.follows alone after shared ahead run).2⟩
  | error error =>
      refine ⟨ends.own, ends.progress, by simp, fun alone after shared ahead run => ?_⟩
      obtain ⟨⟨_, impossible⟩, _⟩ := ends.follows alone after shared ahead run
      simp at impossible

theorem bind {next : α → Thread ε β} {further : Workspace → Workspace → Prop} {last : β → Storage → Prop}
    (thread : Thread ε α) (safe : thread.Safe scene.rules (scene.Ends lone good now) none now)
    (goesOn : ∀ value later, scene.Progress now later → good value later →
      (next value).Safe scene.rules (scene.Ends further last later) none later) :
    (thread >>= next).Safe scene.rules
      (scene.Ends (fun alone after => ∃ between, lone alone between ∧ further between after) last now) none now := by
  refine .bind _ _ (.mono _ safe fun result own later ends => ?_)
  obtain rfl := ends.own
  cases result with
  | ok value =>
      refine .mono _ (goesOn value later ends.progress (ends.good value rfl)) fun result own final more => ?_
      refine ⟨more.own, ends.progress.trans more.progress, more.good, ?_⟩
      rintro alone after shared ahead ⟨between, first, rest⟩
      obtain ⟨_, still, onward⟩ := ends.follows alone between shared ahead first
      exact more.follows between after still onward rest
  | error error =>
      refine ⟨rfl, ends.progress, by simp, ?_⟩
      rintro alone after shared ahead ⟨between, first, rest⟩
      obtain ⟨⟨_, impossible⟩, _⟩ := ends.follows alone between shared ahead first
      simp at impossible

end Ends

theorem Shared.of_run {ε α : Type} {post : Except ε α → Option Location → Storage → Prop} (thread : Thread ε α)
    (alone after : Workspace) (value : α) (shared : scene.Shared [none] alone.storage)
    (safe : thread.Safe scene.rules post none alone.storage)
    (free : ∀ result own later, post result own later → own = none) (finished : thread.run alone = .ok value after) :
    scene.Shared [none] after.storage ∧ post (.ok value) none after.storage := by
  have ended := safe.run scene.shares thread none alone shared
  rw [finished] at ended
  obtain ⟨kept, still, holds⟩ := ended
  obtain rfl := free _ _ _ holds
  exact ⟨still, holds⟩

theorem lone_makeDirectories (ready : scene.Ready) (directory : PathName)
    (known : directory ∈ scene.artifacts.directories) (alone after : Workspace) (later : Storage)
    (shared : scene.Shared [none] alone.storage) (ahead : scene.Progress alone.storage later)
    (there : directory.text = [] ∨ later.isDirectory directory = true)
    (made : Job.makeDirectories directory alone = .ok () after) :
    scene.Shared [none] after.storage ∧ scene.Progress after.storage later := by
  refine ⟨(Shared.of_run _ alone after () shared
    (safe_makeDirectories ready directory known alone.storage shared.settled) (fun _ _ _ ended => ended.1)
    ((congrFun (Thread.run_makeDirectories directory) alone).trans made)).1, ?_⟩
  have left := Job.makeDirectories_final directory alone
  rw [Job.final_of_ok _ _ _ _ made] at left
  rw [left]
  exact (Progress.of_makeDirectories ready directory known alone.storage later shared.settled ahead there).2

theorem ends_makeDirectories (ready : scene.Ready) (directory : PathName)
    (known : directory ∈ scene.artifacts.directories) (now : Storage) (settled : scene.Settled now) :
    (Thread.makeDirectories directory).Safe scene.rules (scene.Ends (fun alone after =>
      Text.byteSize directory.text < Storage.pathLimit ∧ Job.makeDirectories directory alone = .ok () after)
      (fun _ _ => True) now) none now := by
  refine .mono _ (safe_makeDirectories ready directory known now settled) ?_
  rintro result own later ⟨rfl, progress, succeeds⟩
  refine ⟨rfl, progress, fun _ _ => trivial, ?_⟩
  rintro alone after shared ahead ⟨fits, made⟩
  obtain ⟨success, there⟩ := succeeds alone after shared.settled ahead fits made
  exact ⟨⟨(), success⟩,
    lone_makeDirectories ready directory known alone after later shared (ahead.trans progress) there made⟩

section Places

variable (ready : scene.Ready) {ε : Type} (page : Variant → Text) (member : page ∈ scene.used) (directory : PathName)
  (known : directory ∈ scene.artifacts.directories) (variant : Variant) (host : PathName) (hosts : scene.Hosts host)
  (wrap : FileError → ε) (fill : PathName → Thread ε Unit) (able : Storage → Prop)

/-- A lone run that put a file in place had nothing in its way. -/
theorem Able.of_run (target : PathName) (alone after : Workspace) (rooted : alone.storage.tree.Rooted)
    (writes : Job.WritesFile fun path => (fill path).run) (visible : ¬Hidden (alone.storage.place target))
    (finished : (Thread.placeFile host target wrap fill).run alone = .ok () after) :
    Able host target alone.storage ∧ ∃ path made filled,
      alone.storage.createTemporary host = .ok (made, path) ∧
      (fill path).run { alone with storage := made } = .ok () filled := by
  rw [Thread.run_placeFile] at finished
  obtain ⟨path, _, filled, opened, moved, created, full, readable, renamed, rfl⟩ :=
    (Job.placeFile_eq_ok_iff _ _ _ _ _ _ _).mp finished
  obtain ⟨made, success, rfl⟩ := Job.createTemporary_eq_ok _ _ _ _ created
  obtain ⟨fresh, making, _⟩ := Storage.fresh_of_createTemporary _ _ _ _ success
  obtain ⟨_, _, leads, inside, _⟩ := Storage.createTemporary_eq_ok _ _ _ _ success
  have writing := writes.fills path { alone with storage := made }
  rw [Job.final_of_ok _ _ _ _ full] at writing
  have filling := making.trans _ _ _ _ writing
  have inner := fresh.ne_nil
  rw [← filling.place_eq] at inner
  have opening := filling.trans _ _ _ _ (Storage.confinedTo_setMode _ _ _ _ inner readable).1
  have file := writes.plain path _ filled full (Storage.isFile_of_createTemporary _ _ _ _ success)
  have plain : opened.tree.isDirectory (opened.place path) = false := by
    rw [opening.place_eq, ← filling.place_eq, Storage.isDirectory_setMode _ _ _ _ readable, writing.place_eq]
    exact file
  have leads' := (Storage.read_of_rename _ _ _ _ _ rooted fresh opening renamed
    (opening.place_eq _ _ _ path ▸ plain)).1
  refine ⟨⟨(Storage.isDirectory_eq_true_iff _ _).mpr ⟨_, leads, inside⟩, _, leads', ?_⟩,
    path, made, filled, success, full⟩
  obtain ⟨entry, move⟩ := Storage.rename_eq_ok _ _ _ _ renamed
  have free := move.plain plain
  rw [opening.place_eq] at free
  have apart : alone.storage.place target ≠ alone.storage.place path := fun same => visible (same ▸ fresh.hidden)
  simpa only [FileTree.isDirectory, opening.others _ apart] using free

/-- Files that have the image have come as far as a lone run that put it there. -/
theorem Progress.of_run (target : PathName) (alone after : Workspace) (lone : scene.Settled alone.storage)
    (writes : Job.WritesFile fun path => (fill path).run) (visible : ¬Hidden (alone.storage.place target))
    (finished : (Thread.placeFile host target wrap fill).run alone = .ok () after) (later : Storage)
    (ahead : scene.Progress alone.storage later) (there : later.isFile target = true) :
    scene.Progress after.storage later := by
  rw [Thread.run_placeFile] at finished
  obtain ⟨_, only⟩ := Job.settled_of_placeFile_eq_ok _ _ _ _ writes.fills alone after lone.rooted visible finished
  obtain ⟨_, _, _, _, _, content, _, _, _, _, put⟩ := Placed.settles _ _ _ (fun path made filled full => by
    have writing := writes.fills path made
    rwa [Job.final_of_ok _ _ _ _ full] at writing) alone after lone.rooted
    ((Job.placeFile_eq_ok_iff _ _ _ _ _ _ _).mp finished) writes.plain
  have image := Storage.file?_place_of_read _ _ _ put
  rw [only.place_eq] at image
  obtain ⟨found, readable⟩ := (Storage.isFile_eq_true_iff _ _).mp there
  have present := Storage.file?_place_of_read _ _ _ readable
  rw [ahead.place_eq, ← lone.place_eq] at present
  refine ⟨ahead.settled, fun location inside => ?_, fun location isImage found => ?_⟩
  · by_cases here : location = alone.storage.place target
    · rw [here, FileTree.isDirectory_eq_false_of_file? _ _ _ image] at inside
      exact absurd inside (by decide)
    · refine ahead.directories location ?_
      simpa only [FileTree.isDirectory, only.others location here] using inside
  · by_cases here : location = alone.storage.place target
    · simp [here, present]
    · refine ahead.images location isImage ?_
      simpa only [FileTree.file?, only.others location here] using found

theorem lone_placeFile {lone : Workspace → Workspace → Prop} {good : Unit → Storage → Prop} (target : PathName)
    (alone after : Workspace) (later : Storage) (shared : scene.Shared [none] alone.storage)
    (writes : Job.WritesFile fun path => (fill path).run) (visible : ¬Hidden (scene.start.place target))
    (safe : (Thread.placeFile host target wrap fill).Safe scene.rules (scene.Ends lone good alone.storage) none
      alone.storage)
    (ahead : scene.Progress alone.storage later) (there : later.isFile target = true)
    (finished : (Thread.placeFile host target wrap fill).run alone = .ok () after) :
    scene.Shared [none] after.storage ∧ scene.Progress after.storage later := by
  rw [← shared.settled.place_eq] at visible
  exact ⟨(Shared.of_run _ alone after () shared safe (fun _ _ _ ended => ended.own) finished).1,
    Progress.of_run host wrap fill target alone after shared.settled writes visible finished later ahead there⟩

include ready member known hosts in
theorem ends_placeFile (writes : Job.WritesFile fun path => (fill path).run)
    (stays : ∀ now later, scene.Settled now → scene.Progress now later → able now → able later)
    (fills : ∀ path own now, scene.Holds path own now →
      (fill path).Safe scene.rules (scene.Filled page variant path (able now) now) own now)
    (needs : ∀ (alone : Workspace) (made : Storage) (filled : Workspace) (path : PathName),
      scene.Settled alone.storage →
      alone.storage.createTemporary host = .ok (made, path) →
      (fill path).run { alone with storage := made } = .ok () filled → able alone.storage)
    (now : Storage) (settled : scene.Settled now) :
    let target := directory.join ⟨variant.fileName (fingerprint (page .light))⟩
    (Thread.placeFile host target wrap fill).Safe scene.rules
      (scene.Ends (fun alone after => (Thread.placeFile host target wrap fill).run alone = .ok () after)
        (fun _ later => later.isFile target = true) now) none now := by
  intro target
  have safe : ∀ now, scene.Settled now → (Thread.placeFile host target wrap fill).Safe scene.rules
      (scene.Puts target (able now ∧ Able host target now) now) none now := by
    intro now settled
    refine safe_placeFile ready page member directory known variant host hosts wrap fill (able now) now settled ?_
    intro path own later progress holds
    refine .mono _ (fills path own later holds) fun result own last filled => ?_
    exact { filled with succeeds := fun can => filled.succeeds (stays now later settled progress can) }
  refine .mono _ (safe now settled) fun result own later puts => ?_
  refine ⟨puts.own, puts.progress, ?_, ?_⟩
  · rintro _ rfl
    exact puts.there rfl
  intro alone after shared ahead finished
  have visible := scene.not_hidden_imagePlace directory page variant
  have lone := shared.settled
  rw [imagePlace, ← lone.place_eq] at visible
  -- What lets a lone run succeed is still so when others have done their part.
  obtain ⟨free, path, made, filled, created, full⟩ :=
    Able.of_run host wrap fill target alone after lone.rooted writes visible finished
  have success := puts.succeeds ⟨stays _ _ lone ahead (needs alone made filled path lone created full),
    free.later page member directory known variant host _ _ lone ahead⟩
  refine ⟨⟨(), success⟩, ?_, ?_⟩
  · exact (Shared.of_run _ alone after () shared (safe alone.storage lone) (fun _ _ _ ended => ended.own) finished).1
  · exact Progress.of_run host wrap fill target alone after lone writes visible finished later
      (ahead.trans puts.progress) (puts.there success)

end Places

section Images

variable (ready : scene.Ready) (page : Variant → Text) (member : page ∈ scene.used) (variant : Variant)

theorem fits_of_isFile (storage : Storage) (directory : PathName) (name : Text) (digest : IsDigest name)
    (there : storage.isFile (directory.join ⟨variant.fileName name⟩) = true) :
    Text.byteSize directory.text < Storage.pathLimit := by
  obtain ⟨content, found⟩ := (Storage.isFile_eq_true_iff _ _).mp there
  obtain ⟨location, leads, _⟩ := (Storage.read_eq_ok_iff _ _ _).mp found
  obtain ⟨_, _, fits, _⟩ := (Storage.resolve_eq_ok_iff _ _ _).mp leads
  rw [PathName.text_join _ _ (variant.isName_fileName name digest), Text.byteSize_append] at fits
  omega

theorem isDirectory_of_isFile (storage : Storage) (directory : PathName) (name : Text) (digest : IsDigest name)
    (there : storage.isFile (directory.join ⟨variant.fileName name⟩) = true) :
    directory.text = [] ∨ storage.isDirectory directory = true := by
  refine or_iff_not_imp_left.mpr fun filled => ?_
  obtain ⟨content, found⟩ := (Storage.isFile_eq_true_iff _ _).mp there
  obtain ⟨location, leads, _⟩ := (Storage.read_eq_ok_iff _ _ _).mp found
  exact Storage.isDirectory_of_resolve_join _ _ _ (variant.isName_fileName name digest).whole filled _ leads

/-- A lone run finds the image on the site or copies it. -/
theorem copied_of_publishOne (alone after : Workspace) (name : Text) (copies : Nat)
    (published : scene.artifacts.publishOne name variant alone = .ok copies after) :
    alone.storage.isFile (scene.artifacts.sitePath name variant) = true ∧ after = alone ∨
      (Thread.copyOne scene.artifacts name variant).run alone = .ok () after := by
  rw [← Thread.run_publishOne, Thread.publishOne, Thread.run_bind] at published
  obtain ⟨found, between, asked, rest⟩ := (Job.bind_eq_ok_iff _ _ _ _ _).mp published
  rw [Thread.run_ofJob] at asked
  obtain ⟨rfl, rfl⟩ := (Job.inspect_eq_ok_iff _ _ _ _).mp asked
  cases there : alone.storage.isFile (scene.artifacts.sitePath name variant) with
  | true =>
      rw [there] at rest
      exact .inl ⟨rfl, ((Job.pure_eq_ok_iff _ _ _ _).mp rest).2.symm⟩
  | false =>
      simp only [there, Bool.false_eq_true, if_false, Thread.run_bind] at rest
      obtain ⟨_, between, copied, last⟩ := (Job.bind_eq_ok_iff _ _ _ _ _).mp rest
      obtain ⟨_, rfl⟩ := (Job.pure_eq_ok_iff _ _ _ _).mp last
      exact .inr copied

include ready in
/-- With an image in it, the path of a directory is not too long. -/
theorem fits_of_run {ε α : Type} {lone : Workspace → Workspace → Prop} (thread : Thread ε α) (directory : PathName)
    (known : directory ∈ scene.artifacts.directories) (alone made half : Workspace) (value : α)
    (shared : scene.Shared [none] alone.storage) (climbed : Job.makeDirectories directory alone = .ok () made)
    (safe : ∀ now, scene.Settled now → thread.Safe scene.rules (scene.Ends lone (fun _ later =>
      later.isFile (directory.join ⟨variant.fileName (fingerprint (page .light))⟩) = true) now) none now)
    (finished : thread.run made = .ok value half) : Text.byteSize directory.text < Storage.pathLimit := by
  have begun := (Shared.of_run _ alone made () shared
    (safe_makeDirectories ready directory known alone.storage shared.settled) (fun _ _ _ ended => ended.1)
    ((congrFun (Thread.run_makeDirectories _) alone).trans climbed)).1
  have ends := (Shared.of_run _ made half value begun (safe made.storage begun.settled)
    (fun _ _ _ ended => ended.own) finished).2
  exact fits_of_isFile variant _ _ _ (isDigest_fingerprint _) (ends.good value rfl)

include ready member

theorem ends_storeOne (compiler : Compiler) (depends : compiler.Depends scene.outcome scene.output)
    (now : Storage) (settled : scene.Settled now) :
    (Thread.storeOne scene.artifacts (fingerprint (page .light)) compiler (page variant) variant).Safe scene.rules
      (scene.Ends (fun alone after => scene.artifacts.storeOne compiler (fingerprint (page .light)) (page variant)
          variant alone = .ok () after)
        (fun _ later => later.isFile (scene.artifacts.dumpPath (fingerprint (page .light)) variant) = true)
        now) none now := by
  simp only [← Thread.run_storeOne]
  refine ends_placeFile ready page member scene.artifacts.dumpDirectory scene.artifacts.dumpDirectory_mem variant _
    (.inr ⟨page, member, variant, rfl⟩) _ _ (fun _ => scene.outcome (page variant) = .ok ()) ?_ ?_ ?_ ?_ now settled
  · simp only [Thread.run_ofJob]
    exact depends.writesFile.compile (page variant)
  · exact fun _ _ _ _ => id
  · exact fun path own now holds => safe_compile page variant path own now holds compiler depends
  · intro alone made filled path lone created full
    have held := (Holds.of_createTemporary _ made _ path lone created).2
    rw [Thread.run_ofJob] at full
    have ends := depends.ends alone.compiled.length (page variant) path made held.isFile
    simp only [Job.compile, ends] at full
    cases compiled : scene.outcome (page variant) with
    | ok done => rfl
    | error error => simp [compiled] at full

theorem lone_storeOne (compiler : Compiler) (depends : compiler.Depends scene.outcome scene.output)
    (alone after : Workspace) (later : Storage) (shared : scene.Shared [none] alone.storage)
    (ahead : scene.Progress alone.storage later)
    (there : later.isFile (scene.artifacts.dumpPath (fingerprint (page .light)) variant) = true)
    (finished : scene.artifacts.storeOne compiler (fingerprint (page .light)) (page variant) variant alone =
      .ok () after) :
    scene.Shared [none] after.storage ∧ scene.Progress after.storage later := by
  rw [← Thread.run_storeOne] at finished
  refine lone_placeFile _ _ _ _ alone after later shared ?_ (scene.not_hidden_imagePlace _ page variant)
    (ends_storeOne ready page member variant compiler depends alone.storage shared.settled) ahead there finished
  simp only [Thread.run_ofJob]
  exact depends.writesFile.compile (page variant)

theorem ends_copyOne (now : Storage) (settled : scene.Settled now) :
    (Thread.copyOne scene.artifacts (fingerprint (page .light)) variant).Safe scene.rules
      (scene.Ends (fun alone after =>
          (Thread.copyOne scene.artifacts (fingerprint (page .light)) variant).run alone = .ok () after)
        (fun _ later => later.isFile (scene.artifacts.sitePath (fingerprint (page .light)) variant) = true)
        now) none now := by
  refine ends_placeFile ready page member scene.artifacts.siteDirectory scene.artifacts.siteDirectory_mem variant _
    (.inl rfl) id _ (fun now => now.isFile (scene.artifacts.dumpPath (fingerprint (page .light)) variant) = true) ?_ ?_
    ?_ ?_ now settled
  · simp only [Thread.run_ofJob]
    exact (Artifacts.onlyFile_copy _).writesFile
  · exact fun now later settled progress there => progress.isFile settled page member _
      scene.artifacts.dumpDirectory_mem variant there
  · exact fun path own now holds => safe_copy page variant path own now holds member
  · intro alone made filled path lone created full
    obtain ⟨fresh, making, plain⟩ := Storage.fresh_of_createTemporary _ _ _ _ created
    rw [Thread.run_ofJob] at full
    obtain ⟨after, copied, _⟩ := (Job.change_eq_ok_iff _ _ _ _).mp full
    obtain ⟨origin, content, mode, _, leads, there, _⟩ := (Storage.copy_eq_ok_iff _ _ _ _).mp copied
    have found := (Storage.read_eq_ok_iff _ _ _).mpr
      ⟨origin, leads, (FileTree.file?_eq_some_iff _ _ _).mpr ⟨mode, there⟩⟩
    have visible := scene.artifacts.not_hidden_dumpPath (fingerprint (page .light)) variant alone.storage
      (isDigest_fingerprint _)
    exact (Storage.isFile_eq_true_iff _ _).mpr
      ⟨content, Storage.read_of_confinedTo path _ _ made making fresh plain visible content found⟩

theorem lone_copyOne (alone after : Workspace) (later : Storage) (shared : scene.Shared [none] alone.storage)
    (ahead : scene.Progress alone.storage later)
    (there : later.isFile (scene.artifacts.sitePath (fingerprint (page .light)) variant) = true)
    (finished : (Thread.copyOne scene.artifacts (fingerprint (page .light)) variant).run alone = .ok () after) :
    scene.Shared [none] after.storage ∧ scene.Progress after.storage later := by
  refine lone_placeFile _ _ _ _ alone after later shared ?_ (scene.not_hidden_imagePlace _ page variant)
    (ends_copyOne ready page member variant alone.storage shared.settled) ahead there finished
  simp only [Thread.run_ofJob]
  exact (Artifacts.onlyFile_copy _).writesFile

theorem ends_publishOne (now : Storage) :
    (Thread.publishOne scene.artifacts (fingerprint (page .light)) variant).Safe scene.rules
      (scene.Ends (fun alone after => ∃ copies,
          scene.artifacts.publishOne (fingerprint (page .light)) variant alone = .ok copies after)
        (fun _ later => later.isFile (scene.artifacts.sitePath (fingerprint (page .light)) variant) = true)
        now) none now := by
  have site := scene.artifacts.siteDirectory_mem
  refine safe_inspect _ _ fun later progress => ?_
  cases found : later.isFile (scene.artifacts.sitePath (fingerprint (page .light)) variant) with
  | true =>
      refine .done _ fun last relied => ?_
      have there := relied.progress.isFile progress.settled page member _ site variant found
      refine ⟨rfl, progress.trans relied.progress, fun _ _ => there, fun alone after shared ahead published => ?_⟩
      refine ⟨⟨0, rfl⟩, ?_⟩
      have far := (ahead.trans progress).trans relied.progress
      obtain ⟨copies, published⟩ := published
      rcases copied_of_publishOne variant alone after _ copies published with ⟨_, rfl⟩ | copied
      · exact ⟨shared, far⟩
      · exact lone_copyOne ready page member variant alone after last shared far there copied
  | false =>
      have copying := Ends.bind _ (ends_copyOne ready page member variant later progress.settled)
        fun _ last more there =>
          Ends.pure (fun _ later => later.isFile (scene.artifacts.sitePath (fingerprint (page .light)) variant) = true)
            1 fun final further => further.isFile more.settled page member _ site variant there
      refine .mono _ copying fun result own last ends => ends.widen result own now last progress ?_
      rintro alone after shared ahead ⟨copies, published⟩
      rcases copied_of_publishOne variant alone after _ copies published with ⟨present, _⟩ | copied
      · have still := (ahead.trans progress).isFile shared.settled page member _ site variant present
        exact absurd (found.symm.trans still) (by decide)
      · exact ⟨after, copied, rfl⟩

theorem ends_publish (now : Storage) (settled : scene.Settled now) :
    (Thread.publish scene.artifacts (fingerprint (page .light))).Safe scene.rules
      (scene.Ends (fun alone after => ∃ copies,
          scene.artifacts.publish (fingerprint (page .light)) alone = .ok copies after)
        (fun _ later => ∀ variant,
          later.isFile (scene.artifacts.sitePath (fingerprint (page .light)) variant) = true) now) none now := by
  have site := scene.artifacts.siteDirectory_mem
  have parts := Ends.bind _ (ends_makeDirectories ready _ site now settled) fun _ made _ _ =>
    Ends.bind _ (ends_publishOne ready page member .light made) fun light half first stored =>
      Ends.bind _ (ends_publishOne ready page member .dark half) fun dark last second published =>
        Ends.pure (ε := FileError) (fun _ later => ∀ variant,
          later.isFile (scene.artifacts.sitePath (fingerprint (page .light)) variant) = true) (light + dark)
          fun final third => by
            rintro (_ | _)
            · exact (second.trans third).isFile first.settled page member _ site .light stored
            · exact third.isFile second.settled page member _ site .dark published
  refine .mono _ parts fun result own later ends => ends.widen result own now later (.refl settled) ?_
  rintro alone after shared ahead ⟨copies, published⟩
  simp only [Artifacts.publish] at published
  obtain ⟨_, made, directory, rest⟩ := (Job.bind_eq_ok_iff _ _ _ _ _).mp published
  obtain ⟨light, half, first, rest⟩ := (Job.bind_eq_ok_iff _ _ _ _ _).mp rest
  obtain ⟨dark, last, second, rest⟩ := (Job.bind_eq_ok_iff _ _ _ _ _).mp rest
  obtain ⟨_, rfl⟩ := (Job.pure_eq_ok_iff _ _ _ _).mp rest
  have fits := fits_of_run ready page .light _ _ site alone made half light shared directory
    (fun now _ => ends_publishOne ready page member .light now)
    ((congrFun (Thread.run_publishOne ..) made).trans first)
  exact ⟨made, ⟨fits, directory⟩, half, ⟨light, first⟩, last, ⟨dark, second⟩, rfl⟩

omit ready in
theorem safe_hasAll {ε : Type} (variants : List Variant) (now : Storage) (settled : scene.Settled now) :
    (Thread.hasAll scene.artifacts (fingerprint (page .light)) variants : Thread ε Bool).Safe scene.rules
      (fun result own later => own = none ∧ scene.Progress now later ∧ ∃ found, result = .ok found ∧
        (found = true → ∀ variant ∈ variants,
          later.isFile (scene.artifacts.dumpPath (fingerprint (page .light)) variant) = true) ∧
        ((∀ variant ∈ variants, now.isFile (scene.artifacts.dumpPath (fingerprint (page .light)) variant) = true) →
          found = true)) none now := by
  have dump := scene.artifacts.dumpDirectory_mem
  induction variants generalizing now with
  | nil => exact .done _ fun later relied => ⟨rfl, relied.progress, true, rfl, by simp, by simp⟩
  | cons variant rest ih =>
      refine safe_inspect _ _ fun later progress => ?_
      cases present : later.isFile (scene.artifacts.dumpPath (fingerprint (page .light)) variant) with
      | true =>
          refine .mono _ (ih later progress.settled) ?_
          rintro result own last ⟨rfl, further, found, rfl, all, finds⟩
          refine ⟨rfl, progress.trans further, found, rfl, fun isFound other among => ?_, fun old => finds ?_⟩
          · rcases List.mem_cons.mp among with rfl | among
            · exact further.isFile progress.settled page member _ dump other present
            · exact all isFound other among
          · intro other among
            exact progress.isFile settled page member _ dump other (old other (List.mem_cons_of_mem _ among))
      | false =>
          refine .done _ fun last relied => ⟨rfl, progress.trans relied.progress, false, rfl, by simp, fun old => ?_⟩
          have still := progress.isFile settled page member _ dump variant (old variant (by simp))
          exact absurd (present.symm.trans still) (by decide)

section Store

variable (formatter : Formatter) (same : formatter.artifacts = scene.artifacts)

omit ready member in
include same in
theorem parts_of_stored (alone after : Workspace) (ran : Bool) (stored : formatter.Stored page alone ran after) :
    (∀ variant, alone.storage.isFile (scene.artifacts.dumpPath (fingerprint (page .light)) variant) = true) ∧
        after = alone ∨
      ∃ made half, Job.makeDirectories scene.artifacts.dumpDirectory alone = .ok () made ∧
        scene.artifacts.storeOne formatter.compiler (fingerprint (page .light)) (page .light) .light made =
          .ok () half ∧
        scene.artifacts.storeOne formatter.compiler (fingerprint (page .light)) (page .dark) .dark half =
          .ok () after := by
  rw [← same]
  cases stored with
  | cached present =>
      refine .inl ⟨fun variant => ?_, rfl⟩
      exact List.all_eq_true.mp present variant (by cases variant <;> simp [Variant.all])
  | missing made half _ absent directory light dark =>
      exact .inr ⟨made, half, directory, (formatter.storeOne_eq_ok_iff _ _ _ _ _ ()).mpr light,
        (formatter.storeOne_eq_ok_iff _ _ _ _ _ ()).mpr dark⟩

include same

theorem ends_storeIfMissing (depends : formatter.compiler.Depends scene.outcome scene.output) (now : Storage)
    (settled : scene.Settled now) :
    (Thread.storeIfMissing scene.artifacts (fingerprint (page .light)) formatter.compiler page).Safe scene.rules
      (scene.Ends (fun alone after => ∃ ran, formatter.Stored page alone ran after)
        (fun _ later => ∀ variant,
          later.isFile (scene.artifacts.dumpPath (fingerprint (page .light)) variant) = true) now) none now := by
  have dump := scene.artifacts.dumpDirectory_mem
  refine .bind _ _ (.mono _ (safe_hasAll page member Variant.all now settled) ?_)
  rintro result own later ⟨rfl, progress, found, rfl, all, finds⟩
  have every : ∀ variant, variant ∈ Variant.all := fun variant => by cases variant <;> simp [Variant.all]
  cases found with
  | true =>
      refine .done _ fun last relied => ?_
      have there : ∀ variant, last.isFile (scene.artifacts.dumpPath (fingerprint (page .light)) variant) = true :=
        fun variant =>
          relied.progress.isFile progress.settled page member _ dump variant (all rfl variant (every variant))
      refine ⟨rfl, progress.trans relied.progress, fun _ _ => there, ?_⟩
      rintro alone after shared ahead ⟨ran, stored⟩
      refine ⟨⟨false, rfl⟩, ?_⟩
      -- The others were faster than a lone run, which stores what is there already.
      have far := (ahead.trans progress).trans relied.progress
      rcases parts_of_stored page formatter same alone after ran stored with
        ⟨_, rfl⟩ | ⟨made, half, directory, light, dark⟩
      · exact ⟨shared, far⟩
      · obtain ⟨shared, far⟩ := lone_makeDirectories ready _ dump alone made last shared far
          (isDirectory_of_isFile .light _ _ _ (isDigest_fingerprint _) (there .light)) directory
        obtain ⟨shared, far⟩ := lone_storeOne ready page member .light formatter.compiler depends made half last shared
          far (there .light) light
        exact lone_storeOne ready page member .dark formatter.compiler depends half after last shared far
          (there .dark) dark
  | false =>
      have parts := Ends.bind _ (Ends.orFail CompileError.file _
        (ends_makeDirectories ready _ dump later progress.settled)) fun _ made onward _ =>
          Ends.bind _ (ends_storeOne ready page member .light formatter.compiler depends made onward.settled)
            fun _ half first stored =>
              Ends.bind _ (ends_storeOne ready page member .dark formatter.compiler depends half first.settled)
                fun _ last second also =>
                  Ends.pure (ε := CompileError) (fun _ later => ∀ variant,
                    later.isFile (scene.artifacts.dumpPath (fingerprint (page .light)) variant) = true) true
                    fun final third => by
                      rintro (_ | _)
                      · exact (second.trans third).isFile first.settled page member _ dump .light stored
                      · exact third.isFile second.settled page member _ dump .dark also
      refine .mono _ parts fun result own last ends => ends.widen result own now last progress ?_
      rintro alone after shared ahead ⟨ran, stored⟩
      rcases parts_of_stored page formatter same alone after ran stored with
        ⟨present, _⟩ | ⟨made, half, directory, light, dark⟩
      · have isFound := finds fun variant _ => ahead.isFile shared.settled page member _ dump variant (present variant)
        simp at isFound
      · have fits := fits_of_run ready page .light _ _ dump alone made half () shared directory
          (ends_storeOne ready page member .light formatter.compiler depends)
          ((congrFun (Thread.run_storeOne ..) made).trans light)
        exact ⟨made, ⟨fits, directory⟩, half, light, after, dark, rfl⟩

end Store

end Images

end Scene

end FencePreview
