import FencePreview.Proofs.KeptFiles
import FencePreview.Proofs.RepeatedRenders

/-! Documents that were processed once. As long as no file that was there is taken away, they are processed
again with the same output, without a compiler call, and what is written is there already. -/

namespace FencePreview

/-- Two storages in which every location has the same entry. -/
structure Storage.Same (before after : Storage) : Prop where
  sameDirectory : after.workingDirectory = before.workingDirectory
  entries : ∀ location, after.tree.get? location = before.tree.get? location

namespace Storage.Same

theorem refl (storage : Storage) : Same storage storage := ⟨rfl, fun _ => rfl⟩

theorem trans {first second third : Storage} (early : Same first second) (late : Same second third) :
    Same first third :=
  ⟨late.sameDirectory.trans early.sameDirectory, fun location => (late.entries location).trans (early.entries location)⟩

theorem isDirectory {before after : Storage} (same : Same before after) (location : Location) :
    after.tree.isDirectory location = before.tree.isDirectory location := by
  simp only [FileTree.isDirectory, same.entries]

theorem file? {before after : Storage} (same : Same before after) (location : Location) :
    after.tree.file? location = before.tree.file? location := by
  simp only [FileTree.file?, same.entries]

theorem grown {written : Location → Prop} {before after : Storage} (same : Same before after)
    (rooted : before.tree.Rooted) : before.Grown written after where
  sameDirectory := same.sameDirectory
  directories := fun location directory => (same.isDirectory location).trans directory
  files := fun location _ file => by rwa [same.file?]
  documents := fun location _ _ => same.file? location
  rooted := by
    intro location entry found
    rw [same.entries] at found
    rw [same.isDirectory]
    exact rooted location entry found

theorem read {before after : Storage} (same : Same before after) (path : PathName) (content : ByteArray)
    (found : before.read path = .ok content) : after.read path = .ok content := by
  obtain ⟨location, leads, there⟩ := (read_eq_ok_iff _ _ _).mp found
  refine (read_eq_ok_iff _ _ _).mpr ⟨location, ?_, (same.file? location).trans there⟩
  exact resolve_mono _ _ same.sameDirectory
    (fun location directory => (same.isDirectory location).trans directory) _ _ leads

end Storage.Same

theorem Storage.same_write (storage : Storage) (path : PathName) (content : ByteArray)
    (found : storage.read path = .ok content) :
    ∃ after, storage.write path content = .ok after ∧ Same storage after := by
  obtain ⟨location, leads, there⟩ := (read_eq_ok_iff _ _ _).mp found
  obtain ⟨mode, entry⟩ := (FileTree.file?_eq_some_iff _ _ _).mp there
  have filled : location ≠ [] := by
    rintro rfl
    simp [FileTree.get?] at entry
  refine ⟨storage.withEntry location (.file content mode), by simp only [write, leads, entry], rfl,
    fun sought => ?_⟩
  simp only [withEntry, FileTree.get?_insert _ _ _ _ filled]
  split
  · rename_i spot
    rw [spot, entry]
  · rfl

theorem Artifacts.Complete.mono {artifacts : Artifacts} {name : Text} {written : Location → Prop}
    {before after : Storage} (complete : artifacts.Complete before name) (digest : IsDigest name)
    (grown : before.Grown written after) : artifacts.Complete after name where
  stored := List.all_eq_true.mpr fun variant member =>
    grown.isFile _ (artifacts.not_hidden_dumpPath name variant before digest)
      (List.all_eq_true.mp complete.stored variant member)
  published := fun variant =>
    grown.isFile _ (artifacts.not_hidden_sitePath name variant before digest) (complete.published variant)

namespace Formatter

variable (formatter : Formatter)

/-- Wherever what is there now is kept, processing a text gives the document without a compiler call and
changes nothing. -/
def Lasting (input : Text) (document : ProcessedDocument) (storage : Storage) : Prop :=
  ∀ later : Workspace, storage.Grown (fun _ => True) later.storage →
    formatter.process input later = .ok { document with compiled := 0 } later

variable (writes : formatter.compiler.WritesFile)

include writes

theorem publishSegment_again (segment : Segment) (before after : Workspace) (publication : Publication)
    (rooted : before.storage.tree.Rooted)
    (finished : formatter.publishSegment segment before = .ok publication after) (later : Workspace)
    (grown : after.storage.Grown (fun _ => True) later.storage) :
    formatter.publishSegment segment later = .ok { publication with compiled := 0 } later := by
  cases segment with
  | copied lines =>
      obtain ⟨rfl, _⟩ := (Job.pure_eq_ok_iff _ _ _ _).mp finished
      rfl
  | enclosed line => exact absurd finished (Job.throw_ne_ok _ _ _ _)
  | preview line fence body =>
      obtain ⟨rendered, between, run, ended⟩ := (Job.bind_eq_ok_iff _ _ _ _ _).mp finished
      obtain ⟨rfl, rfl⟩ := (Job.pure_eq_ok_iff _ _ _ _).mp ended
      obtain ⟨name, digest, complete, again⟩ := formatter.render_of_complete writes _ _ before between rooted
        rendered ((Job.orFail_eq_ok_iff _ _ _ _ _).mp run)
      have rerun := again formatter.compiler later (complete.mono digest grown)
      simp only [publishSegment]
      rw [Job.bind_of_ok _ _ _ _ _ ((Job.orFail_eq_ok_iff _ _ _ _ _).mpr rerun)]
      rfl

theorem publishSegments_again (segments : List Segment) (before after : Workspace) (publication : Publication)
    (rooted : before.storage.tree.Rooted)
    (finished : formatter.publishSegments segments before = .ok publication after) (later : Workspace)
    (grown : after.storage.Grown (fun _ => True) later.storage) :
    formatter.publishSegments segments later = .ok { publication with compiled := 0 } later := by
  induction segments generalizing before publication with
  | nil =>
      obtain ⟨rfl, _⟩ := (Job.pure_eq_ok_iff _ _ _ _).mp finished
      rfl
  | cons segment rest ih =>
      simp only [publishSegments] at finished ⊢
      obtain ⟨first, between, ran, continued⟩ := (Job.bind_eq_ok_iff _ _ _ _ _).mp finished
      obtain ⟨others, last, remaining, ended⟩ := (Job.bind_eq_ok_iff _ _ _ _ _).mp continued
      obtain ⟨rfl, rfl⟩ := (Job.pure_eq_ok_iff _ _ _ _).mp ended
      have early := formatter.preserves_publishSegment _
        (formatter.grown_render writes.confined before.storage fun _ => True) segment before (.refl _ rooted)
      rw [Job.final_of_ok _ _ _ _ ran] at early
      have late := formatter.preserves_publishSegments _
        (formatter.grown_render writes.confined between.storage fun _ => True) rest between (.refl _ early.rooted)
      rw [Job.final_of_ok _ _ _ _ remaining] at late
      rw [Job.bind_of_ok _ _ _ _ _ (formatter.publishSegment_again writes segment before between first rooted
          ran later (late.trans grown)),
        Job.bind_of_ok _ _ _ _ _ (ih between others early.rooted remaining)]
      rfl

theorem lasting_of_process (input : Text) (before after : Workspace) (document : ProcessedDocument)
    (rooted : before.storage.tree.Rooted)
    (finished : formatter.process input before = .ok document after) :
    formatter.Lasting input document after.storage := by
  intro later grown
  simp only [process] at finished ⊢
  cases scanned : (Scanner.new.scanLines (Text.lines input)).2 with
  | error error =>
      simp only [scanned] at finished
      exact absurd finished (Job.throw_ne_ok _ _ _ _)
  | ok content =>
      simp only [scanned] at finished
      obtain ⟨publication, last, published, ended⟩ := (Job.bind_eq_ok_iff _ _ _ _ _).mp finished
      obtain ⟨rfl, rfl⟩ := (Job.pure_eq_ok_iff _ _ _ _).mp ended
      have again := formatter.publishSegments_again writes _ before last publication rooted published later grown
      simp only [Job.bind_of_ok _ _ _ _ _ again]
      rfl

omit writes

theorem Lasting.mono {formatter : Formatter} {input : Text} {document : ProcessedDocument} {before after : Storage}
    (lasting : formatter.Lasting input document before) (grown : before.Grown (fun _ => True) after) :
    formatter.Lasting input document after :=
  fun later still => lasting later (grown.trans still)

/-- A file was processed into another, and both are as they were then. -/
structure Built (source target : PathName) (document : ProcessedDocument) (storage : Storage) : Prop where
  input : ∃ content text, storage.read source = .ok content ∧ Text.decode? content = some text ∧
    formatter.Lasting text document storage
  directory : ∀ parent, target.parent? = some parent → parent.text = [] ∨ storage.isDirectory parent = true
  output : storage.read target = .ok (Text.encode document.output)

variable {formatter} {source target : PathName} {document : ProcessedDocument}

theorem Built.mono {before after : Storage} (built : formatter.Built source target document before)
    (grown : before.Grown (fun _ => True) after)
    (same : ∀ path ∈ [source, target], ∀ content, before.read path = .ok content → after.read path = .ok content) :
    formatter.Built source target document after := by
  obtain ⟨content, text, found, decoded, lasting⟩ := built.input
  refine ⟨⟨content, text, same source (by simp) _ found, decoded, lasting.mono grown⟩, ?_, ?_⟩
  · exact fun parent cut => (built.directory parent cut).imp_right (grown.isDirectory parent)
  · exact same target (by simp) _ built.output

theorem built_of_processFile (writes : formatter.compiler.WritesFile) (before after : Workspace)
    (rooted : before.storage.tree.Rooted) (markdown : IsMarkdown (before.storage.place source))
    (apart : before.storage.place source ≠ before.storage.place target)
    (finished : formatter.processFile source target before = .ok document after) :
    formatter.Built source target document after.storage := by
  have whole := formatter.grown_processFile writes.confined before.storage (· = before.storage.place target) source
    target rfl before (.refl _ rooted)
  rw [Job.final_of_ok _ _ _ _ finished] at whole
  cases found : before.storage.read source with
  | error cause =>
      have illegible : before.storage.readText source = .error cause := by simp only [Storage.readText, found]
      rw [formatter.processFile_of_unreadable source target before cause illegible] at finished
      simp at finished
  | ok content =>
      cases decoded : Text.decode? content with
      | none =>
          have illegible : before.storage.readText source = .error .invalidText := by
            simp only [Storage.readText, found, decoded]
          rw [formatter.processFile_of_unreadable source target before _ illegible] at finished
          simp at finished
      | some text =>
          rw [formatter.processFile_of_text source target before content text found decoded] at finished
          obtain ⟨processed, between, ran, delivered⟩ := (Job.bind_eq_ok_iff _ _ _ _ _).mp finished
          have early := formatter.preserves_process _
            (formatter.grown_render writes.confined before.storage fun _ => True)
            text before (.refl _ rooted)
          rw [Job.final_of_ok _ _ _ _ ran] at early
          obtain ⟨rfl, made, making, written⟩ := deliver_eq_ok _ _ _ _ _ early.rooted delivered
          obtain ⟨mode, leads, _⟩ := Storage.write_eq_ok _ _ _ _ written
          have readable := Storage.read_of_write _ _ _ _ written
          have writing : made.Grown (fun _ => True) after.storage :=
            .of_write making.rooted target _ written fun _ => trivial
          have late : between.storage.Grown (fun _ => True) after.storage :=
            .trans (.of_keeps [] making (by simp) (by simp)) writing
          refine ⟨⟨content, text, whole.read source markdown apart content found, decoded, ?_⟩, ?_, readable⟩
          · exact (formatter.lasting_of_process writes text before between _ rooted ran).mono late
          · exact fun parent cut => (made.isDirectory_of_parent? target parent _ cut leads).imp_right
              (writing.isDirectory parent)

/-- A file that was processed once is processed again, and nothing changes. -/
theorem Built.again (workspace : Workspace) (rooted : workspace.storage.tree.Rooted)
    (built : formatter.Built source target document workspace.storage) :
    ∃ after, workspace.storage.Same after ∧ formatter.processFile source target workspace =
      .ok { document with compiled := 0 } { workspace with storage := after } := by
  obtain ⟨content, text, found, decoded, lasting⟩ := built.input
  obtain ⟨after, written, same⟩ := workspace.storage.same_write target _ built.output
  refine ⟨after, same, ?_⟩
  have writing : (Job.change (·.write target (Text.encode document.output)) : Job FileError Unit) workspace =
      .ok () { workspace with storage := after } :=
    (Job.change_eq_ok_iff _ _ _ _).mpr ⟨after, written, rfl⟩
  have delivered : deliver { document with compiled := 0 } target workspace =
      .ok { document with compiled := 0 } { workspace with storage := after } := by
    cases cut : target.parent? with
    | none =>
        simp only [deliver, cut]
        rw [Job.bind_of_ok _ _ _ _ _ ((Job.orFail_eq_ok_iff _ _ _ _ _).mpr writing)]
        rfl
    | some parent =>
        have making : Job.makeDirectories parent workspace = .ok () workspace := by
          simp only [Job.makeDirectories,
            workspace.storage.makeDirectories_of_isDirectory parent (built.directory parent cut)]
        simp only [deliver, cut]
        rw [Job.bind_of_ok _ _ _ _ _ ((Job.orFail_eq_ok_iff _ _ _ _ _).mpr making),
          Job.bind_of_ok _ _ _ _ _ ((Job.orFail_eq_ok_iff _ _ _ _ _).mpr writing)]
        rfl
  rw [formatter.processFile_of_text source target workspace content text found decoded,
    Job.bind_of_ok _ _ _ _ _ (lasting workspace (.refl _ rooted)), delivered]

variable {documents output : PathName}

/-- Documents whose targets are places of their own. -/
structure Spread (documents output : PathName) (paths : List PathName) (storage : Storage) : Prop where
  once : paths.Nodup
  markdown : ∀ path ∈ paths, IsMarkdown (storage.place path) ∧
    IsMarkdown (storage.place (targetOf documents output path))
  sources : ∀ path ∈ paths, ∀ other ∈ paths,
    storage.place path ≠ storage.place (targetOf documents output other)
  targets : ∀ first ∈ paths, ∀ second ∈ paths,
    storage.place (targetOf documents output first) = storage.place (targetOf documents output second) →
      first = second

theorem Spread.rest {path : PathName} {rest : List PathName} {before after : Storage}
    (spread : Spread documents output (path :: rest) before)
    (same : after.workingDirectory = before.workingDirectory) : Spread documents output rest after := by
  have place := Storage.place_congr before after same
  have later : ∀ other ∈ rest, other ∈ path :: rest := fun _ => List.mem_cons_of_mem path
  refine ⟨(List.nodup_cons.mp spread.once).2, ?_, ?_, ?_⟩
  · simp only [place]
    exact fun other member => spread.markdown other (later _ member)
  · simp only [place]
    exact fun other member another inside => spread.sources other (later _ member) another (later _ inside)
  · simp only [place]
    exact fun first member second inside => spread.targets first (later _ member) second (later _ inside)

/-- Neither a document nor its target is written to when others are processed. -/
theorem Spread.outside {path : PathName} {rest : List PathName} {storage : Storage}
    (spread : Spread documents output (path :: rest) storage) (known : PathName)
    (either : known ∈ [path, targetOf documents output path]) :
    IsMarkdown (storage.place known) ∧
      ∀ other ∈ rest, storage.place known ≠ storage.place (targetOf documents output other) := by
  have inside : path ∈ path :: rest := List.mem_cons_self
  have fresh := (List.nodup_cons.mp spread.once).1
  rcases List.mem_pair.mp either with rfl | rfl
  · exact ⟨(spread.markdown known inside).1,
      fun other member => spread.sources known inside other (List.mem_cons_of_mem known member)⟩
  · refine ⟨(spread.markdown path inside).2, fun other member same => ?_⟩
    have wrong := spread.targets path inside other (List.mem_cons_of_mem path member) same
    exact fresh (wrong ▸ member)

/-- A run in which no document fails leaves each of them built. -/
theorem built_of_processMembers (writes : formatter.compiler.WritesFile) (paths : List PathName)
    (before : Workspace) (rooted : before.storage.tree.Rooted)
    (spread : Spread documents output paths before.storage)
    (clean : (formatter.processMembers documents output paths before).1.failures = []) :
    ∃ documentOf : PathName → ProcessedDocument,
      (formatter.processMembers documents output paths before).1.processed =
        paths.map (fun path => (targetOf documents output path, documentOf path)) ∧
      ∀ path ∈ paths, formatter.Built path (targetOf documents output path) (documentOf path)
        (formatter.processMembers documents output paths before).2.storage := by
  induction paths generalizing before with
  | nil => exact ⟨fun _ => ⟨[], [], 0, 0⟩, rfl, by simp⟩
  | cons path rest ih =>
      rw [processMembers_cons] at clean ⊢
      simp only [processMember] at clean ⊢
      cases result : formatter.processFile path (targetOf documents output path) before with
      | error error after => simp [result, CollectionReport.append] at clean
      | ok document between =>
          simp only [result, CollectionReport.append, List.nil_append] at clean ⊢
          have step := formatter.grown_processFile writes.confined before.storage
            (· = before.storage.place (targetOf documents output path)) path _ rfl before (.refl _ rooted)
          rw [Job.final_of_ok _ _ _ _ result] at step
          obtain ⟨documentOf, processed, built⟩ := ih between step.rooted (spread.rest step.sameDirectory) clean
          have first := built_of_processFile writes before between rooted
            (spread.markdown path List.mem_cons_self).1
            (spread.sources path List.mem_cons_self path List.mem_cons_self) result
          have later := formatter.grown_processMembers documents output writes.confined rest between step.rooted
          have fresh := (List.nodup_cons.mp spread.once).1
          have other : ∀ member ∈ rest, member ≠ path := fun member inside same => fresh (same ▸ inside)
          refine ⟨fun member => if member = path then document else documentOf member, ?_, ?_⟩
          · simp only [List.map_cons, if_true, List.singleton_append, processed]
            congr 1
            exact List.map_congr_left fun member inside => by rw [if_neg (other member inside)]
          · intro member inside
            rcases List.mem_cons.mp inside with rfl | inRest
            · simp only [if_true]
              refine first.mono (later.mono fun _ _ => trivial) fun known either => ?_
              obtain ⟨markdown, apart⟩ := spread.outside known either
              refine later.read known (by rwa [step.place_eq]) ?_
              rintro ⟨another, inRest, same⟩
              rw [step.place_eq, step.place_eq] at same
              exact apart another inRest same
            · simp only [if_neg (other member inRest)]
              exact built member inRest

/-- A run over built documents gives them again and changes nothing. -/
theorem processMembers_of_built (documentOf : PathName → ProcessedDocument) (paths : List PathName)
    (workspace : Workspace) (rooted : workspace.storage.tree.Rooted)
    (built : ∀ path ∈ paths,
      formatter.Built path (targetOf documents output path) (documentOf path) workspace.storage) :
    ∃ after, workspace.storage.Same after ∧ formatter.processMembers documents output paths workspace =
      (⟨paths.map fun path => (targetOf documents output path, { documentOf path with compiled := 0 }), []⟩,
        { workspace with storage := after }) := by
  induction paths generalizing workspace with
  | nil => exact ⟨workspace.storage, .refl _, rfl⟩
  | cons path rest ih =>
      obtain ⟨between, same, run⟩ := (built path List.mem_cons_self).again workspace rooted
      have grown : workspace.storage.Grown (fun _ => True) between := same.grown rooted
      obtain ⟨after, still, later⟩ := ih { workspace with storage := between } grown.rooted fun other member =>
        (built other (List.mem_cons_of_mem _ member)).mono grown fun known _ => same.read known
      refine ⟨after, same.trans still, ?_⟩
      simp only [processMembers_cons, processMember, run, later]
      rfl

end Formatter

end FencePreview
