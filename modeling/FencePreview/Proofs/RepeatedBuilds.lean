import FencePreview.CommandLine.Run
import FencePreview.Proofs.BuiltDocuments
import FencePreview.Proofs.MirroredTree
import Mathlib.Data.List.Nodup

/-! Building a project twice. If no output lies below the directory of documents, the second build lists the
same documents, finds every image and every output, and changes nothing. -/

namespace FencePreview

theorem FileTree.Single.edited {before after : FileTree} (single : before.Single) (edits : before.Edited after) :
    after.Single := by
  induction edits with
  | none => exact single
  | insert tree location entry _ ih =>
      simp only [Single, FileTree.insert, List.map_append, List.map_cons, List.map_nil, List.nodup_append]
      refine ⟨ih.sublist (List.filter_sublist.map _), by simp, ?_⟩
      intro place member other same
      obtain ⟨binding, inside, rfl⟩ := List.mem_map.mp member
      rw [List.mem_singleton.mp same]
      simpa using (List.mem_filter.mp inside).2
  | erase tree location _ ih => exact ih.sublist (List.filter_sublist.map _)

/-- A compiler after whose call no location has two entries. -/
def Compiler.KeepsSingle (compiler : Compiler) : Prop :=
  ∀ calls document output storage, storage.tree.Single →
    (compiler calls document output storage).storage.tree.Single

theorem Compiler.keepsSingle_writing (image : Text → ByteArray) : (Compiler.writing image).KeepsSingle := by
  intro calls document output storage single
  simp only [writing, Compilation.ofResult]
  cases written : storage.write output (image document) with
  | ok changed => exact single.edited (Storage.edited_write _ _ _ _ written)
  | error cause => exact single

namespace Sources

/-- The place below which documents are searched. A path without text means the root. -/
def top (storage : Storage) (directory : PathName) : Location :=
  if directory.text = [] then [] else storage.place directory

variable (before after : Storage) (rooted : before.tree.Rooted) (single : before.tree.Single)
  (named : before.tree.Named) (directory : PathName) (filled : directory.text ≠ [])
  (some? : markdownFiles before directory ≠ [])

include rooted single named filled some?

/-- As long as no document below a directory comes or goes, it is listed alike. -/
theorem markdownFiles_again {written : Location → Prop} (grown : before.Grown written after)
    (still : after.tree.Single) (outside : ∀ below, ¬written (before.place directory ++ below)) :
    (markdownFiles after directory).Perm (markdownFiles before directory) := by
  obtain ⟨_, scope, reached, leads, inside, perm⟩ :=
    markdownFiles_perm_of_ne_nil before rooted single named directory filled some?
  have same : ∀ below, below ∈ Sources.below after.tree (before.place directory) ↔
      below ∈ Sources.below before.tree (before.place directory) := by
    intro below
    rw [mem_below_iff _ still, mem_below_iff _ single]
    refine and_congr_right fun markdown => ?_
    rw [grown.documents _ (markdown.append _) (outside below)]
  have begins : (start directory).1.text ≠ [] := by
    simp only [start]
    split <;> simp [currentDirectory]
  have whole : ∀ piece ∈ (start directory).2, '/' ∉ piece := by
    intro piece member
    refine Text.not_mem_of_mem_splitAtEach '/' directory.text piece ?_
    simp only [start] at member
    split at member
    · exact List.mem_of_mem_tail member
    · exact member
  obtain ⟨_, again⟩ := reach?_mono before after grown.sameDirectory grown.directories _ scope begins _ whole reached
    ((Storage.isDirectory_eq_true_iff _ _).mpr ⟨_, leads, inside⟩)
  refine ((markdownFiles_perm_of_reach? after directory scope _ filled ?_ again
    (Storage.resolve_mono _ _ grown.sameDirectory grown.directories _ _ leads)).trans ?_).trans perm.symm
  · exact fun below member => (proper_of_mem_below before.tree single named _ below ((same below).mp member)).2
  · refine List.Perm.map _ ((List.perm_ext_iff_of_nodup ?_ ?_).mpr same)
    · exact nodup_below after.tree still _
    · exact nodup_below before.tree single _

/-- The listed documents have targets of their own. -/
theorem spread_markdownFiles (output : PathName)
    (outside : ∀ path ∈ markdownFiles before directory,
      ¬before.place directory <+: before.place (targetOf directory output path)) :
    Formatter.Spread directory output (markdownFiles before directory) before := by
  obtain ⟨listable, _, _, _, _, perm⟩ :=
    markdownFiles_perm_of_ne_nil before rooted single named directory filled some?
  have proper := proper_of_mem_below before.tree single named (before.place directory)
  have listed : ∀ path ∈ markdownFiles before directory, ∃ below, path = spelled directory below ∧
      IsMarkdown below ∧ before.place path = before.place directory ++ below ∧
      before.place (targetOf directory output path) = destinationTop before directory output ++ below := by
    intro path member
    obtain ⟨below, inside, rfl⟩ := List.mem_map.mp (perm.mem_iff.mp member)
    obtain ⟨unempty, names⟩ := proper below inside
    refine ⟨below, rfl, ((mem_below_iff before.tree single _ below).mp inside).1, ?_, ?_⟩
    · exact place_spelled directory below unempty names before filled
    · rw [targetOf_spelled directory output below unempty names filled listable]
      exact place_destination directory output below unempty names before filled
  refine ⟨?_, ?_, ?_, ?_⟩
  · refine perm.nodup_iff.mpr ((nodup_below before.tree single _).map_on ?_)
    intro first here second there same
    exact spelled_injective directory first second (proper first here).1 (proper first here).2
      (proper second there).1 (proper second there).2 same
  · intro path member
    obtain ⟨below, _, markdown, source, target⟩ := listed path member
    rw [source, target]
    exact ⟨markdown.append _, markdown.append _⟩
  · intro path member other inside same
    obtain ⟨below, _, _, source, _⟩ := listed path member
    exact outside other inside ⟨below, source.symm.trans same⟩
  · intro first member second inside same
    obtain ⟨left, rfl, _, _, here⟩ := listed first member
    obtain ⟨right, rfl, _, _, there⟩ := listed second inside
    rw [here, there] at same
    rw [List.append_cancel_left same]

end Sources

def Workspace.Single (workspace : Workspace) : Prop := workspace.storage.tree.Single

theorem Workspace.Single.edited (workspace : Workspace) (storage : Storage)
    (edits : workspace.storage.tree.Edited storage.tree) (single : workspace.Single) :
    Workspace.Single { workspace with storage } :=
  FileTree.Single.edited single edits

namespace Formatter

theorem single_render (formatter : Formatter) (tidy : formatter.compiler.KeepsSingle) (source : Text)
    (attributes : Attributes) : Job.Preserves Workspace.Single (formatter.render source attributes) := by
  refine formatter.preserves_render_of Workspace.Single source attributes ?_ ?_ ?_
  · exact fun path _ => .makeDirectories Workspace.Single Workspace.Single.edited path
  · intro settings _ variant document
    refine .placeFile Workspace.Single Workspace.Single.edited _ _ _ _ fun path before single => ?_
    simp only [Workspace.Single, Compiler.compile_final_storage]
    exact tidy _ _ _ _ single
  · intro light variant
    refine formatter.preserves_publishOne_of Workspace.Single _ variant
      (.placeFile Workspace.Single Workspace.Single.edited _ _ _ _ fun path => ?_)
    exact .change Workspace.Single Workspace.Single.edited _ fun _ _ => Storage.edited_copy _ _ _ _

theorem single_processMembers (formatter : Formatter) (tidy : formatter.compiler.KeepsSingle)
    (documents output : PathName) (paths : List PathName) (before : Workspace)
    (single : before.storage.tree.Single) :
    (formatter.processMembers documents output paths before).2.storage.tree.Single := by
  refine formatter.preserves_processMembers documents output Workspace.Single paths (fun path _ => ?_) before single
  exact formatter.preserves_processFile Workspace.Single path _ (formatter.single_render tidy)
    (.makeDirectories Workspace.Single Workspace.Single.edited)
    fun content => .change Workspace.Single Workspace.Single.edited _ fun _ _ => Storage.edited_write _ _ _ _

/-- Where no document fails, nothing is added to the log. -/
theorem processCollection_of_clean (formatter : Formatter) (documents output : PathName) (paths : List PathName)
    (start : Workspace) (listed : markdownFiles start.storage documents = paths)
    (clean : (formatter.processMembers documents output paths start).1.failures = []) :
    formatter.processCollection documents output start =
      formatter.processMembers documents output paths start := by
  let run := formatter.processMembers documents output paths start
  have members : formatter.processCollection documents output start =
      (run.1, { run.2 with log := run.2.log ++ run.1.failures.map failureEntry }) := by
    subst listed
    rfl
  rw [members, show run.1.failures = [] from clean]
  simp only [List.map_nil, List.append_nil]
  rfl

/-- A build without a failure, of which no output lies below the directory of documents, is repeated by the
next one without a compiler call, and every file is left as it was. -/
theorem processCollection_again (config : Config) (compiler : Compiler) (writes : compiler.WritesFile)
    (tidy : compiler.KeepsSingle) (start : Workspace) (rooted : start.storage.tree.Rooted)
    (single : start.storage.tree.Single) (named : start.storage.tree.Named)
    (outside : ∀ path ∈ markdownFiles start.storage config.documents,
      ¬Sources.top start.storage config.documents <+:
        start.storage.place (targetOf config.documents config.buildDirectory path)) :
    let formatter := { CommandLine.formatterOf config with compiler }
    let first := formatter.processCollection config.documents config.buildDirectory start
    let second := formatter.processCollection config.documents config.buildDirectory first.2
    first.1.failures = [] →
      second.1.failures = [] ∧ second.1.processed.Perm first.1.uncounted.processed ∧
        second.2.compiled = first.2.compiled ∧ second.2.log = first.2.log ∧
        first.2.storage.Same second.2.storage := by
  intro formatter first second clean
  let paths := markdownFiles start.storage config.documents
  let run := formatter.processMembers config.documents config.buildDirectory paths start
  have silent : run.1.failures = [] := clean
  have once : first = run := formatter.processCollection_of_clean _ _ paths start rfl silent
  rw [once]
  -- Without documents nothing says where the directory of documents lies, but the run changes nothing.
  by_cases none : paths = []
  · have stays : run = (.empty, start) := by
      simp only [run, none]
      rfl
    have twice : second = (.empty, start) := by
      simp only [second, once, stays]
      exact formatter.processCollection_of_clean _ _ [] start none rfl
    rw [stays, twice]
    exact ⟨rfl, .refl _, rfl, rfl, .refl _⟩
  · have filled : config.documents.text ≠ [] := by
      intro bare
      obtain ⟨path, member⟩ := List.exists_mem_of_ne_nil _ none
      exact outside path member (by simp [Sources.top, bare])
    simp only [Sources.top, if_neg filled] at outside
    have spread := Sources.spread_markdownFiles start.storage rooted single named config.documents filled none
      config.buildDirectory outside
    obtain ⟨documentOf, processed, built⟩ := built_of_processMembers writes paths start rooted spread silent
    have grown := formatter.grown_processMembers config.documents config.buildDirectory writes.confined paths start
      rooted
    have relisted := Sources.markdownFiles_again start.storage run.2.storage rooted single named config.documents
      filled none grown (formatter.single_processMembers tidy _ _ paths start single) (by
        rintro below ⟨path, member, same⟩
        exact outside path member ⟨below, same⟩)
    obtain ⟨after, same, again⟩ := processMembers_of_built documentOf _ run.2 grown.rooted fun path member =>
      built path (relisted.mem_iff.mp member)
    have twice : second = formatter.processMembers config.documents config.buildDirectory
        (markdownFiles run.2.storage config.documents) run.2 := by
      simp only [second, once]
      exact formatter.processCollection_of_clean _ _ _ run.2 rfl (by rw [again])
    rw [twice, again]
    refine ⟨rfl, ?_, rfl, rfl, same⟩
    rw [CollectionReport.uncounted, processed, List.map_map]
    exact relisted.map _

/-- Two documents with a preview in common, which the first build compiles once. -/
theorem processCollection_again_shared :
    let start := sampleStart [("a.md".toList, previewText), ("b.md".toList, previewText)]
    ∃ config,
      Config.load start.storage [] none (some { Overrides.none with siteUrl := some ['/'] }) = .ok config ∧
      let formatter := { CommandLine.formatterOf config with compiler := .writing fun _ => ByteArray.empty }
      let first := formatter.processCollection config.documents config.buildDirectory start
      let second := formatter.processCollection config.documents config.buildDirectory first.2
      first.1.processed.map (fun (target, document) => (target, document.previews, document.compiled)) =
          [(.ofString "/.tpv/build/a.md", 1, 1), (.ofString "/.tpv/build/b.md", 1, 0)] ∧
        first.2.compiled.length = 2 ∧
        second.1.failures = [] ∧ second.1.processed.Perm first.1.uncounted.processed ∧
        second.2.compiled = first.2.compiled ∧ second.2.log = first.2.log ∧
        first.2.storage.Same second.2.storage := by
  intro start
  let config := { Config.ofSettings .default (Storage.pathOf []) none with siteUrl := some ['/'] }
  refine ⟨config, rfl, ?_⟩
  intro formatter first second
  let one := PathName.ofString "/docs/a.md"
  let two := PathName.ofString "/docs/b.md"
  have files : markdownFiles start.storage config.documents = [one, two] :=
    markdownFiles_eq _ _ _ (.ofString "/docs") _ _ rfl (by decide +kernel) (by decide +kernel) (by decide +kernel)
  have render : formatter.render (sourceOf pairFence [['x']]) (Attributes.ofInfo pairFence.info).2 = _ :=
    formatter.render_eq_smallDigits rfl rfl
  have shown := formatter.process_eq_of_cut _ _ reading_previewText.1 reading_previewText.2.2
  simp only [publishSegments, publishSegment, render] at shown
  have turn := fun path before => formatter.processMember_of_text config.documents config.buildDirectory path
    before _ _ shown
  let run := formatter.processMembers config.documents config.buildDirectory [one, two] start
  have evaluated : run = _ := formatter.processMembers_pair config.documents config.buildDirectory one two start
  rw [turn one _ (readText_of_encoded _ _ _ (by decide +kernel)),
    turn two _ (readText_of_encoded _ _ _ (by decide +kernel))] at evaluated
  have outcome : run.1.failures = [] ∧
      run.1.processed.map (fun (target, document) => (target, document.previews, document.compiled)) =
        [(.ofString "/.tpv/build/a.md", 1, 1), (.ofString "/.tpv/build/b.md", 1, 0)] ∧
      run.2.compiled.length = 2 := by
    rw [evaluated]
    decide +kernel
  have single : start.storage.tree.Single := by
    unfold FileTree.Single
    decide +kernel
  have named : start.storage.tree.Named := by
    refine named_sampleStart _ ?_
    simp only [List.forall_mem_cons]
    exact ⟨⟨by decide, by decide, by decide⟩, ⟨by decide, by decide, by decide⟩, by simp⟩
  have outside : ∀ path ∈ markdownFiles start.storage config.documents,
      ¬Sources.top start.storage config.documents <+:
        start.storage.place (targetOf config.documents config.buildDirectory path) := by
    rw [files]
    decide +kernel
  have once : first = run := formatter.processCollection_of_clean _ _ _ start files outcome.1
  rw [← once] at outcome
  have again := processCollection_again config (.writing fun _ => ByteArray.empty)
    (Compiler.onlyFile_writing _).writesFile (Compiler.keepsSingle_writing _) start (rooted_sampleStart _)
    single named outside
  dsimp only at again
  dsimp only [first, second, formatter] at outcome ⊢
  obtain ⟨clean, counts, calls⟩ := outcome
  exact ⟨counts, calls, again clean⟩

/-- One document, whose images are on the site from before. -/
def publishedDocument : Workspace :=
  let file := Entry.file (Text.encode previewText) FileTree.fileMode
  let documents := publishedStart.storage.tree.insert ["docs".toList] (.directory FileTree.directoryMode)
  ⟨⟨documents.insert ["docs".toList, "a.md".toList] file, []⟩, [], []⟩

/-- A compiler that leaves directories is called by every build. -/
theorem processCollection_leavingDirectory :
    let start := publishedDocument
    ∃ config,
      Config.load start.storage [] none (some { Overrides.none with siteUrl := some ['/'] }) = .ok config ∧
      let formatter := { CommandLine.formatterOf config with compiler := .leavingDirectory }
      let first := formatter.processCollection config.documents config.buildDirectory start
      let second := formatter.processCollection config.documents config.buildDirectory first.2
      first.1.failures = [] ∧ first.2.compiled.length = 2 ∧ second.2.compiled.length = 4 := by
  intro start
  let config := { Config.ofSettings .default (Storage.pathOf []) none with siteUrl := some ['/'] }
  refine ⟨config, rfl, ?_⟩
  intro formatter first second
  let path := PathName.ofString "/docs/a.md"
  have render : formatter.render (sourceOf pairFence [['x']]) (Attributes.ofInfo pairFence.info).2 = _ :=
    formatter.render_eq_smallDigits rfl rfl
  have shown := formatter.process_eq_of_cut _ _ reading_previewText.1 reading_previewText.2.2
  simp only [publishSegments, publishSegment, render] at shown
  have turn := fun before stored => (formatter.processMembers_single config.documents config.buildDirectory path
    before).trans (formatter.processMember_of_text _ _ path before _ _ shown (readText_of_encoded _ _ _ stored))
  let begins := Sources.start config.documents
  let docs := PathName.ofString "/docs"
  have lists : ∀ storage : Storage, Sources.reach? storage begins.1 begins.2 = some docs ∧
      Sources.inside storage docs = [path] → markdownFiles storage config.documents = [path] := fun storage found =>
    markdownFiles_eq storage _ begins.1 docs begins.2 _ rfl found.1 found.2 (List.pairwise_singleton _ _)
  let run := formatter.processMembers config.documents config.buildDirectory [path] start
  have early : run = _ := turn start (by decide +kernel)
  have outcome : run.1.failures = [] ∧ run.2.compiled.length = 2 ∧
      (Sources.reach? run.2.storage begins.1 begins.2 = some docs ∧
        Sources.inside run.2.storage docs = [path]) ∧
      run.2.storage.read path = .ok (Text.encode previewText) := by
    rw [early]
    decide +kernel
  obtain ⟨clean, calls, relisted, stored⟩ := outcome
  have once : first = run :=
    formatter.processCollection_of_clean _ _ [path] start (lists _ (by decide +kernel)) clean
  let again := formatter.processMembers config.documents config.buildDirectory [path] run.2
  have late : again = _ := turn run.2 stored
  have repeated : again.1.failures = [] ∧ again.2.compiled.length = 4 := by
    rw [late, early]
    decide +kernel
  have twice : second = again := by
    simp only [second, once]
    exact formatter.processCollection_of_clean _ _ [path] run.2 (lists _ relisted) repeated.1
  rw [once, twice]
  exact ⟨clean, calls, repeated.2⟩

/-- The directory of documents is the one of the project, and the output lies in it. The second build takes
the output of the first for a document. With a compiler that leaves directories, it compiles again. -/
theorem processCollection_relists :
    let file := Entry.file (Text.encode "a\n".toList) FileTree.fileMode
    let start : Workspace := ⟨⟨⟨[([".github".toList], .directory FileTree.directoryMode),
      ([".github".toList, "a.md".toList], file)]⟩, []⟩, [], []⟩
    (∃ config,
      Config.load start.storage [] none (some { Overrides.none with documents := some (.ofString ".") }) =
        .ok config ∧
      let formatter := { CommandLine.formatterOf config with compiler := .writing fun _ => ByteArray.empty }
      let first := formatter.processCollection config.documents config.buildDirectory start
      let second := formatter.processCollection config.documents config.buildDirectory first.2
      first.1.failures = [] ∧
        first.1.processed.map Prod.fst = [.ofString "/.tpv/build/.github/a.md"] ∧
        second.1.processed.map Prod.fst =
          [.ofString "/.tpv/build/.github/a.md", .ofString "/.tpv/build/.tpv/build/.github/a.md"]) ∧
      Compiler.leavingDirectory.OnlyOutput ∧
      ∃ config,
        Config.load publishedDocument.storage [] none (some { Overrides.none with siteUrl := some ['/'] }) =
          .ok config ∧
        let formatter := { CommandLine.formatterOf config with compiler := .leavingDirectory }
        let first := formatter.processCollection config.documents config.buildDirectory publishedDocument
        let second := formatter.processCollection config.documents config.buildDirectory first.2
        first.1.failures = [] ∧ first.2.compiled.length = 2 ∧ second.2.compiled.length = 4 := by
  intro file start
  refine ⟨?_, Compiler.onlyOutput_leavingDirectory, processCollection_leavingDirectory⟩
  let config := { Config.ofSettings .default (Storage.pathOf []) none with documents := .ofString "." }
  refine ⟨config, rfl, ?_⟩
  intro formatter first second
  let source := PathName.ofString ".github/a.md"
  let output := PathName.ofString ".tpv/build/.github/a.md"
  let run := formatter.processMembers config.documents config.buildDirectory [source] start
  have files : markdownFiles start.storage config.documents = [source] :=
    markdownFiles_eq _ _ _ Sources.currentDirectory _ _ rfl (by decide +kernel) (by decide +kernel)
      (by decide +kernel)
  have once : first = run := formatter.processCollection_of_clean _ _ _ start files (by decide +kernel)
  have later : markdownFiles run.2.storage config.documents = [source, output] :=
    markdownFiles_eq _ _ _ Sources.currentDirectory _ _ rfl (by decide +kernel) (by decide +kernel)
      (by decide +kernel)
  have twice : second = formatter.processMembers config.documents config.buildDirectory [source, output] run.2 := by
    simp only [second, once]
    exact formatter.processCollection_of_clean _ _ _ run.2 later (by decide +kernel)
  rw [once, twice]
  decide +kernel

end Formatter

end FencePreview
