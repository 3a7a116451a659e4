import FencePreview.Proofs.DocumentVerdicts

/-! Documents of a collection one after another. They share the images of equal previews and nothing
else, so each ends as it does alone, in whatever order they come. -/

namespace FencePreview

namespace CollectionReport

/-- A report without its counts of compiler calls. -/
def uncounted (report : CollectionReport) : CollectionReport :=
  { report with
    processed := report.processed.map fun (target, document) => (target, { document with compiled := 0 }) }

def append (first second : CollectionReport) : CollectionReport :=
  ⟨first.processed ++ second.processed, first.failures ++ second.failures⟩

theorem mem_uncounted (report : CollectionReport) (target : PathName) (document : ProcessedDocument)
    (member : (target, document) ∈ report.uncounted.processed) :
    ∃ counted, (target, counted) ∈ report.processed ∧ document = { counted with compiled := 0 } := by
  obtain ⟨⟨other, counted⟩, inside, same⟩ := List.mem_map.mp member
  cases same
  exact ⟨counted, inside, rfl⟩

theorem uncounted_processed_eq_nil_iff (report : CollectionReport) :
    report.uncounted.processed = [] ↔ report.processed = [] := List.map_eq_nil_iff

theorem uncounted_append (first second : CollectionReport) :
    (first.append second).uncounted = first.uncounted.append second.uncounted := by
  simp [uncounted, append]

def ofMembers (reports : List CollectionReport) : CollectionReport :=
  ⟨reports.flatMap processed, reports.flatMap failures⟩

theorem ofMembers_concat (reports : List CollectionReport) (last : CollectionReport) :
    ofMembers (reports ++ [last]) = (ofMembers reports).append last := by
  simp [ofMembers, append]

end CollectionReport

namespace Formatter

variable (formatter : Formatter) (verdict : Text → Except CompileError ByteArray)
variable (documents output : PathName)

theorem processMembers_nil (before : Workspace) :
    formatter.processMembers documents output [] before = (.empty, before) := rfl

theorem processMembers_cons (path : PathName) (rest : List PathName) (before : Workspace) :
    formatter.processMembers documents output (path :: rest) before =
      let first := formatter.processMember documents output path before
      let later := formatter.processMembers documents output rest first.2
      (first.1.append later.1, later.2) := rfl

theorem processMembers_single (path : PathName) (before : Workspace) :
    formatter.processMembers documents output [path] before = formatter.processMember documents output path before := by
  simp only [processMembers_cons, processMembers_nil, CollectionReport.append, CollectionReport.empty,
    List.append_nil]
  rfl

theorem processMembers_append (front back : List PathName) (before : Workspace) :
    formatter.processMembers documents output (front ++ back) before =
      let first := formatter.processMembers documents output front before
      let later := formatter.processMembers documents output back first.2
      (first.1.append later.1, later.2) := by
  induction front generalizing before with
  | nil => rfl
  | cons path rest ih => simp [processMembers_cons, ih, CollectionReport.append]

theorem processMembers_concat (front : List PathName) (path : PathName) (before : Workspace) :
    formatter.processMembers documents output (front ++ [path]) before =
      let first := formatter.processMembers documents output front before
      let last := formatter.processMember documents output path first.2
      (first.1.append last.1, last.2) := by
  simp only [processMembers_append, processMembers_single]

theorem processMembers_pair (first second : PathName) (before : Workspace) :
    formatter.processMembers documents output [first, second] before =
      ((formatter.processMember documents output first before).1.append
          (formatter.processMember documents output second
            (formatter.processMember documents output first before).2).1,
        (formatter.processMember documents output second
          (formatter.processMember documents output first before).2).2) := by
  rw [← processMembers_single, ← processMembers_single]
  exact formatter.processMembers_append documents output [first] [second] before

theorem processMembers_of_error (path : PathName) (before after : Workspace) (error : DocumentError)
    (failed : formatter.processFile path (targetOf documents output path) before = .error error after) :
    formatter.processMembers documents output [path] before = (⟨[], [(path, error)]⟩, after) := by
  simp only [processMembers_single, processMember, failed]

theorem mem_failures_of_error (front back : List PathName) (path : PathName) (start after : Workspace)
    (error : DocumentError)
    (failed : formatter.processFile path (targetOf documents output path)
      (formatter.processMembers documents output front start).2 = .error error after) :
    (path, error) ∈ (formatter.processMembers documents output (front ++ path :: back) start).1.failures := by
  rw [processMembers_append]
  simp [processMembers_cons, processMember, failed, CollectionReport.append]

/-- The report and the workspace that the job of one document ends with. -/
def conclude (path target : PathName) (job : Job DocumentError ProcessedDocument) :
    StateM Workspace CollectionReport := fun workspace =>
  match job workspace with
  | .ok document changed => (⟨[(target, document)], []⟩, changed)
  | .error error changed => (⟨[], [(path, error)]⟩, changed)

/-- A document of known text, with the job that publishing this text is. -/
theorem processMember_of_text (path : PathName) (before : Workspace) (text : Text)
    (job : Job DocumentError ProcessedDocument) (runs : formatter.process text = job)
    (legible : before.storage.readText path = .ok text) :
    formatter.processMember documents output path before =
      conclude path (targetOf documents output path)
        (job >>= fun document => deliver document (targetOf documents output path)) before := by
  have run := formatter.processFile_of_readText path (targetOf documents output path) before text legible
  rw [runs] at run
  change conclude path _ (formatter.processFile path _) before = _
  rw [conclude, conclude, run]

/-- A collection whose documents have nothing in common but the images of equal previews, before any of
these is made. -/
structure Separate (storage : Storage) : Prop where
  rooted : storage.tree.Rooted
  named : ∀ name ∈ storage.workingDirectory, IsName name
  vacant : formatter.artifacts.Vacant storage
  targets : ∀ first ∈ markdownFiles storage documents, ∀ second ∈ markdownFiles storage documents,
    storage.place (targetOf documents output first) = storage.place (targetOf documents output second) →
      first = second
  sources : ∀ source ∈ markdownFiles storage documents, ∀ path ∈ markdownFiles storage documents,
    storage.place source ≠ storage.place (targetOf documents output path)
  /-- Pages of the documents have different names. -/
  pages : Set.InjOn fingerprint {light | ∃ path ∈ markdownFiles storage documents, ∃ text,
    storage.readText path = .ok text ∧ ∃ page ∈ formatter.pages text, light = page .light}

/-- No document fails for another reason than its own content, wherever its turn comes. -/
def Spared (order : List PathName) (start : Workspace) : Prop :=
  ∀ front path back, order = front ++ path :: back → ∀ error after,
    let before := (formatter.processMembers documents output front start).2
    formatter.processFile path (targetOf documents output path) before = .error error after →
      error.Own verdict path before after

def settleAt (storage : Storage) (path : PathName) : Except DocumentError ProcessedDocument :=
  match storage.read path with
  | .error cause => .error (.file path cause)
  | .ok content => formatter.settleFile verdict path content

def reachAt (storage : Storage) (path : PathName) : List (Variant → Text) :=
  match storage.read path with
  | .error _ => []
  | .ok content => formatter.fileReach verdict content

def reportAt (storage : Storage) (path : PathName) : CollectionReport :=
  match formatter.settleAt verdict storage path with
  | .ok document => ⟨[(targetOf documents output path, document)], []⟩
  | .error error => ⟨[], [(path, error)]⟩

/-- Paths of the files that the document at a path leaves. -/
def changedAt (storage : Storage) (path : PathName) : List PathName :=
  (formatter.reportAt verdict documents output storage path).processed.map Prod.fst ++
    (formatter.reachAt verdict storage path).flatMap formatter.artifacts.paths

/-- What the documents in `members` leave of what was there at the start. -/
structure Handled (start : Storage) (members : List PathName) (now : Storage) : Prop where
  holds : formatter.artifacts.Holds verdict (members.flatMap (formatter.reachAt verdict start)) now
  keeps : start.Keeps (members.flatMap (formatter.changedAt verdict documents output start)) now
  outputs : ∀ path ∈ members, ∀ entry ∈ (formatter.reportAt verdict documents output start path).processed,
    IsMarkdown (start.place entry.1) ∧ now.read entry.1 = .ok (Text.encode entry.2.output)

variable {formatter verdict documents output}

theorem isMarkdown_of_mem (storage : Storage) (path : PathName)
    (member : path ∈ markdownFiles storage documents) : IsMarkdown (storage.place path) :=
  isMarkdown_place storage path (suffix_of_mem_markdownFiles storage documents path member)

theorem Separate.namedApart {storage : Storage} (separate : formatter.Separate documents output storage)
    (members : List PathName) (inside : members ⊆ markdownFiles storage documents) :
    NamedApart (members.flatMap (formatter.reachAt verdict storage)) := by
  have text : ∀ page ∈ members.flatMap (formatter.reachAt verdict storage),
      ∃ path ∈ markdownFiles storage documents, ∃ text, storage.readText path = .ok text ∧
        page ∈ formatter.pages text := by
    intro page member
    obtain ⟨path, here, reached⟩ := List.mem_flatMap.mp member
    refine ⟨path, inside here, ?_⟩
    simp only [reachAt] at reached
    split at reached
    · simp at reached
    · rename_i content found
      simp only [fileReach] at reached
      split at reached
      · simp at reached
      · rename_i text decoded
        exact ⟨text, by simp only [Storage.readText, found, decoded],
          formatter.documentReach_subset verdict text reached⟩
  intro first firstMember second secondMember same
  obtain ⟨path, here, input, readable, shown⟩ := text first firstMember
  obtain ⟨otherPath, there, otherInput, otherReadable, otherShown⟩ := text second secondMember
  have light := separate.pages ⟨path, here, input, readable, first, shown, rfl⟩
    ⟨otherPath, there, otherInput, otherReadable, second, otherShown, rfl⟩ same
  obtain ⟨_, _, rfl⟩ := formatter.exists_document_of_mem_pages input first shown
  obtain ⟨_, _, rfl⟩ := formatter.exists_document_of_mem_pages otherInput second otherShown
  funext variant
  exact Templates.render_dark_of_light _ _ _ _ _ _ variant light

theorem mem_reportAt (storage : Storage) (path : PathName) (entry : PathName × ProcessedDocument)
    (reported : entry ∈ (formatter.reportAt verdict documents output storage path).processed) :
    entry.1 = targetOf documents output path ∧
      formatter.settleAt verdict storage path = .ok entry.2 := by
  simp only [reportAt] at reported
  split at reported
  · rename_i document settled
    rw [List.mem_singleton.mp reported]
    exact ⟨rfl, settled⟩
  · simp at reported

theorem mem_changedAt (storage : Storage) (path changed : PathName)
    (member : changed ∈ formatter.changedAt verdict documents output storage path) :
    (∃ entry ∈ (formatter.reportAt verdict documents output storage path).processed, changed = entry.1) ∨
      ∀ now : Storage, formatter.artifacts.IsImage now (now.place changed) := by
  rcases List.mem_append.mp member with written | image
  · obtain ⟨entry, reported, rfl⟩ := List.mem_map.mp written
    exact .inl ⟨entry, reported, rfl⟩
  · obtain ⟨page, _, listed⟩ := List.mem_flatMap.mp image
    exact .inr fun now => formatter.artifacts.isImage_of_mem_paths now page changed listed

namespace Handled

variable {start now : Storage} {members : List PathName}

theorem nil (separate : formatter.Separate documents output start) :
    formatter.Handled verdict documents output start [] start :=
  ⟨separate.vacant.holds _ _ _ separate.rooted, .refl _ _ separate.rooted, by simp⟩

theorem read_source (separate : formatter.Separate documents output start)
    (inside : members ⊆ markdownFiles start documents)
    (handled : formatter.Handled verdict documents output start members now) (path : PathName)
    (member : path ∈ markdownFiles start documents) (content : ByteArray)
    (found : start.read path = .ok content) : now.read path = .ok content := by
  have markdown := isMarkdown_of_mem start path member
  refine handled.keeps.read _ _ _ _ _ ?_ (markdown.not_hidden _) found
  intro target changed
  obtain ⟨other, here, listed⟩ := List.mem_flatMap.mp changed
  rcases mem_changedAt start other target listed with ⟨entry, reported, rfl⟩ | image
  · rw [(mem_reportAt start other entry reported).1]
    exact separate.sources path member other (inside here)
  · intro same
    exact markdown.not_isImage formatter.artifacts start (same ▸ image start)

theorem extend {after : Storage} (separate : formatter.Separate documents output start)
    (inside : members ⊆ markdownFiles start documents)
    (handled : formatter.Handled verdict documents output start members now) (path : PathName)
    (member : path ∈ markdownFiles start documents)
    (holds : formatter.artifacts.Holds verdict
      (members.flatMap (formatter.reachAt verdict start) ++ formatter.reachAt verdict start path) after)
    (keeps : now.Keeps (formatter.changedAt verdict documents output start path) after)
    (outputs : ∀ entry ∈ (formatter.reportAt verdict documents output start path).processed,
      IsMarkdown (start.place entry.1) ∧ after.read entry.1 = .ok (Text.encode entry.2.output)) :
    formatter.Handled verdict documents output start (members ++ [path]) after := by
  refine ⟨?_, ?_, ?_⟩
  · rwa [List.flatMap_append, List.flatMap_singleton]
  · rw [List.flatMap_append, List.flatMap_singleton]
    exact handled.keeps.trans _ _ _ _ _ keeps
  · intro earlier here entry reported
    by_cases same : earlier = path
    · exact outputs entry (same ▸ reported)
    · have old : earlier ∈ members := by simpa [same] using here
      obtain ⟨markdown, written⟩ := handled.outputs earlier old entry reported
      refine ⟨markdown, ?_⟩
      rw [← handled.keeps.place_eq] at markdown
      refine keeps.read _ _ _ _ _ ?_ (markdown.not_hidden _) written
      intro target changed
      rcases mem_changedAt start path target changed with ⟨other, listed, rfl⟩ | image
      · rw [handled.keeps.place_eq, handled.keeps.place_eq, (mem_reportAt start path other listed).1,
          (mem_reportAt start earlier entry reported).1]
        exact fun together => same (separate.targets earlier (inside old) path member together)
      · exact fun together => markdown.not_isImage formatter.artifacts now (together ▸ image now)

/-- The next document ends as it would at the start, and what it leaves comes beside what is there. -/
theorem step (follows : formatter.compiler.Follows verdict)
    (separate : formatter.Separate documents output start)
    (inside : members ⊆ markdownFiles start documents) (before : Workspace)
    (handled : formatter.Handled verdict documents output start members before.storage) (path : PathName)
    (member : path ∈ markdownFiles start documents) (content : ByteArray)
    (found : start.read path = .ok content)
    (own : ∀ error after, formatter.processFile path (targetOf documents output path) before =
      .error error after → error.Own verdict path before after) :
    let result := formatter.processMember documents output path before
    result.1.uncounted = formatter.reportAt verdict documents output start path ∧
      formatter.Handled verdict documents output start (members ++ [path]) result.2.storage ∧
      (result.1.processed = [] → result.2 = before ∨
        ∃ text, result.2 = (formatter.process text).final before) := by
  intro result
  have ends := suffix_of_mem_markdownFiles start documents path member
  have reach : formatter.reachAt verdict start path = formatter.fileReach verdict content := by
    simp only [reachAt, found]
  have settle : formatter.settleAt verdict start path = formatter.settleFile verdict path content := by
    simp only [settleAt, found]
  have named : NamedApart ((members ++ [path]).flatMap (formatter.reachAt verdict start)) :=
    separate.namedApart (members ++ [path]) (List.append_subset.mpr ⟨inside, by simpa using member⟩)
  rw [List.flatMap_append, List.flatMap_singleton, reach] at named
  have settled := processFile_settles follows path (targetOf documents output path)
    (isMarkdown_target documents output path ends) before _ handled.holds content
    (handled.read_source separate inside path member content found) named
  cases run : formatter.processFile path (targetOf documents output path) before with
  | error error after =>
      rw [run] at settled
      obtain ⟨outcome, gains, left⟩ := settled (own error after run)
      have shape : result = (⟨[], [(path, error)]⟩, after) := by simp only [result, processMember, run]
      rw [shape]
      have report : formatter.reportAt verdict documents output start path = ⟨[], [(path, error)]⟩ := by
        simp only [reportAt, settle, outcome]
      refine ⟨report.symm, handled.extend separate inside path member (by rw [reach]; exact gains.holds) ?_ ?_,
        fun _ => left⟩
      · simp only [changedAt, report, reach, List.map_nil, List.nil_append]
        exact gains.keeps
      · simp [report]
  | ok document after =>
      rw [run] at settled
      obtain ⟨outcome, markdown, holds, keeps, written⟩ := settled
      have shape : result = (⟨[(targetOf documents output path, document)], []⟩, after) := by
        simp only [result, processMember, run]
      rw [shape]
      have report : formatter.reportAt verdict documents output start path =
          ⟨[(targetOf documents output path, { document with compiled := 0 })], []⟩ := by
        simp only [reportAt, settle, outcome]
      refine ⟨report.symm, handled.extend separate inside path member (by rw [reach]; exact holds) ?_ ?_,
        fun none => absurd none (by simp)⟩
      · simp only [changedAt, report, reach, List.map_cons, List.map_nil, List.cons_append, List.nil_append]
        exact keeps
      · rw [report]
        intro entry only
        rw [List.mem_singleton.mp only, ← handled.keeps.place_eq]
        exact ⟨markdown, written⟩

theorem file?_image (handled : formatter.Handled verdict documents output start members now)
    (directory : PathName)
    (inside : directory ∈ formatter.artifacts.directories) (light : Text) (variant : Variant)
    (content : ByteArray) :
    now.tree.file? (start.place (directory.join ⟨variant.fileName (fingerprint light)⟩)) =
        some content ↔
      ∃ path ∈ members, ∃ page ∈ formatter.reachAt verdict start path,
        fingerprint (page .light) = fingerprint light ∧
          imageLeft verdict page (formatter.artifacts.publishes start directory) variant =
            some content := by
  have images := handled.holds.images directory inside light variant content
  rw [handled.keeps.place_eq, formatter.artifacts.publishes_congr _ _ handled.keeps.sameDirectory] at images
  simp only [images, List.mem_flatMap]
  constructor
  · rintro ⟨page, ⟨path, here, reached⟩, left⟩
    exact ⟨path, here, page, reached, left⟩
  · rintro ⟨path, here, page, reached, left⟩
    exact ⟨page, ⟨path, here, reached⟩, left⟩

end Handled

variable {start : Workspace}

/-- How documents that are processed in an order stand to each of them alone. -/
structure Isolated (formatter : Formatter) (documents output : PathName) (start : Workspace)
    (order : List PathName) : Prop where
  sameDirectory : (formatter.processMembers documents output order start).2.storage.workingDirectory =
    start.storage.workingDirectory
  /-- Each document ends as it does alone, but for its count of compiler calls. -/
  report : (formatter.processMembers documents output order start).1.uncounted =
    .ofMembers (order.map fun path => (formatter.processMember documents output path start).1.uncounted)
  /-- Targets hold what the documents alone put there. -/
  outputs : ∀ path ∈ order, ∀ entry ∈ (formatter.processMember documents output path start).1.processed,
    (formatter.processMembers documents output order start).2.storage.read entry.1 =
      .ok (Text.encode entry.2.output)
  /-- The images are those that some document leaves alone. -/
  images : ∀ location, formatter.artifacts.IsImage start.storage location → ∀ content,
    (formatter.processMembers documents output order start).2.storage.tree.file? location = some content ↔
      ∃ path ∈ order,
        (formatter.processMember documents output path start).2.storage.tree.file? location = some content
  /-- No other file changes. -/
  others : ∀ location, ¬Hidden location → ¬formatter.artifacts.IsImage start.storage location →
    (∀ path ∈ order, ∀ entry ∈ (formatter.processMember documents output path start).1.processed,
      location ≠ start.storage.place entry.1) →
    (formatter.processMembers documents output order start).2.storage.tree.file? location =
      start.storage.tree.file? location
  /-- A document that fails changes nothing when its turn comes, but for images and the directories that
  lead to them. -/
  failing : ∀ front path back, order = front ++ path :: back →
    (formatter.processMember documents output path start).1.processed = [] →
      let before := (formatter.processMembers documents output front start).2
      Storage.Adds (formatter.artifacts.Inside before.storage) (formatter.artifacts.Furnished before.storage)
        before.storage (formatter.processMember documents output path before).2.storage

section Spared

variable (follows : formatter.compiler.Follows verdict)
  (separate : formatter.Separate documents output start.storage)
  (spared : ∀ order, order.Perm (markdownFiles start.storage documents) →
    formatter.Spared verdict documents output order start)

include spared

theorem readable_of_spared (path : PathName) (member : path ∈ markdownFiles start.storage documents) :
    ∃ content, start.storage.read path = .ok content :=
  read_of_processFile path (targetOf documents output path) start fun error after failed =>
    spared _ (List.perm_cons_erase member).symm [] path _ rfl error after failed

include follows separate

theorem processMembers_handled (order : List PathName)
    (perm : order.Perm (markdownFiles start.storage documents))
    (front back : List PathName) (parts : order = front ++ back) :
    let result := formatter.processMembers documents output front start
    result.1.uncounted = .ofMembers (front.map (formatter.reportAt verdict documents output start.storage)) ∧
      formatter.Handled verdict documents output start.storage front result.2.storage := by
  -- On the documents that have had their turn: what they left never shows in what the next one does.
  induction front using List.reverseRecOn generalizing back with
  | nil => exact ⟨rfl, .nil separate⟩
  | append_singleton front path ih =>
      have whole : order = front ++ path :: back := by rw [parts, List.append_assoc, List.singleton_append]
      obtain ⟨report, handled⟩ := ih (path :: back) whole
      have inside : front ++ path :: back ⊆ markdownFiles start.storage documents := whole ▸ perm.subset
      have member := inside (show path ∈ front ++ path :: back by simp)
      obtain ⟨content, found⟩ := readable_of_spared spared path member
      obtain ⟨last, more, _⟩ := handled.step follows separate
        (fun other here => inside (List.mem_append_left _ here))
        (formatter.processMembers documents output front start).2 path member content found
        (spared order perm front path back whole)
      rw [processMembers_concat]
      exact ⟨by rw [CollectionReport.uncounted_append, report, last, List.map_append, List.map_singleton,
        CollectionReport.ofMembers_concat], more⟩

theorem processMember_alone (path : PathName)
    (member : path ∈ markdownFiles start.storage documents) :
    let alone := formatter.processMember documents output path start
    alone.1.uncounted = formatter.reportAt verdict documents output start.storage path ∧
      formatter.Handled verdict documents output start.storage [path] alone.2.storage := by
  obtain ⟨content, found⟩ := readable_of_spared spared path member
  obtain ⟨report, handled, _⟩ := (Handled.nil separate).step follows separate (List.nil_subset _) start path
    member content found fun error after failed =>
      spared _ (List.perm_cons_erase member).symm [] path _ rfl error after failed
  exact ⟨report, handled⟩

theorem processMember_adds (order : List PathName)
    (perm : order.Perm (markdownFiles start.storage documents))
    (front : List PathName) (path : PathName) (back : List PathName) (parts : order = front ++ path :: back)
    (fails : (formatter.processMember documents output path start).1.processed = []) :
    let before := (formatter.processMembers documents output front start).2
    Storage.Adds (formatter.artifacts.Inside before.storage) (formatter.artifacts.Furnished before.storage)
      before.storage (formatter.processMember documents output path before).2.storage := by
  intro before
  have inside : front ++ path :: back ⊆ markdownFiles start.storage documents := parts ▸ perm.subset
  have member := inside (show path ∈ front ++ path :: back by simp)
  obtain ⟨content, found⟩ := readable_of_spared spared path member
  obtain ⟨_, earlier⟩ := processMembers_handled follows separate spared order perm front (path :: back) parts
  obtain ⟨same, _, left⟩ := earlier.step follows separate
    (fun other here => inside (List.mem_append_left _ here)) before path member content found
    (spared order perm front path back parts)
  have alone := (processMember_alone follows separate spared path member).1
  have stops : (formatter.processMember documents output path before).1.processed = [] := by
    rw [← CollectionReport.uncounted_processed_eq_nil_iff, same, ← alone,
      CollectionReport.uncounted_processed_eq_nil_iff, fails]
  rcases left stops with unchanged | ⟨text, final⟩
  · rw [unchanged]
    exact .refl _ _ _
  · rw [final]
    exact formatter.process_adds follows.confined text before earlier.keeps.rooted
      (earlier.keeps.sameDirectory ▸ separate.named)

theorem isolated_of_spared (order : List PathName)
    (perm : order.Perm (markdownFiles start.storage documents)) :
    formatter.Isolated documents output start order := by
  obtain ⟨report, handled⟩ :=
    processMembers_handled follows separate spared order perm order [] (by rw [List.append_nil])
  have alone := fun path (here : path ∈ order) =>
    processMember_alone follows separate spared path (perm.subset here)
  refine ⟨handled.keeps.sameDirectory, ?_, ?_, ?_, ?_, ?_⟩
  · rw [report, List.map_congr_left fun path here => (alone path here).1]
  · rintro path here ⟨target, document⟩ processed
    have reported : (target, { document with compiled := 0 }) ∈
        (formatter.reportAt verdict documents output start.storage path).processed := by
      rw [← (alone path here).1]
      exact List.mem_map.mpr ⟨(target, document), processed, rfl⟩
    exact (handled.outputs path here _ reported).2
  -- Both sides say which pages leave the image: those of all documents, or of one of them.
  · rintro location ⟨directory, inside, light, variant, rfl⟩ content
    rw [handled.file?_image directory inside light variant content]
    refine exists_congr fun path => and_congr_right fun here => ?_
    rw [(alone path here).2.file?_image directory inside light variant content]
    simp
  · intro location visible plain apart
    refine handled.keeps.files location ?_ visible
    rintro target changed rfl
    obtain ⟨path, here, listed⟩ := List.mem_flatMap.mp changed
    rcases mem_changedAt start.storage path target listed with ⟨⟨_, document⟩, reported, rfl⟩ | image
    · rw [← (alone path here).1] at reported
      obtain ⟨counted, processed, _⟩ := CollectionReport.mem_uncounted _ _ _ reported
      exact apart path here _ processed rfl
    · exact plain (image start.storage)
  · intro front path back parts fails
    exact processMember_adds follows separate spared order perm front path back parts fails

end Spared

/-- Files after two runs over the same documents are the same. -/
theorem Isolated.file?_eq (first second : List PathName) (perm : first.Perm second)
    (left : formatter.Isolated documents output start first)
    (right : formatter.Isolated documents output start second) (location : Location)
    (visible : ¬Hidden location) :
    (formatter.processMembers documents output first start).2.storage.tree.file? location =
      (formatter.processMembers documents output second start).2.storage.tree.file? location := by
  by_cases image : formatter.artifacts.IsImage start.storage location
  · refine Option.ext fun content => ?_
    rw [left.images location image content, right.images location image content]
    exact exists_congr fun path => and_congr_left' perm.mem_iff
  · by_cases written : ∃ path ∈ first,
        ∃ entry ∈ (formatter.processMember documents output path start).1.processed,
          location = start.storage.place entry.1
    · obtain ⟨path, here, entry, processed, rfl⟩ := written
      have one := Storage.file?_place_of_read _ _ _ (left.outputs path here entry processed)
      have other := Storage.file?_place_of_read _ _ _ (right.outputs path (perm.subset here) entry processed)
      rw [Storage.place_congr _ _ left.sameDirectory] at one
      rw [Storage.place_congr _ _ right.sameDirectory] at other
      rw [one, other]
    · have apart : ∀ path ∈ first,
          ∀ entry ∈ (formatter.processMember documents output path start).1.processed,
            location ≠ start.storage.place entry.1 :=
        fun path here entry processed same => written ⟨path, here, entry, processed, same⟩
      rw [left.others location visible image apart,
        right.others location visible image fun path here => apart path (perm.mem_iff.mpr here)]

/-- Documents of a collection that have nothing in common but the images of equal previews, and that only
their own content can fail: each ends as it does alone, and no order of them leaves other files. A document
that fails makes no directory but those that lead to images, among which may be one above its target. -/
theorem processMembers_isolated (follows : formatter.compiler.Follows verdict)
    (separate : formatter.Separate documents output start.storage)
    (spared : ∀ order, order.Perm (markdownFiles start.storage documents) →
      formatter.Spared verdict documents output order start) :
    ∀ order, order.Perm (markdownFiles start.storage documents) →
      formatter.Isolated documents output start order ∧
        ∀ other, other.Perm (markdownFiles start.storage documents) → ∀ location, ¬Hidden location →
          (formatter.processMembers documents output order start).2.storage.tree.file? location =
            (formatter.processMembers documents output other start).2.storage.tree.file? location := by
  intro order perm
  have first := isolated_of_spared follows separate spared order perm
  refine ⟨first, fun other same location visible => ?_⟩
  have second := isolated_of_spared follows separate spared other same
  exact first.file?_eq order other (perm.trans same.symm) second location visible

theorem readText_of_encoded (storage : Storage) (path : PathName) (text : Text)
    (stored : storage.read path = .ok (Text.encode text)) : storage.readText path = .ok text := by
  simp only [Storage.readText, stored, Text.decode?_encode]

def sampleStart (files : List (Text × Text)) : Workspace :=
  let entries := files.map fun (name, text) =>
    (["docs".toList, name], Entry.file (Text.encode text) FileTree.fileMode)
  ⟨⟨⟨(["docs".toList], .directory FileTree.directoryMode) :: entries⟩, []⟩, [], []⟩

theorem rooted_sampleStart (files : List (Text × Text)) : (sampleStart files).storage.tree.Rooted := by
  refine FileTree.Rooted.of_entries _ ?_
  intro binding member
  rcases List.mem_cons.mp member with rfl | file
  · exact FileTree.isDirectory_root _
  · obtain ⟨⟨name, text⟩, _, rfl⟩ := List.mem_map.mp file
    simp [sampleStart, FileTree.isDirectory, FileTree.get?]

theorem vacant_sampleStart (compiler : Compiler) (files : List (Text × Text)) :
    (small compiler).artifacts.Vacant (sampleStart files).storage := by
  intro directory member light variant
  have digest := isDigest_fingerprint light
  have deep : ∃ top, (sampleStart files).storage.place directory = [top, renderedDirectory] := by
    simp only [Artifacts.directories, List.mem_cons, List.not_mem_nil, or_false] at member
    rcases member with rfl | rfl
    · exact ⟨"docs".toList, rfl⟩
    · exact ⟨"site".toList, rfl⟩
  obtain ⟨top, place⟩ := deep
  rw [Storage.place_join _ _ _ (variant.isName_fileName _ digest), place]
  have absent : ((sampleStart files).storage.tree.get?
      ([top, renderedDirectory] ++ [variant.fileName (fingerprint light)])) = none := by
    rw [FileTree.get?, if_neg (by simp), List.lookup_eq_none_iff]
    intro binding inside
    rcases List.mem_cons.mp inside with rfl | file
    · simp
    · obtain ⟨⟨name, text⟩, _, rfl⟩ := List.mem_map.mp file
      simp
  simp only [FileTree.file?, absent]

theorem markdownFiles_eq (storage : Storage) (directory first scope : PathName) (pieces : List Text)
    (files : List PathName) (start : Sources.start directory = (first, pieces))
    (reached : Sources.reach? storage first pieces = some scope)
    (inside : Sources.inside storage scope = files)
    (sorted : files.Pairwise fun left right => PathName.le left right) :
    markdownFiles storage directory = files := by
  simp only [markdownFiles, start, reached, inside]
  exact List.mergeSort_of_pairwise sorted

/-- Documents that all show one preview have no two pages of one name. -/
theorem injOn_of_one_page (storage : Storage) (paths : List PathName) (page : Variant → Text)
    (only : ∀ path ∈ paths, ∀ text, storage.readText path = .ok text →
      ∀ shown ∈ formatter.pages text, shown = page) :
    Set.InjOn fingerprint {light | ∃ path ∈ paths, ∃ text,
      storage.readText path = .ok text ∧ ∃ page ∈ formatter.pages text, light = page .light} := by
  rintro _ ⟨path, here, text, readable, shown, inside, rfl⟩ _ ⟨other, there, more, legible, second, among, rfl⟩ _
  rw [only path here text readable shown inside, only other there more legible second among]

def previewText : Text := Text.joinLines (pairStretch 'x').lines

def rustFence : CodeFence := ⟨[], "~~~".toList, "rust".toList⟩

/-- A preview block, and one inside another code block. -/
def brokenText : Text :=
  Text.joinLines ((pairStretch 'x').lines ++ ["~~~rust".toList, "~~~typst-preview".toList, "~~~".toList])

theorem reading_previewText :
    let lines := Text.lines previewText
    (Scanner.new.scanLines lines).2 = .ok lines ∧ Stretch.read lines = [pairStretch 'x'] ∧
      Segment.cut 1 lines = [.preview 1 pairFence [['x']]] := by
  intro lines
  have plain : (Scanner.new.scanLines lines).2 = .ok lines := by decide +kernel
  have read : Stretch.read lines = [pairStretch 'x'] := by decide +kernel
  refine ⟨plain, read, ?_⟩
  rw [Stretch.cut_eq_segments, read]
  decide +kernel

theorem reading_brokenText :
    let lines := Text.lines brokenText
    let broken : Stretch := .closed rustFence "~~~rust".toList ["~~~typst-preview".toList] "~~~".toList
    (Scanner.new.scanLines lines).2 = .ok lines ∧ Stretch.read lines = [pairStretch 'x', broken] ∧
      Segment.cut 1 lines = [.preview 1 pairFence [['x']], .enclosed 5] ∧ broken.isPreview = false := by
  intro lines broken
  have plain : (Scanner.new.scanLines lines).2 = .ok lines := by decide +kernel
  have read : Stretch.read lines = [pairStretch 'x', broken] := by decide +kernel
  refine ⟨plain, read, ?_⟩
  rw [Stretch.cut_eq_segments, read]
  decide +kernel

theorem pages_previewText : formatter.pages previewText = [formatter.document .basic ['x']] := by
  obtain ⟨plain, read, _⟩ := reading_previewText
  simp only [Formatter.pages, plain, read, List.filterMap_cons, page?_pairStretch, List.filterMap_nil]

theorem pages_brokenText : formatter.pages brokenText = [formatter.document .basic ['x']] := by
  obtain ⟨plain, read, _, foreign⟩ := reading_brokenText
  simp only [Formatter.pages, plain, read, List.filterMap_cons, page?_pairStretch, List.filterMap_nil,
    page?_of_kept _ foreign]

def pairStart : Workspace :=
  sampleStart [("a.md".toList, previewText), ("b.md".toList, brokenText)]

theorem markdownFiles_pairStart :
    markdownFiles pairStart.storage (.ofString "docs") = [.ofString "docs/a.md", .ofString "docs/b.md"] :=
  markdownFiles_eq _ _ Sources.currentDirectory (.ofString "docs") ["docs".toList] _ (by decide +kernel)
    (by decide +kernel) (by decide +kernel) (by decide +kernel)

theorem read_pairStart :
    pairStart.storage.read (.ofString "docs/a.md") = .ok (Text.encode previewText) ∧
      pairStart.storage.read (.ofString "docs/b.md") = .ok (Text.encode brokenText) := by
  decide +kernel

theorem separate_pairStart (compiler : Compiler) :
    (small compiler).Separate (.ofString "docs") (.ofString "out") pairStart.storage := by
  refine ⟨rooted_sampleStart _, by simp [pairStart, sampleStart], vacant_sampleStart _ _, ?_, ?_, ?_⟩
  · rw [markdownFiles_pairStart]
    decide +kernel
  · rw [markdownFiles_pairStart]
    decide +kernel
  · rw [markdownFiles_pairStart]
    refine (small compiler).injOn_of_one_page _ _ ((small compiler).document .basic ['x']) ?_
    intro path here text readable shown inside
    rcases List.mem_pair.mp here with rfl | rfl
    · rw [readText_of_encoded _ _ _ read_pairStart.1] at readable
      rw [← Except.ok.inj readable, pages_previewText] at inside
      exact List.mem_singleton.mp inside
    · rw [readText_of_encoded _ _ _ read_pairStart.2] at readable
      rw [← Except.ok.inj readable, pages_brokenText] at inside
      exact List.mem_singleton.mp inside

theorem eq_of_perm_pair (order : List PathName) (first second : PathName) (perm : order.Perm [first, second]) :
    order = [first, second] ∨ order = [second, first] := by
  obtain ⟨one, two, rfl⟩ := List.length_eq_two.mp perm.length_eq
  rcases List.mem_pair.mp (perm.subset List.mem_cons_self) with rfl | rfl
  · rw [List.perm_cons, List.perm_singleton] at perm
    exact .inl (by rw [perm])
  · have turned := perm.trans (.swap _ _ _)
    rw [List.perm_cons, List.perm_singleton] at turned
    exact .inr (by rw [turned])

/-- Two documents with a preview in common, in either order. The second one cannot be published, but the
images that it leaves serve the first. -/
theorem processMembers_isolated_pair :
    let formatter := Formatter.small (.writing fun _ => ByteArray.empty)
    let documents := PathName.ofString "docs"
    let output := PathName.ofString "out"
    let first := PathName.ofString "docs/a.md"
    let second := PathName.ofString "docs/b.md"
    let counts (order : List PathName) :=
      (formatter.processMembers documents output order pairStart).1.processed.map fun (target, document) =>
        (target, document.previews, document.compiled)
    formatter.Isolated documents output pairStart [first, second] ∧
      formatter.Isolated documents output pairStart [second, first] ∧
      counts [first, second] = [(.ofString "out/a.md", 1, 1)] ∧
      counts [second, first] = [(.ofString "out/a.md", 1, 0)] ∧
      (formatter.processMembers documents output [second, first] pairStart).1.failures.map Prod.snd =
        [.unrendered 5] := by
  intro formatter documents output first second counts
  have render : formatter.render (sourceOf pairFence [['x']]) (Attributes.ofInfo pairFence.info).2 = _ :=
    formatter.render_eq_smallDigits rfl rfl
  have shown := formatter.process_eq_of_cut _ _ reading_previewText.1 reading_previewText.2.2
  have torn := formatter.process_eq_of_cut _ _ reading_brokenText.1 reading_brokenText.2.2.1
  simp only [publishSegments, publishSegment, render] at shown torn
  have firstTurn := fun before stored => formatter.processMember_of_text documents output first before _ _ shown
    (readText_of_encoded _ _ _ stored)
  have secondTurn := fun before stored => formatter.processMember_of_text documents output second before _ _ torn
    (readText_of_encoded _ _ _ stored)
  have inOrder := formatter.processMembers_pair documents output first second pairStart
  have turned := formatter.processMembers_pair documents output second first pairStart
  rw [firstTurn _ read_pairStart.1, secondTurn _ (by decide +kernel)] at inOrder
  rw [secondTurn _ read_pairStart.2, firstTurn _ (by decide +kernel)] at turned
  have firstOrder : counts [first, second] = [(.ofString "out/a.md", 1, 1)] ∧
      (formatter.processMembers documents output [first, second] pairStart).1.failures.map Prod.snd =
        [.unrendered 5] := by
    simp only [counts]
    rw [inOrder]
    decide +kernel
  have secondOrder : counts [second, first] = [(.ofString "out/a.md", 1, 0)] ∧
      (formatter.processMembers documents output [second, first] pairStart).1.failures.map Prod.snd =
        [.unrendered 5] := by
    simp only [counts]
    rw [turned]
    decide +kernel
  have spared : ∀ order : List PathName, order.Perm (markdownFiles pairStart.storage documents) →
      formatter.Spared (fun _ => .ok ByteArray.empty) documents output order pairStart := by
    intro order perm front path back parts error after before failed
    have member := List.mem_map_of_mem (f := Prod.snd)
      (formatter.mem_failures_of_error documents output front back path pairStart after error failed)
    rw [← parts] at member
    rw [markdownFiles_pairStart] at perm
    have unrendered : error = .unrendered 5 := by
      rcases eq_of_perm_pair order first second perm with rfl | rfl
      · exact List.mem_singleton.mp (firstOrder.2 ▸ member)
      · exact List.mem_singleton.mp (secondOrder.2 ▸ member)
    rw [unrendered]
    exact .inl trivial
  have isolated := processMembers_isolated (Compiler.follows_writing _) (separate_pairStart _) spared
  rw [markdownFiles_pairStart] at isolated
  exact ⟨(isolated [first, second] (.refl _)).1, (isolated [second, first] (.swap _ _ _)).1, firstOrder.1,
    secondOrder⟩

/-- The process stops at the second block, after the site was made. -/
theorem process_brokenText :
    let formatter := Formatter.small (.writing Text.encode)
    let start := sampleStart [("a.md".toList, brokenText)]
    ∃ after, formatter.process brokenText start = .error (.unrendered 5) after ∧
      after.storage.isDirectory (.ofString "site") = true := by
  intro formatter start
  have render : formatter.render (sourceOf pairFence [['x']]) (Attributes.ofInfo pairFence.info).2 = _ :=
    formatter.render_eq_smallDigits rfl rfl
  have run := formatter.process_eq_of_cut _ _ reading_brokenText.1 reading_brokenText.2.2.1
  simp only [publishSegments, publishSegment, render] at run
  have outcome : Job.error? (formatter.process brokenText) start = some (.unrendered 5) ∧
      ((formatter.process brokenText).final start).storage.isDirectory (.ofString "site") = true := by
    rw [run]
    decide +kernel
  obtain ⟨stops, made⟩ := outcome
  obtain ⟨after, failed⟩ := (Job.error?_eq_some_iff _ _ _).mp stops
  rw [Job.final_of_error _ _ _ _ failed] at made
  exact ⟨after, failed, made⟩

/-- The one document of a collection fails after its first preview was rendered. The site was made for the
images of that preview, and the directory of outputs is to lie in it. -/
theorem processMembers_isolated_above :
    let formatter := Formatter.small (.writing Text.encode)
    let documents := PathName.ofString "docs"
    let output := PathName.ofString "site/out"
    let site := PathName.ofString "site"
    let path := PathName.ofString "docs/a.md"
    let start := sampleStart [("a.md".toList, brokenText)]
    let result := formatter.processMembers documents output [path] start
    (markdownFiles start.storage documents = [path] ∧ formatter.Separate documents output start.storage ∧
        (∀ order : List PathName, order.Perm (markdownFiles start.storage documents) →
          formatter.Spared (fun text => .ok (Text.encode text)) documents output order start) ∧
        ∀ directory ∈ documents :: formatter.artifacts.directories,
          ¬start.storage.place directory <+: start.storage.place output ∧
            ¬start.storage.place output <+: start.storage.place directory) ∧
      result.1 = ⟨[], [(path, .unrendered 5)]⟩ ∧ (targetOf documents output path).Above site ∧
      start.storage.isDirectory site = false ∧ result.2.storage.isDirectory site = true := by
  intro formatter documents output site path start result
  have files : markdownFiles start.storage documents = [path] :=
    markdownFiles_eq _ _ Sources.currentDirectory (.ofString "docs") ["docs".toList] _ (by decide +kernel)
      (by decide +kernel) (by decide +kernel) (by decide +kernel)
  have content : start.storage.readText path = .ok brokenText := readText_of_encoded _ _ _ (by decide +kernel)
  obtain ⟨after, failed, made⟩ := process_brokenText
  have ended : formatter.processFile path (targetOf documents output path) start =
      .error (.unrendered 5) after := by
    rw [formatter.processFile_of_readText path _ start brokenText content]
    exact Job.bind_of_error _ _ _ _ _ failed
  have whole : result = (⟨[], [(path, .unrendered 5)]⟩, after) :=
    formatter.processMembers_of_error documents output path start after _ ended
  refine ⟨⟨files, ?_, ?_, by decide +kernel⟩, by rw [whole], ?_, by decide +kernel, by rw [whole]; exact made⟩
  · refine ⟨rooted_sampleStart _, by simp [start, sampleStart], vacant_sampleStart _ _, ?_, ?_, ?_⟩
    · rw [files]
      simp
    · rw [files]
      decide +kernel
    · rw [files]
      refine formatter.injOn_of_one_page _ _ (formatter.document .basic ['x']) ?_
      intro member here text readable shown inside
      rw [List.mem_singleton.mp here, content] at readable
      rw [← Except.ok.inj readable, pages_brokenText] at inside
      exact List.mem_singleton.mp inside
  · intro order perm front member back parts error stopped before failing
    rw [files, List.perm_singleton, parts] at perm
    obtain ⟨rfl, shape⟩ : front = [] ∧ member :: back = [path] := by
      cases front with
      | nil => exact ⟨rfl, perm⟩
      | cons first rest => simp at perm
    obtain ⟨rfl, _⟩ := List.cons.inj shape
    rw [show before = start from rfl, ended] at failing
    cases failing
    exact .inl trivial
  · exact .parent _ output _ (by decide +kernel) (.parent _ site _ (by decide +kernel) (.self site))

end Formatter

end FencePreview
