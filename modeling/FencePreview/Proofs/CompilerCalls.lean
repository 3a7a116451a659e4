import FencePreview.Proofs.SecondPass
import FencePreview.Proofs.SiteCopies

/-! Which previews of a document the compiler is called for. One that is stored stays stored, so each
name is compiled at most once; whether it was in store is asked when its turn comes. -/

namespace FencePreview

section FirstOccurrences

variable {α β : Type} [DecidableEq β]

/-- The entries whose key no earlier entry has. -/
def firstOccurrences (key : α → β) : List α → List α
  | [] => []
  | first :: rest => first :: (firstOccurrences key rest).filter fun later => key later ≠ key first

theorem mem_firstOccurrences (key : α → β) (entries : List α) (entry : α)
    (member : entry ∈ firstOccurrences key entries) : entry ∈ entries := by
  induction entries with
  | nil => exact member
  | cons first rest ih =>
      rcases List.mem_cons.mp member with rfl | later
      · exact List.mem_cons_self
      · exact List.mem_cons_of_mem _ (ih (List.mem_of_mem_filter later))

theorem length_firstOccurrences_le (key : α → β) (entries : List α) :
    (firstOccurrences key entries).length ≤ entries.length := by
  induction entries with
  | nil => exact Nat.le_refl _
  | cons first rest ih =>
      simp only [firstOccurrences, List.length_cons]
      exact Nat.succ_le_succ ((List.length_filter_le _ _).trans ih)

end FirstOccurrences

theorem Text.byteSize_eq_length (text : Text) (single : ∀ character ∈ text, byteSize [character] = 1) :
    byteSize text = text.length := by
  induction text with
  | nil => rfl
  | cons first rest ih =>
      rw [← List.singleton_append, byteSize_append, single first (by simp),
        ih fun character member => single character (List.mem_cons_of_mem _ member)]
      simp [Nat.add_comm]

theorem Variant.byteSize_fileName (variant : Variant) (name : Text) (digest : IsDigest name) :
    Text.byteSize (variant.fileName name) = 62 := by
  rw [Text.byteSize_eq_length, length_fileName variant name digest]
  intro character member
  have single : "0123456789abcdef_ld.svg".toList.all (·.utf8Size = 1) = true := by decide
  have narrow := List.all_eq_true.mp single character (mem_fileName variant name digest character member)
  simpa [Text.byteSize] using narrow

namespace Artifacts

variable (artifacts : Artifacts)

/-- Whether both images lie where their paths lead once every directory on the way is made. -/
def holds (storage : Storage) (name : Text) : Bool :=
  Variant.all.all fun variant =>
    (storage.tree.file? (storage.place (artifacts.dumpPath name variant))).isSome

def Reached (storage : Storage) : Prop :=
  ∃ name variant location, IsDigest name ∧
    storage.resolve (artifacts.dumpPath name variant) = .ok location

theorem holds_eq_true_iff (storage : Storage) (name : Text) :
    artifacts.holds storage name = true ↔
      ∀ variant, storage.tree.file? (storage.place (artifacts.dumpPath name variant)) ≠ none := by
  simp only [holds, Variant.all, List.all_cons, List.all_nil, Bool.and_true, Bool.and_eq_true,
    Option.isSome_iff_ne_none]
  constructor
  · rintro ⟨light, dark⟩ variant
    cases variant
    · exact light
    · exact dark
  · exact fun both => ⟨both .light, both .dark⟩

theorem holds_of_isCached (storage : Storage) (name : Text)
    (cached : artifacts.isCached storage name = true) : artifacts.holds storage name = true := by
  rw [holds_eq_true_iff]
  intro variant
  have present := List.all_eq_true.mp cached variant (by cases variant <;> simp [Variant.all])
  obtain ⟨image, found⟩ := (Storage.isFile_eq_true_iff _ _).mp present
  rw [Storage.file?_place_of_read _ _ _ found]
  simp

/-- As soon as one image can be reached, all that lie at their places are in store. -/
theorem isCached_eq_holds (storage : Storage) (reached : artifacts.Reached storage) (name : Text)
    (digest : IsDigest name) : artifacts.isCached storage name = artifacts.holds storage name := by
  rw [Bool.eq_iff_iff]
  refine ⟨artifacts.holds_of_isCached storage name, ?_⟩
  intro there
  obtain ⟨other, otherVariant, location, otherDigest, leads⟩ := reached
  refine List.all_eq_true.mpr fun variant _ => ?_
  obtain ⟨image, found⟩ :=
    Option.ne_none_iff_exists'.mp ((artifacts.holds_eq_true_iff _ _).mp there variant)
  obtain ⟨spot, spotLeads⟩ := Storage.resolve_join_of_resolve_join storage artifacts.dumpDirectory
    (otherVariant.fileName other) (variant.fileName name) (otherVariant.isName_fileName other otherDigest)
    (variant.isName_fileName name digest)
    (fun member => absurd (variant.mem_fileName name digest _ member) (by decide))
    (by rw [Variant.byteSize_fileName _ _ digest, Variant.byteSize_fileName _ _ otherDigest]) location
    leads
  refine (Storage.isFile_eq_true_iff _ _).mpr ⟨image, (Storage.read_eq_ok_iff _ _ _).mpr ⟨spot, spotLeads, ?_⟩⟩
  rw [Storage.resolve_eq_ok _ _ _ spotLeads]
  exact found

theorem holds_eq_false (storage : Storage) (rooted : storage.tree.Rooted) (name : Text)
    (digest : IsDigest name)
    (absent : storage.tree.isDirectory (storage.place artifacts.dumpDirectory) = false) :
    artifacts.holds storage name = false := by
  rw [Bool.eq_false_iff, Ne, holds_eq_true_iff]
  intro both
  refine both .light ?_
  rw [artifacts.place_dumpPath name .light storage digest, FileTree.file?,
    rooted.get?_below _ _ absent _ (by simp)]

end Artifacts

namespace Formatter

variable (formatter : Formatter)

/-- One preview that is rendered: the compiler runs if it is not in store, and what is in store
afterwards is what was there before together with it. -/
theorem Undisturbed.stores (writes : formatter.compiler.WritesFile) (document : Variant → Text)
    (before after : Workspace) (ran : Bool) (rooted : before.storage.tree.Rooted)
    (undisturbed : formatter.Undisturbed [document] before [ran] after) :
    ran = !formatter.artifacts.isCached before.storage (fingerprint (document .light)) ∧
      after.storage.tree.Rooted ∧
      (∃ location, after.storage.resolve
        (formatter.artifacts.dumpPath (fingerprint (document .light)) .light) = .ok location) ∧
      ∀ name, IsDigest name → formatter.artifacts.holds after.storage name =
        (decide (name = fingerprint (document .light)) || formatter.artifacts.holds before.storage name) := by
  obtain ⟨keeps, images⟩ := undisturbed.settles formatter writes document before after ran rooted
  have digest := isDigest_fingerprint (document .light)
  obtain ⟨image, found, _⟩ := images .light
  obtain ⟨location, leads, _⟩ := (Storage.read_eq_ok_iff _ _ _).mp found
  refine ⟨?_, keeps.rooted, ⟨location, leads⟩, ?_⟩
  · obtain ⟨_, _, _, store, _⟩ := (undisturbed_single_iff _ _ _ _ _).mp undisturbed
    cases store with
    | cached present => simp [present]
    | missing made half _ absent _ _ _ => simp [absent]
  · intro name nameDigest
    by_cases same : name = fingerprint (document .light)
    · subst same
      rw [decide_eq_true rfl, Bool.true_or, Artifacts.holds_eq_true_iff]
      intro variant
      obtain ⟨image, found, _⟩ := images variant
      rw [Storage.file?_place_of_read _ _ _ found]
      simp
    · have apart : ∀ (there : PathName) (variant other : Variant),
          before.storage.place (formatter.artifacts.dumpPath name variant) ≠
            before.storage.place (there.join ⟨other.fileName (fingerprint (document .light))⟩) :=
        fun there variant other together =>
          same (Variant.eq_of_place_join _ _ _ variant other _ _ nameDigest digest together).2.1
      have unchanged : ∀ variant,
          after.storage.tree.file? (after.storage.place (formatter.artifacts.dumpPath name variant)) =
            before.storage.tree.file? (before.storage.place (formatter.artifacts.dumpPath name variant)) := by
        intro variant
        rw [keeps.place_eq]
        refine keeps.files _ ?_ (formatter.artifacts.not_hidden_dumpPath name variant _ nameDigest)
        simp only [List.forall_mem_cons, List.not_mem_nil, false_implies,
          implies_true, and_true]
        exact ⟨apart _ variant .light, apart _ variant .dark, apart _ variant .light, apart _ variant .dark⟩
      rw [decide_eq_false same, Bool.false_or]
      simp only [Artifacts.holds, unchanged]

/-- Previews of which one can be reached from the start: each name that is not in store is compiled where
it occurs first. -/
theorem Undisturbed.calls_of_reached (writes : formatter.compiler.WritesFile)
    (pages : List (Variant → Text)) (before after : Workspace) (flags : List Bool)
    (rooted : before.storage.tree.Rooted) (reached : formatter.artifacts.Reached before.storage)
    (undisturbed : formatter.Undisturbed pages before flags after) :
    let missing := (firstOccurrences (fun page => fingerprint (page .light)) pages).filter fun page =>
      !formatter.artifacts.holds before.storage (fingerprint (page .light))
    calls pages flags = missing.flatMap (fun page => [page .light, page .dark]) ∧
      flags.countP id = missing.length := by
  induction pages generalizing before flags with
  | nil =>
      cases undisturbed
      exact ⟨rfl, rfl⟩
  | cons page rest ih =>
      obtain ⟨ran, later, middle, rfl, first, others⟩ :=
        (undisturbed_cons_iff _ _ _ _ _ _).mp undisturbed
      obtain ⟨rfl, middleRooted, ⟨location, leads⟩, now⟩ :=
        first.stores formatter writes page before middle ran rooted
      obtain ⟨calling, count⟩ := ih middle later middleRooted
        ⟨_, _, location, isDigest_fingerprint (page .light), leads⟩ others
      rw [formatter.artifacts.isCached_eq_holds _ reached _ (isDigest_fingerprint _)]
      have same : ∀ other : Variant → Text,
          (!formatter.artifacts.holds middle.storage (fingerprint (other .light))) =
            (decide (fingerprint (other .light) ≠ fingerprint (page .light)) &&
              !formatter.artifacts.holds before.storage (fingerprint (other .light))) := by
        intro other
        rw [now _ (isDigest_fingerprint _)]
        simp
      simp only [same] at calling count
      simp only [firstOccurrences, calls, List.filter_cons, List.filter_filter, List.countP_cons, calling,
        count, Bool.and_comm]
      cases formatter.artifacts.holds before.storage (fingerprint (page .light)) <;>
        simp [Nat.add_comm]

/-- Whether the images of a preview are in store when its turn comes. Those of the first preview must be
reachable from the start; for a later one, directories made before it may have opened the way. -/
def finds (storage : Storage) (pages : List (Variant → Text)) (page : Variant → Text) : Bool :=
  let name := fingerprint (page .light)
  formatter.artifacts.isCached storage name ||
    formatter.artifacts.holds storage name &&
      decide (pages.head?.map (fun first => fingerprint (first .light)) ≠ some name)

theorem Undisturbed.calls_eq (writes : formatter.compiler.WritesFile)
    (pages : List (Variant → Text)) (before after : Workspace) (flags : List Bool)
    (rooted : before.storage.tree.Rooted) (undisturbed : formatter.Undisturbed pages before flags after) :
    let missing := (firstOccurrences (fun page => fingerprint (page .light)) pages).filter fun page =>
      !formatter.finds before.storage pages page
    calls pages flags = missing.flatMap (fun page => [page .light, page .dark]) ∧
      flags.countP id = missing.length := by
  cases undisturbed with
  | nil => exact ⟨rfl, rfl⟩
  | cons page rest _ stored made half middle _ ran later store directory light dark others =>
      have first : formatter.Undisturbed [page] before [ran] middle :=
        .cons _ _ _ stored made half _ _ ran _ store directory light dark (.nil _)
      obtain ⟨rfl, middleRooted, ⟨location, leads⟩, now⟩ :=
        first.stores formatter writes page before middle ran rooted
      obtain ⟨calling, count⟩ := others.calls_of_reached formatter writes rest middle after later
        middleRooted ⟨_, _, location, isDigest_fingerprint (page .light), leads⟩
      have own : formatter.finds before.storage (page :: rest) page =
          formatter.artifacts.isCached before.storage (fingerprint (page .light)) := by
        simp [finds]
      have same : ∀ other : Variant → Text,
          (!formatter.artifacts.holds middle.storage (fingerprint (other .light))) =
            (!formatter.finds before.storage (page :: rest) other &&
              decide (fingerprint (other .light) ≠ fingerprint (page .light))) := by
        intro other
        rw [now _ (isDigest_fingerprint _)]
        have cached := formatter.artifacts.holds_of_isCached before.storage (fingerprint (other .light))
        by_cases together : fingerprint (other .light) = fingerprint (page .light)
        · simp [together]
        · simp only [finds, List.head?_cons, Option.map_some, Ne, Option.some.injEq, Ne.symm together,
            together, not_false_eq_true, decide_true, decide_false, Bool.and_true, Bool.false_or]
          cases present : formatter.artifacts.isCached before.storage (fingerprint (other .light)) with
          | false => simp
          | true => simp [cached present]
      simp only [same] at calling count
      simp only [firstOccurrences, calls, List.filter_cons, List.filter_filter, List.countP_cons, calling,
        count, own]
      cases formatter.artifacts.isCached before.storage (fingerprint (page .light)) <;> simp [Nat.add_comm]

/-- A store whose path leads to the directory at its place hides no image. -/
theorem Undisturbed.finds_eq (writes : formatter.compiler.WritesFile)
    (pages : List (Variant → Text)) (before after : Workspace) (flags : List Bool)
    (rooted : before.storage.tree.Rooted) (undisturbed : formatter.Undisturbed pages before flags after)
    (way : before.storage.tree.isDirectory (before.storage.place formatter.artifacts.dumpDirectory) = true →
      before.storage.isDirectory formatter.artifacts.dumpDirectory = true)
    (page : Variant → Text) (member : page ∈ pages) :
    formatter.finds before.storage pages page =
      formatter.artifacts.isCached before.storage (fingerprint (page .light)) := by
  have digest := isDigest_fingerprint (page .light)
  cases lies : before.storage.tree.isDirectory (before.storage.place formatter.artifacts.dumpDirectory) with
  | false => simp [finds, formatter.artifacts.holds_eq_false _ rooted _ digest lies]
  | true =>
      cases pages with
      | nil => exact absurd member List.not_mem_nil
      | cons first rest =>
          obtain ⟨ran, later, middle, rfl, single, _⟩ := (undisturbed_cons_iff _ _ _ _ _ _).mp undisturbed
          obtain ⟨_, _, ⟨location, leads⟩, _⟩ :=
            single.stores formatter writes first before middle ran rooted
          have firstDigest := isDigest_fingerprint (first .light)
          obtain ⟨spot, reached⟩ := Storage.resolve_join_of_isDirectory before.storage middle.storage
            formatter.artifacts.dumpDirectory _ (Variant.light.isName_fileName _ firstDigest) (way lies)
            location leads
          simp only [finds, ← formatter.artifacts.isCached_eq_holds before.storage
            ⟨_, _, spot, firstDigest, reached⟩ _ digest]
          cases formatter.artifacts.isCached before.storage (fingerprint (page .light)) <;> simp

def page? : Stretch → Option (Variant → Text)
  | .closed fence _ body _ =>
      if fence.isPreview then
        match PreviewSettings.ofAttributes (Attributes.ofInfo fence.info).2 with
        | .ok settings => some (formatter.document settings (sourceOf fence body))
        | .error _ => none
      else none
  | _ => none

/-- The previews of a document that can be scanned. -/
def pages (input : Text) : List (Variant → Text) :=
  match (Scanner.new.scanLines (Text.lines input)).2 with
  | .ok content => (Stretch.read content).filterMap formatter.page?
  | .error _ => []

variable {formatter}

theorem page?_of_kept (stretch : Stretch) (kept : stretch.isPreview = false) :
    formatter.page? stretch = none := by
  cases stretch with
  | closed fence opening body closing =>
      have foreign : fence.isPreview = false := kept
      simp [page?, foreign]
  | line content => rfl
  | unclosed opening rest => rfl

theorem Shown.undisturbed {stretches : List Stretch} {before after : Workspace} {lines : List Text}
    {rendered : List RenderedPreview} (shown : formatter.Shown stretches before lines rendered after) :
    formatter.Undisturbed (stretches.filterMap formatter.page?) before
      (rendered.map RenderedPreview.compiled) after := by
  induction shown with
  | nil workspace => exact .nil workspace
  | cons stretch rest before between after first later rendered more stands others ih =>
      cases stands with
      | copied _ _ kept silent =>
          rw [List.filterMap_cons_none (page?_of_kept stretch kept)]
          exact ih
      | replaced fence opening body closing _ _ made preview finished =>
          obtain ⟨settings, site, accepted, hasSite⟩ :=
            formatter.accepted_of_render_eq_ok _ _ _ _ _ finished
          obtain ⟨ran, rfl, single⟩ :=
            (render_eq_ok_iff formatter _ site _ settings accepted hasSite _ _ _).mp finished
          have page : formatter.page? (.closed fence opening body closing) =
              some (formatter.document settings (sourceOf fence body)) := by
            simp [page?, preview, accepted]
          rw [List.filterMap_cons_some page]
          exact (undisturbed_cons_iff _ _ _ _ _ _).mpr ⟨ran, _, between, rfl, single, ih⟩

variable (formatter)

/-- What is in store stays there, so a document that is processed has each of its previews compiled at
most once, where it occurs first: the light document and then the dark one. No preview is compiled that
was in store at the start. -/
theorem process_calls (writes : formatter.compiler.WritesFile) (input : Text) (before after : Workspace)
    (rooted : before.storage.tree.Rooted) (document : ProcessedDocument)
    (finished : formatter.process input before = .ok document after) :
    let pages := formatter.pages input
    let store := formatter.artifacts.dumpDirectory
    let cached : (Variant → Text) → Bool := fun page =>
      formatter.artifacts.isCached before.storage (fingerprint (page .light))
    let distinct := firstOccurrences (fun page : Variant → Text => fingerprint (page .light)) pages
    let missing := distinct.filter fun page => !formatter.finds before.storage pages page
    document.previews = pages.length ∧ document.compiled = missing.length ∧
      document.compiled ≤ document.previews ∧
      after.compiled = before.compiled ++ missing.flatMap (fun page => [page .light, page .dark]) ∧
      ((∀ page ∈ pages, cached page = true) → document.compiled = 0 ∧ after.compiled = before.compiled) ∧
      ((before.storage.tree.isDirectory (before.storage.place store) = true →
          before.storage.isDirectory store = true) →
        missing = distinct.filter fun page => !cached page) := by
  intro pages store cached distinct missing
  obtain ⟨content, lines, rendered, scanned, shown, rfl⟩ :=
    formatter.shown_of_process input before after document finished
  have read : pages = (Stretch.read content).filterMap formatter.page? := by
    simp only [pages, Formatter.pages, scanned]
  have undisturbed := shown.undisturbed
  rw [← read] at undisturbed
  obtain ⟨length, grown⟩ := undisturbed.compiled_eq
  obtain ⟨calling, count⟩ := undisturbed.calls_eq formatter writes pages before after _ rooted
  rw [List.length_map] at length
  have count : rendered.countP RenderedPreview.compiled = missing.length := by
    rw [← count, List.countP_map]
    rfl
  have grown : after.compiled = before.compiled ++ missing.flatMap fun page => [page .light, page .dark] := by
    rw [grown, calling]
  have atMost : missing.length ≤ pages.length :=
    (List.length_filter_le _ _).trans (length_firstOccurrences_le _ _)
  refine ⟨length, count, count.trans_le (atMost.trans length.ge), grown, ?_, ?_⟩
  · intro allCached
    have none : missing = [] := by
      refine List.filter_eq_nil_iff.mpr fun page member => ?_
      have present := allCached page (mem_firstOccurrences _ _ _ member)
      simp only [cached] at present
      simp [finds, present]
    rw [none] at count grown
    exact ⟨count, by rw [grown, List.flatMap_nil, List.append_nil]⟩
  · intro way
    refine List.filter_congr fun page member => ?_
    rw [undisturbed.finds_eq formatter writes pages before after _ rooted way page
      (mem_firstOccurrences _ _ _ member)]

def pairFence : CodeFence := ⟨[], "~~~".toList, "typst-preview mode=basic".toList⟩

def pairStretch (source : Char) : Stretch :=
  .closed pairFence "~~~typst-preview mode=basic".toList [[source]] "~~~".toList

/-- Two preview blocks of one line each, without imports. -/
def pairInput (first second : Char) : Text :=
  Text.joinLines ((pairStretch first).lines ++ (pairStretch second).lines)

theorem page?_pairStretch (source : Char) :
    formatter.page? (pairStretch source) = some (formatter.document .basic [source]) := by
  have preview : pairFence.isPreview = true := by decide +kernel
  have accepted : PreviewSettings.ofAttributes (Attributes.ofInfo pairFence.info).2 = .ok .basic :=
    PreviewSettings.ofAttributes_basic
  simp only [pairStretch, page?, preview, accepted, if_true]
  rfl

theorem reading_pairInput (second : Char) (letter : second = 'x' ∨ second = 'y') :
    let lines := Text.lines (pairInput 'x' second)
    (Scanner.new.scanLines lines).2 = .ok lines ∧
      Stretch.read lines = [pairStretch 'x', pairStretch second] ∧
      Segment.cut 1 lines = [.preview 1 pairFence [['x']], .preview 4 pairFence [[second]]] := by
  intro lines
  have plain : (Scanner.new.scanLines lines).2 = .ok lines := by
    rcases letter with rfl | rfl <;> decide +kernel
  have read : Stretch.read lines = [pairStretch 'x', pairStretch second] := by
    rcases letter with rfl | rfl <;> decide +kernel
  refine ⟨plain, read, ?_⟩
  rw [Stretch.cut_eq_segments, read]
  rcases letter with rfl | rfl <;> decide +kernel

theorem pages_pairInput (second : Char) (letter : second = 'x' ∨ second = 'y') :
    formatter.pages (pairInput 'x' second) =
      [formatter.document .basic ['x'], formatter.document .basic [second]] := by
  obtain ⟨plain, read, _⟩ := reading_pairInput second letter
  simp only [pages, plain, read, List.filterMap_cons, page?_pairStretch, List.filterMap_nil]

/-- The same preview twice, with nothing in store: it is compiled once. -/
theorem process_calls_repeated :
    let formatter := Formatter.small (.writing fun _ => ByteArray.empty)
    let workspace : Workspace := ⟨⟨.empty, []⟩, [], []⟩
    ∃ document after, formatter.process (pairInput 'x' 'x') workspace = .ok document after ∧
      document.previews = 2 ∧ document.compiled = 1 ∧
      after.compiled = Variant.all.map (formatter.document .basic ['x']) := by
  intro formatter workspace
  obtain ⟨plain, _, cut⟩ := reading_pairInput 'x' (.inl rfl)
  have render : formatter.render (sourceOf pairFence [['x']]) (Attributes.ofInfo pairFence.info).2 = _ :=
    formatter.render_eq_smallDigits rfl rfl
  have run := formatter.process_eq_of_cut _ _ plain cut
  simp only [publishSegments, publishSegment, render] at run
  have counts : (Job.result? (formatter.process (pairInput 'x' 'x')) workspace).map
      (fun document => (document.previews, document.compiled)) = some (2, 1) := by
    rw [run]
    decide +kernel
  obtain ⟨document, finished, counted⟩ := Job.exists_ok_of_result?_map _ _ _ _ counts
  obtain ⟨previews, compiled⟩ := Prod.mk.inj counted
  obtain ⟨_, missing, _, calls, _⟩ := formatter.process_calls (Compiler.onlyFile_writing _).writesFile
    (pairInput 'x' 'x') workspace _ (FileTree.Rooted.of_entries _ (by simp [workspace, FileTree.empty]))
    document finished
  refine ⟨document, _, finished, previews, compiled, ?_⟩
  -- The one preview that is compiled is one of two equal ones.
  rw [compiled] at missing
  obtain ⟨page, single⟩ := List.length_eq_one_iff.mp missing.symm
  rw [single] at calls
  have member : page ∈ formatter.pages (pairInput 'x' 'x') :=
    mem_firstOccurrences _ _ _ (List.mem_of_mem_filter (single ▸ List.mem_singleton_self page))
  have same : page = formatter.document .basic ['x'] := by
    rw [formatter.pages_pairInput 'x' (.inl rfl)] at member
    simpa using member
  rw [calls, same]
  rfl

/-- The same preview twice, with a compiler that leaves directories: it is compiled twice. -/
theorem process_leavingDirectory :
    let formatter := Formatter.small .leavingDirectory
    formatter.compiler.OnlyOutput ∧
      ∃ document after, formatter.process (pairInput 'x' 'x') publishedStart = .ok document after ∧
        document.previews = 2 ∧ document.compiled = 2 ∧ after.compiled.length = 4 := by
  intro formatter
  obtain ⟨plain, _, cut⟩ := reading_pairInput 'x' (.inl rfl)
  have render : formatter.render (sourceOf pairFence [['x']]) (Attributes.ofInfo pairFence.info).2 = _ :=
    formatter.render_eq_smallDigits rfl rfl
  have run := formatter.process_eq_of_cut _ _ plain cut
  simp only [publishSegments, publishSegment, render] at run
  have outcome : (Job.result? (formatter.process (pairInput 'x' 'x')) publishedStart).map
        (fun document => (document.previews, document.compiled)) = some (2, 2) ∧
      ((formatter.process (pairInput 'x' 'x')).final publishedStart).compiled.length = 4 := by
    rw [run]
    decide +kernel
  obtain ⟨counts, calls⟩ := outcome
  obtain ⟨document, finished, counted⟩ := Job.exists_ok_of_result?_map _ _ _ _ counts
  obtain ⟨previews, compiled⟩ := Prod.mk.inj counted
  exact ⟨Compiler.onlyOutput_leavingDirectory, document, _, finished, previews, compiled, calls⟩

/-- Images of `y` lie in `docs/rendered`, but the store is spelled through a directory that is missing.
Neither preview is in store at the start; the directories made for `x` open the way to the images of `y`.
And a compiler that leaves directories is called for every copy of a preview. -/
theorem process_calls_unreached :
    let formatter : Formatter :=
      { Formatter.small (.writing fun _ => ByteArray.empty) with
        artifacts := .below ⟨"nodir/../docs".toList⟩ ⟨"site".toList⟩ }
    let name : Text := "c27d37dd2cc6a18c529b60932f7df84a5c84e5a1ad4ac4fa7d96e847".toList
    let tree := FileTree.oneImage "docs".toList (Variant.light.fileName name) ByteArray.empty
    let image := ["docs".toList, renderedDirectory, Variant.dark.fileName name]
    let workspace : Workspace :=
      ⟨⟨tree.insert image (.file ByteArray.empty FileTree.fileMode), []⟩, [], []⟩
    let missing := (firstOccurrences (fun page => fingerprint (page .light))
      (formatter.pages (pairInput 'x' 'y'))).filter fun page =>
        !formatter.artifacts.isCached workspace.storage (fingerprint (page .light))
    (∃ document after, formatter.process (pairInput 'x' 'y') workspace = .ok document after ∧
        document.previews = 2 ∧ missing.length = 2 ∧ document.compiled = 1 ∧ after.compiled.length = 2) ∧
      Compiler.leavingDirectory.OnlyOutput ∧
      ∃ document after,
        (Formatter.small .leavingDirectory).process (pairInput 'x' 'x') publishedStart = .ok document after ∧
          document.previews = 2 ∧ document.compiled = 2 ∧ after.compiled.length = 4 := by
  intro formatter name
  have spelled : name = otherDigits := otherFingerprint_eq
  clear_value name
  subst spelled
  intro tree image workspace missing
  have digestX : fingerprint (formatter.document .basic ['x'] .light) = smallDigits :=
    fingerprint_eq_smallDigits _ rfl
  have digestY : fingerprint (formatter.document .basic ['y'] .light) = otherDigits :=
    fingerprint_eq_otherDigits _ rfl
  obtain ⟨plain, _, cut⟩ := reading_pairInput 'y' (.inr rfl)
  have renderX : formatter.render (sourceOf pairFence [['x']]) (Attributes.ofInfo pairFence.info).2 = _ :=
    formatter.render_eq ['x'] ['/'] .basic .basic PreviewSettings.ofAttributes_basic rfl _ digestX
  have renderY : formatter.render (sourceOf pairFence [['y']]) (Attributes.ofInfo pairFence.info).2 = _ :=
    formatter.render_eq ['y'] ['/'] .basic .basic PreviewSettings.ofAttributes_basic rfl _ digestY
  have run := formatter.process_eq_of_cut _ _ plain cut
  simp only [publishSegments, publishSegment, renderX, renderY] at run
  have outcome : (Job.result? (formatter.process (pairInput 'x' 'y')) workspace).map
        (fun document => (document.previews, document.compiled)) = some (2, 1) ∧
      ((formatter.process (pairInput 'x' 'y')).final workspace).compiled.length = 2 := by
    rw [run]
    decide +kernel
  obtain ⟨counts, calls⟩ := outcome
  obtain ⟨document, finished, counted⟩ := Job.exists_ok_of_result?_map _ _ _ _ counts
  obtain ⟨previews, compiled⟩ := Prod.mk.inj counted
  refine ⟨⟨document, _, finished, previews, ?_, compiled, calls⟩, process_leavingDirectory⟩
  have absent : formatter.artifacts.isCached workspace.storage smallDigits = false ∧
      formatter.artifacts.isCached workspace.storage otherDigits = false ∧ otherDigits ≠ smallDigits := by
    decide +kernel
  simp [missing, formatter.pages_pairInput 'y' (.inr rfl), firstOccurrences, digestX, digestY, absent]

end Formatter

end FencePreview
