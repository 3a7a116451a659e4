import FencePreview.Proofs.Interference
import FencePreview.Proofs.RenderChanges
import Mathlib.Data.List.Nodup
import Mathlib.Data.List.Perm.Subperm

/-! Renders that share their directories of images. Each image comes there whole, by a rename, from a
temporary file that no other render touches. -/

namespace FencePreview

namespace Storage

theorem temporaryName_injective : Function.Injective temporaryName := by
  intro first second same
  simp only [temporaryName, List.append_cancel_right_eq, List.append_cancel_left_eq] at same
  simpa [Text.ofNat] using congrArg (Nat.ofDigitChars 10 · 0) same

theorem get?_of_mem_names (tree : FileTree) (location : Location) (name : Text)
    (member : name ∈ tree.names location) : tree.get? (location ++ [name]) ≠ none := by
  obtain ⟨⟨place, entry⟩, inside, found⟩ := List.mem_filterMap.mp member
  have spot : place = location ++ [name] := by
    simp only at found
    split at found
    · split at found
      · rename_i same
        exact Option.some.inj found ▸ same
      · simp at found
    · simp at found
  subst spot
  have filled : location ++ [name] ≠ [] := by simp
  simp only [FileTree.get?, filled, if_false, ne_eq, List.lookup_eq_none_iff, not_forall]
  exact ⟨_, inside, by simp⟩

theorem freeNumber?_first (taken : List Text) (attempts start number : Nat)
    (found : freeNumber? taken attempts start = some number) (earlier : Nat) (from_ : start ≤ earlier)
    (before : earlier < number) : temporaryName earlier ∈ taken := by
  induction attempts generalizing start with
  | zero => cases found
  | succ attempts ih =>
      by_cases here : temporaryName start ∈ taken
      · rw [freeNumber?_of_mem taken attempts start here] at found
        by_cases same : start = earlier
        · exact same ▸ here
        · exact ih (start + 1) found (by omega)
      · rw [freeNumber?_of_not_mem taken attempts start here] at found
        obtain rfl := Option.some.inj found
        omega

theorem freeNumber?_none (taken : List Text) (attempts start : Nat) (full : freeNumber? taken attempts start = none)
    (number : Nat) (from_ : start ≤ number) (before : number < start + attempts) : temporaryName number ∈ taken := by
  induction attempts generalizing start with
  | zero => omega
  | succ attempts ih =>
      by_cases here : temporaryName start ∈ taken
      · rw [freeNumber?_of_mem taken attempts start here] at full
        by_cases same : start = number
        · exact same ▸ here
        · exact ih (start + 1) full (by omega) (by omega)
      · simp [freeNumber?_of_not_mem taken attempts start here] at full

/-- So many different names as there are numbers below a bound take up a list of at least that length. -/
theorem le_length_of_temporaryNames (names : List Text) (count : Nat)
    (inside : ∀ number < count, temporaryName number ∈ names) : count ≤ names.length := by
  have distinct : ((List.range count).map temporaryName).Nodup :=
    List.Nodup.map temporaryName_injective List.nodup_range
  have subset : (List.range count).map temporaryName ⊆ names := by
    intro name member
    obtain ⟨number, below, rfl⟩ := List.mem_map.mp member
    exact inside number (List.mem_range.mp below)
  simpa using (List.subperm_of_subset distinct subset).length_le

theorem exists_freeNumber (taken : List Text) :
    ∃ number, freeNumber? taken (taken.length + 1) 0 = some number ∧
      ∀ earlier < number, temporaryName earlier ∈ taken := by
  cases found : freeNumber? taken (taken.length + 1) 0 with
  | some number =>
      exact ⟨number, rfl, fun earlier before => freeNumber?_first taken _ 0 number found earlier (by omega) before⟩
  | none =>
      have crowded := le_length_of_temporaryNames taken (taken.length + 1) fun number below =>
        freeNumber?_none taken _ 0 found number (by omega) (by omega)
      omega

end Storage

/-- A compiler that ends as `outcome` tells, whatever else there is. If it succeeds, `output` is in the file that
it is given to write to; if it fails, that is a file still. -/
structure Compiler.Depends (outcome : Text → Except CompileError Unit) (output : Text → ByteArray)
    (compiler : Compiler) : Prop where
  confined : compiler.OnlyOutput
  ends : ∀ calls document path storage, storage.isFile path = true →
    (compiler calls document path storage).outcome = outcome document
  stays : ∀ calls document path storage, storage.isFile path = true →
    (compiler calls document path storage).storage.isFile path = true
  leaves : ∀ calls document path storage, storage.isFile path = true →
    (compiler calls document path storage).outcome = .ok () →
      (compiler calls document path storage).storage.read path = .ok (output document)

theorem Compiler.Depends.writesFile {outcome : Text → Except CompileError Unit} {output : Text → ByteArray}
    {compiler : Compiler} (depends : compiler.Depends outcome output) : compiler.WritesFile := by
  refine ⟨depends.confined, fun calls document path storage file _ => ?_⟩
  rw [← (depends.confined calls document path storage).place_eq]
  exact Storage.isDirectory_place_of_isFile _ path (depends.stays calls document path storage file)

/-- Renders over one pair of directories of images, from `start` on, with compilers that all do the same. -/
structure Scene where
  artifacts : Artifacts
  outcome : Text → Except CompileError Unit
  output : Text → ByteArray
  calls : List Call
  start : Storage

namespace Scene

variable (scene : Scene)

def used : Set (Variant → Text) := Call.used scene.calls

def imagePlace (directory : PathName) (page : Variant → Text) (variant : Variant) : Location :=
  scene.start.place (directory.join ⟨variant.fileName (fingerprint (page .light))⟩)

def IsImage (location : Location) : Prop :=
  ∃ page ∈ scene.used, ∃ directory ∈ scene.artifacts.directories, ∃ variant,
    location = scene.imagePlace directory page variant

/-- Places of images and of temporary files. -/
def Inside (location : Location) : Prop := Hidden location ∨ scene.IsImage location

def Hosts (directory : PathName) : Prop :=
  directory = scene.artifacts.siteDirectory ∨ ∃ page ∈ scene.used, ∃ variant,
    directory = (scene.artifacts.dumpPath (fingerprint (page .light)) variant).parent?.getD ⟨['.']⟩

/-- A start without images, from which renders cannot come into each other's way: pages with different
fingerprints, directories that are not where images or temporary files belong, and paths that are not too
long for a temporary file of each render. -/
structure Ready : Prop where
  shared : ∀ call ∈ scene.calls, call.formatter.artifacts = scene.artifacts
  depends : ∀ call ∈ scene.calls, call.formatter.compiler.Depends scene.outcome scene.output
  rooted : scene.start.tree.Rooted
  named : ∀ name ∈ scene.start.workingDirectory, IsName name
  vacant : ∀ location, scene.IsImage location → scene.start.tree.file? location = none
  distinct : Set.InjOn fingerprint {light | ∃ page ∈ scene.used, light = page .light}
  clear : ∀ location, scene.artifacts.Furnished scene.start location → scene.Inside location →
    scene.start.tree.isDirectory location = true
  room : ∀ directory, scene.Hosts directory →
    ∀ number ≤ (scene.start.tree.names (scene.start.place directory)).length + scene.calls.length,
      Text.byteSize (Storage.temporaryName number) ≤ Storage.nameLimit ∧
        Text.byteSize ((scene.start.absolute directory).join ⟨Storage.temporaryName number⟩).text <
          Storage.pathLimit

/-- What is true of the files at every moment. -/
structure Settled (now : Storage) : Prop where
  rooted : now.tree.Rooted
  adds : Storage.Adds scene.Inside (scene.artifacts.Furnished scene.start) scene.start now
  kinds : ∀ location, scene.Inside location →
    now.tree.isDirectory location = scene.start.tree.isDirectory location
  /-- Every image is the whole output for its page. -/
  images : ∀ page ∈ scene.used, ∀ directory ∈ scene.artifacts.directories, ∀ variant content,
    now.tree.file? (scene.imagePlace directory page variant) = some content →
      scene.outcome (page variant) = .ok () ∧ content = scene.output (page variant)

/-- No more temporary files are there than at the start and one for each render. -/
def Uncrowded (now : Storage) : Prop :=
  ∃ owned : List Location, owned.length ≤ scene.calls.length ∧
    ∀ location, Hidden location → now.tree.get? location ≠ none →
      scene.start.tree.get? location ≠ none ∨ location ∈ owned

/-- Nothing is lost of what renders build on. -/
structure Progress (before after : Storage) : Prop where
  settled : scene.Settled after
  directories : ∀ location, before.tree.isDirectory location = true → after.tree.isDirectory location = true
  images : ∀ location, scene.IsImage location → before.tree.file? location ≠ none →
    after.tree.file? location ≠ none

/-- What the others can do between two turns of a render whose temporary file is at `own`. -/
structure Relies (own : Option Location) (before after : Storage) : Prop where
  progress : scene.Progress before after
  uncrowded : scene.Uncrowded after
  own : ∀ location, own = some location → after.tree.get? location = before.tree.get? location

/-- What a render does in a turn: of the places of temporary files it changes its own, and it takes one
that is free. -/
structure Guarantees (own kept : Option Location) (before after : Storage) : Prop where
  progress : scene.Progress before after
  others : ∀ location, Hidden location → own ≠ some location → kept ≠ some location →
    after.tree.get? location = before.tree.get? location
  taken : ∀ location, kept = some location → Hidden location ∧ after.tree.get? location ≠ none ∧
    (own = some location ∨ before.tree.get? location = none)
  left : ∀ location, own = some location → kept = some location ∨ after.tree.get? location = none

/-- Each render has a temporary file of its own or none. -/
structure Shared (owns : List (Option Location)) (now : Storage) : Prop where
  settled : scene.Settled now
  count : owns.length ≤ scene.calls.length
  owned : ∀ (index : Nat) (location : Location), owns[index]? = some (some location) →
    Hidden location ∧ now.tree.get? location ≠ none
  apart : ∀ (first second : Nat) (location : Location), owns[first]? = some (some location) →
    owns[second]? = some (some location) → first = second
  hidden : ∀ location, Hidden location → now.tree.get? location ≠ none →
    scene.start.tree.get? location ≠ none ∨ some location ∈ owns

variable {scene} in
theorem Progress.refl {now : Storage} (settled : scene.Settled now) : scene.Progress now now :=
  ⟨settled, fun _ => id, fun _ _ => id⟩

variable {scene} in
theorem Progress.trans {first second third : Storage} (early : scene.Progress first second)
    (late : scene.Progress second third) : scene.Progress first third :=
  ⟨late.settled, fun location there => late.directories location (early.directories location there),
    fun location image there => late.images location image (early.images location image there)⟩

def rules : Rules where
  rely := scene.Relies
  guarantee := scene.Guarantees
  settled := fun _ _ _ relied => ⟨.refl relied.progress.settled, relied.uncrowded, fun _ _ => rfl⟩
  trans := fun _ _ _ _ early late => ⟨early.progress.trans late.progress, late.uncrowded,
    fun location own => (late.own location own).trans (early.own location own)⟩

theorem Shared.uncrowded (owns : List (Option Location)) (now : Storage) (shared : scene.Shared owns now) :
    scene.Uncrowded now := by
  refine ⟨owns.filterMap id, (List.length_filterMap_le _ _).trans shared.count, fun location hidden there => ?_⟩
  exact (shared.hidden location hidden there).imp_right fun member => by simpa using member

namespace Shared

variable {scene}
variable {owns : List (Option Location)} {now after : Storage} {index : Nat} {own kept : Option Location}
  (shared : scene.Shared owns now) (place : owns[index]? = some own)
  (turn : scene.Guarantees own kept now after)

include shared place turn

/-- A place that another render has is neither the own one nor one that was free. -/
theorem foreign (other : Nat) (location : Location) (differs : other ≠ index)
    (has : owns[other]? = some (some location)) : own ≠ some location ∧ kept ≠ some location := by
  have notOwn : own ≠ some location := by
    rintro rfl
    exact differs (shared.apart other index location has place)
  refine ⟨notOwn, fun takes => ?_⟩
  rcases (turn.taken location takes).2.2 with mine | free
  · exact notOwn mine
  · exact (shared.owned other location has).2 free

theorem untouched (other : Nat) (location : Location) (differs : other ≠ index)
    (has : owns[other]? = some (some location)) : after.tree.get? location = now.tree.get? location := by
  obtain ⟨notOwn, notKept⟩ := shared.foreign place turn other location differs has
  exact turn.others location (shared.owned other location has).1 notOwn notKept

theorem turned : scene.Shared (owns.set index kept) after := by
  have inside : index < owns.length := (List.getElem?_eq_some_iff.mp place).1
  have here : (owns.set index kept)[index]? = some kept := by simp [inside]
  have there : ∀ other, other ≠ index → (owns.set index kept)[other]? = owns[other]? :=
    fun other differs => List.getElem?_set_ne differs.symm
  have takes : ∀ location, (owns.set index kept)[index]? = some (some location) → kept = some location :=
    fun location has => Option.some.inj (here.symm.trans has)
  refine ⟨turn.progress.settled, by simpa using shared.count, ?_, ?_, ?_⟩
  · intro other location has
    by_cases same : other = index
    · obtain ⟨hidden, filled, _⟩ := turn.taken location (takes location (same ▸ has))
      exact ⟨hidden, filled⟩
    · rw [there other same] at has
      obtain ⟨hidden, filled⟩ := shared.owned other location has
      exact ⟨hidden, by rwa [shared.untouched place turn other location same has]⟩
  · intro first second location firstHas secondHas
    by_cases firstSame : first = index <;> by_cases secondSame : second = index
    · exact firstSame.trans secondSame.symm
    · rw [there second secondSame] at secondHas
      exact absurd (takes location (firstSame ▸ firstHas))
        (shared.foreign place turn second location secondSame secondHas).2
    · rw [there first firstSame] at firstHas
      exact absurd (takes location (secondSame ▸ secondHas))
        (shared.foreign place turn first location firstSame firstHas).2
    · rw [there first firstSame] at firstHas
      rw [there second secondSame] at secondHas
      exact shared.apart first second location firstHas secondHas
  · intro location hidden filled
    by_cases taken : kept = some location
    · exact .inr (taken ▸ List.mem_set inside kept)
    by_cases mine : own = some location
    · exact absurd ((turn.left location mine).resolve_left taken) filled
    rw [turn.others location hidden mine taken] at filled
    refine (shared.hidden location hidden filled).imp_right fun member => ?_
    obtain ⟨other, has⟩ := List.mem_iff_getElem?.mp member
    have differs : other ≠ index := by
      rintro rfl
      exact mine (Option.some.inj (place.symm.trans has))
    exact List.mem_iff_getElem?.mpr ⟨other, by rwa [there other differs]⟩

end Shared

theorem shares : scene.rules.Shares scene.Shared := by
  refine ⟨fun owns now index own shared _ => ?_, fun owns now after index own kept shared place turn => ?_⟩
  · exact ⟨.refl shared.settled, shared.uncrowded scene, fun _ _ => rfl⟩
  have next := shared.turned place turn
  refine ⟨next, fun other own' differs has => ⟨turn.progress, next.uncrowded scene, ?_⟩⟩
  rintro location rfl
  exact shared.untouched place turn other location differs has

theorem not_hidden_imagePlace (directory : PathName) (page : Variant → Text) (variant : Variant) :
    ¬Hidden (scene.imagePlace directory page variant) :=
  variant.not_hidden_join _ (isDigest_fingerprint _) scene.start directory

variable {scene}

namespace Settled

theorem place_eq {now : Storage} (settled : scene.Settled now) (path : PathName) :
    now.place path = scene.start.place path :=
  Storage.place_congr _ _ settled.adds.sameDirectory path

theorem isDirectory {now : Storage} (settled : scene.Settled now) (location : Location)
    (there : scene.start.tree.isDirectory location = true) : now.tree.isDirectory location = true := by
  by_cases inside : scene.Inside location
  · rw [settled.kinds location inside, there]
  · rcases settled.adds.entries location inside with same | ⟨free, _, _⟩
    · simpa only [FileTree.isDirectory, same] using there
    · simp [FileTree.isDirectory, free] at there

/-- Where an image or a temporary file belongs, something may come to be that is no directory. -/
theorem put {before after : Storage} (settled : scene.Settled before) (place : Location)
    (inside : scene.Inside place) (sameDirectory : after.workingDirectory = before.workingDirectory)
    (others : ∀ location, location ≠ place → after.tree.get? location = before.tree.get? location)
    (parent : before.tree.isDirectory place.dropLast = true) (plain : before.tree.isDirectory place = false)
    (stillPlain : after.tree.isDirectory place = false)
    (image : ∀ page ∈ scene.used, ∀ directory ∈ scene.artifacts.directories, ∀ variant content,
      place = scene.imagePlace directory page variant → after.tree.file? place = some content →
        scene.outcome (page variant) = .ok () ∧ content = scene.output (page variant)) :
    scene.Settled after := by
  have directories := FileTree.isDirectory_of_others _ _ place others plain
  refine ⟨?_, ?_, ?_, ?_⟩
  · intro location entry found
    by_cases here : location = place
    · exact here ▸ directories _ parent
    · exact directories _ (settled.rooted location entry (others location here ▸ found))
  · refine settled.adds.trans _ _ _ _ _ ⟨sameDirectory, fun location outside => .inl (others location ?_)⟩
    rintro rfl
    exact outside inside
  · intro location within
    by_cases here : location = place
    · subst here
      rw [stillPlain, ← plain, settled.kinds location within]
    · rw [← settled.kinds location within]
      simp only [FileTree.isDirectory, others location here]
  · intro page member directory known variant content found
    by_cases here : scene.imagePlace directory page variant = place
    · exact image page member directory known variant content here.symm (here ▸ found)
    · simp only [FileTree.file?, others _ here] at found
      exact settled.images page member directory known variant content found

end Settled

/-- A change at the place of a temporary file, that is one's own before or after it. -/
theorem Guarantees.of_put {own kept : Option Location} {before after : Storage} (settled : scene.Settled before)
    (place : Location) (hidden : Hidden place) (sameDirectory : after.workingDirectory = before.workingDirectory)
    (others : ∀ location, location ≠ place → after.tree.get? location = before.tree.get? location)
    (parent : before.tree.isDirectory place.dropLast = true) (plain : before.tree.isDirectory place = false)
    (stillPlain : after.tree.isDirectory place = false)
    (mine : own = some place ∧ (kept = none ∧ after.tree.get? place = none ∨
          kept = some place ∧ after.tree.get? place ≠ none) ∨
      own = none ∧ before.tree.get? place = none ∧ kept = some place ∧ after.tree.get? place ≠ none) :
    scene.Guarantees own kept before after := by
  have either : own = some place ∨ kept = some place := by
    rcases mine with ⟨has, _⟩ | ⟨_, _, has, _⟩
    · exact .inl has
    · exact .inr has
  refine ⟨⟨?_, FileTree.isDirectory_of_others _ _ place others plain, ?_⟩, ?_, ?_, ?_⟩
  · refine settled.put place (.inl hidden) sameDirectory others parent plain stillPlain ?_
    rintro page _ directory _ variant _ rfl _
    exact absurd hidden (scene.not_hidden_imagePlace directory page variant)
  · rintro location ⟨page, _, directory, _, variant, rfl⟩ there
    have apart : scene.imagePlace directory page variant ≠ place := by
      rintro rfl
      exact scene.not_hidden_imagePlace directory page variant hidden
    simpa only [FileTree.file?, others _ apart] using there
  · intro location _ notOwn notKept
    refine others location ?_
    rintro rfl
    exact either.elim notOwn notKept
  · intro location takes
    rcases mine with ⟨has, ⟨none, _⟩ | ⟨same, there⟩⟩ | ⟨_, free, same, there⟩
    · simp [none] at takes
    · obtain rfl : place = location := by simpa [same] using takes
      exact ⟨hidden, there, .inl has⟩
    · obtain rfl : place = location := by simpa [same] using takes
      exact ⟨hidden, there, .inr free⟩
  · intro location has
    rcases mine with ⟨same, ⟨_, gone⟩ | ⟨stays, _⟩⟩ | ⟨none, _⟩
    · obtain rfl : place = location := by simpa [same] using has
      exact .inr gone
    · obtain rfl : place = location := by simpa [same] using has
      exact .inl stays
    · simp [none] at has

theorem Guarantees.unchanged {now : Storage} (settled : scene.Settled now) : scene.Guarantees none none now now :=
  ⟨.refl settled, fun _ _ _ _ => rfl, by simp, by simp⟩

variable (scene) in
/-- A render has a temporary file of its own at the end of a path. -/
structure Holds (path : PathName) (own : Option Location) (now : Storage) : Prop where
  settled : scene.Settled now
  spelled : ∃ (directory : PathName) (number : Nat), path = directory.join ⟨Storage.temporaryName number⟩
  own : own = some (scene.start.place path)
  hidden : Hidden (scene.start.place path)
  leads : now.resolve path = .ok (scene.start.place path)
  there : now.tree.file? (scene.start.place path) ≠ none

namespace Holds

variable {path : PathName} {own : Option Location} {now : Storage}

theorem plain (holds : scene.Holds path own now) : now.tree.isDirectory (scene.start.place path) = false := by
  obtain ⟨content, found⟩ := Option.ne_none_iff_exists'.mp holds.there
  exact now.tree.isDirectory_eq_false_of_file? _ content found

theorem parent (holds : scene.Holds path own now) :
    now.tree.isDirectory (scene.start.place path).dropLast = true :=
  Storage.isDirectory_dropLast_of_resolve now holds.settled.rooted path _ holds.leads

theorem place_eq (holds : scene.Holds path own now) : now.place path = scene.start.place path :=
  holds.settled.place_eq path

theorem get?_ne_none (holds : scene.Holds path own now) : now.tree.get? (scene.start.place path) ≠ none := by
  intro free
  exact holds.there (by simp [FileTree.file?, free])

theorem stable {later : Storage} (holds : scene.Holds path own now) (relied : scene.Relies own now later) :
    scene.Holds path own later := by
  have same := relied.own _ holds.own
  have settled := relied.progress.settled
  refine ⟨settled, holds.spelled, holds.own, holds.hidden, ?_,
    by simpa only [FileTree.file?, same] using holds.there⟩
  exact Storage.resolve_mono now later
    (settled.adds.sameDirectory.trans holds.settled.adds.sameDirectory.symm) relied.progress.directories _ _ holds.leads

theorem unchanged (holds : scene.Holds path own now) : scene.Guarantees own own now now :=
  .of_put holds.settled _ holds.hidden rfl (fun _ _ => rfl) holds.parent holds.plain holds.plain
    (.inl ⟨holds.own, .inr ⟨holds.own, holds.get?_ne_none⟩⟩)

theorem confined {after : Storage} (holds : scene.Holds path own now) (confined : Storage.ConfinedTo path now after)
    (there : after.tree.file? (scene.start.place path) ≠ none) :
    scene.Guarantees own own now after ∧ scene.Holds path own after := by
  have others : ∀ location, location ≠ scene.start.place path →
      after.tree.get? location = now.tree.get? location :=
    fun location apart => confined.others location (by rwa [holds.place_eq])
  obtain ⟨content, found⟩ := Option.ne_none_iff_exists'.mp there
  have stillPlain := after.tree.isDirectory_eq_false_of_file? _ content found
  have stays : after.tree.get? (scene.start.place path) ≠ none := by
    intro free
    exact there (by simp [FileTree.file?, free])
  have turn : scene.Guarantees own own now after :=
    .of_put holds.settled _ holds.hidden confined.sameDirectory others holds.parent holds.plain stillPlain
      (.inl ⟨holds.own, .inr ⟨holds.own, stays⟩⟩)
  exact ⟨turn, turn.progress.settled, holds.spelled, holds.own, holds.hidden,
    Storage.resolve_mono now after confined.sameDirectory turn.progress.directories _ _ holds.leads, there⟩

theorem withdrawn (holds : scene.Holds path own now) :
    scene.Guarantees own none now (now.withoutEntry (scene.start.place path)) := by
  have inner := now.tree.ne_nil_of_not_isDirectory _ holds.plain
  have gone : (now.withoutEntry (scene.start.place path)).tree.get? (scene.start.place path) = none := by
    simp [Storage.withoutEntry, FileTree.get?_erase _ _ _ inner]
  have bare := Storage.bare_of_not_directory now path holds.settled.rooted (holds.place_eq ▸ holds.plain)
  have confined := Storage.confinedTo_withoutEntry now path bare
  rw [holds.place_eq] at confined
  refine .of_put holds.settled _ holds.hidden rfl ?_ holds.parent holds.plain (by simp [FileTree.isDirectory, gone])
    (.inl ⟨holds.own, .inl ⟨rfl, gone⟩⟩)
  exact fun location apart => confined.others location (by rwa [holds.place_eq])

theorem discarded (holds : scene.Holds path own now) : scene.Guarantees own none now (Job.discard path now) := by
  obtain ⟨content, found⟩ := Option.ne_none_iff_exists'.mp holds.there
  obtain ⟨mode, entry⟩ := (FileTree.file?_eq_some_iff _ _ _).mp found
  have removed : now.removeFile path = .ok (now.withoutEntry (scene.start.place path)) := by
    simp only [Storage.removeFile, Storage.requireEntry, holds.leads, entry, Storage.withoutEntry]
  simp only [Job.discard, removed]
  exact holds.withdrawn

end Holds

end Scene

end FencePreview
