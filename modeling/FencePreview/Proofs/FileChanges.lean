import FencePreview.Proofs.Jobs
import FencePreview.Proofs.Places

/-! What operations leave alone. A file is put in place by filling a hidden file first and moving it
at the end, so a failure on the way changes no file that is not hidden. -/

namespace FencePreview

/-- A path itself and the paths that remain when steps are cut off from its end. -/
inductive PathName.Above : PathName → PathName → Prop
  | self (path : PathName) : Above path path
  | parent (path up above : PathName) (cut : path.parent? = some up) (higher : Above up above) :
      Above path above

/-- A tree as operations leave it, that put entries in and take them out. -/
inductive FileTree.Edited (before : FileTree) : FileTree → Prop
  | none : Edited before before
  | insert (after : FileTree) (location : Location) (entry : Entry) (edited : Edited before after) :
      Edited before (after.insert location entry)
  | erase (after : FileTree) (location : Location) (edited : Edited before after) :
      Edited before (after.erase location)

theorem FileTree.Edited.trans {first second third : FileTree} (early : Edited first second)
    (late : Edited second third) : Edited first third := by
  induction late with
  | none => exact early
  | insert after location entry _ ih => exact .insert after location entry ih
  | erase after location _ ih => exact .erase after location ih

theorem FileTree.Edited.move (tree : FileTree) (origin location : Location) (entry : Entry) :
    tree.Edited (tree.move origin location entry) := by
  rw [FileTree.move]
  induction tree.below origin with
  | nil => exact .insert _ _ _ (.erase _ _ .none)
  | cons binding rest ih => exact .insert _ _ _ ih

/-- A location that only temporary files have. -/
def Hidden (location : Location) : Prop :=
  ∃ above number, location = above ++ [Storage.temporaryName number]

namespace Storage

/-- Nothing changes but at the place of a path. -/
structure ConfinedTo (path : PathName) (before after : Storage) : Prop where
  sameDirectory : after.workingDirectory = before.workingDirectory
  others : ∀ location, location ≠ before.place path →
    after.tree.get? location = before.tree.get? location

/-- Directories stay, and of the files that are not hidden only those at the `targets` change. -/
structure Keeps (targets : List PathName) (before after : Storage) : Prop where
  sameDirectory : after.workingDirectory = before.workingDirectory
  directories : ∀ location, before.tree.isDirectory location = true →
    after.tree.isDirectory location = true
  files : ∀ location, (∀ target ∈ targets, location ≠ before.place target) → ¬Hidden location →
    after.tree.file? location = before.tree.file? location
  rooted : after.tree.Rooted

/-- What is left when an entry is taken away with everything below it. -/
def withoutEntry (storage : Storage) (location : Location) : Storage :=
  { storage with tree := storage.tree.erase location }

/-- A path to a hidden place in a directory where nothing is yet. -/
structure Fresh (path : PathName) (storage : Storage) : Prop where
  free : storage.tree.get? (storage.place path) = none
  inside : storage.tree.isDirectory (storage.place path).dropLast = true
  hidden : Hidden (storage.place path)

theorem requireEntry_eq_ok_iff (storage : Storage) (path : PathName) (location : Location) (entry : Entry) :
    storage.requireEntry path = .ok (location, entry) ↔
      storage.resolve path = .ok location ∧ storage.tree.get? location = some entry := by
  constructor
  · intro present
    simp only [requireEntry] at present
    split at present
    · simp at present
    · rename_i place leads
      split at present
      · rename_i other found
        cases present
        exact ⟨leads, found⟩
      · simp at present
  · rintro ⟨leads, there⟩
    simp only [requireEntry, leads, there]

theorem read_eq_ok_iff (storage : Storage) (path : PathName) (content : ByteArray) :
    storage.read path = .ok content ↔
      ∃ location, storage.resolve path = .ok location ∧ storage.tree.file? location = some content := by
  simp only [FileTree.file?_eq_some_iff]
  constructor
  · intro found
    simp only [read] at found
    split at found
    · simp at found
    · rename_i location inner mode present
      simp only [Except.ok.injEq] at found
      subst found
      obtain ⟨leads, there⟩ := (requireEntry_eq_ok_iff _ _ _ _).mp present
      exact ⟨location, leads, mode, there⟩
    · simp at found
  · rintro ⟨location, leads, mode, there⟩
    simp only [read, (requireEntry_eq_ok_iff _ _ _ _).mpr ⟨leads, there⟩]

theorem isFile_eq_true_iff (storage : Storage) (path : PathName) :
    storage.isFile path = true ↔ ∃ content, storage.read path = .ok content := by
  simp only [read_eq_ok_iff, isFile, entry?, FileTree.file?_eq_some_iff]
  cases storage.resolve path with
  | error error => simp
  | ok location =>
      simp only [Except.ok.injEq]
      constructor
      · intro found
        split at found
        · rename_i content mode present
          exact ⟨content, location, rfl, mode, present⟩
        · simp at found
      · rintro ⟨content, _, rfl, mode, present⟩
        simp [present]

theorem file?_place_of_read (storage : Storage) (path : PathName) (content : ByteArray)
    (found : storage.read path = .ok content) :
    storage.tree.file? (storage.place path) = some content := by
  obtain ⟨location, leads, there⟩ := (read_eq_ok_iff _ _ _).mp found
  rw [← resolve_eq_ok _ _ _ leads]
  exact there

theorem isDirectory_place_of_isFile (storage : Storage) (path : PathName) (file : storage.isFile path = true) :
    storage.tree.isDirectory (storage.place path) = false := by
  obtain ⟨content, found⟩ := (isFile_eq_true_iff _ _).mp file
  exact FileTree.isDirectory_eq_false_of_file? _ _ content (file?_place_of_read _ _ _ found)

namespace ConfinedTo

theorem refl (path : PathName) (storage : Storage) : ConfinedTo path storage storage :=
  ⟨rfl, fun _ _ => rfl⟩

theorem trans (path : PathName) (first second third : Storage) (early : ConfinedTo path first second)
    (late : ConfinedTo path second third) : ConfinedTo path first third := by
  refine ⟨late.sameDirectory.trans early.sameDirectory, ?_⟩
  intro location apart
  have samePlace := place_congr first second early.sameDirectory path
  rw [late.others location (by rwa [samePlace]), early.others location apart]

theorem place_eq (path : PathName) (before after : Storage) (confined : ConfinedTo path before after)
    (sought : PathName) : after.place sought = before.place sought :=
  place_congr _ _ confined.sameDirectory sought

/-- Unless a directory comes to be at the one place, paths lead nowhere else than before. -/
theorem resolve_before (path : PathName) (before after : Storage) (confined : ConfinedTo path before after)
    (other : after.tree.isDirectory (before.place path) = false) (sought : PathName) (location : Location)
    (found : after.resolve sought = .ok location) : before.resolve sought = .ok location := by
  refine resolve_mono after before confined.sameDirectory.symm ?_ _ _ found
  intro inner directory
  have apart : inner ≠ before.place path := by
    rintro rfl
    rw [other] at directory
    exact absurd directory (by decide)
  simpa [FileTree.isDirectory, confined.others inner apart] using directory

/-- Where nothing was, a change of one place keeps all files that are not hidden. -/
theorem keeps (path : PathName) (before after : Storage) (confined : ConfinedTo path before after)
    (rooted : before.tree.Rooted) (fresh : Fresh path before) : Keeps [] before after := by
  have directories : ∀ location, before.tree.isDirectory location = true →
      location ≠ before.place path ∧ after.tree.isDirectory location = true := by
    intro location directory
    have apart : location ≠ before.place path := by
      rintro rfl
      simp [FileTree.isDirectory, fresh.free] at directory
    refine ⟨apart, ?_⟩
    simpa [FileTree.isDirectory, confined.others location apart] using directory
  refine ⟨confined.sameDirectory, fun location directory => (directories location directory).2, ?_, ?_⟩
  · intro location _ visible
    have apart : location ≠ before.place path := by
      rintro rfl
      exact visible fresh.hidden
    simp only [FileTree.file?, confined.others location apart]
  · intro location entry found
    by_cases spot : location = before.place path
    · rw [spot]
      exact (directories _ fresh.inside).2
    · rw [confined.others location spot] at found
      exact (directories _ (rooted location entry found)).2

end ConfinedTo

theorem setMode_eq_ok_iff (before after : Storage) (path : PathName) (mode : Nat) :
    before.setMode path mode = .ok after ↔
      ∃ location entry, before.resolve path = .ok location ∧ before.tree.get? location = some entry ∧
        after = before.withEntry location (entry.withMode mode) := by
  constructor
  · intro changed
    simp only [setMode] at changed
    split at changed
    · simp at changed
    · rename_i location entry present
      simp only [Except.ok.injEq] at changed
      obtain ⟨leads, there⟩ := (requireEntry_eq_ok_iff _ _ _ _).mp present
      exact ⟨location, entry, leads, there, changed.symm⟩
  · rintro ⟨location, entry, leads, there, rfl⟩
    simp only [setMode, (requireEntry_eq_ok_iff _ _ _ _).mpr ⟨leads, there⟩]

theorem copy_eq_ok_iff (before after : Storage) (source target : PathName) :
    before.copy source target = .ok after ↔
      ∃ origin content mode location, before.resolve source = .ok origin ∧
        before.tree.get? origin = some (.file content mode) ∧
        before.resolve target = .ok location ∧ before.tree.isDirectory location = false ∧
        after = before.withEntry location (.file content mode) := by
  constructor
  · intro copied
    simp only [copy] at copied
    split at copied
    · simp at copied
    · simp at copied
    · rename_i origin content mode present
      split at copied
      · simp at copied
      · rename_i location leads
        split at copied
        · simp at copied
        · rename_i open?
          simp only [Except.ok.injEq] at copied
          obtain ⟨sourceLeads, there⟩ := (requireEntry_eq_ok_iff _ _ _ _).mp present
          exact ⟨origin, content, mode, location, sourceLeads, there, leads,
            Bool.eq_false_iff.mpr open?, copied.symm⟩
  · rintro ⟨origin, content, mode, location, sourceLeads, there, leads, other, rfl⟩
    simp [copy, (requireEntry_eq_ok_iff _ _ _ _).mpr ⟨sourceLeads, there⟩, leads, other]

/-- What a rename that succeeded did with the entry that the source named. -/
structure Moved (before after : Storage) (source target : PathName) (entry : Entry) : Prop where
  there : before.tree.get? (before.place source) = some entry
  inside : before.tree.Rooted → before.tree.isDirectory (before.place target).dropLast = true
  leads : entry.isDirectory = false → before.resolve source = .ok (before.place source) ∧
    before.resolve target = .ok (before.place target)
  outcome : before.place target = before.place source ∧ after = before ∨
    before.tree.Open (before.place source) (before.place target) entry ∧
      after = { before with tree := before.tree.move (before.place source) (before.place target) entry }

theorem rename_eq_ok (before after : Storage) (source target : PathName)
    (renamed : before.rename source target = .ok after) : ∃ entry, Moved before after source target entry := by
  simp only [rename] at renamed
  split at renamed
  · simp at renamed
  · simp at renamed
  rename_i origin location leaves arrives
  obtain ⟨rfl, sourceLeads⟩ := spot_eq_ok _ _ _ leaves
  obtain ⟨rfl, targetLeads⟩ := spot_eq_ok _ _ _ arrives
  split at renamed
  · simp at renamed
  rename_i entry there
  split at renamed
  · simp at renamed
  rename_i slashes
  refine ⟨entry, there, fun rooted => isDirectory_dropLast_of_resolve _ rooted _ _ targetLeads, fun file => ?_, ?_⟩
  · simp only [file, Bool.not_false, Bool.true_and, Bool.not_eq_true, Bool.or_eq_false_iff] at slashes
    rw [PathName.trimmed_eq_self _ slashes.1] at sourceLeads
    rw [PathName.trimmed_eq_self _ slashes.2] at targetLeads
    exact ⟨sourceLeads, targetLeads⟩
  · split at renamed
    · rename_i same
      exact .inl ⟨same, (Except.ok.inj renamed).symm⟩
    · split at renamed
      · simp at renamed
      · rename_i free
        exact .inr ⟨(FileTree.obstacle?_eq_none_iff _ _ _ _).mp free, (Except.ok.inj renamed).symm⟩

theorem Moved.rooted {before after : Storage} {source target : PathName} {entry : Entry}
    (moved : Moved before after source target entry) (rooted : before.tree.Rooted) : after.tree.Rooted := by
  rcases moved.outcome with ⟨_, rfl⟩ | ⟨free, rfl⟩
  · exact rooted
  · exact free.rooted_move rooted moved.there (moved.inside rooted)

/-- A file takes the place of no directory. -/
theorem Moved.plain {before after : Storage} {source target : PathName} {entry : Entry}
    (moved : Moved before after source target entry)
    (file : before.tree.isDirectory (before.place source) = false) :
    before.tree.isDirectory (before.place target) = false := by
  rcases moved.outcome with ⟨same, _⟩ | ⟨free, _⟩
  · rwa [same]
  · refine Bool.eq_false_iff.mpr fun directory => ?_
    have there := moved.there
    cases entry with
    | file content mode => exact absurd (free.directory directory).1 (by simp [Entry.isDirectory])
    | directory mode => simp [FileTree.isDirectory, there] at file

/-- A file can be moved to where no directory is. -/
theorem rename_of_file (storage : Storage) (rooted : storage.tree.Rooted) (host directory : PathName)
    (source target : Text) (sourceProper : IsName source) (targetProper : IsName target) (origin location : Location)
    (content : ByteArray) (leaves : storage.resolve (host.join ⟨source⟩) = .ok origin)
    (there : storage.tree.file? origin = some content)
    (arrives : storage.resolve (directory.join ⟨target⟩) = .ok location)
    (plain : storage.tree.isDirectory location = false) :
    ∃ after, storage.rename (host.join ⟨source⟩) (directory.join ⟨target⟩) = .ok after := by
  have file := storage.tree.isDirectory_eq_false_of_file? origin content there
  obtain ⟨mode, entry⟩ := (FileTree.file?_eq_some_iff _ _ _).mp there
  have inside := isDirectory_dropLast_of_resolve storage rooted _ _ arrives
  simp only [rename, storage.spot_join _ _ sourceProper, storage.spot_join _ _ targetProper, leaves, arrives, entry,
    Entry.isDirectory, host.endsInSlash_join _ sourceProper, directory.endsInSlash_join _ targetProper, Bool.or_false,
    Bool.and_false, Bool.false_eq_true, if_false]
  by_cases same : location = origin
  · exact ⟨storage, if_pos same⟩
  have free : storage.tree.Open origin location (.file content mode) := by
    refine ⟨?_, ?_, fun directory => absurd directory (by simp [plain]), fun _ => rfl⟩
    -- Below a file there is nothing.
    · rintro ⟨more, rfl⟩
      rcases more.eq_nil_or_concat with empty | ⟨front, last, shape⟩
      · exact same (by simp [empty])
      · rw [shape, List.concat_eq_append, ← List.append_assoc, List.dropLast_concat] at inside
        obtain ⟨bits, found⟩ := (FileTree.isDirectory_eq_true_iff _ _).mp inside
        by_cases top : front = []
        · simp [top, file] at inside
        · simp [rooted.get?_below _ _ file front top] at found
    · rintro ⟨more, rfl⟩
      have filled : more ≠ [] := by
        rintro rfl
        exact same (by simp)
      simp [rooted.get?_below _ _ plain more filled] at entry
  simp only [if_neg same, (FileTree.obstacle?_eq_none_iff _ _ _ _).mpr free]
  exact ⟨_, rfl⟩

theorem removeFile_eq_ok (before after : Storage) (path : PathName)
    (removed : before.removeFile path = .ok after) :
    ∃ location content, before.resolve path = .ok location ∧ before.tree.file? location = some content ∧
      after = before.withoutEntry location := by
  simp only [removeFile] at removed
  split at removed
  · simp at removed
  · simp at removed
  · rename_i location content mode present
    obtain ⟨leads, there⟩ := (requireEntry_eq_ok_iff _ _ _ _).mp present
    exact ⟨location, content, leads, (FileTree.file?_eq_some_iff _ _ _).mpr ⟨mode, there⟩,
      (Except.ok.inj removed).symm⟩

theorem isDirectory_withEntry (storage : Storage) (location : Location) (entry : Entry) (filled : location ≠ []) :
    (storage.withEntry location entry).tree.isDirectory location = entry.isDirectory := by
  cases entry <;> simp [withEntry, FileTree.isDirectory, FileTree.get?_insert _ _ _ _ filled, Entry.isDirectory]

theorem confinedTo_withEntry (storage : Storage) (path : PathName) (entry : Entry)
    (inner : storage.place path ≠ []) :
    ConfinedTo path storage (storage.withEntry (storage.place path) entry) := by
  refine ⟨rfl, ?_⟩
  intro location apart
  simp only [withEntry]
  rw [FileTree.get?_insert _ _ _ _ inner, if_neg apart]

def Bare (path : PathName) (storage : Storage) : Prop :=
  storage.place path ≠ [] ∧
    ∀ more, more ≠ [] → storage.tree.get? (storage.place path ++ more) = none

theorem confinedTo_withoutEntry (storage : Storage) (path : PathName) (bare : Bare path storage) :
    ConfinedTo path storage (storage.withoutEntry (storage.place path)) := by
  refine ⟨rfl, ?_⟩
  intro location apart
  by_cases top : location = []
  · simp [top, FileTree.get?]
  · simp only [withoutEntry, FileTree.get?_erase _ _ _ top]
    split
    · rename_i above
      obtain ⟨more, rfl⟩ := List.isPrefixOf_iff_prefix.mp above
      refine (bare.2 more ?_).symm
      rintro rfl
      exact apart (List.append_nil _)
    · rfl

theorem bare_of_not_directory (storage : Storage) (path : PathName) (rooted : storage.tree.Rooted)
    (other : storage.tree.isDirectory (storage.place path) = false) : Bare path storage :=
  ⟨storage.tree.ne_nil_of_not_isDirectory _ other,
    fun more filled => rooted.get?_below _ _ other more filled⟩

/-- An entry with nothing below it is taken away and put where it goes. -/
theorem Moved.of_bare {before after : Storage} {source target : PathName} {entry : Entry}
    (moved : Moved before after source target entry) (bare : Bare source before) :
    before.place target = before.place source ∧ after = before ∨
      before.tree.Open (before.place source) (before.place target) entry ∧
        after = (before.withoutEntry (before.place source)).withEntry (before.place target) entry := by
  refine moved.outcome.imp_right fun ⟨free, shape⟩ => ⟨free, ?_⟩
  rw [shape, FileTree.move_of_below_eq_nil _ _ _ _ (before.tree.below_eq_nil _ bare.2)]
  rfl

namespace Fresh

theorem ne_nil (path : PathName) (storage : Storage) (fresh : Fresh path storage) :
    storage.place path ≠ [] :=
  FileTree.ne_nil_of_get?_eq_none _ _ fresh.free

/-- Below a fresh place nothing comes to be as long as only that place changes. -/
theorem bare (path : PathName) (before now : Storage) (fresh : Fresh path before)
    (rooted : before.tree.Rooted) (confined : ConfinedTo path before now) : Bare path now := by
  rw [Bare, confined.place_eq]
  refine ⟨fresh.ne_nil, ?_⟩
  intro more filled
  have apart : before.place path ++ more ≠ before.place path := by
    intro same
    exact filled (List.append_right_eq_self.mp same)
  rw [confined.others _ apart]
  refine rooted.get?_below _ _ ?_ more filled
  simp [FileTree.isDirectory, fresh.free]

end Fresh

theorem confinedTo_discard (before : Storage) (path : PathName) (bare : Bare path before) :
    ConfinedTo path before (Job.discard path before) := by
  simp only [Job.discard]
  split
  · rename_i after removed
    obtain ⟨location, _, leads, _, rfl⟩ := removeFile_eq_ok _ _ _ removed
    rw [resolve_eq_ok _ _ _ leads]
    exact confinedTo_withoutEntry before path bare
  · exact .refl path before

theorem confinedTo_setMode (before after : Storage) (path : PathName) (mode : Nat)
    (inner : before.place path ≠ []) (changed : before.setMode path mode = .ok after) :
    ConfinedTo path before after ∧ ∀ content, after.read path = .ok content → before.read path = .ok content := by
  obtain ⟨location, entry, leads, there, rfl⟩ := (setMode_eq_ok_iff _ _ _ _).mp changed
  have spot := resolve_eq_ok _ _ _ leads
  subst spot
  refine ⟨confinedTo_withEntry before path _ inner, ?_⟩
  intro content found
  have present := file?_place_of_read _ _ _ found
  rw [place_congr before (before.withEntry (before.place path) (entry.withMode mode)) rfl] at present
  obtain ⟨bits, inside⟩ := (FileTree.file?_eq_some_iff _ _ _).mp present
  simp only [withEntry, FileTree.get?_insert _ _ _ _ inner, if_true] at inside
  cases entry with
  | file other old =>
      simp only [Entry.withMode, Option.some.injEq, Entry.file.injEq] at inside
      obtain ⟨rfl, _⟩ := inside
      exact (read_eq_ok_iff _ _ _).mpr ⟨_, leads, (FileTree.file?_eq_some_iff _ _ _).mpr ⟨old, there⟩⟩
  | directory old => simp [Entry.withMode] at inside

theorem isDirectory_setMode (before after : Storage) (path : PathName) (mode : Nat)
    (changed : before.setMode path mode = .ok after) :
    after.tree.isDirectory (before.place path) = before.tree.isDirectory (before.place path) := by
  obtain ⟨location, entry, leads, there, rfl⟩ := (setMode_eq_ok_iff _ _ _ _).mp changed
  obtain rfl := resolve_eq_ok _ _ _ leads
  by_cases top : before.place path = []
  · simp [top, FileTree.isDirectory_root]
  · rw [isDirectory_withEntry _ _ _ top]
    cases entry <;> simp [FileTree.isDirectory, there, Entry.withMode, Entry.isDirectory]

theorem confinedTo_copy (before after : Storage) (source target : PathName)
    (copied : before.copy source target = .ok after) : ConfinedTo target before after := by
  obtain ⟨origin, content, mode, location, _, _, leads, other, rfl⟩ := (copy_eq_ok_iff _ _ _ _).mp copied
  rw [resolve_eq_ok _ _ _ leads]
  refine confinedTo_withEntry before target _ ?_
  rw [← resolve_eq_ok _ _ _ leads]
  exact before.tree.ne_nil_of_not_isDirectory _ other

theorem isDirectory_of_copy (before after : Storage) (source target : PathName)
    (copied : before.copy source target = .ok after) : after.tree.isDirectory (before.place target) = false := by
  obtain ⟨_, content, mode, location, _, _, leads, other, rfl⟩ := (copy_eq_ok_iff _ _ _ _).mp copied
  obtain rfl := resolve_eq_ok _ _ _ leads
  exact isDirectory_withEntry _ _ _ (before.tree.ne_nil_of_not_isDirectory _ other)

theorem write_eq_ok (before after : Storage) (path : PathName) (content : ByteArray)
    (written : before.write path content = .ok after) :
    ∃ mode, before.resolve path = .ok (before.place path) ∧
      before.tree.isDirectory (before.place path) = false ∧
      after = before.withEntry (before.place path) (.file content mode) := by
  simp only [write] at written
  split at written
  · simp at written
  · rename_i location leads
    have spot := resolve_eq_ok _ _ _ leads
    subst spot
    split at written
    · simp at written
    · rename_i old mode found
      exact ⟨mode, leads, by simp [FileTree.isDirectory, found], (Except.ok.inj written).symm⟩
    · rename_i found
      exact ⟨_, leads, by simp [FileTree.isDirectory, found], (Except.ok.inj written).symm⟩

theorem confinedTo_write (before after : Storage) (path : PathName) (content : ByteArray)
    (written : before.write path content = .ok after) : ConfinedTo path before after := by
  obtain ⟨mode, _, other, rfl⟩ := write_eq_ok _ _ _ _ written
  exact confinedTo_withEntry before path _ (before.tree.ne_nil_of_not_isDirectory _ other)

theorem read_of_copy (before after : Storage) (source target : PathName) (content : ByteArray)
    (copied : before.copy source target = .ok after) (found : after.read target = .ok content) :
    before.read source = .ok content := by
  obtain ⟨origin, inner, mode, location, sourceLeads, there, leads, other, rfl⟩ :=
    (copy_eq_ok_iff _ _ _ _).mp copied
  have filled := before.tree.ne_nil_of_not_isDirectory _ other
  have present := file?_place_of_read _ _ _ found
  rw [place_congr before (before.withEntry location (.file inner mode)) rfl,
    ← resolve_eq_ok _ _ _ leads] at present
  obtain ⟨bits, inside⟩ := (FileTree.file?_eq_some_iff _ _ _).mp present
  simp only [withEntry, FileTree.get?_insert _ _ _ _ filled, if_true, Option.some.injEq,
    Entry.file.injEq] at inside
  obtain ⟨rfl, _⟩ := inside
  exact (read_eq_ok_iff _ _ _).mpr
    ⟨origin, sourceLeads, (FileTree.file?_eq_some_iff _ _ _).mpr ⟨mode, there⟩⟩

theorem edited_withEntry (storage : Storage) (location : Location) (entry : Entry) :
    storage.tree.Edited (storage.withEntry location entry).tree :=
  .insert _ _ _ .none

theorem edited_write (before after : Storage) (path : PathName) (content : ByteArray)
    (written : before.write path content = .ok after) : before.tree.Edited after.tree := by
  obtain ⟨_, _, _, rfl⟩ := write_eq_ok _ _ _ _ written
  exact edited_withEntry _ _ _

theorem edited_copy (before after : Storage) (source target : PathName)
    (copied : before.copy source target = .ok after) : before.tree.Edited after.tree := by
  obtain ⟨_, _, _, _, _, _, _, _, rfl⟩ := (copy_eq_ok_iff _ _ _ _).mp copied
  exact edited_withEntry _ _ _

theorem edited_setMode (before after : Storage) (path : PathName) (mode : Nat)
    (changed : before.setMode path mode = .ok after) : before.tree.Edited after.tree := by
  obtain ⟨_, _, _, _, rfl⟩ := (setMode_eq_ok_iff _ _ _ _).mp changed
  exact edited_withEntry _ _ _

theorem edited_rename (before after : Storage) (source target : PathName)
    (renamed : before.rename source target = .ok after) : before.tree.Edited after.tree := by
  obtain ⟨entry, moved⟩ := rename_eq_ok _ _ _ _ renamed
  rcases moved.outcome with ⟨_, rfl⟩ | ⟨_, rfl⟩
  · exact .none
  · exact .move _ _ _ _

theorem edited_discard (storage : Storage) (path : PathName) :
    storage.tree.Edited (Job.discard path storage).tree := by
  simp only [Job.discard]
  split
  · rename_i after removed
    obtain ⟨_, _, _, _, rfl⟩ := removeFile_eq_ok _ _ _ removed
    exact .erase _ _ .none
  · exact .none

theorem edited_makeDirectory (before after : Storage) (path : PathName)
    (made : before.makeDirectory path = .ok after) : before.tree.Edited after.tree := by
  simp only [makeDirectory] at made
  split at made
  · split at made <;> simp at made
  · split at made
    · simp at made
    · rw [← Except.ok.inj made]
      exact edited_withEntry _ _ _

namespace Keeps

theorem refl (targets : List PathName) (storage : Storage) (rooted : storage.tree.Rooted) :
    Keeps targets storage storage :=
  ⟨rfl, fun _ directory => directory, fun _ _ _ => rfl, rooted⟩

theorem place_eq (targets : List PathName) (before after : Storage) (keeps : Keeps targets before after)
    (path : PathName) : after.place path = before.place path :=
  place_congr _ _ keeps.sameDirectory path

theorem trans (early late : List PathName) (first second third : Storage)
    (before : Keeps early first second) (after : Keeps late second third) :
    Keeps (early ++ late) first third := by
  refine ⟨after.sameDirectory.trans before.sameDirectory, ?_, ?_, after.rooted⟩
  · intro location directory
    exact after.directories location (before.directories location directory)
  · intro location outside visible
    have outsideLate : ∀ target ∈ late, location ≠ second.place target := by
      intro target member
      rw [before.place_eq]
      exact outside target (List.mem_append_right _ member)
    have outsideEarly : ∀ target ∈ early, location ≠ first.place target :=
      fun target member => outside target (List.mem_append_left _ member)
    rw [after.files location outsideLate visible, before.files location outsideEarly visible]

theorem mono (some all : List PathName) (before after : Storage) (keeps : Keeps some before after)
    (subset : some ⊆ all) : Keeps all before after :=
  ⟨keeps.sameDirectory, keeps.directories,
    fun location outside visible =>
      keeps.files location (fun target member => outside target (subset member)) visible,
    keeps.rooted⟩

theorem read (targets : List PathName) (before after : Storage) (keeps : Keeps targets before after)
    (path : PathName) (content : ByteArray)
    (outside : ∀ target ∈ targets, before.place path ≠ before.place target)
    (visible : ¬Hidden (before.place path)) (found : before.read path = .ok content) :
    after.read path = .ok content := by
  obtain ⟨location, leads, there⟩ := (read_eq_ok_iff _ _ _).mp found
  have spot := resolve_eq_ok _ _ _ leads
  subst spot
  refine (read_eq_ok_iff _ _ _).mpr
    ⟨_, resolve_mono _ _ keeps.sameDirectory keeps.directories _ _ leads, ?_⟩
  rw [keeps.files _ outside visible]
  exact there

/-- A directory stays one, so what lies where a file comes to be can only have been a file. -/
theorem get?_eq_none_of_file? (targets : List PathName) (before after : Storage)
    (keeps : Keeps targets before after) (location : Location) (content : ByteArray)
    (there : after.tree.file? location = some content) (absent : before.tree.file? location = none) :
    before.tree.get? location = none := by
  cases found : before.tree.get? location with
  | none => rfl
  | some entry =>
      cases entry with
      | file content mode => simp [FileTree.file?, found] at absent
      | directory mode =>
          have still := keeps.directories location (by simp [FileTree.isDirectory, found])
          rw [after.tree.isDirectory_eq_false_of_file? _ _ there] at still
          exact absurd still (by decide)

end Keeps

theorem directories_withEntry (storage : Storage) (location : Location) (entry : Entry) (filled : location ≠ [])
    (stays : storage.tree.isDirectory location = true → entry.isDirectory = true) (sought : Location)
    (directory : storage.tree.isDirectory sought = true) :
    (storage.withEntry location entry).tree.isDirectory sought = true := by
  simp only [withEntry, FileTree.isDirectory, FileTree.get?_insert _ _ _ _ filled]
  by_cases same : sought = location
  · subst same
    have still := stays directory
    cases entry <;> simp_all [Entry.isDirectory]
  · simpa only [if_neg same, FileTree.isDirectory] using directory

theorem rooted_withEntry (storage : Storage) (rooted : storage.tree.Rooted) (location : Location) (entry : Entry)
    (filled : location ≠ []) (stays : storage.tree.isDirectory location = true → entry.isDirectory = true)
    (inside : storage.tree.isDirectory location.dropLast = true) :
    (storage.withEntry location entry).tree.Rooted := by
  have directories := directories_withEntry storage location entry filled stays
  intro sought other found
  simp only [withEntry, FileTree.get?_insert _ _ _ _ filled] at found
  by_cases same : sought = location
  · rw [same]
    exact directories _ inside
  · rw [if_neg same] at found
    exact directories _ (rooted sought other found)

theorem keeps_withEntry_directory (storage : Storage) (rooted : storage.tree.Rooted) (location : Location)
    (mode : Nat) (free : storage.tree.get? location = none)
    (inside : storage.tree.isDirectory location.dropLast = true) :
    Keeps [] storage (storage.withEntry location (.directory mode)) := by
  have filled := FileTree.ne_nil_of_get?_eq_none _ _ free
  refine ⟨rfl, directories_withEntry storage location _ filled fun _ => rfl, ?_,
    rooted_withEntry storage rooted location _ filled (fun _ => rfl) inside⟩
  intro sought _ _
  simp only [withEntry, FileTree.file?, FileTree.get?_insert _ _ _ _ filled]
  by_cases same : sought = location
  · simp [same, free]
  · simp [same]

theorem keeps_withEntry (storage : Storage) (rooted : storage.tree.Rooted) (path : PathName) (entry : Entry)
    (filled : storage.place path ≠ [])
    (stays : storage.tree.isDirectory (storage.place path) = true → entry.isDirectory = true)
    (inside : storage.tree.isDirectory (storage.place path).dropLast = true) :
    Keeps [path] storage (storage.withEntry (storage.place path) entry) := by
  refine ⟨rfl, directories_withEntry storage _ entry filled stays, ?_,
    rooted_withEntry storage rooted _ entry filled stays inside⟩
  intro sought outside _
  simp only [withEntry, FileTree.file?, FileTree.get?_insert _ _ _ _ filled, if_neg (outside path (by simp))]

theorem read_withEntry_file (storage : Storage) (path : PathName) (content : ByteArray) (mode : Nat)
    (other : storage.tree.isDirectory (storage.place path) = false)
    (leads : storage.resolve path = .ok (storage.place path)) :
    (storage.withEntry (storage.place path) (.file content mode)).read path = .ok content := by
  have filled := storage.tree.ne_nil_of_not_isDirectory _ other
  have directories := directories_withEntry storage (storage.place path) (.file content mode) filled
    fun directory => absurd directory (by simp [other])
  have still := resolve_mono storage (storage.withEntry (storage.place path) (.file content mode)) rfl
    directories path _ leads
  refine (read_eq_ok_iff _ _ _).mpr ⟨_, still, ?_⟩
  simp [withEntry, FileTree.file?, FileTree.get?_insert _ _ _ _ filled]

theorem keeps_write (before after : Storage) (path : PathName) (content : ByteArray)
    (rooted : before.tree.Rooted) (written : before.write path content = .ok after) :
    Keeps [path] before after := by
  obtain ⟨mode, leads, other, rfl⟩ := write_eq_ok _ _ _ _ written
  exact keeps_withEntry before rooted path _ (before.tree.ne_nil_of_not_isDirectory _ other)
    (fun directory => absurd directory (by simp [other])) (isDirectory_dropLast_of_resolve before rooted path _ leads)

theorem read_of_write (before after : Storage) (path : PathName) (content : ByteArray)
    (written : before.write path content = .ok after) : after.read path = .ok content := by
  obtain ⟨mode, leads, other, rfl⟩ := write_eq_ok _ _ _ _ written
  exact read_withEntry_file before path content mode other leads

theorem keeps_makeDirectory (before after : Storage) (path : PathName) (rooted : before.tree.Rooted)
    (made : before.makeDirectory path = .ok after) : Keeps [] before after := by
  simp only [makeDirectory] at made
  split at made
  · split at made <;> simp at made
  · rename_i location leads
    split at made
    · simp at made
    · rename_i free
      cases made
      exact keeps_withEntry_directory before rooted location _ free
        (isDirectory_dropLast_of_resolve before rooted _ location leads)

/-- Making a directory with its missing parents is a run of making single ones, as far as it comes. -/
theorem makeDirectoriesWithin_steps (property : Storage → Prop) (depth : Nat) (storage : Storage) (path : PathName)
    (steps : ∀ now after above, path.Above above → property now → now.makeDirectory above = .ok after →
      property after)
    (holds : property storage) : property (makeDirectoriesWithin depth storage path).1 := by
  induction depth generalizing path with
  | zero => exact holds
  | succ depth ih =>
      rw [makeDirectoriesWithin]
      split
      · exact holds
      · split
        · rename_i made success
          exact steps storage made path (.self path) holds success
        · split
          · exact holds
          · rename_i parent cut
            have climb := ih parent fun now after above higher =>
              steps now after above (.parent path parent above cut higher)
            split
            · rename_i reached _ climbed
              rwa [climbed] at climb
            · rename_i reached climbed
              rw [climbed] at climb
              split
              · rename_i made success
                exact steps reached made path (.self path) climb success
              · split <;> exact climb
        · split <;> exact holds

theorem edited_makeDirectories (storage : Storage) (path : PathName) :
    storage.tree.Edited (storage.makeDirectories path).1.tree :=
  makeDirectoriesWithin_steps (storage.tree.Edited ·.tree) _ storage path
    (fun now after above _ edited made => edited.trans (edited_makeDirectory now after above made)) .none

theorem keeps_makeDirectories (storage : Storage) (path : PathName) (rooted : storage.tree.Rooted) :
    Keeps [] storage (storage.makeDirectories path).1 :=
  makeDirectoriesWithin_steps (Keeps [] storage) _ storage path
    (fun now after above _ keeps made =>
      keeps.trans [] [] _ _ _ (keeps_makeDirectory now after above keeps.rooted made))
    (.refl [] storage rooted)

section Rename

variable (before now after : Storage) (path target : PathName) (rooted : before.tree.Rooted)
  (fresh : Fresh path before) (confined : ConfinedTo path before now)
  (renamed : now.rename path target = .ok after)

include rooted fresh confined renamed

/-- What is moved is taken away first; nothing but the target changes then. A file at the target gives way to
a file only. -/
theorem keeps_rename :
    Keeps [target] before after ∧ (before.tree.file? (before.place target) ≠ none →
      after.tree.file? (before.place target) ≠ none) := by
  have early := confined.keeps _ _ _ rooted fresh
  have bare := fresh.bare _ _ _ rooted confined
  obtain ⟨entry, moved⟩ := rename_eq_ok _ _ _ _ renamed
  rcases moved.of_bare bare with ⟨same, rfl⟩ | ⟨free, rfl⟩
  · rw [confined.place_eq, confined.place_eq] at same
    refine ⟨early.mono _ _ _ _ (by simp), fun file => absurd ?_ file⟩
    simp [FileTree.file?, same, fresh.free]
  · have taken := confinedTo_withoutEntry now path bare
    have between := (confined.trans _ _ _ _ taken).keeps _ _ _ rooted fresh
    -- The target does not lie at the source, and neither does its directory.
    have apart : now.place target ≠ now.place path := fun same => free.outside (same ▸ List.prefix_refl _)
    have above : (now.place target).dropLast ≠ now.place path := fun same =>
      free.outside (same ▸ List.dropLast_prefix _)
    have filled : now.place target ≠ [] := free.ne_nil
    have same : ∀ location, location ≠ now.place path →
        (now.withoutEntry (now.place path)).tree.isDirectory location = now.tree.isDirectory location :=
      fun location elsewhere => by simp only [FileTree.isDirectory, taken.others location elsewhere]
    have last := keeps_withEntry (now.withoutEntry (now.place path)) between.rooted target entry filled
      (fun directory => (free.directory ((same _ apart).symm.trans directory)).1)
      ((same _ above).trans (moved.inside early.rooted))
    refine ⟨between.trans [] [target] _ _ _ last, fun file => ?_⟩
    rw [← confined.place_eq] at file ⊢
    have plain := free.file (by
      simpa only [FileTree.file?, confined.others _ (confined.place_eq _ _ _ path ▸ apart)] using file)
    cases entry with
    | file content mode => simp [withEntry, FileTree.file?, FileTree.get?_insert _ _ _ _ filled]
    | directory mode => simp [Entry.isDirectory] at plain

/-- A file that is moved keeps its content. -/
theorem read_of_rename (plain : now.tree.isDirectory (before.place path) = false) :
    before.resolve target = .ok (before.place target) ∧
      ∃ content, now.read path = .ok content ∧ after.read target = .ok content := by
  have keeps := (keeps_rename before now after path target rooted fresh confined renamed).1
  have bare := fresh.bare _ _ _ rooted confined
  obtain ⟨entry, moved⟩ := rename_eq_ok _ _ _ _ renamed
  have there := moved.there
  rw [← confined.place_eq] at plain
  cases entry with
  | directory mode => simp [FileTree.isDirectory, there] at plain
  | file content mode =>
      obtain ⟨leads, arrives⟩ := moved.leads rfl
      have file : now.tree.file? (now.place path) = some content := by simp [FileTree.file?, there]
      have start : before.resolve target = .ok (before.place target) := by
        rw [← confined.place_eq _ _ _ target]
        exact confined.resolve_before _ _ _ (confined.place_eq _ _ _ path ▸ plain) _ _ arrives
      refine ⟨start, content, (read_eq_ok_iff _ _ _).mpr ⟨_, leads, file⟩, (read_eq_ok_iff _ _ _).mpr ⟨_,
        resolve_mono _ _ keeps.sameDirectory keeps.directories _ _ start, ?_⟩⟩
      rw [← confined.place_eq]
      rcases moved.of_bare bare with ⟨same, rfl⟩ | ⟨free, rfl⟩
      · rw [same, file]
      · simp [withEntry, FileTree.file?, FileTree.get?_insert _ _ _ _ free.ne_nil]

end Rename

theorem rooted_setMode (before after : Storage) (path : PathName) (mode : Nat)
    (rooted : before.tree.Rooted) (inner : before.place path ≠ [])
    (changed : before.setMode path mode = .ok after) : after.tree.Rooted := by
  obtain ⟨location, entry, leads, there, rfl⟩ := (setMode_eq_ok_iff _ _ _ _).mp changed
  obtain rfl := resolve_eq_ok _ _ _ leads
  refine rooted_withEntry before rooted _ _ inner (fun directory => ?_) (rooted _ entry there)
  cases entry with
  | file content old => simp [FileTree.isDirectory, there] at directory
  | directory old => rfl

theorem mem_names (tree : FileTree) (location : Location) (name : Text) (entry : Entry)
    (found : tree.get? (location ++ [name]) = some entry) : name ∈ tree.names location := by
  have filled : location ++ [name] ≠ [] := by simp
  simp only [FileTree.get?, filled, if_false] at found
  obtain ⟨front, rest, shape, _⟩ := List.lookup_eq_some_iff.mp found
  refine List.mem_filterMap.mpr ⟨(location ++ [name], entry), ?_, by simp⟩
  rw [shape]
  simp

theorem freeNumber?_of_mem (taken : List Text) (attempts start : Nat) (there : temporaryName start ∈ taken) :
    freeNumber? taken (attempts + 1) start = freeNumber? taken attempts (start + 1) :=
  if_pos there

theorem freeNumber?_of_not_mem (taken : List Text) (attempts start : Nat) (free : temporaryName start ∉ taken) :
    freeNumber? taken (attempts + 1) start = some start :=
  if_neg free

theorem freeNumber?_not_mem (taken : List Text) (attempts start number : Nat)
    (found : freeNumber? taken attempts start = some number) : temporaryName number ∉ taken := by
  induction attempts generalizing start with
  | zero => cases found
  | succ attempts ih =>
      by_cases there : temporaryName start ∈ taken
      · rw [freeNumber?_of_mem taken attempts start there] at found
        exact ih (start + 1) found
      · rw [freeNumber?_of_not_mem taken attempts start there] at found
        exact Option.some.inj found ▸ there

theorem isName_temporaryName (number : Nat) : IsName (temporaryName number) := by
  refine ⟨?_, ?_, ?_⟩
  · simp only [temporaryName, List.mem_append, not_or]
    refine ⟨⟨by decide, ?_⟩, by decide⟩
    intro member
    have digit := Nat.isDigit_of_mem_toDigits (by decide) (by decide) member
    exact absurd digit (by decide)
  · simp [temporaryName, PathName.isIdle]
  · simp [temporaryName]

/-- A temporary file is made where its path leads to, with a free name in the directory. -/
theorem createTemporary_eq_ok (before made : Storage) (directory path : PathName)
    (created : before.createTemporary directory = .ok (made, path)) :
    ∃ number, path = (before.absolute directory).join ⟨temporaryName number⟩ ∧
      before.resolve (before.absolute directory) = .ok (before.place (before.absolute directory)) ∧
      before.tree.isDirectory (before.place (before.absolute directory)) = true ∧
      temporaryName number ∉ before.tree.names (before.place (before.absolute directory)) ∧
      before.place path = before.place (before.absolute directory) ++ [temporaryName number] ∧
      before.resolve path = .ok (before.place path) ∧
      made = before.withEntry (before.place path) (.file ByteArray.empty FileTree.temporaryMode) := by
  simp only [createTemporary] at created
  split at created
  · simp at created
  · rename_i location leads
    obtain rfl := resolve_eq_ok _ _ _ leads
    split at created
    · simp at created
    · rename_i done entered
      split at created
      · simp at created
      · rename_i number free
        split at created
        · simp at created
        · rename_i spot reached
          obtain rfl := resolve_eq_ok _ _ _ reached
          simp only [Except.ok.injEq, Prod.mk.injEq] at created
          obtain ⟨rfl, rfl⟩ := created
          exact ⟨number, rfl, leads, (enter_eq_ok_iff _ _ _).mp entered, freeNumber?_not_mem _ _ _ _ free,
            place_join _ _ _ (isName_temporaryName number), reached, rfl⟩

theorem edited_createTemporary (before : Storage) (directory : PathName) (made : Storage × PathName)
    (created : before.createTemporary directory = .ok made) : before.tree.Edited made.1.tree := by
  obtain ⟨_, _, _, _, _, _, _, shape⟩ := createTemporary_eq_ok before made.1 directory made.2 created
  rw [shape]
  exact edited_withEntry _ _ _

theorem fresh_of_createTemporary (before made : Storage) (directory path : PathName)
    (created : before.createTemporary directory = .ok (made, path)) :
    Fresh path before ∧ ConfinedTo path before made ∧ made.tree.isDirectory (before.place path) = false := by
  obtain ⟨number, _, _, there, free, spot, _, rfl⟩ := createTemporary_eq_ok before made directory path created
  have inner : before.place path ≠ [] := by simp [spot]
  refine ⟨⟨?_, ?_, _, number, spot⟩, confinedTo_withEntry before path _ inner, ?_⟩
  · rw [spot]
    cases found : before.tree.get? (before.place (before.absolute directory) ++ [temporaryName number]) with
    | none => rfl
    | some entry => exact absurd (mem_names _ _ _ _ found) free
  · rw [spot, List.dropLast_concat]
    exact there
  · simp [withEntry, FileTree.isDirectory, FileTree.get?_insert _ _ _ _ inner]

theorem isFile_of_createTemporary (before made : Storage) (directory path : PathName)
    (created : before.createTemporary directory = .ok (made, path)) : made.isFile path = true := by
  obtain ⟨fresh, _, _⟩ := fresh_of_createTemporary before made directory path created
  obtain ⟨_, _, _, _, _, _, leads, rfl⟩ := createTemporary_eq_ok before made directory path created
  exact (isFile_eq_true_iff _ _).mpr ⟨_, read_withEntry_file before path _ _
    (by simp [FileTree.isDirectory, fresh.free]) leads⟩

/-- With a new hidden file no more can be read than before, but for that file. -/
theorem read_of_confinedTo (path sought : PathName) (before after : Storage)
    (confined : ConfinedTo path before after) (fresh : Fresh path before)
    (other : after.tree.isDirectory (before.place path) = false) (visible : ¬Hidden (before.place sought))
    (content : ByteArray) (found : after.read sought = .ok content) : before.read sought = .ok content := by
  obtain ⟨location, leads, there⟩ := (read_eq_ok_iff _ _ _).mp found
  have spot := resolve_eq_ok _ _ _ leads
  rw [confined.place_eq] at spot
  subst spot
  refine (read_eq_ok_iff _ _ _).mpr ⟨before.place sought, ?_, ?_⟩
  · exact confined.resolve_before _ _ _ other _ _ leads
  · have apart : before.place sought ≠ before.place path := by
      intro same
      exact visible (same ▸ fresh.hidden)
    simpa only [FileTree.file?, confined.others _ apart] using there

end Storage

end FencePreview
