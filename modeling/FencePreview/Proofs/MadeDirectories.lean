import FencePreview.Proofs.RenderPlaces

/-! Directories made while others make them too. Where the files of a lone run have come no further, a step
finds the same, or that the directory is there already. -/

namespace FencePreview

namespace Storage

section Slashes

variable (tree : FileTree) (here location : Location) (front tail : Text)
  (slashes : ∀ character ∈ tail, character = '/')

include slashes

theorem follow_slashes (inside : tree.isDirectory location = true)
    (found : follow tree here (Text.splitAtEach '/' front) = .ok location) :
    follow tree here (Text.splitAtEach '/' (front ++ tail)) = .ok location := by
  induction tail generalizing front with
  | nil => rwa [List.append_nil]
  | cons slash rest ih =>
      obtain rfl := slashes slash (by simp)
      rw [List.append_cons]
      refine ih (front ++ ['/']) (fun character member => slashes character (List.mem_cons_of_mem _ member)) ?_
      rw [Text.splitAtEach_append]
      refine (follow_append_eq_ok_iff _ _ _ _ _).mpr ⟨location, found, ?_⟩
      exact (follow_cons_eq_ok_iff _ _ _ _ _).mpr ⟨inside, by decide, rfl⟩

theorem follow_of_slashes (found : follow tree here (Text.splitAtEach '/' (front ++ tail)) = .ok location) :
    follow tree here (Text.splitAtEach '/' front) = .ok location := by
  induction tail generalizing front with
  | nil => rwa [List.append_nil] at found
  | cons slash rest ih =>
      obtain rfl := slashes slash (by simp)
      rw [List.append_cons] at found
      have longer := ih (front ++ ['/'])
        (fun character member => slashes character (List.mem_cons_of_mem _ member)) found
      rw [Text.splitAtEach_append] at longer
      obtain ⟨between, reached, last⟩ := (follow_append_eq_ok_iff _ _ _ _ _).mp longer
      obtain ⟨_, _, ended⟩ := (follow_cons_eq_ok_iff _ _ _ _ _).mp last
      simp only [follow, Except.ok.injEq, PathName.step, PathName.isIdle] at ended
      simpa [← ended] using reached

end Slashes

/-- Slashes at the end of a path do not matter where there is a directory. -/
theorem resolve_of_trimmed (storage : Storage) (path : PathName) (location : Location)
    (fits : Text.byteSize path.text < pathLimit) (inside : storage.tree.isDirectory location = true)
    (found : storage.resolve path.trimmed = .ok location) :
    storage.resolve path = .ok location := by
  obtain ⟨filled, clean, _, followed⟩ := (resolve_eq_ok_iff _ _ _).mp found
  obtain ⟨tail, slashes, whole, same⟩ := path.trimmed_parts
  refine (resolve_eq_ok_iff _ _ _).mpr ⟨?_, ?_, fits, ?_⟩
  · rw [← whole]
    simpa using fun bare => absurd bare filled
  · rw [← whole, List.mem_append, not_or]
    exact ⟨clean, fun member => absurd (slashes _ member) (by decide)⟩
  · rw [← whole, ← same filled]
    exact follow_slashes _ _ _ _ _ slashes inside followed

theorem resolve_trimmed (storage : Storage) (path : PathName) (location : Location)
    (filled : path.trimmed.text ≠ []) (found : storage.resolve path = .ok location) :
    storage.resolve path.trimmed = .ok location := by
  obtain ⟨_, clean, fits, followed⟩ := (resolve_eq_ok_iff _ _ _).mp found
  obtain ⟨tail, slashes, whole, same⟩ := path.trimmed_parts
  have begun : path.trimmed.text <+: path.text := ⟨tail, whole⟩
  refine (resolve_eq_ok_iff _ _ _).mpr ⟨filled, fun member => clean (begun.subset member), ?_, ?_⟩
  · exact (Text.byteSize_le_of_sublist _ _ begun.sublist).trans_lt fits
  · rw [same filled]
    rw [← whole] at followed
    exact follow_of_slashes _ _ _ _ _ slashes followed

/-- Where no directory of one tree is a file of another, a path that can be followed in the one can be
followed in the other, unless something is missing there. -/
theorem follow_or_notFound (first second : FileTree)
    (apart : ∀ location, first.isDirectory location = true → second.file? location = none)
    (here : Location) (pieces : List Text) (location : Location)
    (found : follow first here pieces = .ok location) :
    follow second here pieces = .ok location ∨ follow second here pieces = .error .notFound := by
  induction pieces generalizing here with
  | nil => exact .inl found
  | cons piece rest ih =>
      obtain ⟨inside, size, later⟩ := (follow_cons_eq_ok_iff _ _ _ _ _).mp found
      have other := apart here inside
      cases entry : second.get? here with
      | none => simp [follow, enter, entry]
      | some there =>
          cases there with
          | file content mode => simp [FileTree.file?, entry] at other
          | directory mode =>
              have short : ¬nameLimit < Text.byteSize piece := by omega
              have onward : follow second here (piece :: rest) = follow second (PathName.step here piece) rest := by
                simp only [follow, enter, entry, short, if_false, PathName.step]
                split
                · rfl
                · split <;> rfl
              rw [onward]
              exact ih (PathName.step here piece) later

theorem resolve_or_notFound (first second : Storage) (same : second.workingDirectory = first.workingDirectory)
    (apart : ∀ location, first.tree.isDirectory location = true → second.tree.file? location = none)
    (path : PathName) (location : Location) (found : first.resolve path = .ok location) :
    second.resolve path = .ok location ∨ second.resolve path = .error .notFound := by
  obtain ⟨filled, clean, fits, followed⟩ := (resolve_eq_ok_iff _ _ _).mp found
  have short : ¬pathLimit ≤ Text.byteSize path.text := by omega
  simp only [resolve, filled, clean, short, if_false, same]
  exact follow_or_notFound _ _ apart _ _ _ followed

theorem isDirectory_of_makeDirectory (before after : Storage) (path : PathName)
    (fits : Text.byteSize path.text < pathLimit) (made : before.makeDirectory path = .ok after) :
    after.isDirectory path = true := by
  obtain ⟨leads, free, rfl⟩ := (makeDirectory_eq_ok_iff _ _ _).mp made
  have inner := FileTree.ne_nil_of_get?_eq_none _ _ free
  have entries := fun sought =>
    FileTree.get?_insert before.tree (before.place path) sought (.directory FileTree.directoryMode) inner
  have inside : (before.withEntry (before.place path) (.directory FileTree.directoryMode)).tree.isDirectory
      (before.place path) = true := by
    simp [withEntry, FileTree.isDirectory, entries]
  have directories := FileTree.isDirectory_of_others before.tree
    (before.withEntry (before.place path) (.directory FileTree.directoryMode)).tree (before.place path)
    (fun location apart => by simp [withEntry, entries, apart]) (by simp [FileTree.isDirectory, free])
  have still := resolve_mono before (before.withEntry (before.place path) (.directory FileTree.directoryMode)) rfl
    directories _ _ leads
  exact (isDirectory_eq_true_iff _ _).mpr ⟨_, resolve_of_trimmed _ path _ fits inside still, inside⟩

/-- Where a lone run made the directory or found it, nothing is missing on the way. -/
theorem makeDirectory_ne_notFound (alone now : Storage) (path : PathName)
    (same : now.workingDirectory = alone.workingDirectory)
    (directories : ∀ location, alone.tree.isDirectory location = true → now.tree.isDirectory location = true)
    (succeeds : (∃ made, alone.makeDirectory path = .ok made) ∨ alone.isDirectory path = true) :
    now.makeDirectory path ≠ .error .notFound := by
  rcases succeeds with ⟨made, success⟩ | there
  · obtain ⟨leads, _, _⟩ := (makeDirectory_eq_ok_iff _ _ _).mp success
    have still := resolve_mono alone now same directories _ _ leads
    simp only [makeDirectory, still]
    split <;> simp
  · obtain ⟨location, leads, inside⟩ := (isDirectory_eq_true_iff _ _).mp there
    have still : now.isDirectory path = true := (isDirectory_eq_true_iff _ _).mpr
      ⟨location, resolve_mono alone now same directories _ _ leads, directories _ inside⟩
    simp [makeDirectory_of_isDirectory now path still]

/-- Where a lone run ends with the directory, a try makes it, misses something on the way, or the directory
is there. -/
theorem makeDirectory_cases (reached now : Storage) (path : PathName)
    (same : now.workingDirectory = reached.workingDirectory)
    (apart : ∀ location, reached.tree.isDirectory location = true → now.tree.file? location = none)
    (there : reached.isDirectory path = true) :
    (∃ made, now.makeDirectory path = .ok made) ∨ now.makeDirectory path = .error .notFound ∨
      now.isDirectory path = true := by
  obtain ⟨location, leads, inside⟩ := (isDirectory_eq_true_iff _ _).mp there
  have fits := ((resolve_eq_ok_iff _ _ _).mp leads).2.2.1
  -- What is there is no file, so it is a directory.
  have isDirectory : now.tree.get? location ≠ none → now.tree.isDirectory location = true := by
    have other := apart location inside
    intro found
    rcases entry : now.tree.get? location with _ | ⟨_ | _⟩
    · exact absurd entry found
    · simp [FileTree.file?, entry] at other
    · simp [FileTree.isDirectory, entry]
  have present : now.exists? path = true → now.isDirectory path = true := by
    intro found
    rcases resolve_or_notFound reached now same apart path location leads with ok | missing
    · refine (isDirectory_eq_true_iff _ _).mpr ⟨location, ok, isDirectory fun free => ?_⟩
      simp [exists?, entry?, ok, free] at found
    · simp [exists?, entry?, missing] at found
  have trimmed : now.resolve path.trimmed = .ok location ∨
      now.resolve path.trimmed = .error .notFound := by
    by_cases filled : path.trimmed.text = []
    · simp [resolve, filled]
    · exact resolve_or_notFound reached now same apart _ location (resolve_trimmed reached path location filled leads)
  rcases trimmed with ok | missing
  · by_cases free : now.tree.get? location = none
    · simp [makeDirectory, ok, free]
    · exact .inr (.inr ((isDirectory_eq_true_iff _ _).mpr
        ⟨location, resolve_of_trimmed now path location fits (isDirectory free) ok, isDirectory free⟩))
  · cases found : now.exists? path with
    | false => simp [makeDirectory, missing, found]
    | true => exact .inr (.inr (present found))

theorem makeDirectoriesWithin_eq_ok (depth : Nat) (storage reached : Storage) (path : PathName)
    (filled : path.text ≠ []) (made : makeDirectoriesWithin (depth + 1) storage path = (reached, .ok ())) :
    (storage.makeDirectory path = .ok reached ∨ reached = storage ∧ storage.isDirectory path = true) ∨
      ∃ parent half, path.parent? = some parent ∧ makeDirectoriesWithin depth storage parent = (half, .ok ()) ∧
        (half.makeDirectory path = .ok reached ∨ reached = half ∧ half.isDirectory path = true) := by
  rw [makeDirectoriesWithin, if_neg filled] at made
  split at made
  · rename_i done success
    obtain ⟨rfl, _⟩ := Prod.mk.inj made
    exact .inl (.inl success)
  · split at made
    · simp at made
    · rename_i parent cut
      split at made
      · simp at made
      · rename_i half climbed
        refine .inr ⟨parent, half, cut, climbed, ?_⟩
        split at made
        · rename_i done success
          obtain ⟨rfl, _⟩ := Prod.mk.inj made
          exact .inl success
        · split at made
          · rename_i inside
            obtain ⟨rfl, _⟩ := Prod.mk.inj made
            exact .inr ⟨rfl, inside⟩
          · simp at made
  · split at made
    · rename_i inside
      obtain ⟨rfl, _⟩ := Prod.mk.inj made
      exact .inl (.inr ⟨rfl, inside⟩)
    · simp at made

theorem isDirectory_of_makeDirectories (depth : Nat) (storage reached : Storage) (path : PathName)
    (fits : Text.byteSize path.text < pathLimit)
    (made : makeDirectoriesWithin depth storage path = (reached, .ok ())) :
    path.text = [] ∨ reached.isDirectory path = true := by
  refine or_iff_not_imp_left.mpr fun filled => ?_
  cases depth with
  | zero => simp [makeDirectoriesWithin] at made
  | succ depth =>
      rcases makeDirectoriesWithin_eq_ok depth storage reached path filled made with
        (success | ⟨rfl, there⟩) | ⟨parent, half, _, _, success | ⟨rfl, there⟩⟩
      · exact isDirectory_of_makeDirectory _ _ path fits success
      · exact there
      · exact isDirectory_of_makeDirectory _ _ path fits success
      · exact there

theorem byteSize_parent? (path parent : PathName) (filled : path.text ≠ []) (cut : path.parent? = some parent) :
    Text.byteSize parent.text ≤ Text.byteSize path.text := by
  rcases path.write_of_parent? parent cut with bare | ⟨kept, more, left, parts, rfl⟩
  · simp [bare, Text.byteSize]
  · exact Text.byteSize_le_of_sublist _ _ (path.write_isStart filled kept more left parts).sublist

/-- The way to a directory runs through directories. -/
theorem isDirectory_of_above (storage : Storage) (path above : PathName) (higher : path.Above above)
    (there : path.text = [] ∨ storage.isDirectory path = true) :
    above.text = [] ∨ storage.isDirectory above = true := by
  induction higher with
  | self => exact there
  | parent path up above cut _ ih =>
      refine ih ?_
      rcases there with bare | inside
      · have none : path.parent? = none := by
          simp [PathName.parent?, PathName.anchor, bare, Text.splitAtEach, PathName.isAbsolute,
            PathName.dropIdleEnd, PathName.isIdle]
        simp [none] at cut
      · obtain ⟨location, leads, _⟩ := (isDirectory_eq_true_iff _ _).mp inside
        exact isDirectory_of_parent? storage path up location cut leads

/-- A directory at `location` was there in `storage`, or it was made for `path`. -/
def MadeOnlyAbove (storage : Storage) (path : PathName) (location : Location) (now : Storage) : Prop :=
  now.workingDirectory = storage.workingDirectory ∧
    (now.tree.isDirectory location = true → storage.tree.isDirectory location = true ∨
      ∃ above, path.Above above ∧ above.text ≠ [] ∧ location = storage.place above)

theorem directories_makeDirectories (storage : Storage) (depth : Nat) (path : PathName) (location : Location)
    (there : (makeDirectoriesWithin depth storage path).1.tree.isDirectory location = true) :
    storage.tree.isDirectory location = true ∨
      ∃ above, path.Above above ∧ above.text ≠ [] ∧ location = storage.place above := by
  refine (makeDirectoriesWithin_steps (storage.MadeOnlyAbove path location) depth storage path ?_ ⟨rfl, .inl⟩).2 there
  rintro now after above higher ⟨same, known⟩ made
  obtain ⟨leads, free, rfl⟩ := (makeDirectory_eq_ok_iff _ _ _).mp made
  have inner := FileTree.ne_nil_of_get?_eq_none _ _ free
  refine ⟨same, fun inside => ?_⟩
  by_cases here : location = now.place above
  · refine .inr ⟨above, higher, fun bare => ?_, here.trans (place_congr _ _ same above)⟩
    refine ((resolve_eq_ok_iff _ _ _).mp leads).1 ?_
    simp [bare, PathName.trimmed, Text.trimEndWhile]
  · exact known (by simpa [withEntry, FileTree.isDirectory, FileTree.get?_insert _ _ _ _ inner, here] using inside)

theorem directories_of_isDirectory (alone now : Storage) (depth : Nat) (path : PathName)
    (same : now.workingDirectory = alone.workingDirectory)
    (directories : ∀ location, alone.tree.isDirectory location = true → now.tree.isDirectory location = true)
    (there : path.text = [] ∨ now.isDirectory path = true) (location : Location)
    (made : (makeDirectoriesWithin depth alone path).1.tree.isDirectory location = true) :
    now.tree.isDirectory location = true := by
  rcases directories_makeDirectories alone depth path location made with old | ⟨above, higher, filled, rfl⟩
  · exact directories location old
  · have inside := (isDirectory_of_above now path above higher there).resolve_left filled
    obtain ⟨location, leads, inside⟩ := (isDirectory_eq_true_iff _ _).mp inside
    rwa [resolve_eq_ok _ _ _ leads, place_congr _ _ same] at inside

end Storage

end FencePreview
