import FencePreview.Proofs.LoadedConfigurations
import FencePreview.Proofs.Places

/-! Where a configuration is found that nobody names. The search looks for the file in the current directory and
then in one parent after the other, so that the first file it meets is the nearest; the file may be unfit, but no
other is tried. Paths in it are seen from its own directory, wherever the search began. -/

namespace FencePreview

namespace Storage

/-- Each name of a location is followed by a separator where another is to be joined. -/
theorem text_pathOf_gap (location : Location) (named : ∀ name ∈ location, IsName name) :
    (pathOf location).text ++ (pathOf location).gap = '/' :: location.flatMap fun name => name ++ ['/'] := by
  cases location using List.reverseRecOn with
  | nil => rfl
  | append_singleton front last =>
      have above := named last (by simp)
      have filled : last ≠ [] := fun bare => by simpa [bare, PathName.isIdle] using above.named
      obtain ⟨character, ends⟩ := Option.isSome_iff_exists.mp (List.getLast?_isSome.mpr filled)
      have unslashed : character ≠ '/' := by
        rintro rfl
        exact above.whole (List.mem_of_getLast? ends)
      simp [pathOf, PathName.gap, Text.joinWith_concat, List.getLast?_cons, List.getLast?_append, ends, unslashed]

theorem join_pathOf (location : Location) (name : Text) (named : ∀ name ∈ location, IsName name)
    (proper : IsName name) : (pathOf location).join ⟨name⟩ = pathOf (location ++ [name]) := by
  have joined := PathName.text_join (pathOf location) name proper
  rw [← List.append_assoc, text_pathOf_gap location named] at joined
  calc
    (pathOf location).join ⟨name⟩ = ⟨'/' :: (location.flatMap fun name => name ++ ['/']) ++ name⟩ :=
      congrArg PathName.mk joined
    _ = pathOf (location ++ [name]) := by rw [pathOf, Text.joinWith_concat, List.cons_append]

theorem anchor_pathOf (location : Location) (filled : location ≠ []) (named : ∀ name ∈ location, IsName name) :
    (pathOf location).anchor = (some .root, location) := by
  have pieces := Text.splitAtEach_joinWith_pieces '/' location filled fun name member => (named name member).whole
  simp [PathName.anchor, pathOf, Text.splitAtEach, PathName.isAbsolute, pieces]

theorem parent?_pathOf (front : Location) (name : Text) (named : ∀ other ∈ front ++ [name], IsName other) :
    (pathOf (front ++ [name])).parent? = some (pathOf front) := by
  have anchored := anchor_pathOf (front ++ [name]) (by simp) named
  rw [PathName.parent?_eq _ _ _ _ anchored (named name (by simp)).named,
    PathName.dropIdleEnd_names front fun other member => named other (List.mem_append_left _ member)]
  rfl

theorem parent?_root : (pathOf []).parent? = none := by decide

end Storage

namespace Config

def fileIn (directory : Location) : PathName := (Storage.pathOf directory).join fileName

/-- The search on paths as they are written: a look into a directory, and on to its parent as long as there is one
and the file is missing. A search without end has no outcome. -/
inductive Climb (storage : Storage) : PathName → Option PathName → Prop
  | found (path : PathName) (there : storage.exists? (path.join fileName) = true) :
      Climb storage path (some (path.join fileName))
  | up (path parent : PathName) (outcome : Option PathName) (missing : storage.exists? (path.join fileName) = false)
      (cut : path.parent? = some parent) (further : Climb storage parent outcome) : Climb storage path outcome
  | top (path : PathName) (missing : storage.exists? (path.join fileName) = false) (cut : path.parent? = none) :
      Climb storage path none

/-- The deepest directory with a configuration file among `location` and those above it. -/
structure Nearest (storage : Storage) (location directory : Location) : Prop where
  encloses : directory <+: location
  holds : storage.exists? (fileIn directory) = true
  deepest : ∀ other, other <+: location → storage.exists? (fileIn other) = true → other <+: directory

/-- Directories as settings name them, seen from `directory`, unless the command line gives others. -/
structure LocatedBy (config : Config) (settings : Settings) (directory : PathName) (overrides : Overrides) :
    Prop where
  documents : config.documents =
    overrides.documents.getD (directory.join ⟨settings.documents.getD "docs".toList⟩)
  site : config.site = overrides.site.getD (directory.join ⟨settings.site.getD "site".toList⟩)
  project : config.project = directory.join (.ofString ".tpv")

section Search

variable (storage : Storage)

theorem Climb.unique {path : PathName} {first second : Option PathName} (climb : Climb storage path first)
    (other : Climb storage path second) : first = second := by
  induction climb with
  | found path there =>
      cases other with
      | found => rfl
      | up _ _ _ missing => simp [there] at missing
      | top _ missing => simp [there] at missing
  | up path parent outcome missing cut further ih =>
      cases other with
      | found _ there => simp [there] at missing
      | up _ above _ _ cut' further' =>
          obtain rfl : parent = above := Option.some.inj (cut.symm.trans cut')
          exact ih further'
      | top _ _ cut' => simp [cut] at cut'
  | top path missing cut =>
      cases other with
      | found _ there => simp [there] at missing
      | up _ _ _ _ cut' => simp [cut] at cut'
      | top => rfl

def fileIn? (directory : Location) : Option PathName :=
  if storage.exists? (fileIn directory) then some (fileIn directory) else none

theorem enclosing_root : enclosing [] = [[]] := rfl

theorem enclosing_concat (front : Location) (name : Text) :
    enclosing (front ++ [name]) = (front ++ [name]) :: enclosing front := by
  have above : ∀ count ∈ List.range (front.length + 1), (front ++ [name]).take count = front.take count := by
    intro count member
    exact List.take_append_of_le_length (Nat.le_of_lt_succ (List.mem_range.mp member))
  rw [enclosing, enclosing, List.length_append, List.length_singleton, List.range_succ, List.map_append,
    List.map_congr_left above]
  simp [List.take_of_length_le]

/-- The parent of a directory is the one that is looked at next. -/
theorem climb_enclosing (location : Location) (named : ∀ name ∈ location, IsName name) :
    Climb storage (Storage.pathOf location) ((enclosing location).findSome? (fileIn? storage)) := by
  induction location using List.reverseRecOn with
  | nil =>
      rw [enclosing_root, List.findSome?_cons, fileIn?]
      by_cases there : storage.exists? (fileIn []) = true
      · rw [if_pos there]
        exact .found _ there
      · rw [if_neg there]
        exact .top _ (Bool.eq_false_iff.mpr there) Storage.parent?_root
  | append_singleton front name ih =>
      have later := ih fun other member => named other (List.mem_append_left _ member)
      rw [enclosing_concat, List.findSome?_cons, fileIn?]
      by_cases there : storage.exists? (fileIn (front ++ [name])) = true
      · rw [if_pos there]
        exact .found _ there
      · rw [if_neg there]
        exact .up _ _ _ (Bool.eq_false_iff.mpr there) (Storage.parent?_pathOf front name named) later

theorem enclosing_cases (location : Location) :
    (∃ directory, Nearest storage location directory ∧
        (enclosing location).findSome? (fileIn? storage) = some (fileIn directory)) ∨
      (∀ directory, directory <+: location → storage.exists? (fileIn directory) = false) ∧
        (enclosing location).findSome? (fileIn? storage) = none := by
  induction location using List.reverseRecOn with
  | nil =>
      rw [enclosing_root, List.findSome?_cons, fileIn?]
      by_cases there : storage.exists? (fileIn []) = true
      · rw [if_pos there]
        exact .inl ⟨[], ⟨List.prefix_rfl, there, fun _ above _ => above⟩, rfl⟩
      · rw [if_neg there]
        refine .inr ⟨fun directory above => ?_, rfl⟩
        rw [List.prefix_nil.mp above]
        exact Bool.eq_false_iff.mpr there
  | append_singleton front name ih =>
      rw [enclosing_concat, List.findSome?_cons, fileIn?]
      by_cases there : storage.exists? (fileIn (front ++ [name])) = true
      · rw [if_pos there]
        exact .inl ⟨front ++ [name], ⟨List.prefix_rfl, there, fun _ above _ => above⟩, rfl⟩
      · rw [if_neg there]
        have missing := Bool.eq_false_iff.mpr there
        rcases ih with ⟨directory, nearest, found⟩ | ⟨none, found⟩
        · refine .inl ⟨directory, ⟨nearest.encloses.trans (List.prefix_append _ _), nearest.holds, ?_⟩, found⟩
          intro other above held
          rcases List.prefix_concat_iff.mp above with rfl | higher
          · exact absurd held there
          · exact nearest.deepest other higher held
        · refine .inr ⟨fun directory above => ?_, found⟩
          rcases List.prefix_concat_iff.mp above with rfl | higher
          · exact missing
          · exact none directory higher

theorem parent?_fileIn (directory : Location) (named : ∀ name ∈ directory, IsName name) :
    (fileIn directory).parent? = some (Storage.pathOf directory) := by
  have proper : IsName fileName.text := ⟨by decide, by decide, by decide⟩
  have joined : fileIn directory = Storage.pathOf (directory ++ [fileName.text]) :=
    Storage.join_pathOf directory fileName.text named proper
  rw [joined]
  refine Storage.parent?_pathOf directory fileName.text fun name member => ?_
  rcases List.mem_append.mp member with above | last
  · exact named name above
  · rw [List.mem_singleton.mp last]
    exact proper

theorem locatedBy_resolved (settings : Settings) (file directory : PathName) (url : Option Text) (program : Text)
    (overrides : Overrides) (cut : file.parent? = some directory) :
    ((resolved file settings url program).override overrides).LocatedBy settings directory overrides := by
  constructor <;> simp only [resolved, ofSettings, override, cut, Option.getD_some]

variable (environment : Environment) (overrides : Option Overrides)

theorem load_of_discovered (file : PathName) (found : discover? storage = some file)
    (there : storage.exists? file = true) :
    load storage environment none overrides = load storage environment (some file) overrides := by
  simp only [load, loadBy, base, found, there, if_true]

theorem load_undiscovered (undiscovered : discover? storage = none) (config : Config) :
    load storage environment none overrides = .ok config ↔
      config = (ofSettings .default (Storage.pathOf storage.workingDirectory) none).override (overrides.getD .none) ∧
        config.Usable := by
  rw [load, loadBy_eq_ok_iff]
  constructor
  · rintro ⟨draft, drafted, _, whole, usable⟩
    cases drafted with
    | file _ file _ _ _ _ found => simp [file?, undiscovered] at found
    | default => exact ⟨whole, usable⟩
  · rintro ⟨whole, usable⟩
    exact ⟨_, .default undiscovered, usable_default _ _, whole, usable⟩

/-- A configuration that nobody names a file for is read from the nearest one, as if that had been named, and has
its paths seen from the directory of that file. The search always comes to an end; where it finds nothing, the
defaults are seen from the current directory. -/
theorem load_nearest (named : ∀ name ∈ storage.workingDirectory, IsName name) :
    let here := storage.workingDirectory
    let given := overrides.getD .none
    let default := (ofSettings .default (Storage.pathOf here) none).override given
    (∀ outcome, Climb storage (Storage.pathOf here) outcome ↔ outcome = discover? storage) ∧
      ((∃ directory, Nearest storage here directory ∧ discover? storage = some (fileIn directory) ∧
          load storage environment none overrides = load storage environment (some (fileIn directory)) overrides ∧
          ∀ config, load storage environment none overrides = .ok config →
            config.source = some (fileIn directory) ∧
              ∃ content settings, storage.readText (fileIn directory) = .ok content ∧
                Settings.read? content = some settings ∧
                config.LocatedBy settings (Storage.pathOf directory) given) ∨
        (∀ directory, directory <+: here → storage.exists? (fileIn directory) = false) ∧
          discover? storage = none ∧ default.source = none ∧
          default.LocatedBy .default (Storage.pathOf here) given ∧
          ∀ config, load storage environment none overrides = .ok config ↔ config = default ∧ config.Usable) := by
  intro here given default
  have search : discover? storage = (enclosing here).findSome? (fileIn? storage) := rfl
  constructor
  · have climbs := climb_enclosing storage here named
    rw [← search] at climbs
    intro outcome
    constructor
    · exact fun other => other.unique storage climbs
    · rintro rfl
      exact climbs
  · rcases enclosing_cases storage here with ⟨directory, nearest, found⟩ | ⟨none, found⟩
    · have cut := parent?_fileIn directory fun name member => named name (nearest.encloses.subset member)
      refine .inl ⟨directory, nearest, found,
        load_of_discovered storage environment overrides _ found nearest.holds, fun config loaded => ?_⟩
      rw [load] at loaded
      obtain ⟨draft, drafted, _, rfl, _⟩ := (loadBy_eq_ok_iff (.usual environment) storage _ _ config).mp loaded
      cases drafted with
      | file _ file content settings url program known held parsed _ _ =>
          obtain rfl : file = fileIn directory := Option.some.inj (known.symm.trans found)
          exact ⟨rfl, content, settings, held, parsed, locatedBy_resolved settings _ _ url program given cut⟩
      | default undiscovered => cases undiscovered.symm.trans found
    · exact .inr ⟨none, found, rfl, ⟨rfl, rfl, rfl⟩, load_undiscovered storage environment overrides found⟩

end Search

/-- A run three directories down, with a file in each of the two above it. -/
theorem load_nearest_above :
    let entry (text : String) := Entry.file (Text.encode text.toList) FileTree.fileMode
    let place (text : String) : Location := Text.splitAtEach '/' text.toList
    let directory := Entry.directory FileTree.directoryMode
    let storage : Storage := ⟨⟨[
      (place "srv", directory), (place "srv/tpv.toml", entry "[docs]\ndocs_dir = \"far\"\n"),
      (place "srv/book", directory),
      (place "srv/book/tpv.toml", entry "[docs]\ndocs_dir = \"text\"\nsite_dir = \"/www\"\n"),
      (place "srv/book/text", directory)]⟩, place "srv/book/text"⟩
    (∀ name ∈ storage.workingDirectory, IsName name) ∧
      ∃ config, load storage [] none none = .ok config ∧
        config.source = some (.ofString "/srv/book/tpv.toml") ∧
        config.documents = .ofString "/srv/book/text" ∧ config.site = .ofString "/www" ∧
        config.project = .ofString "/srv/book/.tpv" := by
  intro entry place directory storage
  let file : PathName := .ofString "/srv/book/tpv.toml"
  let settings : Settings := { Settings.default with documents := some "text".toList, site := some "/www".toList }
  have found : discover? storage = some file := by decide +kernel
  have loads : (load storage [] none none).toOption.isSome = true := by decide +kernel
  have read : ((storage.readText file).toOption.bind Settings.read?) = some settings := by decide +kernel
  have names : ∀ name ∈ storage.workingDirectory, '/' ∉ name ∧ PathName.isIdle name = false ∧ name ≠ ['.', '.'] := by
    decide +kernel
  have named : ∀ name ∈ storage.workingDirectory, IsName name :=
    fun name member => ⟨(names name member).1, (names name member).2.1, (names name member).2.2⟩
  refine ⟨named, ?_⟩
  obtain ⟨_, ⟨directory, nearest, discovered, _, located⟩ | ⟨_, undiscovered, _⟩⟩ :=
    load_nearest storage [] none named
  · have same : fileIn directory = file := Option.some.inj (discovered.symm.trans found)
    have cut := parent?_fileIn directory fun name member => named name (nearest.encloses.subset member)
    have above : Storage.pathOf directory = .ofString "/srv/book" := by
      rw [same] at cut
      exact Option.some.inj (cut.symm.trans (by decide +kernel))
    cases loaded : load storage [] none none with
    | error error => simp [loaded, Except.toOption] at loads
    | ok config =>
        obtain ⟨source, content, own, held, parsed, places⟩ := located config loaded
        rw [same] at source held
        have settled : own = settings := by simpa [held, Except.toOption, parsed] using read
        rw [settled, above] at places
        exact ⟨config, rfl, source, places.documents.trans (by decide +kernel), places.site.trans (by decide +kernel),
          places.project.trans (by decide +kernel)⟩
  · cases undiscovered.symm.trans found

end Config

end FencePreview
