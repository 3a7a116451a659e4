import FencePreview.Proofs.MadeDirectories
import FencePreview.Proofs.SharedDirectories

/-! Renders that share their directories make them. A step that succeeds in a lone run succeeds
when files have come at least as far. -/

namespace FencePreview

namespace Scene

variable {scene : Scene}

section Progress

variable {before after alone now reached later : Storage} {own kept : Option Location}

theorem Progress.place_eq (progress : scene.Progress before after) (path : PathName) :
    after.place path = scene.start.place path := progress.settled.place_eq path

theorem Progress.resolve (settled : scene.Settled before) (progress : scene.Progress before after)
    (path : PathName) (location : Location) (leads : before.resolve path = .ok location) :
    after.resolve path = .ok location :=
  Storage.resolve_mono before after
    (progress.settled.adds.sameDirectory.trans settled.adds.sameDirectory.symm) progress.directories _ _ leads

theorem Progress.isDirectory (settled : scene.Settled before) (progress : scene.Progress before after)
    (path : PathName) (there : before.isDirectory path = true) : after.isDirectory path = true := by
  obtain ⟨location, leads, inside⟩ := (Storage.isDirectory_eq_true_iff _ _).mp there
  exact (Storage.isDirectory_eq_true_iff _ _).mpr
    ⟨location, progress.resolve settled path location leads, progress.directories location inside⟩

/-- Where the directories of images are from the start, none of those that lead to them come to be. -/
theorem isDirectory_of_furnished (here : scene.start.tree.isDirectory scene.start.workingDirectory = true)
    (there : ∀ directory ∈ scene.artifacts.directories, scene.start.isDirectory directory = true) (location : Location)
    (furnished : scene.artifacts.Furnished scene.start location) : scene.start.tree.isDirectory location = true := by
  obtain ⟨directory, known, above, higher, rfl⟩ := furnished
  rcases Storage.isDirectory_of_above scene.start directory above higher (.inr (there directory known)) with
    bare | inside
  · simpa [Storage.place, PathName.isAbsolute, bare, Text.splitAtEach, PathName.descend, PathName.step,
      PathName.isIdle] using here
  · obtain ⟨location, leads, inside⟩ := (Storage.isDirectory_eq_true_iff _ _).mp inside
    rwa [Storage.resolve_eq_ok _ _ _ leads] at inside

/-- No place is a directory at one moment and a file at another. -/
theorem Settled.file?_eq_none (settled : scene.Settled now) (other : scene.Settled reached) (location : Location)
    (there : reached.tree.isDirectory location = true) : now.tree.file? location = none := by
  have notFile : now.tree.isDirectory location = true → now.tree.file? location = none := by
    intro inside
    obtain ⟨mode, found⟩ := (FileTree.isDirectory_eq_true_iff _ _).mp inside
    simp [FileTree.file?, found]
  by_cases inside : scene.Inside location
  · exact notFile (by rw [settled.kinds location inside, ← other.kinds location inside, there])
  · rcases other.adds.entries location inside with same | ⟨free, _, _⟩
    · refine notFile (settled.isDirectory location ?_)
      simpa only [FileTree.isDirectory, same] using there
    · rcases settled.adds.entries location inside with same | ⟨_, made, _⟩
      · simp [FileTree.file?, same, free]
      · exact notFile made

end Progress

section Directories

variable (ready : scene.Ready)

include ready

theorem Guarantees.of_makeDirectory (now after : Storage) (above : PathName) (settled : scene.Settled now)
    (furnished : scene.artifacts.Furnished scene.start (scene.start.place above))
    (made : now.makeDirectory above = .ok after) : scene.Guarantees none none now after := by
  obtain ⟨_, free, shape⟩ := (Storage.makeDirectory_eq_ok_iff _ _ _).mp made
  rw [settled.place_eq] at free shape
  -- Were it one of them, it would be a directory from the start, and nothing to be made.
  have outside : ∀ location, scene.Inside location → location ≠ scene.start.place above := by
    rintro location inside rfl
    have there := settled.isDirectory _ (ready.clear _ furnished inside)
    simp [FileTree.isDirectory, free] at there
  have inner := FileTree.ne_nil_of_get?_eq_none _ _ free
  have others : ∀ location, location ≠ scene.start.place above →
      after.tree.get? location = now.tree.get? location := by
    intro location apart
    rw [shape]
    simp [Storage.withEntry, FileTree.get?_insert _ _ _ _ inner, apart]
  have keeps := Storage.keeps_makeDirectory now after above settled.rooted made
  have image : ∀ directory ∈ scene.artifacts.directories, ∀ page ∈ scene.used, ∀ variant,
      after.tree.file? (scene.imagePlace directory page variant) =
        now.tree.file? (scene.imagePlace directory page variant) := by
    intro directory known page member variant
    simp only [FileTree.file?, others _ (outside _ (.inr ⟨page, member, directory, known, variant, rfl⟩))]
  refine ⟨⟨⟨keeps.rooted, ?_, ?_, ?_⟩, keeps.directories, ?_⟩, ?_, by simp, by simp⟩
  · refine settled.adds.trans _ _ _ _ _ ((Storage.adds_makeDirectory _ now after above made).mono _ _ _ ?_ _ _)
    rintro location rfl
    rwa [settled.place_eq]
  · intro location inside
    rw [← settled.kinds location inside]
    simp only [FileTree.isDirectory, others location (outside location inside)]
  · intro page member directory known variant content found
    rw [image directory known page member] at found
    exact settled.images page member directory known variant content found
  · rintro location ⟨page, member, directory, known, variant, rfl⟩ there
    rwa [image directory known page member]
  · intro location hidden _ _
    exact others location (outside location (.inl hidden))

theorem Settled.makeDirectories (alone : Storage) (settled : scene.Settled alone) (depth : Nat) (path : PathName)
    (furnished : ∀ above, path.Above above → scene.artifacts.Furnished scene.start (scene.start.place above)) :
    scene.Settled (Storage.makeDirectoriesWithin depth alone path).1 :=
  Storage.makeDirectoriesWithin_steps scene.Settled depth alone path
    (fun now after above higher holds made =>
      (Guarantees.of_makeDirectory ready now after above holds (furnished above higher) made).progress.settled)
    settled

end Directories

section Turns

variable {ε α β : Type} {post : Except ε α → Option Location → Storage → Prop} {now : Storage}

theorem safe_inspect (question : Storage → β) (next : β → Thread ε α)
    (each : ∀ later, scene.Progress now later → (next (question later)).Safe scene.rules post none later) :
    (Thread.ofJob (Job.inspect question) >>= next).Safe scene.rules post none now := by
  refine .bind _ _ (.ofJob _ fun later relied => ⟨none, .unchanged relied.progress.settled, fun last more => ?_⟩)
  exact .stable _ (each later.storage relied.progress) more

end Turns

section Directories

variable (ready : scene.Ready)

/-- How making a directory ends among the others. Where a lone run succeeds, it does. -/
structure Makes (scene : Scene) (depth : Nat) (path : PathName) (now : Storage) (result : Except FileError Unit)
    (own : Option Location) (later : Storage) : Prop where
  own : own = none
  progress : scene.Progress now later
  there : result = .ok () → Text.byteSize path.text < Storage.pathLimit →
    path.text = [] ∨ later.isDirectory path = true
  succeeds : ∀ alone reached, scene.Settled alone → scene.Progress alone now →
    Text.byteSize path.text < Storage.pathLimit →
    Storage.makeDirectoriesWithin depth alone path = (reached, .ok ()) → result = .ok ()

theorem Makes.of_isDirectory {depth : Nat} {path : PathName} {now later : Storage} (progress : scene.Progress now later)
    (there : Text.byteSize path.text < Storage.pathLimit → path.text = [] ∨ later.isDirectory path = true) :
    scene.Makes depth path now (.ok ()) none later :=
  ⟨rfl, progress, fun _ => there, fun _ _ _ _ _ _ => rfl⟩

theorem safe_unlessDirectory (depth : Nat) (path : PathName) (error : FileError) (now later : Storage)
    (progress : scene.Progress now later)
    (there : ∀ alone reached, scene.Settled alone → scene.Progress alone now →
      Text.byteSize path.text < Storage.pathLimit →
      Storage.makeDirectoriesWithin depth alone path = (reached, .ok ()) → later.isDirectory path = true) :
    (do if ← Thread.ofJob (Job.inspect (·.isDirectory path)) then pure () else Thread.fail error :
      Thread FileError Unit).Safe scene.rules (scene.Makes depth path now) none later := by
  refine safe_inspect _ _ fun last more => ?_
  cases found : last.isDirectory path with
  | true =>
      refine .done _ fun final relied => .of_isDirectory ((progress.trans more).trans relied.progress) fun _ => .inr ?_
      exact relied.progress.isDirectory more.settled path found
  | false =>
      refine .done _ fun final relied => ⟨rfl, (progress.trans more).trans relied.progress, by simp, ?_⟩
      intro alone reached lone ahead fits made
      have still := more.isDirectory progress.settled path (there alone reached lone ahead fits made)
      simp [found] at still

/-- A lone run that succeeds where something is missing on the way makes the parents first. -/
theorem parent_of_notFound (depth : Nat) (alone reached now : Storage) (path : PathName) (lone : scene.Settled alone)
    (ahead : scene.Progress alone now) (filled : path.text ≠ [])
    (failed : now.makeDirectory path = .error .notFound)
    (made : Storage.makeDirectoriesWithin (depth + 1) alone path = (reached, .ok ())) :
    ∃ parent half, path.parent? = some parent ∧ Storage.makeDirectoriesWithin depth alone parent = (half, .ok ()) ∧
      ((∃ made, half.makeDirectory path = .ok made) ∨ half.isDirectory path = true) := by
  have reaches := Storage.makeDirectory_ne_notFound alone now path
    (ahead.settled.adds.sameDirectory.trans lone.adds.sameDirectory.symm) ahead.directories
  rcases Storage.makeDirectoriesWithin_eq_ok depth alone reached path filled made with
    (success | ⟨rfl, there⟩) | ⟨parent, half, cut, climbed, last⟩
  · exact absurd failed (reaches (.inl ⟨_, success⟩))
  · exact absurd failed (reaches (.inr there))
  · exact ⟨parent, half, cut, climbed, last.imp (fun success => ⟨_, success⟩) (·.2)⟩

include ready

theorem safe_tryDirectory {post : Except FileError Unit → Option Location → Storage → Prop} (path : PathName)
    (furnished : scene.artifacts.Furnished scene.start (scene.start.place path))
    (next : Except FileError Unit → Thread FileError Unit) (now : Storage)
    (made : ∀ after, scene.Progress now after →
      (Text.byteSize path.text < Storage.pathLimit → after.isDirectory path = true) →
      (next (.ok ())).Safe scene.rules post none after)
    (failed : ∀ later error, scene.Progress now later → later.makeDirectory path = .error error →
      (next (.error error)).Safe scene.rules post none later) :
    ((Thread.ofJob (Job.change (·.makeDirectory path))).attempt >>= next).Safe scene.rules post none now := by
  refine .bind _ _ (.attempt _ (.ofJob _ fun later relied => ?_))
  simp only [Job.change]
  cases result : later.storage.makeDirectory path with
  | ok after =>
      have turn := Guarantees.of_makeDirectory ready _ _ path relied.progress.settled furnished result
      refine ⟨none, turn, fun last more => .stable _ (made after (relied.progress.trans turn.progress) ?_) more⟩
      exact fun fits => Storage.isDirectory_of_makeDirectory _ _ path fits result
  | error error =>
      refine ⟨none, .unchanged relied.progress.settled, fun last more => ?_⟩
      exact .stable _ (failed later.storage error relied.progress result) more

theorem isDirectory_of_failed (depth : Nat) (alone reached now : Storage) (path : PathName)
    (furnished : ∀ above, path.Above above → scene.artifacts.Furnished scene.start (scene.start.place above))
    (lone : scene.Settled alone) (settled : scene.Settled now) (filled : path.text ≠ [])
    (fits : Text.byteSize path.text < Storage.pathLimit)
    (made : Storage.makeDirectoriesWithin depth alone path = (reached, .ok ())) (error : FileError)
    (failed : now.makeDirectory path = .error error) (other : error ≠ .notFound) : now.isDirectory path = true := by
  have ended : scene.Settled reached := by
    have holds := Settled.makeDirectories ready alone lone depth path furnished
    rwa [made] at holds
  have there := (Storage.isDirectory_of_makeDirectories depth alone reached path fits made).resolve_left filled
  have same := settled.adds.sameDirectory.trans ended.adds.sameDirectory.symm
  rcases Storage.makeDirectory_cases reached now path same (settled.file?_eq_none ended) there with
    ⟨made, success⟩ | missing | inside
  · simp [failed] at success
  · rw [failed, Except.error.injEq] at missing
    exact absurd missing other
  · exact inside

/-- The try after the parent was made. `lone` tells how a lone run comes there. -/
theorem safe_afterParent (depth : Nat) (path parent : PathName)
    (furnished : ∀ above, path.Above above → scene.artifacts.Furnished scene.start (scene.start.place above))
    (filled : path.text ≠ []) (cut : path.parent? = some parent) (now last : Storage)
    (progress : scene.Progress now last)
    (there : Text.byteSize parent.text < Storage.pathLimit → parent.text = [] ∨ last.isDirectory parent = true)
    (lone : ∀ alone reached, scene.Settled alone → scene.Progress alone now →
      Storage.makeDirectoriesWithin (depth + 1) alone path = (reached, .ok ()) →
      ∃ half, Storage.makeDirectoriesWithin depth alone parent = (half, .ok ()) ∧
        ((∃ made, half.makeDirectory path = .ok made) ∨ half.isDirectory path = true)) :
    (do
      match ← (Thread.ofJob (Job.change (·.makeDirectory path))).attempt with
      | .ok () => pure ()
      | .error error =>
          if ← Thread.ofJob (Job.inspect (·.isDirectory path)) then pure () else Thread.fail error :
      Thread FileError Unit).Safe scene.rules (scene.Makes (depth + 1) path now) none last := by
  refine safe_tryDirectory ready path (furnished path (.self path)) _ last ?_ ?_
  · intro after further there
    have reached := progress.trans further
    refine .done _ fun final relied => .of_isDirectory (reached.trans relied.progress) fun fits => .inr ?_
    exact relied.progress.isDirectory further.settled path (there fits)
  · intro final error further failed
    refine safe_unlessDirectory (depth + 1) path error now final (progress.trans further) ?_
    intro alone reached settled ahead fits made
    -- The parent is there, so nothing is missing on the way: another one has made the directory.
    obtain ⟨half, climbed, finishes⟩ := lone alone reached settled ahead made
    have shorter := Storage.byteSize_parent? path parent filled cut
    have far := ahead.trans progress
    have same := far.settled.adds.sameDirectory.trans settled.adds.sameDirectory.symm
    have known : ∀ location, half.tree.isDirectory location = true → final.tree.isDirectory location = true := by
      intro location inside
      refine further.directories location ?_
      refine Storage.directories_of_isDirectory alone last depth parent same far.directories (there (by omega))
        location ?_
      rwa [climbed]
    have halfway : scene.Settled half := by
      have holds := Settled.makeDirectories ready alone settled depth parent
        fun above higher => furnished above (.parent _ _ _ cut higher)
      rwa [climbed] at holds
    refine isDirectory_of_failed ready (depth + 1) alone reached final path furnished settled further.settled filled
      fits made error failed ?_
    rintro rfl
    exact Storage.makeDirectory_ne_notFound half final path
      (further.settled.adds.sameDirectory.trans halfway.adds.sameDirectory.symm) known finishes failed

theorem safe_makeDirectoriesWithin (depth : Nat) (path : PathName)
    (furnished : ∀ above, path.Above above → scene.artifacts.Furnished scene.start (scene.start.place above))
    (now : Storage) (settled : scene.Settled now) :
    (Thread.makeDirectoriesWithin depth path).Safe scene.rules (scene.Makes depth path now) none now := by
  induction depth generalizing path now with
  | zero =>
      refine .done _ fun later relied => ⟨rfl, relied.progress, by simp, fun alone reached _ _ _ made => ?_⟩
      simp [Storage.makeDirectoriesWithin] at made
  | succ depth ih =>
      rw [Thread.makeDirectoriesWithin]
      by_cases bare : path.text = []
      · rw [if_pos bare]
        exact .done _ fun later relied => .of_isDirectory relied.progress fun _ => .inl bare
      rw [if_neg bare]
      refine safe_tryDirectory ready path (furnished path (.self path)) _ now ?_ ?_
      · intro after progress there
        refine .done _ fun later relied => .of_isDirectory (progress.trans relied.progress) fun fits => .inr ?_
        exact relied.progress.isDirectory progress.settled path (there fits)
      intro later error progress failed
      by_cases missing : error = .notFound
      · subst missing
        -- A lone run misses no more than this one, so it had to make the parent too.
        have lone := fun alone reached settled (ahead : scene.Progress alone now) made =>
          parent_of_notFound depth alone reached later path settled (ahead.trans progress) bare failed made
        cases cut : path.parent? with
        | none =>
            refine .done _ fun last relied => ⟨rfl, progress.trans relied.progress, by simp, ?_⟩
            intro alone reached settled ahead fits made
            obtain ⟨parent, _, other, _⟩ := lone alone reached settled ahead made
            simp [cut] at other
        | some parent =>
            refine .bind _ _ (.mono _ (ih parent (fun above higher => furnished above (.parent _ _ _ cut higher)) later
              progress.settled) ?_)
            rintro result own last ⟨rfl, climbing, there, succeeds⟩
            cases result with
            | error error =>
                refine ⟨rfl, progress.trans climbing, by simp, fun alone reached settled ahead fits made => ?_⟩
                obtain ⟨_, half, other, climbed, _⟩ := lone alone reached settled ahead made
                obtain rfl := Option.some.inj (cut.symm.trans other)
                have shorter := Storage.byteSize_parent? path parent bare cut
                have impossible := succeeds alone half settled (ahead.trans progress) (by omega) climbed
                simp at impossible
            | ok done =>
                refine safe_afterParent ready depth path parent furnished bare cut now last (progress.trans climbing)
                  (there rfl) fun alone reached settled ahead made => ?_
                obtain ⟨_, half, other, climbed, finishes⟩ := lone alone reached settled ahead made
                obtain rfl := Option.some.inj (cut.symm.trans other)
                exact ⟨half, climbed, finishes⟩
      · cases error with
        | notFound => exact absurd rfl missing
        | _ =>
            refine safe_unlessDirectory (depth + 1) path _ now later progress ?_
            intro alone reached settled ahead fits made
            exact isDirectory_of_failed ready (depth + 1) alone reached later path furnished settled progress.settled
              bare fits made _ failed missing

theorem Progress.of_makeDirectories (directory : PathName) (known : directory ∈ scene.artifacts.directories)
    (alone now : Storage) (lone : scene.Settled alone) (ahead : scene.Progress alone now)
    (there : directory.text = [] ∨ now.isDirectory directory = true) :
    scene.Settled (alone.makeDirectories directory).1 ∧ scene.Progress (alone.makeDirectories directory).1 now := by
  have furnished : ∀ above, directory.Above above → scene.artifacts.Furnished scene.start (scene.start.place above) :=
    fun above higher => ⟨directory, known, above, higher, rfl⟩
  refine ⟨Settled.makeDirectories ready alone lone _ directory furnished, ahead.settled, ?_, ?_⟩
  · have same := ahead.settled.adds.sameDirectory.trans lone.adds.sameDirectory.symm
    exact Storage.directories_of_isDirectory alone now _ directory same ahead.directories there
  · rintro location image found
    refine ahead.images location image ?_
    obtain ⟨page, member, holder, held, variant, rfl⟩ := image
    have keeps := Storage.keeps_makeDirectories alone directory lone.rooted
    rwa [← keeps.files _ (by simp) (scene.not_hidden_imagePlace holder page variant)]

theorem safe_makeDirectories (directory : PathName) (known : directory ∈ scene.artifacts.directories)
    (now : Storage) (settled : scene.Settled now) :
    (Thread.makeDirectories directory).Safe scene.rules (fun result own later => own = none ∧
      scene.Progress now later ∧ ∀ alone after : Workspace, scene.Settled alone.storage →
        scene.Progress alone.storage now → Text.byteSize directory.text < Storage.pathLimit →
        Job.makeDirectories directory alone = .ok () after →
          result = .ok () ∧ (directory.text = [] ∨ later.isDirectory directory = true)) none now := by
  refine .mono _ (safe_makeDirectoriesWithin ready _ directory
    (fun above higher => ⟨directory, known, above, higher, rfl⟩) now settled) ?_
  rintro result own later ⟨rfl, progress, there, succeeds⟩
  refine ⟨rfl, progress, fun alone after lone ahead fits made => ?_⟩
  simp only [Job.makeDirectories] at made
  split at made
  · rename_i reached done
    have success := succeeds alone.storage reached lone ahead fits done
    exact ⟨success, there success fits⟩
  · simp at made

end Directories

end Scene

end FencePreview
