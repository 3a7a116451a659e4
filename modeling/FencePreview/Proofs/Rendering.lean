import FencePreview.Preview.Render
import FencePreview.Proofs.Jobs

/-! Rendering while no file operation and no compiler call fails. What such a run does depends on
which images are in store and which are published, and on nothing else. -/

namespace FencePreview

theorem Placed.compiled_eq (directory target : PathName)
    (fill : PathName → Workspace → Workspace → Prop) (documents : List Text) (before after : Workspace)
    (placed : Placed directory target fill before after)
    (filling : ∀ temporary made filled, fill temporary made filled →
      filled.compiled = made.compiled ++ documents) :
    after.compiled = before.compiled ++ documents := by
  obtain ⟨temporary, made, filled, opened, moved, created, full, _, _, rfl⟩ := placed
  have kept : made.compiled = before.compiled := by
    simp only [Job.createTemporary] at created
    split at created
    · cases created
      rfl
    · simp at created
  rw [← kept]
  exact filling temporary made filled full

theorem Job.makeDirectories_compiled_eq (path : PathName) (before after : Workspace)
    (made : makeDirectories path before = .ok () after) : after.compiled = before.compiled := by
  simp only [makeDirectories] at made
  split at made
  · cases made
    rfl
  · simp at made

theorem Job.compile_compiled_eq (compiler : Compiler) (document : Text) (output : PathName)
    (before after : Workspace) (finished : compile compiler document output before = .ok () after) :
    after.compiled = before.compiled ++ [document] := by
  simp only [compile] at finished
  split at finished
  · cases finished
    rfl
  · simp at finished

/-- Caused by the compiler or the files. -/
def PreviewError.IsOutside : PreviewError → Prop
  | .compile _ => True
  | .publish _ => True
  | _ => False

namespace Formatter

def Compiled (formatter : Formatter) (name document : Text) (variant : Variant) :
    Workspace → Workspace → Prop :=
  let target := formatter.artifacts.dumpPath name variant
  Placed (target.parent?.getD ⟨['.']⟩) target fun temporary made filled =>
    Job.compile formatter.compiler document temporary made = .ok () filled

/-- Both variants are in store after this, and the flag tells whether the compiler ran. -/
inductive Stored (formatter : Formatter) (document : Variant → Text) :
    Workspace → Bool → Workspace → Prop
  | cached (workspace : Workspace)
      (present : formatter.artifacts.isCached workspace.storage (fingerprint (document .light)) = true) :
      Stored formatter document workspace false workspace
  | missing (before made half after : Workspace)
      (absent : formatter.artifacts.isCached before.storage (fingerprint (document .light)) = false)
      (directory : Job.makeDirectories formatter.artifacts.dumpDirectory before = .ok () made)
      (light : formatter.Compiled (fingerprint (document .light)) (document .light) .light made half)
      (dark : formatter.Compiled (fingerprint (document .light)) (document .dark) .dark half after) :
      Stored formatter document before true after

inductive OnSite (formatter : Formatter) (name : Text) (variant : Variant) :
    Workspace → Workspace → Prop
  | present (workspace : Workspace)
      (found : workspace.storage.isFile (formatter.artifacts.sitePath name variant) = true) :
      OnSite formatter name variant workspace workspace
  | copied (before after : Workspace)
      (absent : before.storage.isFile (formatter.artifacts.sitePath name variant) = false)
      (placed : Placed formatter.artifacts.siteDirectory (formatter.artifacts.sitePath name variant)
        (fun temporary made filled => ∃ storage,
          made.storage.copy (formatter.artifacts.dumpPath name variant) temporary = .ok storage ∧
            filled = { made with storage })
        before after) :
      OnSite formatter name variant before after

/-- Nothing that the formatter asks of files or compiler for these documents fails, one after the
other from a workspace to a later one. The flags tell for which of them the compiler ran. -/
inductive Undisturbed (formatter : Formatter) :
    List (Variant → Text) → Workspace → List Bool → Workspace → Prop
  | nil (workspace : Workspace) : Undisturbed formatter [] workspace [] workspace
  | cons (document : Variant → Text) (rest : List (Variant → Text))
      (before stored made half published after : Workspace) (ran : Bool) (later : List Bool)
      (store : formatter.Stored document before ran stored)
      (directory : Job.makeDirectories formatter.artifacts.siteDirectory stored = .ok () made)
      (light : formatter.OnSite (fingerprint (document .light)) .light made half)
      (dark : formatter.OnSite (fingerprint (document .light)) .dark half published)
      (others : Undisturbed formatter rest published later after) :
      Undisturbed formatter (document :: rest) before (ran :: later) after

def calls : List (Variant → Text) → List Bool → List Text
  | document :: rest, ran :: later =>
      (if ran then [document .light, document .dark] else []) ++ calls rest later
  | _, _ => []

theorem storeOne_eq_ok_iff (formatter : Formatter) (name document : Text) (variant : Variant)
    (before after : Workspace) (done : Unit) :
    formatter.artifacts.storeOne formatter.compiler name document variant before = .ok done after ↔
      formatter.Compiled name document variant before after :=
  Job.placeFile_eq_ok_iff _ _ _ _ before after done

theorem storeIfMissing_eq_ok_iff (formatter : Formatter) (document : Variant → Text)
    (before after : Workspace) (ran : Bool) :
    formatter.storeIfMissing (fingerprint (document .light)) document before = .ok ran after ↔
      formatter.Stored document before ran after := by
  simp only [storeIfMissing, Job.bind_eq_ok_iff, Job.inspect_eq_ok_iff]
  constructor
  · rintro ⟨cached, _, ⟨present, rfl⟩, finished⟩
    cases cached with
    | true =>
        obtain ⟨rfl, rfl⟩ := (Job.pure_eq_ok_iff _ _ _ _).mp finished
        exact .cached before present
    | false =>
        simp only [Bool.false_eq_true, if_false, Artifacts.store, Job.bind_eq_ok_iff,
          Job.orFail_eq_ok_iff, storeOne_eq_ok_iff, Job.pure_eq_ok_iff] at finished
        obtain ⟨_, _, ⟨_, made, directory, _, half, light, dark⟩, rfl, rfl⟩ := finished
        exact .missing before made half _ present directory light dark
  · intro stored
    cases stored with
    | cached present => exact ⟨true, before, ⟨present, rfl⟩, rfl⟩
    | missing made half _ absent directory light dark =>
        refine ⟨false, before, ⟨absent, rfl⟩, ?_⟩
        simp only [Bool.false_eq_true, if_false, Artifacts.store, Job.bind_eq_ok_iff,
          Job.orFail_eq_ok_iff, storeOne_eq_ok_iff, Job.pure_eq_ok_iff]
        exact ⟨(), _, ⟨(), made, directory, (), half, light, dark⟩, trivial, rfl⟩

theorem publishOne_eq_ok_iff (formatter : Formatter) (name : Text) (variant : Variant)
    (before after : Workspace) :
    (∃ copies, formatter.artifacts.publishOne name variant before = .ok copies after) ↔
      formatter.OnSite name variant before after := by
  simp only [Artifacts.publishOne, Job.bind_eq_ok_iff, Job.inspect_eq_ok_iff]
  constructor
  · rintro ⟨copies, found, _, ⟨present, rfl⟩, finished⟩
    cases found with
    | true =>
        obtain ⟨_, rfl⟩ := (Job.pure_eq_ok_iff _ _ _ _).mp finished
        exact .present before present
    | false =>
        simp only [Bool.false_eq_true, if_false, Job.bind_eq_ok_iff, Job.placeFile_eq_ok_iff,
          Job.change_eq_ok_iff, Job.pure_eq_ok_iff] at finished
        obtain ⟨_, _, placed, _, rfl⟩ := finished
        exact .copied before _ present placed
  · intro onSite
    cases onSite with
    | present found => exact ⟨0, true, before, ⟨found, rfl⟩, rfl⟩
    | copied _ absent placed =>
        refine ⟨1, false, before, ⟨absent, rfl⟩, ?_⟩
        simp only [Bool.false_eq_true, if_false, Job.bind_eq_ok_iff, Job.placeFile_eq_ok_iff,
          Job.change_eq_ok_iff, Job.pure_eq_ok_iff]
        exact ⟨(), _, placed, trivial, rfl⟩

theorem publish_eq_ok_iff (formatter : Formatter) (name : Text) (before after : Workspace) :
    (∃ copies, formatter.artifacts.publish name before = .ok copies after) ↔
      ∃ made half, Job.makeDirectories formatter.artifacts.siteDirectory before = .ok () made ∧
        formatter.OnSite name .light made half ∧ formatter.OnSite name .dark half after := by
  simp only [Artifacts.publish, Job.bind_eq_ok_iff, Job.pure_eq_ok_iff, ← publishOne_eq_ok_iff]
  constructor
  · rintro ⟨_, _, made, directory, light, half, lightDone, dark, _, darkDone, _, rfl⟩
    exact ⟨made, half, directory, ⟨light, lightDone⟩, dark, darkDone⟩
  · rintro ⟨made, half, directory, ⟨light, lightDone⟩, dark, darkDone⟩
    exact ⟨light + dark, (), made, directory, light, half, lightDone, dark, after, darkDone, rfl, rfl⟩

theorem undisturbed_single_iff (formatter : Formatter) (document : Variant → Text)
    (before after : Workspace) (ran : Bool) :
    formatter.Undisturbed [document] before [ran] after ↔
      ∃ stored made half, formatter.Stored document before ran stored ∧
        Job.makeDirectories formatter.artifacts.siteDirectory stored = .ok () made ∧
        formatter.OnSite (fingerprint (document .light)) .light made half ∧
        formatter.OnSite (fingerprint (document .light)) .dark half after := by
  constructor
  · intro undisturbed
    cases undisturbed with
    | cons _ _ _ stored made half _ _ _ _ store directory light dark others =>
        cases others with
        | nil => exact ⟨stored, made, half, store, directory, light, dark⟩
  · rintro ⟨stored, made, half, store, directory, light, dark⟩
    exact .cons _ _ _ stored made half _ _ ran _ store directory light dark (.nil _)

def renderedAs (site : Text) (document : Variant → Text) (ran : Bool) : RenderedPreview :=
  { fingerprint := fingerprint (document .light)
    lightUrl := url site (fingerprint (document .light)) .light
    darkUrl := url site (fingerprint (document .light)) .dark
    compiled := ran }

theorem render_eq (formatter : Formatter) (source site : Text) (attributes : Attributes)
    (settings : PreviewSettings) (accepted : PreviewSettings.ofAttributes attributes = .ok settings)
    (hasSite : formatter.sitePath = some site) (name : Text)
    (digest : fingerprint (formatter.document settings source .light) = name) :
    formatter.render source attributes = (do
      let ran ← Job.orFail .compile
        (formatter.storeIfMissing name (formatter.document settings source))
      let _ ← Job.orFail .publish (formatter.artifacts.publish name)
      return { fingerprint := name
               lightUrl := url site name .light
               darkUrl := url site name .dark
               compiled := ran }) := by
  subst digest
  simp only [render, accepted, hasSite]

/-- Rendering one source succeeds exactly when nothing outside fails. -/
theorem render_eq_ok_iff (formatter : Formatter) (source site : Text) (attributes : Attributes)
    (settings : PreviewSettings) (accepted : PreviewSettings.ofAttributes attributes = .ok settings)
    (hasSite : formatter.sitePath = some site) (before after : Workspace) (rendered : RenderedPreview) :
    formatter.render source attributes before = .ok rendered after ↔
      ∃ ran, rendered = renderedAs site (formatter.document settings source) ran ∧
        formatter.Undisturbed [formatter.document settings source] before [ran] after := by
  simp only [render, accepted, hasSite, Job.bind_eq_ok_iff, Job.orFail_eq_ok_iff,
    storeIfMissing_eq_ok_iff, Job.pure_eq_ok_iff, undisturbed_single_iff]
  constructor
  · rintro ⟨ran, stored, store, copies, published, publish, rfl, rfl⟩
    obtain ⟨made, half, directory, light, dark⟩ := (publish_eq_ok_iff _ _ _ _).mp ⟨copies, publish⟩
    exact ⟨ran, rfl, stored, made, half, store, directory, light, dark⟩
  · rintro ⟨ran, rfl, stored, made, half, store, directory, light, dark⟩
    obtain ⟨copies, publish⟩ := (publish_eq_ok_iff _ _ _ _).mpr ⟨made, half, directory, light, dark⟩
    exact ⟨ran, stored, store, copies, after, publish, rfl, rfl⟩

theorem render_error_isOutside (formatter : Formatter) (source site : Text) (attributes : Attributes)
    (settings : PreviewSettings) (accepted : PreviewSettings.ofAttributes attributes = .ok settings)
    (hasSite : formatter.sitePath = some site) (before after : Workspace) (error : PreviewError)
    (failed : formatter.render source attributes before = .error error after) : error.IsOutside := by
  simp only [render, accepted, hasSite] at failed
  rcases Job.bind_eq_error_cases _ _ _ _ _ failed with storing | ⟨_, _, _, later⟩
  · obtain ⟨_, _, rfl⟩ := Job.orFail_eq_error _ _ _ _ _ storing
    trivial
  · rcases Job.bind_eq_error_cases _ _ _ _ _ later with publishing | ⟨_, _, _, last⟩
    · obtain ⟨_, _, rfl⟩ := Job.orFail_eq_error _ _ _ _ _ publishing
      trivial
    · exact absurd last (Job.pure_ne_error _ _ _ _)

theorem Compiled.compiled_eq (formatter : Formatter) (name document : Text) (variant : Variant)
    (before after : Workspace) (finished : formatter.Compiled name document variant before after) :
    after.compiled = before.compiled ++ [document] :=
  Placed.compiled_eq _ _ _ _ _ _ finished fun _ _ _ => Job.compile_compiled_eq _ _ _ _ _

theorem Stored.compiled_eq (formatter : Formatter) (document : Variant → Text)
    (before after : Workspace) (ran : Bool) (stored : formatter.Stored document before ran after) :
    after.compiled = before.compiled ++ if ran then [document .light, document .dark] else [] := by
  cases stored with
  | cached present => simp
  | missing made half _ absent directory light dark =>
      rw [Compiled.compiled_eq _ _ _ _ _ _ dark, Compiled.compiled_eq _ _ _ _ _ _ light,
        Job.makeDirectories_compiled_eq _ _ _ directory]
      simp

theorem OnSite.compiled_eq (formatter : Formatter) (name : Text) (variant : Variant)
    (before after : Workspace) (onSite : formatter.OnSite name variant before after) :
    after.compiled = before.compiled := by
  cases onSite with
  | present found => rfl
  | copied _ absent placed =>
      have kept := Placed.compiled_eq _ _ _ [] _ _ placed fun temporary made filled copy => by
        obtain ⟨storage, _, rfl⟩ := copy
        simp
      simpa using kept

/-- The compiler is called for the documents that were not in store, and for no others. -/
theorem Undisturbed.compiled_eq (formatter : Formatter) (documents : List (Variant → Text))
    (before after : Workspace) (flags : List Bool)
    (undisturbed : formatter.Undisturbed documents before flags after) :
    flags.length = documents.length ∧ after.compiled = before.compiled ++ calls documents flags := by
  induction undisturbed with
  | nil workspace => exact ⟨rfl, by simp [calls]⟩
  | cons document rest before stored made half published after ran later store directory light dark
      others ih =>
      refine ⟨by simp [ih.1], ?_⟩
      rw [ih.2, OnSite.compiled_eq _ _ _ _ _ dark, OnSite.compiled_eq _ _ _ _ _ light,
        Job.makeDirectories_compiled_eq _ _ _ directory, Stored.compiled_eq _ _ _ _ _ store, calls,
        List.append_assoc]

theorem undisturbed_cons_iff (formatter : Formatter) (document : Variant → Text)
    (rest : List (Variant → Text)) (before after : Workspace) (flags : List Bool) :
    formatter.Undisturbed (document :: rest) before flags after ↔
      ∃ ran later middle, flags = ran :: later ∧
        formatter.Undisturbed [document] before [ran] middle ∧
        formatter.Undisturbed rest middle later after := by
  constructor
  · intro undisturbed
    cases undisturbed with
    | cons _ _ _ stored made half published _ ran later store directory light dark others =>
        exact ⟨ran, later, published, rfl,
          .cons _ _ _ stored made half _ _ ran _ store directory light dark (.nil _), others⟩
  · rintro ⟨ran, later, middle, rfl, first, others⟩
    obtain ⟨stored, made, half, store, directory, light, dark⟩ :=
      (undisturbed_single_iff _ _ _ _ _).mp first
    exact .cons _ _ _ stored made half _ _ ran _ store directory light dark others

end Formatter

def Formatter.small (compiler : Compiler) : Formatter :=
  { templates := .default
    artifacts := .below ⟨"docs".toList⟩ ⟨"site".toList⟩
    compiler
    sitePath := some ['/'] }

end FencePreview
