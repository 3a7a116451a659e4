import FencePreview.Proofs.AddressPaths
import FencePreview.Proofs.OverriddenSettings
import FencePreview.Proofs.SiteCopies

/-! What holds of every configuration that is loaded. The program is named and the site address is of a known
form, whichever file or option they come from, and then the path of the site is one that image addresses can
begin with. How a document is read and how variables are replaced makes no difference. -/

namespace FencePreview

namespace SiteUrl

/-- What image addresses begin with: an absolute path that closes with a slash, and nothing behind it. -/
structure IsRoot (root : Text) : Prop where
  begins : root.head? = some '/'
  ends : root.getLast? = some '/'
  queryless : '?' ∉ root
  fragmentless : '#' ∉ root

/-- An absolute path that leads from a root down by named steps. A root that begins with two slashes is taken
as a path like any other. -/
structure Below (root url : Text) : Prop where
  absolute : url.head? = some '/'
  whole : ∀ character ∈ url, endsPath character = false
  descends : ∃ steps, steps ≠ [] ∧ (∀ step ∈ steps, IsName step) ∧ url = root ++ Text.joinWith ['/'] steps

theorem isAccepted_iff (url : Text) :
    isAccepted url = true ↔ ∃ beginning ∈ beginnings, beginning <+: url := by
  simp only [isAccepted, List.any_eq_true, Text.stripStart?_isSome_iff]

theorem head?_closeWithSlash (own : Text) (begins : ∀ character ∈ own.head?, character = '/') :
    (closeWithSlash own).head? = some '/' := by
  cases own with
  | nil => rfl
  | cons first rest =>
      rw [closeWithSlash, begins first rfl]
      split <;> rfl

theorem endsPath_closeWithSlash (own : Text) (inside : ∀ character ∈ own, endsPath character = false)
    (character : Char) (member : character ∈ closeWithSlash own) : endsPath character = false := by
  rw [closeWithSlash] at member
  split at member
  · exact inside character member
  · rcases List.mem_append.mp member with early | last
    · exact inside character early
    · rw [List.mem_singleton.mp last]
      decide

theorem isRoot_closeWithSlash (own : Text) (begins : ∀ character ∈ own.head?, character = '/')
    (inside : ∀ character ∈ own, endsPath character = false) : IsRoot (closeWithSlash own) where
  begins := head?_closeWithSlash own begins
  ends := closeWithSlash_getLast? own
  queryless member := absurd (endsPath_closeWithSlash own inside _ member) (by decide)
  fragmentless member := absurd (endsPath_closeWithSlash own inside _ member) (by decide)

/-- Wherever the scheme is taken to end, what is found behind it is a root. -/
theorem isRoot_path (url : Text) (accepted : isAccepted url = true) : IsRoot (path url) := by
  have afterSeparator (rest : Text) : IsRoot (closeWithSlash (afterHost rest)) := by
    refine isRoot_closeWithSlash _ (fun character first => ?_) (fun character member => ?_)
    · simpa using eq_false_of_head?_dropWhile _ (beforeTail rest) character first
    · exact endsPath_of_mem_beforeTail rest character ((List.dropWhile_suffix _).subset member)
  rw [path_eq]
  cases found : Text.splitFirst? separator url with
  | some split => exact afterSeparator split.2
  | none =>
      obtain ⟨scheme, known, rest, rfl⟩ | ⟨rest, rfl⟩ := isAccepted_cases url accepted
      · obtain ⟨name, scheme⟩ := splitFirst?_scheme scheme rest known
        rw [found] at scheme
        cases scheme
      · refine isRoot_closeWithSlash _ (fun character first => ?_) (endsPath_of_mem_beforeTail _)
        have begins : (beforeTail ('/' :: rest)).head? = some '/' := rfl
        exact (Option.some.inj (begins.symm.trans first)).symm

theorem below_url (root document : Text) (isRoot : IsRoot root) (variant : Variant) :
    Below root (Formatter.url root (fingerprint document) variant) := by
  have digest := isDigest_fingerprint document
  have named : IsName renderedDirectory := ⟨by decide, by decide, by decide⟩
  have plain : ∀ character ∈ renderedDirectory ++ '/' :: variant.fileName (fingerprint document),
      endsPath character = false := by
    intro character member
    have letters : (renderedDirectory ++ '/' :: "0123456789abcdef_ld.svg".toList).all
        (fun letter => !endsPath letter) = true := by decide
    have among : character ∈ renderedDirectory ++ '/' :: "0123456789abcdef_ld.svg".toList := by
      rw [List.mem_append, List.mem_cons] at member ⊢
      exact member.imp_right (Or.imp_right (variant.mem_fileName _ digest character))
    simpa using List.all_eq_true.mp letters character among
  constructor
  · rw [Formatter.url, List.append_assoc, List.head?_append, isRoot.begins]
    rfl
  · intro character member
    rw [Formatter.url, List.append_assoc, List.mem_append] at member
    rcases member with inRoot | behind
    · simp only [endsPath, Bool.or_eq_false_iff, decide_eq_false_iff_not]
      constructor
      · rintro rfl
        exact isRoot.queryless inRoot
      · rintro rfl
        exact isRoot.fragmentless inRoot
    · exact plain character behind
  · refine ⟨[renderedDirectory, variant.fileName (fingerprint document)], by simp, ?_, ?_⟩
    · simp only [List.forall_mem_cons]
      exact ⟨named, variant.isName_fileName _ digest, by simp⟩
    · simp [Formatter.url, Text.joinWith]

end SiteUrl

namespace Config

/-- The program is named and the site address, if there is one, is of a known form. -/
structure Usable (config : Config) : Prop where
  named : config.program ≠ []
  addressed : ∀ url, config.siteUrl = some url → ∃ beginning ∈ SiteUrl.beginnings, beginning <+: url

/-- What rendering takes for granted. -/
structure Sound (config : Config) : Prop where
  usable : config.Usable
  given : config.sitePath.isSome = config.siteUrl.isSome
  rooted : ∀ root, config.sitePath = some root → SiteUrl.IsRoot root
  images : ∀ formatter : Formatter, formatter.sitePath = config.sitePath →
    ∀ source attributes before after rendered,
      formatter.render source attributes before = .ok rendered after →
        ∃ root, config.sitePath = some root ∧ SiteUrl.Below root rendered.lightUrl ∧
          SiteUrl.Below root rendered.darkUrl

theorem Usable.sound (config : Config) (usable : config.Usable) : config.Sound := by
  have rooted : ∀ root, config.sitePath = some root → SiteUrl.IsRoot root := by
    intro root found
    obtain ⟨url, given, rfl⟩ := Option.map_eq_some_iff.mp found
    exact SiteUrl.isRoot_path url ((SiteUrl.isAccepted_iff url).mpr (usable.addressed url given))
  refine ⟨usable, Option.isSome_map, rooted, ?_⟩
  intro formatter same source attributes before after rendered finished
  obtain ⟨settings, root, accepted, hasSite⟩ :=
    formatter.accepted_of_render_eq_ok source attributes before after rendered finished
  obtain ⟨ran, rfl, _⟩ :=
    (Formatter.render_eq_ok_iff formatter source root attributes settings accepted hasSite _ _ _).mp finished
  have isRoot := rooted root (same.symm.trans hasSite)
  exact ⟨root, same.symm.trans hasSite, SiteUrl.below_url root _ isRoot .light, SiteUrl.below_url root _ isRoot .dark⟩

theorem validate_eq_ok_iff (config : Config) : config.validate = .ok () ↔ config.Usable := by
  rw [validate]
  by_cases empty : config.program = []
  · simp only [empty, if_true, reduceCtorEq, false_iff]
    exact fun usable => usable.named empty
  · rw [if_neg empty]
    have usable_iff : config.Usable ↔ ∀ url, config.siteUrl = some url → SiteUrl.isAccepted url = true := by
      simp only [SiteUrl.isAccepted_iff]
      exact ⟨Usable.addressed, fun addressed => ⟨empty, addressed⟩⟩
    rw [usable_iff]
    cases config.siteUrl with
    | none => simp
    | some url =>
        cases url with
        | nil => simp [SiteUrl.isAccepted, SiteUrl.beginnings, Text.stripStart?]
        | cons first rest => cases form : SiteUrl.isAccepted (first :: rest) <;> simp [form]

theorem usable_default (directory : PathName) (source : Option PathName) :
    (ofSettings .default directory source).Usable :=
  (validate_eq_ok_iff _).mp rfl

theorem bind_eq_ok_iff {ε α β : Type} (action : Except ε α) (next : α → Except ε β) (result : β) :
    action >>= next = .ok result ↔ ∃ value, action = .ok value ∧ next value = .ok result := by
  cases action with
  | error error => simp [bind, Except.bind]
  | ok value => simp [bind, Except.bind]

/-- A configuration as it is put together, before any check. -/
inductive Draft (reading : Reading) (storage : Storage) : Option PathName → Config → Prop
  | file (path : Option PathName) (file : PathName) (content : Text) (settings : Settings) (url : Option Text)
      (program : Text) (found : file? storage path = some file) (held : storage.readText file = .ok content)
      (parsed : reading.settings? content = some settings)
      (addressed : settings.siteUrl.mapM (expandFieldBy reading siteUrlField) = .ok url)
      (named : expandFieldBy reading programField settings.program = .ok program) :
      Draft reading storage path (resolved file settings url program)
  | default (undiscovered : discover? storage = none) :
      Draft reading storage none (ofSettings .default (Storage.pathOf storage.workingDirectory) none)

section Loads

variable (reading : Reading) (storage : Storage)

theorem ofText_eq_ok_iff (file : PathName) (content : Text) (config : Config) :
    ofText reading file content = .ok config ↔
      ∃ settings url program, reading.settings? content = some settings ∧
        settings.siteUrl.mapM (expandFieldBy reading siteUrlField) = .ok url ∧
        expandFieldBy reading programField settings.program = .ok program ∧
        config = resolved file settings url program ∧ config.Usable := by
  cases parsed : reading.settings? content with
  | none => simp [ofText, parsed, throw, throwThe, MonadExceptOf.throw]
  | some settings =>
      simp only [ofText, parsed, expandSettings, bind_eq_ok_iff, pure, Except.pure, Except.ok.injEq,
        Option.some.injEq]
      constructor
      · rintro ⟨_, ⟨url, addressed, program, named, rfl⟩, ⟨⟩, valid, rfl⟩
        exact ⟨settings, url, program, rfl, addressed, named, rfl, (validate_eq_ok_iff _).mp valid⟩
      · rintro ⟨_, url, program, rfl, addressed, named, rfl, usable⟩
        exact ⟨_, ⟨url, addressed, program, named, rfl⟩, (), (validate_eq_ok_iff _).mpr usable, rfl⟩

theorem ofFile_eq_ok_iff (path : Option PathName) (file : PathName) (found : file? storage path = some file)
    (config : Config) :
    ofFile reading storage file = .ok config ↔ Draft reading storage path config ∧ config.Usable := by
  constructor
  · intro loaded
    simp only [ofFile] at loaded
    split at loaded
    · cases loaded
    · rename_i content held
      obtain ⟨settings, url, program, parsed, addressed, named, rfl, usable⟩ :=
        (ofText_eq_ok_iff reading file content config).mp loaded
      exact ⟨.file path file content settings url program found held parsed addressed named, usable⟩
  · rintro ⟨draft, usable⟩
    cases draft with
    | file _ other content settings url program found' held parsed addressed named =>
        obtain rfl : file = other := Option.some.inj (found.symm.trans found')
        simp only [ofFile, held]
        exact (ofText_eq_ok_iff reading file content _).mpr
          ⟨settings, url, program, parsed, addressed, named, rfl, usable⟩
    | default undiscovered => simp [file?, undiscovered] at found

/-- A file is checked on its own; defaults need no check. -/
theorem base_eq_ok_iff (path : Option PathName) (config : Config) :
    base reading storage path = .ok config ↔ Draft reading storage path config ∧ config.Usable := by
  cases path with
  | some path =>
      by_cases there : storage.exists? path
      · rw [← ofFile_eq_ok_iff reading storage path path (by simp [file?, there])]
        simp only [base, there, if_true]
      · simp only [base, there, if_false, Bool.false_eq_true, reduceCtorEq, false_iff]
        rintro ⟨draft, _⟩
        cases draft with
        | file _ file _ _ _ _ found => simp [file?, there] at found
  | none =>
      cases discovered : discover? storage with
      | some file =>
          rw [← ofFile_eq_ok_iff reading storage none file discovered]
          simp only [base, discovered]
      | none =>
          simp only [base, discovered, Except.ok.injEq]
          constructor
          · rintro rfl
            exact ⟨.default discovered, usable_default _ _⟩
          · rintro ⟨draft, _⟩
            cases draft with
            | file _ file _ _ _ _ found => simp [file?, discovered] at found
            | default undiscovered => rfl

/-- Both the draft and what the overrides make of it have to be usable. -/
theorem loadBy_eq_ok_iff (path : Option PathName) (overrides : Option Overrides) (config : Config) :
    loadBy reading storage path overrides = .ok config ↔
      ∃ draft, Draft reading storage path draft ∧ draft.Usable ∧
        config = draft.override (overrides.getD .none) ∧ config.Usable := by
  rw [loadBy, bind_eq_ok_iff]
  simp only [base_eq_ok_iff, and_assoc]
  refine exists_congr fun draft => and_congr_right fun _ => and_congr_right fun usable => ?_
  cases overrides with
  | none =>
      have same : draft.override .none = draft := rfl
      simp only [pure, Except.pure, Except.ok.injEq, Option.getD_none, same]
      constructor
      · rintro rfl
        exact ⟨rfl, usable⟩
      · exact fun both => both.1.symm
  | some overrides =>
      simp only [bind_eq_ok_iff, pure, Except.pure, Except.ok.injEq, Option.getD_some]
      constructor
      · rintro ⟨⟨⟩, valid, rfl⟩
        exact ⟨rfl, (validate_eq_ok_iff _).mp valid⟩
      · rintro ⟨rfl, final⟩
        exact ⟨(), (validate_eq_ok_iff _).mpr final, rfl⟩

/-- Whatever is loaded has what rendering takes for granted, and nothing is loaded exactly where a draft or
what the overrides make of it is not usable, or there is no draft at all. The loader is the one for any
reader of documents and any replacement of variables. -/
theorem loadBy_sound (path : Option PathName) (overrides : Option Overrides) :
    (∀ environment,
      loadBy (.usual environment) storage path overrides = load storage environment path overrides) ∧
    (∀ config, loadBy reading storage path overrides = .ok config → config.Sound) ∧
    ((∃ error, loadBy reading storage path overrides = .error error) ↔
      ∀ draft, Draft reading storage path draft → draft.Usable →
        ¬(draft.override (overrides.getD .none)).Usable) := by
  refine ⟨fun _ => rfl, fun config loaded => ?_, ?_⟩
  · obtain ⟨_, _, _, _, usable⟩ := (loadBy_eq_ok_iff reading storage path overrides config).mp loaded
    exact usable.sound
  · cases result : loadBy reading storage path overrides with
    | error error =>
        simp only [Except.error.injEq, exists_eq', true_iff]
        intro draft drafted usable final
        have loaded := (loadBy_eq_ok_iff reading storage path overrides _).mpr ⟨draft, drafted, usable, rfl, final⟩
        rw [result] at loaded
        cases loaded
    | ok config =>
        obtain ⟨draft, drafted, usable, rfl, final⟩ :=
          (loadBy_eq_ok_iff reading storage path overrides config).mp result
        simp only [reduceCtorEq, exists_false, false_iff]
        exact fun none => none draft drafted usable final

end Loads

/-- An address without a path, with another address in its query. -/
theorem loadBy_sound_query :
    let storage := atAddress "https://example.com?next=http://a/b"
    ∃ config, load storage [] (some fileName) (some .none) = .ok config ∧ config.sitePath = some ['/'] ∧
      config.Sound := by
  intro storage
  let settings : Settings := { Settings.default with siteUrl := some "https://example.com?next=http://a/b".toList }
  let config := resolved fileName settings settings.siteUrl settings.program
  obtain ⟨found, held⟩ := file?_atAddress "https://example.com?next=http://a/b"
  have draft : Draft (.usual []) storage (some fileName) config :=
    .file _ fileName _ settings _ _ found held (by decide +kernel) (by decide +kernel) (by decide +kernel)
  have usable : config.Usable := (validate_eq_ok_iff config).mp (by decide +kernel)
  have loaded : loadBy (.usual []) storage (some fileName) (some .none) = .ok config :=
    (loadBy_eq_ok_iff (.usual []) storage _ _ config).mpr ⟨config, draft, usable, rfl, usable⟩
  obtain ⟨same, sound, _⟩ := loadBy_sound (.usual []) storage (some fileName) (some .none)
  exact ⟨config, (same []).symm.trans loaded, by decide +kernel, sound config loaded⟩

end Config

end FencePreview
