import FencePreview.Config.Load

/-! A configuration with values from the command line. A value of the file is checked on its own first:
one with a fault fails the run also where the command line has another in its place. Any value without a
fault makes no difference then. -/

namespace FencePreview

namespace Config

/-- The file that a configuration comes from: the one asked for, or else the nearest. -/
def file? (storage : Storage) (path : Option PathName) : Option PathName :=
  match path with
  | some path => if storage.exists? path then some path else none
  | none => discover? storage

/-- A configuration file is found, and its text gives settings. -/
structure Reads (storage : Storage) (path : Option PathName) (file : PathName) (settings : Settings) : Prop where
  found : file? storage path = some file
  parsed : ∃ content, storage.readText file = .ok content ∧ Settings.read? content = some settings

/-- What is wrong with the site address of a file by itself. -/
def siteUrlFault? (environment : Environment) : Option Text → Option ConfigError
  | none => none
  | some value =>
      match Expansion.expand environment value with
      | .error name => some (.unsetVariable siteUrlField name)
      | .ok [] => some (.emptySetting siteUrlField)
      | .ok url => if SiteUrl.isAccepted url then none else some (.badAddress siteUrlField)

/-- What is wrong with the program of a file by itself. -/
def programFault? (environment : Environment) (value : Text) : Option ConfigError :=
  match Expansion.expand environment value with
  | .error name => some (.unsetVariable programField name)
  | .ok [] => some (.emptySetting programField)
  | .ok _ => none

/-- The fault that is met first: the address is expanded before the program, and checked after it. -/
def fault? (environment : Environment) (settings : Settings) : Option ConfigError :=
  match settings.siteUrl.mapM (expandField environment siteUrlField) with
  | .error error => some error
  | .ok _ => programFault? environment settings.program <|> siteUrlFault? environment settings.siteUrl

def resolved (file : PathName) (settings : Settings) (url : Option Text) (program : Text) : Config :=
  ofSettings { settings with siteUrl := url, program } (file.parent?.getD ⟨['.']⟩) (some file)

section Faults

variable (environment : Environment)

theorem expandField_of_error (field value name : Text) (expands : Expansion.expand environment value = .error name) :
    expandField environment field value = .error (.unsetVariable field name) := by
  simp only [expandField, expandFieldBy, Reading.usual_expand, expands]
  rfl

theorem expandField_of_ok (field value expanded : Text) (expands : Expansion.expand environment value = .ok expanded) :
    expandField environment field value = .ok expanded := by
  simp only [expandField, expandFieldBy, Reading.usual_expand, expands]
  rfl

theorem siteUrl_cases (value : Option Text) :
    (∃ error, value.mapM (expandField environment siteUrlField) = .error error ∧
        siteUrlFault? environment value = some error) ∨
      ∃ url, value.mapM (expandField environment siteUrlField) = .ok url ∧
        ∀ config : Config, config.siteUrl = url → config.program ≠ [] →
          config.validate = match siteUrlFault? environment value with
            | some fault => .error fault
            | none => .ok () := by
  cases value with
  | none =>
      refine .inr ⟨none, rfl, fun config held named => ?_⟩
      simp only [validate, named, if_false, held, siteUrlFault?]
  | some value =>
      cases expands : Expansion.expand environment value with
      | error name =>
          refine .inl ⟨.unsetVariable siteUrlField name, ?_, by simp only [siteUrlFault?, expands]⟩
          rw [Option.mapM_some, expandField_of_error environment siteUrlField value name expands]
          rfl
      | ok url =>
          refine .inr ⟨some url, ?_, fun config held named => ?_⟩
          · rw [Option.mapM_some, expandField_of_ok environment siteUrlField value url expands]
            rfl
          · cases url with
            | nil => simp only [validate, named, if_false, held, siteUrlFault?, expands]
            | cons first rest =>
                cases form : SiteUrl.isAccepted (first :: rest) <;>
                  simp [validate, named, held, siteUrlFault?, expands, form]

theorem program_cases (value : Text) :
    (∃ error, expandField environment programField value = .error error ∧
        programFault? environment value = some error) ∨
      ∃ program, expandField environment programField value = .ok program ∧
        ((program = [] ∧ programFault? environment value = some (.emptySetting programField)) ∨
          program ≠ [] ∧ programFault? environment value = none) := by
  cases expands : Expansion.expand environment value with
  | error name =>
      exact .inl ⟨.unsetVariable programField name, expandField_of_error environment programField value name expands,
        by simp only [programFault?, expands]⟩
  | ok program =>
      refine .inr ⟨program, expandField_of_ok environment programField value program expands, ?_⟩
      cases program with
      | nil => exact .inl ⟨rfl, by simp only [programFault?, expands]⟩
      | cons => exact .inr ⟨List.cons_ne_nil _ _, by simp only [programFault?, expands]⟩

variable (settings : Settings)

theorem fault?_of_siteUrl (address : siteUrlFault? environment settings.siteUrl = none) :
    fault? environment settings = programFault? environment settings.program := by
  obtain ⟨error, _, fault⟩ | ⟨url, expands, _⟩ := siteUrl_cases environment settings.siteUrl
  · simp [address] at fault
  · simp [fault?, expands, address]

theorem fault?_of_program (named : programFault? environment settings.program = none) :
    fault? environment settings = siteUrlFault? environment settings.siteUrl := by
  obtain ⟨error, expands, fault⟩ | ⟨url, expands, _⟩ := siteUrl_cases environment settings.siteUrl
  · simp [fault?, expands, fault]
  · simp [fault?, expands, named]

theorem fault?_eq_some_of (wrong : siteUrlFault? environment settings.siteUrl ≠ none ∨
      programFault? environment settings.program ≠ none) :
    ∃ error, fault? environment settings = some error ∧
      (siteUrlFault? environment settings.siteUrl = some error ∨
        programFault? environment settings.program = some error) := by
  obtain ⟨error, expands, fault⟩ | ⟨url, expands, _⟩ := siteUrl_cases environment settings.siteUrl
  · exact ⟨error, by simp only [fault?, expands], .inl fault⟩
  · cases names : programFault? environment settings.program with
    | some error => exact ⟨error, by simp [fault?, expands, names], .inr rfl⟩
    | none =>
        obtain ⟨error, held⟩ := Option.ne_none_iff_exists'.mp (wrong.resolve_right fun named => named names)
        exact ⟨error, by simp [fault?, expands, names, held], .inl held⟩

end Faults

section Loads

variable (storage : Storage) (environment : Environment) (path : Option PathName) (file : PathName)
  (settings : Settings) (overrides : Overrides)

theorem load_eq (reads : Reads storage path file settings) :
    load storage environment path (some overrides) = do
      let url ← settings.siteUrl.mapM (expandField environment siteUrlField)
      let program ← expandField environment programField settings.program
      (resolved file settings url program).validate
      ((resolved file settings url program).override overrides).validate
      return (resolved file settings url program).override overrides := by
  obtain ⟨content, text, parsed⟩ := reads.parsed
  have based : base (.usual environment) storage path = ofText (.usual environment) file content := by
    have read : ofFile (.usual environment) storage file = ofText (.usual environment) file content := by
      simp only [ofFile, text]
    rw [← read]
    have found := reads.found
    cases path with
    | none =>
        simp only [file?] at found
        simp only [base, found]
    | some path =>
        simp only [file?] at found
        split at found
        · rename_i there
          cases found
          simp only [base, there, if_true]
        · simp at found
  simp only [load, loadBy, based, ofText, Reading.usual_settings?, parsed, expandSettings, bind_assoc, pure_bind]
  rfl

/-- Without a fault in the file, its values come together with the overrides. -/
theorem load_faultless (reads : Reads storage path file settings) (sound : fault? environment settings = none) :
    ∃ url program, settings.siteUrl.mapM (expandField environment siteUrlField) = .ok url ∧
      expandField environment programField settings.program = .ok program ∧
      load storage environment path (some overrides) = do
        ((resolved file settings url program).override overrides).validate
        return (resolved file settings url program).override overrides := by
  obtain ⟨error, expands, _⟩ | ⟨url, expands, valid⟩ := siteUrl_cases environment settings.siteUrl
  · simp [fault?, expands] at sound
  simp only [fault?, expands, Option.orElse_eq_orElse, Option.orElse_eq_or, Option.or_eq_none_iff] at sound
  obtain ⟨error, _, fault⟩ | ⟨program, names, ⟨_, fault⟩ | ⟨filled, _⟩⟩ := program_cases environment settings.program
  · simp [sound.1] at fault
  · simp [sound.1] at fault
  · have accepted := valid (resolved file settings url program) rfl filled
    rw [sound.2] at accepted
    refine ⟨url, program, expands, names, ?_⟩
    rw [load_eq storage environment path file settings overrides reads, expands, names]
    change (resolved file settings url program).validate >>= _ = _
    rw [accepted]
    rfl

/-- A fault of the file is what the run fails with, whatever takes the place of its values. -/
theorem load_fault (reads : Reads storage path file settings) (error : ConfigError)
    (wrong : fault? environment settings = some error) :
    load storage environment path (some overrides) = .error error := by
  rw [load_eq storage environment path file settings overrides reads]
  obtain ⟨_, expands, _⟩ | ⟨url, expands, valid⟩ := siteUrl_cases environment settings.siteUrl
  · obtain rfl := by simpa [fault?, expands] using wrong
    rw [expands]
    rfl
  simp only [fault?, expands] at wrong
  obtain ⟨_, names, fault⟩ | ⟨program, names, ⟨rfl, fault⟩ | ⟨filled, named⟩⟩ :=
    program_cases environment settings.program
  · obtain rfl := by simpa [fault] using wrong
    rw [expands, names]
    rfl
  · obtain rfl := by simpa [fault] using wrong
    rw [expands, names]
    rfl
  · have refused := valid (resolved file settings url program) rfl filled
    obtain address : siteUrlFault? environment settings.siteUrl = some error := by simpa [named] using wrong
    rw [address] at refused
    rw [expands, names]
    change (resolved file settings url program).validate >>= _ = _
    rw [refused]
    rfl

end Loads

/-- The part of a configuration that an address or a program of the command line replaces is not in the result. -/
theorem override_resolved (file : PathName) (settings settings' : Settings) (overrides : Overrides)
    (url url' : Option Text) (program program' : Text)
    (others : settings' = { settings with siteUrl := settings'.siteUrl, program := settings'.program })
    (address : overrides.siteUrl ≠ none ∨ url' = url) (names : overrides.program ≠ none ∨ program' = program) :
    (resolved file settings' url' program').override overrides =
      (resolved file settings url program).override overrides := by
  rw [others]
  have sameUrl : (overrides.siteUrl <|> url') = (overrides.siteUrl <|> url) := by
    rcases address with given | rfl
    · obtain ⟨given, held⟩ := Option.ne_none_iff_exists'.mp given
      rw [held]
      rfl
    · rfl
  have sameProgram : overrides.program.getD program' = overrides.program.getD program := by
    rcases names with given | rfl
    · obtain ⟨given, held⟩ := Option.ne_none_iff_exists'.mp given
      rw [held]
      rfl
    · rfl
  simp only [resolved, ofSettings, override, sameUrl, sameProgram]

theorem load_congr (storage storage' : Storage) (environment : Environment) (path : Option PathName)
    (file : PathName) (settings settings' : Settings) (overrides : Overrides)
    (reads : Reads storage path file settings) (reads' : Reads storage' path file settings')
    (same : fault? environment settings' = fault? environment settings)
    (others : settings' = { settings with siteUrl := settings'.siteUrl, program := settings'.program })
    (address : overrides.siteUrl ≠ none ∨ settings'.siteUrl = settings.siteUrl)
    (names : overrides.program ≠ none ∨ settings'.program = settings.program) :
    load storage' environment path (some overrides) = load storage environment path (some overrides) := by
  cases fault : fault? environment settings with
  | some error =>
      rw [load_fault storage environment path file settings overrides reads error fault,
        load_fault storage' environment path file settings' overrides reads' error (same.trans fault)]
  | none =>
      obtain ⟨url, program, expands, named, loads⟩ :=
        load_faultless storage environment path file settings overrides reads fault
      obtain ⟨url', program', expands', named', loads'⟩ :=
        load_faultless storage' environment path file settings' overrides reads' (same.trans fault)
      have sameUrl (held : settings'.siteUrl = settings.siteUrl) : url' = url := by
        simpa [held, expands, eq_comm] using expands'
      have sameProgram (held : settings'.program = settings.program) : program' = program := by
        simpa [held, named, eq_comm] using named'
      rw [loads, loads', override_resolved file settings settings' overrides url url' program program' others
        (address.imp_right sameUrl) (names.imp_right sameProgram)]

/-- With an override, all values of the file that have no fault by themselves give one outcome, which is
the configuration with the overrides whenever that is valid; a value with a fault fails the run. -/
theorem load_overridden (storage storage' : Storage) (environment : Environment) (path : Option PathName)
    (file : PathName) (settings settings' : Settings) (overrides : Overrides)
    (reads : Reads storage path file settings) (reads' : Reads storage' path file settings') :
    (overrides.siteUrl ≠ none → settings' = { settings with siteUrl := settings'.siteUrl } →
      siteUrlFault? environment settings.siteUrl = none → siteUrlFault? environment settings'.siteUrl = none →
        load storage' environment path (some overrides) = load storage environment path (some overrides)) ∧
    (overrides.program ≠ none → settings' = { settings with program := settings'.program } →
      programFault? environment settings.program = none → programFault? environment settings'.program = none →
        load storage' environment path (some overrides) = load storage environment path (some overrides)) ∧
    (siteUrlFault? environment settings.siteUrl = none → programFault? environment settings.program = none →
      ∃ url program, settings.siteUrl.mapM (expandField environment siteUrlField) = .ok url ∧
        expandField environment programField settings.program = .ok program ∧
        let final := (resolved file settings url program).override overrides
        (final.validate = .ok () → load storage environment path (some overrides) = .ok final)) ∧
    (siteUrlFault? environment settings.siteUrl ≠ none ∨ programFault? environment settings.program ≠ none →
      ∃ error, load storage environment path (some overrides) = .error error ∧
        (siteUrlFault? environment settings.siteUrl = some error ∨
          programFault? environment settings.program = some error)) := by
  refine ⟨fun given others address address' => ?_, fun given others named named' => ?_, fun address named => ?_,
    fun wrong => ?_⟩
  · have program : settings'.program = settings.program := by rw [others]
    refine load_congr storage storage' environment path file settings settings' overrides reads reads' ?_
      (by rw [others]) (.inl given) (.inr program)
    rw [fault?_of_siteUrl environment settings address, fault?_of_siteUrl environment settings' address', program]
  · have url : settings'.siteUrl = settings.siteUrl := by rw [others]
    refine load_congr storage storage' environment path file settings settings' overrides reads reads' ?_
      (by rw [others]) (.inr url) (.inl given)
    rw [fault?_of_program environment settings named, fault?_of_program environment settings' named', url]
  · have sound : fault? environment settings = none :=
      (fault?_of_siteUrl environment settings address).trans named
    obtain ⟨url, program, expands, names, loads⟩ :=
      load_faultless storage environment path file settings overrides reads sound
    refine ⟨url, program, expands, names, fun valid => ?_⟩
    rw [loads, valid]
    rfl
  · obtain ⟨error, fault, source⟩ := fault?_eq_some_of environment settings wrong
    exact ⟨error, load_fault storage environment path file settings overrides reads error fault, source⟩

def atAddress (address : String) : Storage :=
  ⟨⟨[([fileName.text],
    .file (Text.encode ("[docs]\nsite_url = \"" ++ address ++ "\"\n").toList) FileTree.fileMode)]⟩, []⟩

theorem file?_atAddress (address : String) :
    file? (atAddress address) (some fileName) = some fileName ∧
      (atAddress address).readText fileName = .ok ("[docs]\nsite_url = \"" ++ address ++ "\"\n").toList := by
  have resolves : (atAddress address).resolve fileName = .ok [fileName.text] := rfl
  have there : (atAddress address).tree.get? [fileName.text] = some (.file
      (Text.encode ("[docs]\nsite_url = \"" ++ address ++ "\"\n").toList) FileTree.fileMode) := rfl
  constructor
  · simp only [file?, Storage.exists?, Storage.entry?, resolves, there, Option.isSome_some, if_true]
  · simp only [Storage.readText, Storage.read, Storage.requireEntry, resolves, there, Text.decode?_encode]

/-- An address of the command line does not help against a file whose own address lacks its scheme. -/
theorem load_overridden_bad_address :
    let overrides := { Overrides.none with siteUrl := some "https://example.com/".toList }
    let settings (address : String) := { Settings.default with siteUrl := some address.toList }
    Reads (atAddress "/docs") (some fileName) fileName (settings "/docs") ∧
    Reads (atAddress "example.com") (some fileName) fileName (settings "example.com") ∧
    (∃ config, load (atAddress "/docs") [] (some fileName) (some overrides) = .ok config ∧
      config.siteUrl = some "https://example.com/".toList) ∧
    load (atAddress "example.com") [] (some fileName) (some overrides) = .error (.badAddress siteUrlField) := by
  intro overrides settings
  have reads (address : String)
      (parsed : Settings.read? ("[docs]\nsite_url = \"" ++ address ++ "\"\n").toList = some (settings address)) :
      Reads (atAddress address) (some fileName) fileName (settings address) := by
    obtain ⟨found, held⟩ := file?_atAddress address
    exact ⟨found, _, held, parsed⟩
  have good := reads "/docs" (by decide +kernel)
  have bad := reads "example.com" (by decide +kernel)
  obtain ⟨_, _, combined, _⟩ := load_overridden (atAddress "/docs") (atAddress "/docs") [] (some fileName)
    fileName (settings "/docs") (settings "/docs") overrides good good
  obtain ⟨_, _, _, fails⟩ := load_overridden (atAddress "example.com") (atAddress "/docs") [] (some fileName)
    fileName (settings "example.com") (settings "/docs") overrides bad good
  obtain ⟨url, program, _, names, loads⟩ := combined (by decide +kernel) (by decide +kernel)
  refine ⟨good, bad, ⟨_, loads ?_, rfl⟩, ?_⟩
  · obtain rfl : "typst".toList = program := by
      simpa using (show Except.ok "typst".toList = Except.ok program from names)
    rfl
  · obtain ⟨error, failed, address | named⟩ := fails (.inl (by decide +kernel))
    · have fault : siteUrlFault? [] (settings "example.com").siteUrl = some (.badAddress siteUrlField) := by
        decide +kernel
      rw [failed, Option.some.inj (fault.symm.trans address)]
    · have fault : programFault? [] (settings "example.com").program = none := by decide +kernel
      simp [fault] at named

end Config

end FencePreview
