import FencePreview.Preview.Workspace

/-! When a job ends well, every job it is made of does; when it fails, one of them fails first. -/

namespace FencePreview

namespace Job

variable {ε α β δ : Type}

theorem bind_eq_ok_iff (job : Job ε α) (next : α → Job ε β) (before after : Workspace) (result : β) :
    (job >>= next) before = .ok result after ↔
      ∃ value between, job before = .ok value between ∧ next value between = .ok result after := by
  change EStateM.bind job next before = _ ↔ _
  simp only [EStateM.bind]
  cases first : job before with
  | ok value between =>
      constructor
      · exact fun finished => ⟨value, between, rfl, finished⟩
      · rintro ⟨other, middle, same, finished⟩
        cases same
        exact finished
  | error error between => simp

theorem bind_eq_error_cases (job : Job ε α) (next : α → Job ε β) (before after : Workspace) (error : ε)
    (failed : (job >>= next) before = .error error after) :
    job before = .error error after ∨
      ∃ value between, job before = .ok value between ∧ next value between = .error error after := by
  change EStateM.bind job next before = _ at failed
  simp only [EStateM.bind] at failed
  cases first : job before with
  | ok value between =>
      rw [first] at failed
      exact .inr ⟨value, between, rfl, failed⟩
  | error cause between =>
      simp only [first] at failed
      cases failed
      exact .inl rfl

theorem bind_of_ok (job : Job ε α) (next : α → Job ε β) (before between : Workspace) (value : α)
    (finished : job before = .ok value between) : (job >>= next) before = next value between := by
  change EStateM.bind job next before = _
  simp only [EStateM.bind, finished]

theorem bind_of_error (job : Job ε α) (next : α → Job ε β) (before after : Workspace) (error : ε)
    (failed : job before = .error error after) : (job >>= next) before = .error error after := by
  change EStateM.bind job next before = _
  simp only [EStateM.bind, failed]

theorem orFail_of_error (wrap : δ → ε) (job : Job δ α) (before after : Workspace) (cause : δ)
    (failed : job before = .error cause after) : orFail wrap job before = .error (wrap cause) after := by
  simp only [orFail, failed]

theorem orFail_eq_ok_iff (wrap : δ → ε) (job : Job δ α) (before after : Workspace) (result : α) :
    orFail wrap job before = .ok result after ↔ job before = .ok result after := by
  simp only [orFail]
  cases job before <;> simp

theorem orFail_eq_error (wrap : δ → ε) (job : Job δ α) (before after : Workspace) (error : ε)
    (failed : orFail wrap job before = .error error after) :
    ∃ cause, job before = .error cause after ∧ error = wrap cause := by
  simp only [orFail] at failed
  split at failed
  · simp at failed
  · rename_i cause changed stopped
    cases failed
    exact ⟨cause, stopped, rfl⟩

theorem pure_eq_ok_iff (value result : α) (before after : Workspace) :
    (pure value : Job ε α) before = .ok result after ↔ value = result ∧ before = after := by
  change EStateM.Result.ok value before = _ ↔ _
  simp

theorem pure_ne_error (value : α) (error : ε) (before after : Workspace) :
    (pure value : Job ε α) before ≠ .error error after := by
  change EStateM.Result.ok value before ≠ _
  simp

theorem throw_ne_ok (error : ε) (result : α) (before after : Workspace) :
    (throw error : Job ε α) before ≠ .ok result after := by
  change EStateM.Result.error error before ≠ _
  simp

theorem inspect_eq_ok_iff (question : Storage → α) (before after : Workspace) (result : α) :
    (inspect question : Job ε α) before = .ok result after ↔
      question before.storage = result ∧ before = after := by
  simp [inspect]

theorem change_eq_ok_iff (operation : Storage → Except FileError Storage) (before after : Workspace)
    (done : Unit) :
    change operation before = .ok done after ↔
      ∃ storage, operation before.storage = .ok storage ∧ after = { before with storage } := by
  simp only [change]
  cases operation before.storage with
  | ok storage =>
      constructor
      · intro finished
        cases finished
        exact ⟨storage, rfl, rfl⟩
      · rintro ⟨other, same, rfl⟩
        cases same
        rfl
  | error error => simp

theorem cleaningUp_eq_ok_iff (cleanUp : Storage → Storage) (job : Job ε α) (before after : Workspace)
    (result : α) : cleaningUp cleanUp job before = .ok result after ↔ job before = .ok result after := by
  simp only [cleaningUp]
  cases job before <;> simp

def result? (job : Job ε α) (before : Workspace) : Option α :=
  match job before with
  | .ok value _ => some value
  | .error _ _ => none

theorem result?_eq_some_iff (job : Job ε α) (before : Workspace) (value : α) :
    result? job before = some value ↔ ∃ after, job before = .ok value after := by
  simp only [result?]
  cases job before <;> simp

def error? (job : Job ε α) (before : Workspace) : Option ε :=
  match job before with
  | .ok _ _ => none
  | .error error _ => some error

theorem error?_eq_some_iff (job : Job ε α) (before : Workspace) (error : ε) :
    error? job before = some error ↔ ∃ after, job before = .error error after := by
  simp only [error?]
  cases job before <;> simp

end Job

/-- A temporary file in `directory` is made, filled, opened to all readers and moved to `target`, and
nothing of this fails. -/
def Placed (directory target : PathName) (fill : PathName → Workspace → Workspace → Prop)
    (before after : Workspace) : Prop :=
  ∃ temporary made filled opened moved,
    Job.createTemporary directory before = .ok temporary made ∧
    fill temporary made filled ∧
    filled.storage.setMode temporary FileTree.fileMode = .ok opened ∧
    opened.rename temporary target = .ok moved ∧
    after = { filled with storage := moved }

theorem Job.placeFile_eq_ok_iff {ε : Type} (directory target : PathName) (wrap : FileError → ε)
    (fill : PathName → Job ε Unit) (before after : Workspace) (done : Unit) :
    placeFile directory target wrap fill before = .ok done after ↔
      Placed directory target (fun temporary made filled => fill temporary made = .ok () filled)
        before after := by
  simp only [placeFile, bind_eq_ok_iff, orFail_eq_ok_iff, cleaningUp_eq_ok_iff, change_eq_ok_iff]
  constructor
  · rintro ⟨temporary, made, created, ⟨⟩, filled, full, ⟨⟩, _, ⟨opened, readable, rfl⟩, moved, renamed, rfl⟩
    exact ⟨temporary, made, filled, opened, moved, created, full, readable, renamed, rfl⟩
  · rintro ⟨temporary, made, filled, opened, moved, created, full, readable, renamed, rfl⟩
    exact ⟨temporary, made, created, (), filled, full, (), _, ⟨opened, readable, rfl⟩, moved, renamed, rfl⟩

end FencePreview
