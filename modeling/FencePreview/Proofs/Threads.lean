import FencePreview.Preview.Threads
import FencePreview.Proofs.StoredImages

/-! A thread that is alone does what the job does that it was cut from. -/

namespace FencePreview

namespace Thread

variable {ε α β δ : Type}

theorem run_pure (value : α) : (pure value : Thread ε α).run = pure value := rfl

theorem run_fail (error : ε) : (fail error : Thread ε α).run = throw error := rfl

theorem run_bind (thread : Thread ε α) (next : α → Thread ε β) :
    (thread >>= next).run = thread.run >>= fun value => (next value).run := by
  funext workspace
  induction thread generalizing workspace with
  | done result => cases result <;> rfl
  | step change rest ih => exact ih workspace (change workspace)

theorem run_ofJob (job : Job ε α) : (ofJob job).run = job := by
  funext workspace
  simp only [ofJob, run]
  cases job workspace <;> rfl

theorem run_orFail (wrap : δ → ε) (thread : Thread δ α) :
    (thread.orFail wrap).run = Job.orFail wrap thread.run := by
  funext workspace
  induction thread generalizing workspace with
  | done result => cases result <;> rfl
  | step change rest ih => exact ih workspace (change workspace)

theorem run_attempt (thread : Thread ε α) (workspace : Workspace) :
    (thread.attempt : Thread δ (Except ε α)).run workspace =
      match thread.run workspace with
      | .ok value after => .ok (.ok value) after
      | .error error after => .ok (.error error) after := by
  induction thread generalizing workspace with
  | done result => cases result <;> rfl
  | step change rest ih => exact ih workspace (change workspace)

theorem run_cleaningUp (cleanUp : Storage → Storage) (thread : Thread ε α) :
    (thread.cleaningUp cleanUp).run = Job.cleaningUp cleanUp thread.run := by
  funext workspace
  induction thread generalizing workspace with
  | done result => cases result <;> rfl
  | step change rest ih => exact ih workspace (change workspace)

theorem run_placeFile (directory target : PathName) (wrap : FileError → ε) (fill : PathName → Thread ε Unit) :
    (placeFile directory target wrap fill).run =
      Job.placeFile directory target wrap fun path => (fill path).run := by
  simp only [placeFile, Job.placeFile, run_bind, run_orFail, run_ofJob, run_cleaningUp]

theorem run_tryDirectory (path : PathName) (next : Except FileError Unit → Thread FileError Unit)
    (workspace : Workspace) :
    (((ofJob (Job.change (·.makeDirectory path))).attempt : Thread FileError _) >>= next).run workspace =
      match workspace.storage.makeDirectory path with
      | .ok storage => (next (.ok ())).run { workspace with storage }
      | .error error => (next (.error error)).run workspace := by
  rw [run_bind]
  change EStateM.bind _ _ workspace = _
  simp only [EStateM.bind, run_attempt, run_ofJob, Job.change]
  cases workspace.storage.makeDirectory path <;> rfl

theorem run_unlessDirectory (path : PathName) (error : FileError) (workspace : Workspace) :
    (do if ← ofJob (Job.inspect (·.isDirectory path)) then pure () else fail error :
        Thread FileError Unit).run workspace =
      if workspace.storage.isDirectory path then .ok () workspace else .error error workspace := by
  rw [run_bind]
  change EStateM.bind _ _ workspace = _
  simp only [EStateM.bind, run_ofJob, Job.inspect]
  cases workspace.storage.isDirectory path <;> rfl

theorem run_makeDirectoriesWithin (depth : Nat) (path : PathName) (workspace : Workspace) :
    (makeDirectoriesWithin depth path).run workspace =
      match Storage.makeDirectoriesWithin depth workspace.storage path with
      | (storage, .ok ()) => .ok () { workspace with storage }
      | (storage, .error error) => .error error { workspace with storage } := by
  induction depth generalizing path workspace with
  | zero => rfl
  | succ depth ih =>
      rw [makeDirectoriesWithin, Storage.makeDirectoriesWithin]
      by_cases bare : path.text = []
      · simp only [bare, if_true]
        rfl
      simp only [bare, if_false]
      rw [run_tryDirectory]
      cases made : workspace.storage.makeDirectory path with
      | ok storage => rfl
      | error error =>
          cases error with
          | notFound =>
              cases cut : path.parent? with
              | none => rfl
              | some parent =>
                  simp only
                  rw [run_bind]
                  change EStateM.bind _ _ workspace = _
                  simp only [EStateM.bind, ih]
                  rcases Storage.makeDirectoriesWithin depth workspace.storage parent with ⟨reached, stop | ⟨⟩⟩
                  · rfl
                  · simp only [run_tryDirectory, run_unlessDirectory]
                    cases reached.makeDirectory path with
                    | ok made => rfl
                    | error error => cases reached.isDirectory path <;> rfl
          -- Every other failure leaves the question whether the directory is there.
          | _ =>
              simp only [run_unlessDirectory]
              cases workspace.storage.isDirectory path <;> rfl

theorem run_makeDirectories (path : PathName) : (makeDirectories path).run = Job.makeDirectories path :=
  funext fun workspace => run_makeDirectoriesWithin _ path workspace

theorem run_hasAll (artifacts : Artifacts) (name : Text) (variants : List Variant) :
    (hasAll artifacts name variants : Thread ε Bool).run =
      Job.inspect fun storage => variants.all fun variant => storage.isFile (artifacts.dumpPath name variant) := by
  induction variants with
  | nil => rfl
  | cons variant rest ih =>
      funext workspace
      rw [hasAll, run_bind]
      change EStateM.bind _ _ workspace = _
      simp only [EStateM.bind, run_ofJob, Job.inspect, List.all_cons]
      cases workspace.storage.isFile (artifacts.dumpPath name variant) with
      | true =>
          simp only [if_true, ih, Job.inspect, Bool.true_and]
      | false => rfl

section Renders

variable (artifacts : Artifacts) (name : Text)

theorem run_storeOne (compiler : Compiler) (document : Text) (variant : Variant) :
    (storeOne artifacts name compiler document variant).run =
      artifacts.storeOne compiler name document variant := by
  simp only [storeOne, Artifacts.storeOne, run_placeFile, run_ofJob]

theorem run_storeIfMissing (formatter : Formatter) (document : Variant → Text) :
    (storeIfMissing formatter.artifacts name formatter.compiler document).run =
      formatter.storeIfMissing name document := by
  simp only [storeIfMissing, Formatter.storeIfMissing, run_bind, run_hasAll]
  refine congrArg _ (funext fun cached => ?_)
  cases cached with
  | true => rfl
  | false =>
      simp only [Bool.false_eq_true, if_false, run_bind, run_orFail, run_makeDirectories, run_storeOne,
        run_pure, Artifacts.store, bind_assoc]

theorem run_copyOne (variant : Variant) :
    (copyOne artifacts name variant).run =
      Job.placeFile artifacts.siteDirectory (artifacts.sitePath name variant) id fun temporary =>
        Job.change (·.copy (artifacts.dumpPath name variant) temporary) := by
  simp only [copyOne, run_placeFile, run_ofJob]

theorem run_publishOne (variant : Variant) :
    (publishOne artifacts name variant).run = artifacts.publishOne name variant := by
  simp only [publishOne, Artifacts.publishOne, run_bind, run_ofJob]
  refine congrArg _ (funext fun found => ?_)
  cases found with
  | true => rfl
  | false => simp only [Bool.false_eq_true, if_false, run_bind, run_copyOne, run_pure]

theorem run_publish : (publish artifacts name).run = artifacts.publish name := by
  simp only [publish, Artifacts.publish, run_bind, run_makeDirectories, run_publishOne, run_pure]

/-- The thread of a render does, alone, what the render does. -/
theorem run_render (formatter : Formatter) (source : Text) (attributes : Attributes) :
    (render formatter source attributes).run = formatter.render source attributes := by
  cases accepted : PreviewSettings.ofAttributes attributes with
  | error error => simp only [render, Formatter.render, accepted, run_fail]
  | ok settings =>
      cases hasSite : formatter.sitePath with
      | none => simp only [render, Formatter.render, accepted, hasSite, run_fail]
      | some site =>
          simp only [render, Formatter.render, accepted, hasSite, run_bind, run_orFail, run_storeIfMissing,
            run_publish, run_pure]

end Renders

end Thread

end FencePreview
