import FencePreview.Preview.Render

/-! Renders that share the files. A thread is a job cut into the operations it asks the files for; between
two of them other threads may take their turn. -/

namespace FencePreview

inductive Thread (ε α : Type) where
  | done (result : Except ε α)
  /-- One operation. What it meets decides how the thread goes on. -/
  | step (change : Workspace → Workspace) (next : Workspace → Thread ε α)

namespace Thread

variable {ε α β δ : Type}

def bind : Thread ε α → (α → Thread ε β) → Thread ε β
  | done (.ok value), next => next value
  | done (.error error), _ => done (.error error)
  | step change rest, next => step change fun workspace => (rest workspace).bind next

instance : Monad (Thread ε) where
  pure value := done (.ok value)
  bind := bind

def fail (error : ε) : Thread ε α := done (.error error)

/-- A job that takes one turn. -/
def ofJob (job : Job ε α) : Thread ε α :=
  step
    (fun workspace => match job workspace with
      | .ok _ changed => changed
      | .error _ changed => changed)
    (fun workspace => match job workspace with
      | .ok value _ => done (.ok value)
      | .error error _ => done (.error error))

/-- A thread on its own kind of error, within one on another kind. -/
def orFail (wrap : δ → ε) : Thread δ α → Thread ε α
  | done (.ok value) => done (.ok value)
  | done (.error error) => done (.error (wrap error))
  | step change rest => step change fun workspace => (rest workspace).orFail wrap

/-- A thread whose failure is for the next one to look at. -/
def attempt : Thread ε α → Thread δ (Except ε α)
  | done result => done (.ok result)
  | step change rest => step change fun workspace => (rest workspace).attempt

/-- After a failure, `cleanUp` is applied to the files in a turn of its own. -/
def cleaningUp (cleanUp : Storage → Storage) : Thread ε α → Thread ε α
  | done (.ok value) => done (.ok value)
  | done (.error error) =>
      step (fun workspace => { workspace with storage := cleanUp workspace.storage })
        fun _ => done (.error error)
  | step change rest => step change fun workspace => (rest workspace).cleaningUp cleanUp

/-- What a thread does when no other one takes a turn. -/
def run : Thread ε α → Job ε α
  | done (.ok value) => fun workspace => .ok value workspace
  | done (.error error) => fun workspace => .error error workspace
  | step change rest => fun workspace => (rest workspace).run (change workspace)

/-- Makes a directory, its missing parents first. Between two tries other threads may have made it. -/
def makeDirectoriesWithin : Nat → PathName → Thread FileError Unit
  | 0, _ => fail .notFound
  | depth + 1, path =>
      if path.text = [] then pure ()
      else do
        match ← (ofJob (Job.change (·.makeDirectory path))).attempt with
        | .ok () => pure ()
        | .error .notFound =>
            match path.parent? with
            | none => fail .notFound
            | some parent =>
                makeDirectoriesWithin depth parent
                match ← (ofJob (Job.change (·.makeDirectory path))).attempt with
                | .ok () => pure ()
                | .error error =>
                    if ← ofJob (Job.inspect (·.isDirectory path)) then pure () else fail error
        | .error error => if ← ofJob (Job.inspect (·.isDirectory path)) then pure () else fail error

def makeDirectories (path : PathName) : Thread FileError Unit :=
  makeDirectoriesWithin (path.text.length + 1) path

def placeFile (directory target : PathName) (wrap : FileError → ε) (fill : PathName → Thread ε Unit) :
    Thread ε Unit := do
  let temporary ← orFail wrap (ofJob (Job.createTemporary directory))
  cleaningUp (Job.discard temporary) do
    fill temporary
    orFail wrap (ofJob (Job.change (·.setMode temporary FileTree.fileMode)))
    orFail wrap (ofJob (Job.change (·.rename temporary target)))

section Renders

variable (artifacts : Artifacts) (name : Text)

/-- Looks for the images one after the other, until one is missing. -/
def hasAll : List Variant → Thread ε Bool
  | [] => pure true
  | variant :: rest => do
      if ← ofJob (Job.inspect (·.isFile (artifacts.dumpPath name variant))) then hasAll rest
      else pure false

def storeOne (compiler : Compiler) (document : Text) (variant : Variant) : Thread CompileError Unit :=
  let target := artifacts.dumpPath name variant
  placeFile (target.parent?.getD ⟨['.']⟩) target .file fun temporary =>
    ofJob (Job.compile compiler document temporary)

def storeIfMissing (compiler : Compiler) (document : Variant → Text) : Thread CompileError Bool := do
  if ← hasAll artifacts name Variant.all then pure false
  else
    orFail .file (makeDirectories artifacts.dumpDirectory)
    storeOne artifacts name compiler (document .light) .light
    storeOne artifacts name compiler (document .dark) .dark
    pure true

def copyOne (variant : Variant) : Thread FileError Unit :=
  placeFile artifacts.siteDirectory (artifacts.sitePath name variant) id fun temporary =>
    ofJob (Job.change (·.copy (artifacts.dumpPath name variant) temporary))

def publishOne (variant : Variant) : Thread FileError Nat := do
  if ← ofJob (Job.inspect (·.isFile (artifacts.sitePath name variant))) then pure 0
  else
    copyOne artifacts name variant
    pure 1

def publish : Thread FileError Nat := do
  makeDirectories artifacts.siteDirectory
  let light ← publishOne artifacts name .light
  let dark ← publishOne artifacts name .dark
  pure (light + dark)

end Renders

def render (formatter : Formatter) (source : Text) (attributes : Attributes) :
    Thread PreviewError RenderedPreview :=
  match PreviewSettings.ofAttributes attributes, formatter.sitePath with
  | .error error, _ => fail (.attributes error)
  | .ok _, none => fail (.missingSetting "site_url".toList)
  | .ok settings, some sitePath => do
      let document := formatter.document settings source
      let name := fingerprint (document .light)
      let compiled ← orFail .compile (storeIfMissing formatter.artifacts name formatter.compiler document)
      let _ ← orFail .publish (publish formatter.artifacts name)
      pure { fingerprint := name
             lightUrl := Formatter.url sitePath name .light
             darkUrl := Formatter.url sitePath name .dark
             compiled }

end Thread

structure Pool (ε α : Type) where
  workspace : Workspace
  threads : List (Thread ε α)

namespace Pool

variable {ε α : Type}

/-- One thread takes its turn; one that is done has none to take. -/
def turn (pool : Pool ε α) (index : Nat) : Pool ε α :=
  match pool.threads[index]? with
  | some (.step change next) =>
      { workspace := change pool.workspace
        threads := pool.threads.set index (next pool.workspace) }
  | _ => pool

def turns (pool : Pool ε α) (order : List Nat) : Pool ε α := order.foldl turn pool

end Pool

end FencePreview
