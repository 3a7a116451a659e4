import FencePreview.CommandLine.Run

/-! The program. Files and environment are read into a description of the surroundings, the run is
computed from it, and the files that the run has changed are written back. -/

namespace FencePreview

namespace Main

/-- Levels of directories that are looked into. -/
def levels : Nat := 64

def textOf (path : String) : Text := path.toList

def locationOf (path : Text) : Location := (Text.splitAtEach '/' path).filter (· ≠ [])

/-- What is on disk at an absolute path that exists, with everything below it. Permission bits are
not read; every file counts as executable. -/
def entriesAt : Nat → String → IO (List (Location × Entry))
  | 0, _ => return []
  | depth + 1, path => do
      let real ← IO.FS.realPath path
      let location := locationOf (textOf real.toString)
      if ← real.isDir then
        let mut entries := []
        for entry in ← real.readDir do
          entries := entries ++ (← entriesAt depth (path ++ "/" ++ entry.fileName))
        return (location, .directory FileTree.directoryMode) :: entries
      else return [(location, .file (← IO.FS.readBinFile path) 0o755)]

/-- Adds what is on disk at a path to what is known, with the directories above it. -/
def loadPath (storage : Storage) (path : PathName) : IO Storage := do
  let found ←
    try entriesAt levels (String.ofList (storage.absolute path).text)
    catch _ => pure []
  let location := (found.head?.map Prod.fst).getD []
  let above := ((List.range location.length).map location.take).map fun place =>
    (place, Entry.directory FileTree.directoryMode)
  let news := (above ++ found).filter fun (place, _) => (storage.tree.get? place).isNone
  return { storage with tree := ⟨storage.tree.entries ++ news⟩ }

def pathsOf : Request → List PathName
  | .run _ (.scan input) => input.toList
  | .run _ (.process input output choice) =>
      input.toList ++ (output.bind PathName.parent?).toList ++ choice.path.toList
  | .run _ (.build output choice) => output.toList ++ choice.path.toList
  | _ => []

/-- Paths of the configuration files that a search passes. -/
def candidates (location : Location) : List PathName :=
  (Config.enclosing location).map fun place => (Storage.pathOf place).join Config.fileName

def directoriesOf (storage : Storage) (environment : Environment) : Request → List PathName
  | .run _ (.process _ _ choice) => ofChoice choice
  | .run _ (.build _ choice) => ofChoice choice
  | _ => []
where
  ofChoice (choice : ConfigChoice) : List PathName :=
    match Config.load storage environment choice.path (some choice.overrides) with
    | .ok config => [config.documents, config.site, config.project]
    | .error _ => []

def readEnvironment : IO Environment := do
  let content := Text.decodeLossy (← IO.FS.readBinFile "/proc/self/environ")
  return (Text.splitAtEach (Char.ofNat 0) content).filterMap (Text.splitFirst? ['='])

/-- Writes a file under a hidden name before it takes its place. -/
def writeFile (path : String) (content : ByteArray) : IO Unit := do
  let hidden := path ++ ".part"
  IO.FS.writeBinFile hidden content
  IO.FS.rename hidden path

def restoreEntry (before : FileTree) (location : Location) (entry : Entry) : IO Unit := do
  let path := String.ofList (Storage.pathOf location).text
  if before.get? location = some entry then return
  match entry with
  | .directory _ => IO.FS.createDirAll path
  | .file content _ => writeFile path content

/-- Brings the disk to what a run has left. -/
def writeBack (before after : FileTree) : IO Unit := do
  for (location, entry) in before.entries do
    if (after.get? location).isNone then
      if let .file _ _ := entry then
        IO.FS.removeFile (String.ofList (Storage.pathOf location).text)
  for (location, entry) in after.entries do
    restoreEntry before location entry

def noticeLine : Notice → Text
  | .line content => content ++ ['\n']
  | .logged entry => "ERROR ".toList ++ entry ++ ['\n']

def readsInput : Request → Bool
  | .run _ (.scan none) => true
  | .run _ (.process none _ _) => true
  | _ => false

end Main

end FencePreview

open FencePreview in
def main (arguments : List String) : IO UInt32 := do
  let words := arguments.map String.toList
  let environment ← Main.readEnvironment
  let request := Arguments.request environment words
  let here := Main.locationOf (Main.textOf (← IO.currentDir).toString)
  let mut storage : Storage := { tree := .empty, workingDirectory := here }
  for path in Storage.pathOf here :: Main.candidates here ++ Main.pathsOf request do
    storage ← Main.loadPath storage path
  for path in Main.directoriesOf storage environment request do
    storage ← Main.loadPath storage path
  let input ← if Main.readsInput request then (← IO.getStdin).readBinToEnd else pure ByteArray.empty
  let outcome := CommandLine.run { storage, environment, input } words
  Main.writeBack storage.tree outcome.storage.tree
  (← IO.getStdout).putStr (String.ofList outcome.output)
  (← IO.getStdout).flush
  for notice in outcome.notices do
    (← IO.getStderr).putStr (String.ofList (Main.noticeLine notice))
  return UInt32.ofNat outcome.exitCode
