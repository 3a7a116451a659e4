import FencePreview.Storage.Error
import FencePreview.Storage.Tree
import FencePreview.Text.Bytes

/-! Operations on files by path, seen from a working directory. An operation that fails leaves
everything as it was; making a chain of directories may stop half way. -/

namespace FencePreview

/-- A file tree with the directory that relative paths start from. -/
structure Storage where
  tree : FileTree
  workingDirectory : Location
deriving DecidableEq

namespace Storage

def nameLimit : Nat := 255

/-- First length of a path, in bytes, that is too long. -/
def pathLimit : Nat := 4096

def enter (tree : FileTree) (location : Location) : Except FileError Unit :=
  match tree.get? location with
  | some (.directory _) => .ok ()
  | some (.file _ _) => .error .notADirectory
  | none => .error .notFound

/-- Follows pieces of a path. Each piece is looked up in an existing directory; what the last one
leads to need not exist. -/
def follow (tree : FileTree) : Location → List Text → Except FileError Location
  | here, [] => .ok here
  | here, piece :: rest =>
      match enter tree here with
      | .error error => .error error
      | .ok () =>
          if PathName.isIdle piece then follow tree here rest
          else if piece = ['.', '.'] then follow tree here.dropLast rest
          else if nameLimit < Text.byteSize piece then .error .nameTooLong
          else follow tree (here ++ [piece]) rest

def resolve (storage : Storage) (path : PathName) : Except FileError Location :=
  if path.text = [] then .error .notFound
  else if Char.ofNat 0 ∈ path.text then .error .nullInPath
  else if pathLimit ≤ Text.byteSize path.text then .error .nameTooLong
  else
    follow storage.tree (if path.isAbsolute then [] else storage.workingDirectory)
      (Text.splitAtEach '/' path.text)

def entry? (storage : Storage) (path : PathName) : Option Entry :=
  match storage.resolve path with
  | .ok location => storage.tree.get? location
  | .error _ => none

def exists? (storage : Storage) (path : PathName) : Bool := (storage.entry? path).isSome

def isFile (storage : Storage) (path : PathName) : Bool :=
  match storage.entry? path with
  | some (.file _ _) => true
  | _ => false

def isDirectory (storage : Storage) (path : PathName) : Bool :=
  match storage.entry? path with
  | some (.directory _) => true
  | _ => false

def requireEntry (storage : Storage) (path : PathName) : Except FileError (Location × Entry) :=
  match storage.resolve path with
  | .error error => .error error
  | .ok location =>
      match storage.tree.get? location with
      | some entry => .ok (location, entry)
      | none => .error .notFound

def read (storage : Storage) (path : PathName) : Except FileError ByteArray :=
  match storage.requireEntry path with
  | .error error => .error error
  | .ok (_, .file content _) => .ok content
  | .ok (_, .directory _) => .error .isADirectory

def readText (storage : Storage) (path : PathName) : Except FileError Text :=
  match storage.read path with
  | .error error => .error error
  | .ok content =>
      match Text.decode? content with
      | some text => .ok text
      | none => .error .invalidText

def withEntry (storage : Storage) (location : Location) (entry : Entry) : Storage :=
  { storage with tree := storage.tree.insert location entry }

/-- Writes a whole file. A file that exists keeps its permission bits. -/
def write (storage : Storage) (path : PathName) (content : ByteArray) : Except FileError Storage :=
  match storage.resolve path with
  | .error error => .error error
  | .ok location =>
      match storage.tree.get? location with
      | some (.directory _) => .error .isADirectory
      | some (.file _ mode) => .ok (storage.withEntry location (.file content mode))
      | none => .ok (storage.withEntry location (.file content FileTree.fileMode))

/-- Makes one directory inside an existing one. -/
def makeDirectory (storage : Storage) (path : PathName) : Except FileError Storage :=
  match storage.resolve path.trimmed with
  | .error error => if storage.exists? path then .error .alreadyExists else .error error
  | .ok location =>
      match storage.tree.get? location with
      | some _ => .error .alreadyExists
      | none => .ok (storage.withEntry location (.directory FileTree.directoryMode))

/-- Makes a directory, its missing parents first. `depth` bounds the number of parents tried. -/
def makeDirectoriesWithin : Nat → Storage → PathName → Storage × Except FileError Unit
  | 0, storage, _ => (storage, .error .notFound)
  | depth + 1, storage, path =>
      if path.text = [] then (storage, .ok ())
      else
        match storage.makeDirectory path with
        | .ok made => (made, .ok ())
        | .error .notFound =>
            match path.parent? with
            | none => (storage, .error .notFound)
            | some parent =>
                match makeDirectoriesWithin depth storage parent with
                | (reached, .error error) => (reached, .error error)
                | (reached, .ok ()) =>
                    match reached.makeDirectory path with
                    | .ok made => (made, .ok ())
                    | .error error =>
                        if reached.isDirectory path then (reached, .ok ()) else (reached, .error error)
        | .error error => if storage.isDirectory path then (storage, .ok ()) else (storage, .error error)

/-- Makes a directory with its missing parents; one that exists is kept. -/
def makeDirectories (storage : Storage) (path : PathName) : Storage × Except FileError Unit :=
  makeDirectoriesWithin (path.text.length + 1) storage path

/-- The location of the entry that a path names at its end, whether or not it exists. Slashes after the name
are of no account. -/
def spot (storage : Storage) (path : PathName) : Except FileError Location :=
  if path.endsInName then storage.resolve path.trimmed
  else
    match storage.resolve path with
    | .error error => .error error
    | .ok _ => .error .busy

/-- Moves a file over whatever file is at the target, or a directory with everything in it to where nothing
or an empty directory is. -/
def rename (storage : Storage) (source target : PathName) : Except FileError Storage :=
  match storage.spot source, storage.spot target with
  | .error error, _ => .error error
  | .ok _, .error error => .error error
  | .ok origin, .ok location =>
      match storage.tree.get? origin with
      | none => .error .notFound
      | some entry =>
          if !entry.isDirectory && (source.endsInSlash || target.endsInSlash) then .error .notADirectory
          else if location = origin then .ok storage
          else
            match storage.tree.obstacle? origin location entry with
            | some error => .error error
            | none => .ok { storage with tree := storage.tree.move origin location entry }

/-- Copies content and permission bits of a file. -/
def copy (storage : Storage) (source target : PathName) : Except FileError Storage :=
  match storage.requireEntry source with
  | .error error => .error error
  | .ok (_, .directory _) => .error .notRegular
  | .ok (_, .file content mode) =>
      match storage.resolve target with
      | .error error => .error error
      | .ok location =>
          if storage.tree.isDirectory location then .error .isADirectory
          else .ok (storage.withEntry location (.file content mode))

def setMode (storage : Storage) (path : PathName) (mode : Nat) : Except FileError Storage :=
  match storage.requireEntry path with
  | .error error => .error error
  | .ok (location, entry) => .ok (storage.withEntry location (entry.withMode mode))

/-- Removes a file. A directory stays. -/
def removeFile (storage : Storage) (path : PathName) : Except FileError Storage :=
  match storage.requireEntry path with
  | .error error => .error error
  | .ok (_, .directory _) => .error .isADirectory
  | .ok (location, .file _ _) => .ok { storage with tree := storage.tree.erase location }

/-- Removes a file, or a directory with everything in it. -/
def remove (storage : Storage) (path : PathName) : Except FileError Storage :=
  match storage.requireEntry path with
  | .error error => .error error
  | .ok (location, _) => .ok { storage with tree := storage.tree.erase location }

def pathOf (location : Location) : PathName := ⟨'/' :: Text.joinWith ['/'] location⟩

def absolute (storage : Storage) (path : PathName) : PathName :=
  (pathOf storage.workingDirectory).join path

/-- Name of the temporary file with a given number. It begins with a dot, so that it is hidden. -/
def temporaryName (number : Nat) : Text := ".tmp".toList ++ Text.ofNat number ++ ".svg".toList

/-- The first number of at most `attempts`, counted from `number`, whose temporary name is free. -/
def freeNumber? (taken : List Text) : Nat → Nat → Option Nat
  | 0, _ => none
  | attempts + 1, number =>
      if temporaryName number ∈ taken then freeNumber? taken attempts (number + 1) else some number

/-- Creates an empty hidden file, readable by its owner only, in an existing directory. -/
def createTemporary (storage : Storage) (directory : PathName) :
    Except FileError (Storage × PathName) :=
  let whole := storage.absolute directory
  match storage.resolve whole with
  | .error error => .error error
  | .ok location =>
      match enter storage.tree location with
      | .error error => .error error
      | .ok () =>
          let taken := storage.tree.names location
          match freeNumber? taken (taken.length + 1) 0 with
          | none => .error .alreadyExists
          | some number =>
              let path := whole.join ⟨temporaryName number⟩
              match storage.resolve path with
              | .error error => .error error
              | .ok spot =>
                  .ok (storage.withEntry spot (.file ByteArray.empty FileTree.temporaryMode), path)

end Storage

end FencePreview
