import FencePreview.Text.Basic

/-! Why an operation on files fails, and how the operating system words it. -/

namespace FencePreview

inductive FileError where
  | notFound
  | notPermitted
  | badExecutable
  | busy
  | alreadyExists
  | notADirectory
  | isADirectory
  | invalidArgument
  | brokenPipe
  | nameTooLong
  | directoryNotEmpty
  | nullInPath
  | nullInCommand
  /-- A source of a copy is not a regular file. -/
  | notRegular
  | invalidText
deriving DecidableEq, Repr

namespace FileError

/-- Number of an error that comes from the system itself. -/
def number? : FileError → Option Nat
  | notFound => some 2
  | badExecutable => some 8
  | notPermitted => some 13
  | busy => some 16
  | alreadyExists => some 17
  | notADirectory => some 20
  | isADirectory => some 21
  | invalidArgument => some 22
  | brokenPipe => some 32
  | nameTooLong => some 36
  | directoryNotEmpty => some 39
  | nullInPath | nullInCommand | notRegular | invalidText => none

def wording : FileError → Text
  | notFound => "No such file or directory".toList
  | notPermitted => "Permission denied".toList
  | badExecutable => "Exec format error".toList
  | busy => "Device or resource busy".toList
  | alreadyExists => "File exists".toList
  | notADirectory => "Not a directory".toList
  | isADirectory => "Is a directory".toList
  | invalidArgument => "Invalid argument".toList
  | brokenPipe => "Broken pipe".toList
  | nameTooLong => "File name too long".toList
  | directoryNotEmpty => "Directory not empty".toList
  | nullInPath => "file name contained an unexpected NUL byte".toList
  | nullInCommand => "nul byte found in provided data".toList
  | notRegular => "the source path is neither a regular file nor a symlink to a regular file".toList
  | invalidText => "stream did not contain valid UTF-8".toList

def message (error : FileError) : Text :=
  match error.number? with
  | some number => error.wording ++ " (os error ".toList ++ Text.ofNat number ++ [')']
  | none => error.wording

end FileError

end FencePreview
