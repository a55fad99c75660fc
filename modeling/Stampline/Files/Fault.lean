/-!
# File faults

Why a file cannot be read or written.
-/

namespace Stampline

/-- Why a file cannot be read or written. -/
inductive FileFault where
  /-- There is nothing at a path. -/
  | notFound
  /-- There is something at a path already. -/
  | occupied
  /-- A path leads through something that is not a directory. -/
  | notDirectory
  /-- A directory is where a file was expected. -/
  | isDirectory
  /-- A path or one of its parts is longer than any can be. -/
  | tooLong
  /-- A path has a character in it that no name can have. -/
  | badName
  /-- The contents of a file are not text. -/
  | notText
  /-- A directory cannot be listed, since its path is longer than any can be. -/
  | unlisted (path : String)
deriving DecidableEq, Repr

/-- The wording of a fault. -/
def FileFault.message : FileFault → String
  | notFound => "No such file or directory (os error 2)"
  | occupied => "File exists (os error 17)"
  | notDirectory => "Not a directory (os error 20)"
  | isDirectory => "Is a directory (os error 21)"
  | tooLong => "File name too long (os error 36)"
  | badName => "file name contained an unexpected NUL byte"
  | notText => "stream did not contain valid UTF-8"
  | unlisted path => s!"IO error for operation on {path}: File name too long (os error 36)"

/-- The fault behind a fault, if it has one. -/
def FileFault.cause? : FileFault → Option FileFault
  | unlisted _ => some tooLong
  | _ => none

end Stampline
