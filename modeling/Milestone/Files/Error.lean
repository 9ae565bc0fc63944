/-!
# File errors

Why an access to the file tree fails.
-/

namespace Milestone

/-- Why a file or directory cannot be accessed. -/
inductive FileError where
  | notFound
  | alreadyThere
  | busy
  | notDirectory
  | isDirectory
  /-- A name has more than 255 bytes, or a path more than 4095. -/
  | nameTooLong
  | notEmpty
  /-- The path has a zero character, which the system takes for its end. -/
  | zeroCharacter
  /-- The bytes of the file are no text. -/
  | notText
  deriving DecidableEq

namespace FileError

/-- The text of an error. -/
def message : FileError → String
  | notFound => "No such file or directory (os error 2)"
  | busy => "Device or resource busy (os error 16)"
  | alreadyThere => "File exists (os error 17)"
  | notDirectory => "Not a directory (os error 20)"
  | isDirectory => "Is a directory (os error 21)"
  | nameTooLong => "File name too long (os error 36)"
  | notEmpty => "Directory not empty (os error 39)"
  | zeroCharacter => "file name contained an unexpected NUL byte"
  | notText => "stream did not contain valid UTF-8"

end FileError

end Milestone
