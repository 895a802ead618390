/-!
# Why a file operation fails

The causes that the file system gives, each with its text. All but one are errors of the system and
carry its number.
-/

namespace ImportSuffix

/-- Why a file operation fails. -/
inductive Cause
  /-- Nothing exists at the path. -/
  | notFound
  /-- The file may not be changed. -/
  | notPermitted
  /-- The path goes on after something that is no directory. -/
  | notDirectory
  /-- A directory stands where a file is needed. -/
  | isDirectory
  /-- The links on the way lead round and round. -/
  | tooManyLinks
  /-- The path or a name in it is too long. -/
  | nameTooLong
  /-- The path holds a zero byte. -/
  | zeroByte
  deriving Repr, DecidableEq

/-- The text of a cause. -/
def Cause.text : Cause → String
  | notFound => "No such file or directory (os error 2)"
  | notPermitted => "Operation not permitted (os error 1)"
  | notDirectory => "Not a directory (os error 20)"
  | isDirectory => "Is a directory (os error 21)"
  | tooManyLinks => "Too many levels of symbolic links (os error 40)"
  | nameTooLong => "File name too long (os error 36)"
  | zeroByte => "file name contained an unexpected NUL byte"

end ImportSuffix
