/-!
# Faults of a disk

A `DiskFault` is why a file could not be read or changed.
-/

namespace CampusQuery

/-- Why a file could not be read or changed. -/
inductive DiskFault where
  | noEntry
  | notDirectory
  | isDirectory
  | entryExists
  | nameTooLong
  | nulInName
  | notText
  /-- Any other reason, in words. -/
  | other (reason : String)
  deriving DecidableEq, Repr

/-- The wording of a fault. -/
def DiskFault.message : DiskFault → String
  | .noEntry => "No such file or directory (os error 2)"
  | .notDirectory => "Not a directory (os error 20)"
  | .isDirectory => "Is a directory (os error 21)"
  | .entryExists => "File exists (os error 17)"
  | .nameTooLong => "File name too long (os error 36)"
  | .nulInName => "file name contained an unexpected NUL byte"
  | .notText => "stream did not contain valid UTF-8"
  | .other reason => reason

end CampusQuery
