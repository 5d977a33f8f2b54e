import Std.Time.DateTime.Timestamp
import CampusQuery.CommandLine.Run

/-!
# The program

Runs a command on the files, the clock and the standard streams of the machine it is started on. The
journal goes to standard error.
-/

namespace CampusQuery

/-- Programs that keep the least severity of what the journal shows. -/
abbrev Shell := StateT Severity IO

namespace Shell

/-- The number that the operating system gives an error, with or without a minus sign, and its
words. -/
def osCode? : IO.Error → Option (UInt32 × String)
  | .noFileOrDirectory _ code details | .alreadyExists _ code details
  | .inappropriateType _ code details | .invalidArgument _ code details
  | .permissionDenied _ code details | .resourceExhausted _ code details
  | .noSuchThing _ code details | .interrupted _ code details => some (code, details)
  | .otherError code details | .resourceBusy code details | .resourceVanished code details
  | .unsupportedOperation code details | .hardwareFault code details
  | .unsatisfiedConstraints code details | .illegalOperation code details
  | .protocolError code details | .timeExpired code details => some (code, details)
  | .unexpectedEof | .userError _ => none

/-- An error of the operating system, by its number, as a fault of a disk. -/
def faultOfCode (code : Nat) (details : String) : DiskFault :=
  match code with
  | 2 => .noEntry
  | 17 => .entryExists
  | 20 => .notDirectory
  | 21 => .isDirectory
  | 36 => .nameTooLong
  | _ => .other s!"{details} (os error {code})"

/-- An error as a fault of a disk. -/
def faultOf (e : IO.Error) : DiskFault :=
  match osCode? e with
  | some (code, details) => faultOfCode code.toInt32.toInt.natAbs details
  | none => .other e.toString

/-- Does something with the files at some paths; no path of a file has a NUL. -/
def attempt {α : Type} (paths : List String) (action : IO α) : Shell (Except DiskFault α) := do
  if paths.any fun path => path.toList.contains '\x00' then return .error .nulInName
  match ← action.toBaseIO with
  | .ok x => return .ok x
  | .error e => return .error (faultOf e)

instance : Disk Shell where
  makeDirectory path := attempt [path] (IO.FS.createDir path)
  isDirectory path := do
    match ← attempt [path] (do (← IO.FS.realPath path).isDir) with
    | .ok answer => return answer
    | .error _ => return false
  list path := attempt [path] do
    return (← (← IO.FS.realPath path).readDir).toList.map fun entry => .text entry.fileName
  read path := attempt [path] do return (← IO.FS.readBinFile path).toList
  -- directories are listed as texts, and hold no name that is none
  readRaw _ _ := return .error .noEntry
  write path bytes := attempt [path] (IO.FS.writeBinFile path (ByteArray.mk bytes.toArray))
  rename source target := attempt [source, target] (IO.FS.rename source target)
  remove path := attempt [path] (IO.FS.removeFile path)

instance : Journal Shell where
  minimum := get
  setMinimum := set
  append line := do (← IO.getStderr).putStr (Journal.written line)

/-- The moment that is some nanoseconds after the beginning of 1970. -/
def instantOf (nanoseconds : Int) : Instant :=
  let seconds := nanoseconds.fdiv 1000000000
  ⟨seconds.fdiv 86400, (seconds.fmod 86400).toNat, (nanoseconds.fmod 1000000000).toNat⟩

instance : Clock Shell where
  now := do return instantOf (← Std.Time.Timestamp.now).toNanosecondsSinceUnixEpoch.val
  milliseconds := IO.monoMsNow

instance : Console Shell where
  input := do return (← (← IO.getStdin).readBinToEnd).toList

end Shell

end CampusQuery

/-- Runs the program with the arguments it was called with. -/
def main (arguments : List String) : IO UInt32 := do
  let (exit, _) ← (CampusQuery.Command.run arguments : CampusQuery.Shell _).run .info
  if exit.status = 2 then (← IO.getStderr).putStr CampusQuery.Command.usage
  (← IO.getStdout).putStr exit.output
  return UInt32.ofNat exit.status
