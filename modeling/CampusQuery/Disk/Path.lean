/-!
# Paths

A path is a text of names divided by slashes; one that begins with a slash starts at the root, and
any other at the current directory. What follows the last dot of a name is its extension, unless the
dot begins the name.
-/

namespace CampusQuery.Path

/-- What divides the names of a path. -/
def slash : Char := '/'

/-- Whether a path starts at the root. -/
def isAbsolute (path : String) : Bool :=
  path.toList.head? == some slash

/-- Whether a path ends in a slash. -/
def endsInSlash (path : String) : Bool :=
  path.toList.getLast? == some slash

/-- What stands between the slashes of a path. -/
def steps (path : String) : List String :=
  (path.toList.splitOn slash).map String.ofList

/-- The names of a path, one after the other. A slash at its end is a step to itself. -/
def names (path : String) : List String :=
  (steps path).filter (· != "") ++ if endsInSlash path then ["."] else []

/-- The path of a name within a directory; a name that begins with a slash stands by itself. -/
def join (directory name : String) : String :=
  if isAbsolute name then name
  else if directory.isEmpty || endsInSlash directory then directory ++ name
  else directory ++ "/" ++ name

/-- A path divided before its last name: what leads to it, with the slash, and the name. -/
def splitName (path : String) : String × String :=
  let name := (path.toList.reverse.takeWhile (· != '/')).reverse
  (String.ofList (path.toList.take (path.toList.length - name.length)), String.ofList name)

/-- A name divided at its last dot, if there is one that does not begin it. -/
def splitExtension? (name : String) : Option (String × String) :=
  let extension := (name.toList.reverse.takeWhile (· != '.')).reverse
  let stem := name.toList.take (name.toList.length - extension.length - 1)
  if stem.isEmpty then none else some (String.ofList stem, String.ofList extension)

/-- The extension of a name. -/
def extension? (name : String) : Option String :=
  (splitExtension? name).map Prod.snd

/-- A name without its extension. -/
def stem (name : String) : String :=
  ((splitExtension? name).map Prod.fst).getD name

/-- A path whose last name has the given extension in place of its own. A name of two dots, which
is left where the extension of a name of one more is cut off, is the directory above and takes
none. -/
def withExtension (path extension : String) : String :=
  let (directory, name) := splitName path
  match splitExtension? name with
  | none => directory ++ name ++ "." ++ extension
  | some (stem, _) =>
    if stem = "." then directory ++ ".." else directory ++ stem ++ "." ++ extension

/-- Steps of a path, last first, from the last that leads elsewhere; the first of a path always
counts. -/
def trimSteps : List String → List String
  | [] => []
  | [step] => [step]
  | step :: steps => if step = "" ∨ step = "." then trimSteps steps else step :: steps

/-- Whether steps, last first, end in one that leads elsewhere. -/
def leads : List String → Bool
  | [] => false
  | [step] => step != ""
  | step :: _ => step != "" && step != "."

/-- The paths of the directories above one of given steps, last first. -/
def ancestors : List String → List String
  | [] => []
  | _ :: above =>
    if leads above then "/".intercalate above.reverse :: ancestors above else ancestors above

/-- A path and those of the directories above it, nearest first. -/
def lineage (path : String) : List String :=
  if path.isEmpty then [] else path :: ancestors (trimSteps (steps path).reverse)

example : join "data" "a.json" = "data/a.json" ∧ join "data/" "/a.json" = "/a.json" := by
  decide +kernel
example : withExtension "data/a.b.json" "json.tmp" = "data/a.b.json.tmp" := by decide +kernel
example : withExtension "data/..json" "json.tmp" = "data/.." := by decide +kernel
example : ancestors ["z", "", "y", "x"] = ["x/y", "x"] := by decide +kernel
example : ancestors ["data", "."] = ["."] ∧ ancestors ["a", ""] = [] := by decide +kernel

end CampusQuery.Path
