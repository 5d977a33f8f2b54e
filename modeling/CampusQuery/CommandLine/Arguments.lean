import CampusQuery.Catalog.Field

/-!
# Arguments

The arguments name one command and its options. `--config` may stand before the command or among its
options, where it counts more. An option is followed by its value or joined to it by an equals sign;
a value by itself may not begin with a dash, and no option may be given twice.
-/

namespace CampusQuery

/-- What is to be done (`Command`). -/
inductive Command where
  | add (id : String) (kind : Kind) (rows : String)
  | remove (id : String)
  | list
  | query (file : Option String)
  deriving DecidableEq, Repr

/-- What the arguments ask for (`Cli`). -/
inductive Invocation where
  | run (config : Option String) (command : Command)
  | version
  | help
  | rejected
  deriving DecidableEq, Repr

namespace Invocation

/-- The options given, by name. -/
abbrev Options := List (String × String)

/-- The command of a name, and the names of its options. -/
def optionsOf? (command : String) : Option (List String) :=
  match command with
  | "add" => some ["config", "id", "kind", "rows"]
  | "remove" => some ["config", "id"]
  | "list" => some ["config"]
  | "query" => some ["config", "file"]
  | _ => none

/-- The command of a name with the options given, if none is missing. -/
def command? (command : String) (given : Options) : Option Command :=
  match command with
  | "add" => do
    return .add (← given.lookup "id") (← Kind.ofLabel? (← given.lookup "kind"))
      (← given.lookup "rows")
  | "remove" => do return .remove (← given.lookup "id")
  | "list" => some .list
  | "query" => some (.query (given.lookup "file"))
  | _ => none

/-- An argument that begins with two dashes: the name of an option and the value joined to it. -/
def splitOption? (argument : String) : Option (String × Option String) :=
  match argument.toList with
  | '-' :: '-' :: rest =>
    let name := rest.takeWhile (· != '=')
    match rest.dropWhile (· != '=') with
    | [] => some (String.ofList name, none)
    | _ :: value => some (String.ofList name, some (String.ofList value))
  | _ => none

/-- Whether an argument by itself can be a value. -/
def isValue (argument : String) : Bool :=
  argument == "-" || !argument.startsWith "-"

/-- Whether an option may have a value: a path is not empty, and a kind is one. -/
def accepts (option value : String) : Bool :=
  match option with
  | "id" => true
  | "kind" => (Kind.ofLabel? value).isSome
  | _ => !value.isEmpty

/-- The options given with one more, if it may be given here and was not yet. -/
def give (allowed : List String) (given : Options) (option value : String) : Option Options :=
  if allowed.contains option && (given.lookup option).isNone && accepts option value then
    some ((option, value) :: given)
  else
    none

/-- What is asked for by a command, the options given for it and the configuration named before. -/
def finish (config : Option String) (command : String) (given : Options) : Invocation :=
  match command? command given with
  | some c => .run ((given.lookup "config").or config) c
  | none => .rejected

/-- Reads the options of a command. -/
def readOptions (config : Option String) (command : String) (allowed : List String)
    (given : Options) : List String → Invocation
  | [] => finish config command given
  | argument :: rest =>
    if argument = "--" then
      if rest.isEmpty then finish config command given else .rejected
    else if argument = "--help" ∨ argument.startsWith "-h" then .help
    else
      match splitOption? argument with
      | none => .rejected
      | some (option, some value) =>
        match give allowed given option value with
        | some given => readOptions config command allowed given rest
        | none => .rejected
      | some (option, none) =>
        match rest with
        | [] => .rejected
        | value :: rest =>
          if isValue value then
            match give allowed given option value with
            | some given => readOptions config command allowed given rest
            | none => .rejected
          else
            .rejected

/-- Reads the arguments from the configuration on, if it is named before the command. -/
def readCommand (given : Options) : List String → Invocation
  | [] => .rejected
  | argument :: rest =>
    if argument = "--version" ∨ argument.startsWith "-V" then .version
    else if argument = "--help" ∨ argument.startsWith "-h" ∨ argument = "help" then .help
    else
      match optionsOf? argument with
      | some allowed => readOptions (given.lookup "config") argument allowed [] rest
      | none =>
        match splitOption? argument with
        | none => .rejected
        | some (option, some value) =>
          match give ["config"] given option value with
          | some given => readCommand given rest
          | none => .rejected
        | some (option, none) =>
          match rest with
          | [] => .rejected
          | value :: rest =>
            if isValue value then
              match give ["config"] given option value with
              | some given => readCommand given rest
              | none => .rejected
            else
              .rejected

/-- What the arguments ask for (`Cli.parse_args`). -/
def ofArguments (arguments : List String) : Invocation :=
  readCommand [] arguments

end Invocation

end CampusQuery
