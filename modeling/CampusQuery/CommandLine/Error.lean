import CampusQuery.Query.Error
import CampusQuery.Registry.Dataset

/-!
# Errors of commands

A command fails because of its configuration, because of what it was to read, or as the registry or
the query does.
-/

namespace CampusQuery

/-- What is wrong with a configuration. -/
inductive ConfigFault where
  | unreadable (fault : DiskFault)
  | malformed (e : ReadError)
  | blankDirectory
  | zeroLimit
  | unknownLevel (level : String)
  /-- A reason given in words. -/
  | stated (reason : String)

/-- The wording of what is wrong with a configuration. -/
def ConfigFault.message : ConfigFault → String
  | .unreadable fault => s!"Failed to read config: {fault.message}"
  | .malformed e => s!"Invalid config JSON: {e.message}"
  | .blankDirectory => "data_dir must not be empty"
  | .zeroLimit => "max_result_rows must be > 0"
  | .unknownLevel level =>
    s!"Invalid log_level: '{level}'. Must be one of TRACE, INFO, WARN, ERROR, FATAL."
  | .stated reason => reason

/-- What is wrong with what a command was to read. -/
inductive InputFault where
  | unreadable (path : String) (fault : DiskFault)
  /-- Standard input cannot be read. -/
  | stream (fault : DiskFault)
  | empty (source : String)
  | malformed (e : ReadError)
  | notRows (path : String)
  /-- A reason given in words. -/
  | stated (reason : String)

/-- The wording of what is wrong with what a command was to read. -/
def InputFault.message : InputFault → String
  | .unreadable path fault => s!"Failed to read {path}: {fault.message}"
  | .stream fault => fault.message
  | .empty source => s!"Empty input on {source}"
  | .malformed e => s!"JSON error: {e.message}"
  | .notRows path => s!"{path} must hold a JSON array of rows"
  | .stated reason => reason

/-- Why a command failed (`CliError`). -/
inductive CommandError where
  | config (fault : ConfigFault)
  | input (fault : InputFault)
  | registry (e : RegistryError)
  | query (e : QueryError)

namespace CommandError

/-- The code of an error (`CliError.code`). -/
def code : CommandError → String
  | .config _ => "INSIGHT_CLI_CONFIG_ERROR"
  | .input _ => "INSIGHT_CLI_IO_ERROR"
  | .registry e => e.code
  | .query e => e.code

/-- The wording of an error (`CliError.message`). -/
def message : CommandError → String
  | .config fault => fault.message
  | .input fault => fault.message
  | .registry e => e.message
  | .query e => e.message

end CommandError

end CampusQuery
