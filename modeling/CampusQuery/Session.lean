import CampusQuery.Engine
import CampusQuery.Machine

/-!
# Sessions

A session is a sequence of steps on a machine, each at a moment of its own: requests to an engine,
and closing the engine and opening one anew on the archive in the same directory.

* `Engine.serve` answers a request.
* `Session.run` gives the replies to the requests of a session.
-/

namespace CampusQuery

/-- An instant that a clock can show. -/
structure Moment where
  instant : Instant
  valid : instant.isValid = true

/-- What can be asked of an engine. -/
inductive Request where
  | add (id : String) (kind : Kind) (rows : List Json)
  | remove (id : String)
  | list
  | query (raw : Json)

/-- The id of the dataset that a request adds or removes. -/
def Request.id? : Request → Option String
  | .add id _ _ => some id
  | .remove id => some id
  | .list => none
  | .query _ => none

/-- What an engine answers. -/
inductive Reply where
  /-- The ids of all datasets after one was added, or why it was not. -/
  | added (result : Except RegistryError (List String))
  /-- The id of the dataset that was removed, or why it was not. -/
  | removed (result : Except RegistryError String)
  | listed (datasets : List DatasetInfo)
  | answered (result : Except QueryError Answer)

namespace Engine

variable {m : Type → Type} [Monad m] [Disk m] [Journal m] [Clock m]

/-- Answers a request, and gives the engine after it. -/
def serve [Collator] [Converter] (e : Engine) : Request → m (Reply × Engine)
  | .add id kind rows => do
    match ← e.add id kind rows with
    | .ok e' => return (.added (.ok e'.registry.ids), e')
    | .error fault => return (.added (.error fault), e)
  | .remove id => do
    match ← e.remove id with
    | .ok e' => return (.removed (.ok id), e')
    | .error fault => return (.removed (.error fault), e)
  | .list => return (.listed e.registry.list, e)
  | .query raw => return (.answered (← e.query raw), e)

end Engine

/-- What happens in a session. -/
inductive Action where
  | request (r : Request)
  | reopen

/-- Whether an action is a request. -/
def Action.isRequest : Action → Bool
  | .request _ => true
  | .reopen => false

/-- A step of a session. -/
structure Step where
  moment : Moment
  action : Action

namespace Session

/-- The replies to the requests of a session on the archive in a directory; none if the engine
could not be opened anew. -/
def run [Collator] [Converter] (root : String) (limit : Nat) :
    List Step → Engine → Machine → Option (List Reply)
  | [], _, _ => some []
  | step :: steps, e, machine =>
    let machine := { machine with now := step.moment.instant }
    match step.action with
    | .request r =>
      let ((reply, e), machine) := (e.serve r : StateM Machine (Reply × Engine)).run machine
      (run root limit steps e machine).map (reply :: ·)
    | .reopen =>
      match (Engine.open_ (some root) limit : StateM Machine _).run machine with
      | (.ok e, machine) => run root limit steps e machine
      | (.error _, _) => none

end Session

end CampusQuery
