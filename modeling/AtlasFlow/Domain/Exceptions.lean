import AtlasFlow.Domain.Planning

/-!
# Exceptions

The exceptions the C# code throws and the ones it tells apart when it catches them. `other` is
whatever somebody else's code throws: a task runner is arbitrary code.
-/

namespace AtlasFlow

inductive Exn where
  | persistence (message : String)
  | invalidTransition (message : String)
  | planState (message : String)
  | argument (message : String)
  | keyNotFound
  | invalidOperation
  | operationCanceled
  | other (message : String)
  deriving DecidableEq, Repr, Inhabited

/-- `InvalidTransitionException.For`. -/
def InvalidTransitionException.for (entity id source target : String) : Exn :=
  .invalidTransition s!"{entity} {id}: {source} -> {target} is not a valid transition"

/-- `Exception.Message`. -/
def Exn.message : Exn → String
  | .persistence message | .invalidTransition message | .planState message | .argument message
  | .other message => message
  | .keyNotFound => "The given key was not present in the dictionary."
  | .invalidOperation => "Operation is not valid due to the current state of the object."
  | .operationCanceled => "The operation was canceled."

/-! ### The names of enumeration members, as `ToString` prints them -/

def RunState.name : RunState → String
  | .created => "Created"
  | .planning => "Planning"
  | .ready => "Ready"
  | .running => "Running"
  | .verifying => "Verifying"
  | .reviewing => "Reviewing"
  | .completed => "Completed"
  | .blocked => "Blocked"
  | .cancelled => "Cancelled"
  | .failed => "Failed"

def TaskState.name : TaskState → String
  | .planned => "Planned"
  | .ready => "Ready"
  | .running => "Running"
  | .succeeded => "Succeeded"
  | .blocked => "Blocked"
  | .failed => "Failed"
  | .cancelled => "Cancelled"
  | .superseded => "Superseded"

def AttemptState.name : AttemptState → String
  | .created => "Created"
  | .starting => "Starting"
  | .running => "Running"
  | .completed => "Completed"
  | .failed => "Failed"
  | .cancelled => "Cancelled"

def PlanState.name : PlanState → String
  | .draft => "Draft"
  | .locked => "Locked"
  | .consumed => "Consumed"

end AtlasFlow
