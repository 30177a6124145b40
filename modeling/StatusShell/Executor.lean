import StatusShell.Fault
import StatusShell.Script.Node
import StatusShell.Status

namespace StatusShell

/-- What an executor answers to a call. -/
inductive Answer where
  | status (status : Status)
  | fault (fault : Fault)
  deriving DecidableEq, Repr

/-- What an executor logs about a process. -/
inductive ProcessNote where
  | starting (call : Command)
  | exited (program : String) (code : Int)
  deriving DecidableEq, Repr

/-- The reaction of an executor to a call: its answer, what it logged, and the
state it is left in. -/
structure Response (σ : Type) where
  answer : Answer
  notes : List ProcessNote
  state : σ

/-- An executor with states in `σ`. -/
structure Executor (σ : Type) where
  call : Command → σ → Response σ

/-- How many calls an executor takes before it refuses any further one.  The
bound keeps scripts that never end from running forever. -/
def callLimit : Nat := 400

end StatusShell
