import StatusShell.Executor

/-!
What happens while statements run, in order: requests to the executor, what the
executor notes about its processes, and what becomes of loops.  Every event is
one line of the log.
-/

namespace StatusShell

open Text

/-- What a command is run for. -/
inductive Role where
  /-- To decide a conditional or a loop. -/
  | predicate
  /-- As a statement. -/
  | statement
  deriving DecidableEq, Repr

/-- A call as it is put to the executor, with the counts of the interpreter at
that moment, and the answer to it. -/
structure Request where
  role : Role
  call : Command
  commandCount : Int
  loopDepth : Int
  answer : Answer
  deriving DecidableEq, Repr

/-- One thing that happens while statements run. -/
inductive Event where
  | request (made : Request)
  | process (note : ProcessNote)
  | bodyFailed (program : String) (iteration : Nat)
  | loopEnded (program : String) (iterations : Nat)
  deriving DecidableEq, Repr

/-- A command as the log shows it. -/
def Command.logged (call : Command) : String :=
  call.name ++ " " ++ quotedList call.args

/-- The part of the program that a log line comes from. -/
inductive Channel where
  | commands
  | controlFlow
  | processes
  deriving DecidableEq, Repr

/-- The name of a channel in the log. -/
def Channel.name : Channel → String
  | .commands => "cinnamon.interpreter.interpreter"
  | .controlFlow => "cinnamon.interpreter.control_flow"
  | .processes => "cinnamon.executor.process"

namespace Event

/-- The channel that an event is logged on. -/
def channel : Event → Channel
  | .request _ => .commands
  | .process _ => .processes
  | .bodyFailed _ _ => .controlFlow
  | .loopEnded _ _ => .controlFlow

/-- What the log says about an event. -/
def message : Event → String
  | .request made => "run " ++ made.call.logged
  | .process (.starting call) => "spawn " ++ call.logged
  | .process (.exited program code) => program ++ " exited with " ++ toString code
  | .bodyFailed program iteration =>
      "while " ++ program ++ ": body failed on iteration " ++ toString iteration
  | .loopEnded program iterations =>
      "while " ++ program ++ ": " ++ toString iterations ++ " iteration(s)"

/-- The log line of an event. -/
def logLine (event : Event) : String :=
  event.channel.name ++ ": " ++ event.message

/-- The request that an event is, if it is one. -/
def request? : Event → Option Request
  | .request made => some made
  | _ => none

end Event

/-- The requests among events. -/
def requests (events : List Event) : List Request :=
  events.filterMap Event.request?

end StatusShell
