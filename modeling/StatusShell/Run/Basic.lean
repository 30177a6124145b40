import StatusShell.Run.Event

/-!
A run takes the state of the interpreter to an ending, the events on the way
and a new state.  Runs are composed one after the other: the events add up, and
a fault ends the whole.  A run can also be unfinished, when a loop was allowed
fewer iterations than it wanted; that is neither a value nor a fault.
-/

namespace StatusShell

/-- The state of the interpreter: how many commands it has run, how many loops
it is inside of, and the state of the executor.  The counts may start
anywhere. -/
structure State (σ : Type) where
  commandCount : Int
  loopDepth : Int
  executor : σ
  deriving DecidableEq, Repr

/-- How a run ends. -/
inductive Ending (α : Type) where
  | value (value : α)
  | fault (fault : Fault)
  | unfinished
  deriving DecidableEq, Repr

/-- What a run leaves behind: its ending, its events in order, and the state
after it. -/
structure Trace (σ α : Type) where
  ending : Ending α
  events : List Event
  state : State σ
  deriving DecidableEq, Repr

/-- A run that yields a value of type `α` if all goes well. -/
def Run (σ α : Type) := State σ → Trace σ α

namespace Run

variable {σ α β : Type}

/-- Run one thing, then the next, which depends on the value of the first. -/
def andThen (first : Run σ α) (next : α → Run σ β) : Run σ β := fun state =>
  let trace := first state
  match trace.ending with
  | .value value =>
      let rest := next value trace.state
      ⟨rest.ending, trace.events ++ rest.events, rest.state⟩
  | .fault fault => ⟨.fault fault, trace.events, trace.state⟩
  | .unfinished => ⟨.unfinished, trace.events, trace.state⟩

instance : Monad (Run σ) where
  pure value := fun state => ⟨.value value, [], state⟩
  bind := andThen

/-- End the run by a fault. -/
def raise (fault : Fault) : Run σ α := fun state => ⟨.fault fault, [], state⟩

/-- End the run because nothing more is allowed. -/
def giveUp : Run σ α := fun state => ⟨.unfinished, [], state⟩

/-- Record an event. -/
def record (event : Event) : Run σ Unit := fun state => ⟨.value (), [event], state⟩

/-- Run something inside one more loop.  However it ends, the depth goes back
to what it was. -/
def deeper (inner : Run σ α) : Run σ α := fun state =>
  let trace := inner { state with loopDepth := state.loopDepth + 1 }
  { trace with state := { trace.state with loopDepth := trace.state.loopDepth - 1 } }

/-- Put a command to the executor.  The command is counted before it runs, so
it counts even when it meets a fault. -/
def request (executor : Executor σ) (role : Role) (call : Command) : Run σ Status :=
  fun state =>
    let commandCount := state.commandCount + 1
    let response := executor.call call state.executor
    { ending :=
        match response.answer with
        | .status status => .value status
        | .fault fault => .fault (fault.blamedOn call.name)
      events :=
        .request ⟨role, call, commandCount, state.loopDepth, response.answer⟩ ::
          response.notes.map .process
      state := { state with commandCount, executor := response.state } }

end Run

end StatusShell
