import StatusShell.Executor
import StatusShell.Queues

/-!
A rehearsal is an executor that runs nothing.  Every program answers with the
outcomes prepared for it, in order, and then with a default; every call is
recorded.
-/

namespace StatusShell

/-- A prepared outcome of a call. -/
inductive Outcome where
  /-- The program ends with a status. -/
  | ends (status : Status)
  /-- The program cannot be run because of a fault. -/
  | fails (fault : Fault)
  /-- The executor itself meets a fault, which it passes on as it is. -/
  | breaks (fault : Fault)
  deriving DecidableEq, Repr

/-- The answer that an outcome prepared for a program gives.  A fault that
already says that a program could not be run is not blamed a second time. -/
def Outcome.answer (program : String) : Outcome → Answer
  | .ends status => .status status
  | .fails fault =>
      .fault (if fault.isExecution then fault else .execution program fault)
  | .breaks fault => .fault fault

/-- The state of a rehearsal: outcomes still prepared, the outcome of a program
that has none left, and the calls so far, oldest first. -/
structure Rehearsal where
  prepared : Queues Outcome
  fallback : Outcome
  calls : List Command
  deriving DecidableEq, Repr

namespace Rehearsal

/-- A rehearsal in which every program succeeds. -/
def fresh : Rehearsal := ⟨.empty, .ends (.process 0), []⟩

/-- Prepare further outcomes for a program. -/
def prepare (rehearsal : Rehearsal) (program : String) (outcomes : List Outcome) : Rehearsal :=
  { rehearsal with prepared := rehearsal.prepared.enqueue program outcomes }

/-- Set the outcome of programs that have none prepared. -/
def setFallback (rehearsal : Rehearsal) (outcome : Outcome) : Rehearsal :=
  { rehearsal with fallback := outcome }

/-- The programs called so far, oldest first. -/
def programs (rehearsal : Rehearsal) : List String :=
  rehearsal.calls.map Command.name

/-- How often a program has been called. -/
def count (rehearsal : Rehearsal) (program : String) : Nat :=
  rehearsal.programs.count program

/-- Perform a call: record it and take the next outcome. -/
def perform (rehearsal : Rehearsal) (call : Command) : Outcome × Rehearsal :=
  let taken := rehearsal.prepared.dequeue call.name
  (taken.1.getD rehearsal.fallback,
    { rehearsal with prepared := taken.2, calls := rehearsal.calls ++ [call] })

/-- The executor that performs at most `limit` calls and refuses the others. -/
def executor (limit : Nat) : Executor Rehearsal where
  call := fun call rehearsal =>
    if rehearsal.calls.length < limit then
      let performed := rehearsal.perform call
      ⟨performed.1.answer call.name, [], performed.2⟩
    else ⟨.fault .callLimit, [], rehearsal⟩

end Rehearsal

end StatusShell
