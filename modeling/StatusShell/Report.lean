import StatusShell.Files
import StatusShell.Run.Statement
import StatusShell.Source

/-!
Running a whole script from its source ends in a report: the last status, an
exit code, the number of commands run, and an error message if the script was
rejected or a program could not be run.  Any other fault is not reported but
escapes.
-/

namespace StatusShell

variable {σ : Type}

/-- What is reported about a whole script. -/
structure Report where
  status : Option Status
  exitCode : Nat
  commandsRun : Int
  error : Option String
  deriving DecidableEq, Repr

namespace Report

/-- The exit code of a rejected script. -/
def rejectedCode : Nat := 2

/-- The exit code when a program could not be run. -/
def notRunnableCode : Nat := 126

/-- The exit code when there is no program of the name given. -/
def notFoundCode : Nat := 127

/-- The run is reported as a success. -/
def succeeded (report : Report) : Bool :=
  report.exitCode = 0

/-- The report on a rejected script, of which nothing runs. -/
def rejected (rejection : Rejection) : Report :=
  ⟨none, rejectedCode, 0, some rejection.message⟩

/-- The report on statements that ran, from how they ended and how many
commands that took. -/
def ofEnding (commandsRun : Int) : Ending (Option Status) → Ending Report
  | .value status => .value ⟨status, Status.exitCode status, commandsRun, none⟩
  | .fault fault =>
      if fault.isExecution then
        let code := if fault.isNotFound then notFoundCode else notRunnableCode
        .value ⟨none, code, commandsRun, some fault.message⟩
      else .fault fault
  | .unfinished => .unfinished

end Report

/-- What running a source leaves behind: its report, the events in order, and
the state of the executor. -/
structure SourceRun (σ : Type) where
  ending : Ending Report
  events : List Event
  executor : σ

/-- Run a source with counts that start from zero.  Nothing runs unless all of
it can be read, with the given number of nested frames at most. -/
def Source.run (frames : Nat) (executor : Executor σ) (allowance : Nat) (source : Source)
    (start : σ) : SourceRun σ :=
  match source.parse frames with
  | .error rejection => ⟨.value (.rejected rejection), [], start⟩
  | .ok statements =>
      let trace := execScript executor allowance statements ⟨0, 0, start⟩
      ⟨Report.ofEnding trace.state.commandCount trace.ending, trace.events, trace.state.executor⟩

/-- Run the script file of the given name.  A file that cannot be read runs
nothing and is called what it was called here.  Any other fault in reading
escapes. -/
def FileTree.run (frames : Nat) (executor : Executor σ) (allowance : Nat) (tree : FileTree)
    (name : String) (start : σ) : Except ReadFault (SourceRun σ) :=
  match tree.readScript name (.ofString name) with
  | .error fault => .ok ⟨.fault fault, [], start⟩
  | .ok script => do
      let contents ← script
      pure ((Source.bytes contents).run frames executor allowance start)

end StatusShell
