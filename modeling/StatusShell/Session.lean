import StatusShell.Rehearsal
import StatusShell.Report

/-!
A session keeps one rehearsal and one interpreter over several steps.  Scripts
can be run on the interpreter of the session, whose counts go on from step to
step, or as whole sources with counts of their own, on the same rehearsal.
-/

namespace StatusShell

/-- Run a source as a rehearsal of at most `limit` calls.  No loop looks at its
predicate more often than that, but for one look that is refused. -/
def Source.rehearse (frames limit : Nat) (source : Source) (rehearsal : Rehearsal) :
    SourceRun Rehearsal :=
  source.run frames (Rehearsal.executor limit) (limit + 1) rehearsal

/-- Run a script file as a rehearsal of at most `limit` calls. -/
def FileTree.rehearse (frames limit : Nat) (tree : FileTree) (name : String)
    (rehearsal : Rehearsal) : Except ReadFault (SourceRun Rehearsal) :=
  tree.run frames (Rehearsal.executor limit) (limit + 1) name rehearsal

/-- The state of a session. -/
abbrev Session := State Rehearsal

namespace Session

/-- What can be done in a session. -/
inductive Step where
  /-- Prepare further outcomes for a program. -/
  | prepare (program : String) (outcomes : List Outcome)
  /-- Set the outcome of programs that have none prepared. -/
  | setFallback (outcome : Outcome)
  /-- Put a call to the executor directly. -/
  | call (call : Command)
  /-- Run a source with counts of its own. -/
  | runSource (source : Source)
  /-- Read a source and run it on the interpreter of the session. -/
  | execSource (source : Source)
  /-- Run one statement on the interpreter of the session. -/
  | execNode (node : Node)
  /-- Run statements on the interpreter of the session. -/
  | execNodes (nodes : List Node)
  /-- Count the calls of a program. -/
  | count (program : String)
  /-- List the programs called. -/
  | programs
  /-- List the calls. -/
  | calls

/-- What a step gives. -/
inductive Result where
  | done
  | answered (answer : Answer)
  | reported (ending : Ending Report)
  | rejected (rejection : Rejection)
  | ran (ending : Ending (Option Status)) (events : List Event)
  | counted (calls : Nat)
  | named (programs : List String)
  | listed (calls : List Command)

/-- Run something on the interpreter of the session. -/
def onInterpreter (run : Run Rehearsal (Option Status)) (session : Session) : Result × Session :=
  let trace := run session
  (.ran trace.ending trace.events, trace.state)

/-- Take a step.  The rehearsal takes at most `limit` calls over the whole
session, which is also what bounds the loops. -/
def step (frames limit : Nat) (session : Session) : Step → Result × Session
  | .prepare program outcomes =>
      (.done, { session with executor := session.executor.prepare program outcomes })
  | .setFallback outcome =>
      (.done, { session with executor := session.executor.setFallback outcome })
  | .call call =>
      let response := (Rehearsal.executor limit).call call session.executor
      (.answered response.answer, { session with executor := response.state })
  | .runSource source =>
      let run := source.rehearse frames limit session.executor
      (.reported run.ending, { session with executor := run.executor })
  | .execSource source =>
      match source.parse frames with
      | .error rejection => (.rejected rejection, session)
      | .ok nodes =>
          onInterpreter (execScript (Rehearsal.executor limit) (limit + 1) nodes) session
  | .execNode node =>
      onInterpreter (node.exec (Rehearsal.executor limit) (limit + 1)) session
  | .execNodes nodes =>
      onInterpreter (execScript (Rehearsal.executor limit) (limit + 1) nodes) session
  | .count program => (.counted (session.executor.count program), session)
  | .programs => (.named session.executor.programs, session)
  | .calls => (.listed session.executor.calls, session)

end Session

end StatusShell
