import StatusShell.Executor
import StatusShell.Queues

/-!
A host is a machine on which processes are started and waited for.  What each
program does there is laid down in plans, one for each time it is started.
-/

namespace StatusShell

/-- What a program does when it is started. -/
inductive Plan where
  | exits (code : Int)
  | failsToStart (fault : Fault)
  | failsInWait (fault : Fault)
  deriving DecidableEq, Repr

/-- A process that was asked for: the command and the directory to run it in,
if one was given. -/
structure Spawn where
  call : Command
  directory : Option String
  deriving DecidableEq, Repr

/-- The state of a host: the plans of its programs and the processes asked for
so far, oldest first.  A program is known if it has been given plans, even if
none are left. -/
structure Host where
  plans : Queues Plan
  spawned : List Spawn
  deriving DecidableEq, Repr

namespace Host

/-- A host on which no process was asked for yet. -/
def ofPlans (plans : Queues Plan) : Host := ⟨plans, []⟩

/-- Start a process.  A null character in an argument is refused before the
program is looked for; a program without plans left exits with code 0.  The
result of a start is what waiting for the process will give. -/
def start (host : Host) (spawn : Spawn) : Except Fault (Except Fault Int) × Host :=
  let recorded := { host with spawned := host.spawned ++ [spawn] }
  if spawn.call.args.any (·.toList.contains '\x00') then (.error .embeddedNull, recorded)
  else if !host.plans.mentions spawn.call.name then (.error (.os .noSuchFile), recorded)
  else
    let taken := host.plans.dequeue spawn.call.name
    let left := { recorded with plans := taken.2 }
    match taken.1 with
    | none => (.ok (.ok 0), left)
    | some (.exits code) => (.ok (.ok code), left)
    | some (.failsToStart fault) => (.error fault, left)
    | some (.failsInWait fault) => (.ok (.error fault), left)

/-- A fault at the start of a process, as the executor passes it on.  Faults of
the operating system and unacceptable arguments are put down to the program. -/
def startFault (program : String) : Fault → Fault
  | .general .invalidValue detail => .execution program (.general .invalidValue detail)
  | fault => fault.blamedOn program

/-- The executor that runs every call as a process in the given directory, one
at a time, and refuses to start more than `limit` of them. -/
def executor (limit : Nat) (directory : Option String) : Executor Host where
  call := fun call host =>
    if host.spawned.length < limit then
      match host.start ⟨call, directory⟩ with
      | (.error fault, host) => ⟨.fault (startFault call.name fault), [.starting call], host⟩
      | (.ok (.error fault), host) => ⟨.fault (fault.blamedOn call.name), [.starting call], host⟩
      | (.ok (.ok code), host) =>
          ⟨.status (.process code), [.starting call, .exited call.name code], host⟩
    else ⟨.fault .callLimit, [.starting call], host⟩

end Host

end StatusShell
