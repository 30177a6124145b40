import StatusShell.Files
import StatusShell.Host
import StatusShell.Report
import StatusShell.Script.Listing

/-!
The tool takes one script file and runs it, or lists it without running it.
This module says what the tool writes, which processes it asks for and how it
exits.  It leaves the arguments, the outputs and the way out to a library.
-/

namespace StatusShell

/-- Run a source on a host that starts at most `limit` processes.  No loop looks
at its predicate more often than that, but for one look that is refused. -/
def Source.runOn (frames limit : Nat) (directory : Option String) (source : Source)
    (host : Host) : SourceRun Host :=
  source.run frames (Host.executor limit directory) (limit + 1) host

namespace CommandLine

/-- Something to be told instead of handling a script. -/
inductive Notice where
  | help
  | version
  deriving DecidableEq, Repr

/-- What the tool is asked to do. -/
inductive Order where
  | misuse
  | tell (notice : Notice)
  | handle (listing verbose : Bool) (path : Path)
  deriving DecidableEq, Repr

/-- The library between the tool and whoever calls it.  These are the things
that the tool leaves to it; what the tool relies on is `Frontend.Lawful`. -/
structure Frontend where
  /-- What the arguments ask for. -/
  order : List String → Order
  /-- What is written of a text that the tool echoes. -/
  echo : String → String
  /-- What is written of a run that is logged. -/
  log : List Event → String
  /-- The exit code and the last words for a fault that leaves the tool, unless
  the library lets the fault through. -/
  settle : Fault → Option (Nat × String)

/-- The option to list the script instead of running it. -/
def listingOption : String := "--dump-ast"

/-- The arguments that name a script, with the option to list it so many times
before it and behind it. -/
def scriptArgs (before : Nat) (name : String) (behind : Nat) : List String :=
  List.replicate before listingOption ++ name :: List.replicate behind listingOption

/-- What the library is documented to do. -/
structure Frontend.Lawful (frontend : Frontend) : Prop where
  /-- An option counts wherever it stands and however often. -/
  order_scriptArgs {name : String} {path : Path} :
    frontend.order [name] = .handle false false path → ∀ before behind,
      frontend.order (scriptArgs before name behind) = .handle (0 < before + behind) false path
  /-- Echoing leaves out control sequences at most, and without an escape
  character there is none. -/
  echo_eq {text : String} : '\x1b' ∉ text.toList → frontend.echo text = text
  /-- No fault but an interrupt is held back. -/
  settle_eq_none {fault : Fault} : fault.isInterrupt = false → frontend.settle fault = none

/-- How far the tool goes.  A script that is run is read from deeper inside the
program than one that is listed, so there is a limit for each. -/
structure Limits where
  /-- The most nested frames in reading a script that is listed. -/
  listing : Nat
  /-- The most nested frames in reading a script that is run. -/
  running : Nat
  /-- The most processes that are started. -/
  processes : Nat
  deriving DecidableEq, Repr

/-- How the tool comes to its end. -/
inductive Conclusion where
  /-- It explains its use, because it was misused. -/
  | misused
  /-- It explains its use, because it was asked to. -/
  | explained
  /-- It exits with a code, having written to both outputs. -/
  | exits (code : Nat) (out err : String)
  /-- A fault escapes, after something was written to the error output. -/
  | breaks (fault : Fault) (err : String)
  /-- It does not come to an end. -/
  | unfinished
  deriving DecidableEq, Repr

/-- The exit code that a conclusion comes with. -/
def Conclusion.exitCode : Conclusion → Nat
  | .misused => 2
  | .explained => 0
  | .exits code _ _ => code
  | .breaks _ _ => 1
  | .unfinished => 1

/-- The name that the tool goes by. -/
def toolName : String := "cinnamon"

/-- What the tool says when it is asked for its version. -/
def versionLine : String := toolName ++ " 0.1.0\n"

/-- The exit code when the script file cannot be read. -/
def unreadableCode : Nat := 1

namespace Frontend

variable (frontend : Frontend)

/-- A line of complaint. -/
def complaint (message : String) : String :=
  frontend.echo (toolName ++ ": " ++ message ++ "\n")

/-- Let a fault leave the tool, after something was written to the error
output. -/
def release (fault : Fault) (err : String) : Conclusion :=
  match frontend.settle fault with
  | some (code, words) => .exits code "" (err ++ words)
  | none => .breaks fault err

/-- List a script instead of running it. -/
def listSource (frames : Nat) (source : Source) : Conclusion :=
  match source.parse frames with
  | .error rejection => .exits Report.rejectedCode "" (frontend.complaint rejection.message)
  | .ok statements => .exits 0 (frontend.echo (StatusShell.listing statements)) ""

/-- Conclude a run: the log comes first if it is wanted, then the error.  An
error without a text would not be told. -/
def conclude (verbose : Bool) (run : SourceRun Host) : Conclusion :=
  let log := if verbose then frontend.log run.events else ""
  match run.ending with
  | .value report =>
      match report.error.filter (· ≠ "") with
      | some error => .exits report.exitCode "" (log ++ frontend.complaint error)
      | none => .exits report.exitCode "" log
  | .fault fault => frontend.release fault log
  | .unfinished => .unfinished

/-- Handle a script file, given what reading it gave. -/
def handle (limits : Limits) (listing verbose : Bool) (script : Except ReadFault ByteArray)
    (host : Host) : Conclusion × Host :=
  match script with
  | .error fault => (.exits unreadableCode "" (frontend.complaint fault.message), host)
  | .ok contents =>
      if listing then (frontend.listSource limits.listing (.bytes contents), host)
      else
        let run := (Source.bytes contents).runOn limits.running limits.processes none host
        (frontend.conclude verbose run, run.executor)

/-- Run the tool with the given arguments over a tree of files on a host. -/
def run (limits : Limits) (tree : FileTree) (args : List String) (host : Host) :
    Conclusion × Host :=
  match frontend.order args with
  | .misuse => (.misused, host)
  | .tell .help => (.explained, host)
  | .tell .version => (.exits 0 (frontend.echo versionLine) "", host)
  | .handle listing verbose path =>
      match tree.readScript path.text path with
      | .error fault => (frontend.release fault "", host)
      | .ok script => frontend.handle limits listing verbose script host

end Frontend

end CommandLine

end StatusShell
