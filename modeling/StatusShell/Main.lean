import StatusShell.Console

namespace StatusShell.Tool

open CommandLine

/-- How the tool is used. -/
def usage : String :=
  "Usage: cinnamon [OPTIONS] SCRIPT\n\n" ++
    "  Run SCRIPT. Nothing runs unless the whole script parses.\n\n" ++
    "Options:\n" ++
    "  --dump-ast     Print the parsed tree and exit without running it\n" ++
    "  -v, --verbose  Log every command as it is run\n" ++
    "  --version      Show version and exit\n" ++
    "  --help         Show this message and exit\n"

/-- The fault behind a failed file operation. -/
def osFault : IO.Error → OsFault
  | .noFileOrDirectory .. => .noSuchFile
  | .inappropriateType .. => .isADirectory
  | .permissionDenied .. => .coded 13 "Permission denied"
  | error => ⟨.unspecified, .remark (.text (toString error))⟩

/-- Read a script file. -/
def readScript (path : String) : IO (Except ReadFault ByteArray) := do
  match ← (IO.FS.readBinFile path).toBaseIO with
  | .ok contents => return .ok contents
  | .error error => return .error ⟨path, osFault error⟩

/-- Write what a conclusion says and give its exit code. -/
def carryOut (conclusion : Conclusion) : IO UInt32 := do
  match conclusion with
  | .misused => IO.eprint usage
  | .explained => IO.print usage
  | .exits _ out err => do
      IO.print out
      IO.eprint err
  | .breaks fault err => do
      IO.eprint err
      IO.eprintln fault.message
  | .unfinished => pure ()
  return UInt32.ofNat conclusion.exitCode

end StatusShell.Tool

open StatusShell in
/-- Run the tool. -/
def main (args : List String) : IO UInt32 := do
  let host := Host.ofPlans .empty
  match CommandLine.console.order args with
  | .handle listing verbose path =>
      let script ← Tool.readScript path.text
      Tool.carryOut (CommandLine.console.handle .usual listing verbose script host).1
  | _ => Tool.carryOut (CommandLine.console.run .usual ⟨[], []⟩ args host).1
