namespace StatusShell

/-- How a command ended. -/
inductive Status where
  /-- A process ended with a return code, negative if a signal killed it. -/
  | process (code : Int)
  /-- A status that is no return code: a labelled verdict. -/
  | verdict (label : String) (success : Bool)
  deriving DecidableEq, Repr

namespace Status

/-- The command succeeded. -/
def succeeded : Status → Bool
  | .process code => code = 0
  | .verdict _ success => success

/-- A return code as an exit code between 0 and 255.  Codes that are too large
become 255, and a signal is counted up from 128. -/
def codeOf (code : Int) : Nat :=
  if code < 0 then (min (128 - code) 255).toNat else (min code 255).toNat

/-- The exit code of a run that ended with a status, if with any.  Success, or
no status at all, is 0.  A failed process keeps its code; any other failure is
1. -/
def exitCode : Option Status → Nat
  | none => 0
  | some (.process code) => codeOf code
  | some (.verdict _ success) => if success then 0 else 1

end Status

end StatusShell
