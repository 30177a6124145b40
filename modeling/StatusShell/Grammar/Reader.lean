import StatusShell.Script.Node

/-!
What the grammar asks of a reader.  A reader goes through a text from front to
back.  It may find something else than it expected, which a caller can recover
from by trying another alternative where the reader was before, or it may run
out of nesting depth, which nobody recovers from.
-/

namespace StatusShell.Grammar

/-- What a reader was looking for when it found something else. -/
inductive Expectation where
  | literal (text : String)
  | blank
  | path
  | argument
  | statement
  | endOfInput
  deriving DecidableEq, Repr

/-- The wording of an expectation. -/
def Expectation.describe : Expectation → String
  | .literal text => text
  | .blank => "whitespace"
  | .path => "path"
  | .argument => "argument"
  | .statement => "statement"
  | .endOfInput => "end of input"

/-- A way of going through a text. -/
class Reader (m : Type → Type) extends Monad m where
  /-- Report that something else was expected here. -/
  mismatch {α : Type} (expected : Expectation) : m α
  /-- Give up because the nesting is too deep. -/
  tooDeep {α : Type} : m α
  /-- Try to read something; on a mismatch nothing is read. -/
  attempt {α : Type} (reading : m α) : m (Option α)
  /-- Everything that a step yields before it yields nothing.  A step that
  yields reads at least one character. -/
  many {α : Type} (step : m (Option α)) : m (List α)
  /-- Read exactly the given text, if it stands here. -/
  accept (literal : String) : m Bool
  /-- The given text stands here.  Nothing is read. -/
  ahead (literal : String) : m Bool
  /-- The text is at its end. -/
  atEnd : m Bool
  /-- Read all blanks that stand here, possibly none. -/
  skipBlanks : m Unit
  /-- Read all blanks that stand here, at least one. -/
  blanks : m Unit
  /-- Read the longest program path that stands here. -/
  path : m String
  /-- Read the rest of a comment together with its line end. -/
  commentText : m String
  /-- Read a quoted argument up to its closing quote, the opening one having
  been read.  Each escape takes one frame of nesting. -/
  quotedTail (frames : Nat) : m String
  /-- Read a bare argument up to the character that ends it.  Each escape takes
  one frame of nesting. -/
  bareTail (frames : Nat) : m String
  /-- Put a command together from a name and arguments that were read. -/
  command (name : String) (args : List String) : m Command

namespace Reader

variable {m : Type → Type} [Reader m]

/-- Read exactly the given text. -/
@[specialize] def expect (literal : String) : m Unit := do
  if ← accept literal then pure () else mismatch (.literal literal)

/-- The first alternative that yields a value.  Alternatives that yield nothing
must have read nothing. -/
@[specialize] def firstOf {α : Type} (expected : Expectation) : List (m (Option α)) → m α
  | [] => mismatch expected
  | alternative :: alternatives => do
      match ← alternative with
      | some value => pure value
      | none => firstOf expected alternatives

/-- Read one escape: a backslash followed by a double quote stands for the
quote, and any other backslash for itself. -/
@[specialize] def escape : m String := do
  expect "\\"
  if ← accept "\"" then pure "\"" else pure "\\"

end Reader

end StatusShell.Grammar
