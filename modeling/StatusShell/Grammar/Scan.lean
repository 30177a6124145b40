import StatusShell.Grammar.Reader

namespace StatusShell.Grammar

/-- How scanning ends. -/
inductive Reply (α : Type) where
  /-- Something was read; `rest` is the text after it. -/
  | success (value : α) (rest : List Char)
  /-- The text at `rest` is not what was expected there. -/
  | mismatch (expected : Expectation) (rest : List Char)
  /-- The text is nested deeper than the scanner may follow. -/
  | tooDeep
  deriving DecidableEq, Repr

/-- A scanner maps a text to what it makes of the front of it. -/
def Scan (α : Type) := List Char → Reply α

namespace Scan

instance : Monad Scan where
  pure value := fun text => .success value text
  bind first next := fun text =>
    match first text with
    | .success value rest => next value rest
    | .mismatch expected rest => .mismatch expected rest
    | .tooDeep => .tooDeep

/-- Report that something else was expected here. -/
def mismatch {α : Type} (expected : Expectation) : Scan α := fun text =>
  .mismatch expected text

/-- Give up because the nesting is too deep. -/
def tooDeep {α : Type} : Scan α := fun _ => .tooDeep

/-- Try a scanner; on a mismatch nothing is read. -/
def attempt {α : Type} (scan : Scan α) : Scan (Option α) := fun text =>
  match scan text with
  | .success value rest => .success (some value) rest
  | .mismatch _ _ => .success none text
  | .tooDeep => .tooDeep

/-- Read exactly the given text, if it stands here. -/
def accept (literal : String) : Scan Bool := fun text =>
  match literal.toList.isPrefixOf? text with
  | some rest => .success true rest
  | none => .success false text

/-- The given text stands here.  Nothing is read. -/
def ahead (literal : String) : Scan Bool := fun text =>
  .success (literal.toList.isPrefixOf? text).isSome text

/-- The text is at its end. -/
def atEnd : Scan Bool := fun text => .success text.isEmpty text

/-- Collect what a step yields until it yields nothing.  A step that yields
reads at least one character, so a text is long enough to bound the steps taken
on it; `bound` is what is left of that bound. -/
def collect {α : Type} (step : Scan (Option α)) (bound : List Char) (found : List α) :
    Scan (List α) := fun text =>
  match step text with
  | .success none rest => .success found.reverse rest
  | .success (some value) rest =>
      match bound with
      | [] => .success (value :: found).reverse rest
      | _ :: bound => collect step bound (value :: found) rest
  | .mismatch expected rest => .mismatch expected rest
  | .tooDeep => .tooDeep

/-- Everything that a step yields before it yields nothing. -/
def many {α : Type} (step : Scan (Option α)) : Scan (List α) := fun text =>
  collect step text [] text

end Scan

end StatusShell.Grammar
