import StatusShell.Grammar.Production

/-!
A script comes as text or as bytes.  Bytes are taken as the strict encoding of
a text.  A script is read as a whole or rejected as a whole.
-/

namespace StatusShell

open Grammar

/-- A script as it is handed in. -/
inductive Source where
  | text (content : String)
  | bytes (content : ByteArray)

/-- Why a script is rejected. -/
inductive Rejection where
  /-- There is more of it than will be read. -/
  | tooLong
  /-- Its bytes encode no text. -/
  | undecodable
  /-- It does not follow the grammar. -/
  | malformed (expected : Expectation)
  /-- It is nested deeper than will be followed. -/
  | tooDeep
  deriving DecidableEq, Repr

/-- What a reader is told about a rejected script, whatever the reason. -/
def Rejection.message (_ : Rejection) : String :=
  "failed to parse"

/-- The most characters of text, or bytes, that a script may have. -/
def sizeLimit : Nat := 10000000

/-- The most frames that productions may be nested, where nothing else is said. -/
def nestingLimit : Nat := 1000

/-- The characters of a script. -/
def Source.chars : Source → Except Rejection (List Char)
  | .text content =>
      if content.length ≤ sizeLimit then .ok content.toList else .error .tooLong
  | .bytes content =>
      if content.size ≤ sizeLimit then
        match String.fromUTF8? content with
        | some decoded => .ok decoded.toList
        | none => .error .undecodable
      else .error .tooLong

/-- Read a whole text with the given number of nested frames at most. -/
def readText (frames : Nat) (text : List Char) : Except Rejection (List Node) :=
  match Production.script.scan frames text with
  | .success nodes _ => .ok nodes
  | .mismatch expected _ => .error (.malformed expected)
  | .tooDeep => .error .tooDeep

/-- Read a script with the given number of nested frames at most. -/
def Source.parse (frames : Nat) (source : Source) : Except Rejection (List Node) := do
  readText frames (← source.chars)

end StatusShell
