import StatusShell.Source

/-!
A cursor is a text with a position in it, counted in characters.  It reads the
same productions as a scanner and also says where it stopped: after a success
behind what was read, after a mismatch where the mismatch was found.

The position may lie beyond the end of the text, where nothing can be read, or
before its start, where it counts from the end.  Characters that are read one by
one then run on from the end of the text to its start.  Literals do not: they
stand within the text or not at all.  Nor do the texts of paths and comments,
which are cut out of the text between two positions.
-/

namespace StatusShell.Grammar

/-- A text and a position in it. -/
structure Cursor where
  text : List Char
  pos : Int
  deriving DecidableEq, Repr

/-- Why a step of a cursor fails. -/
inductive Snag where
  | mismatch (expected : Expectation)
  | tooDeep
  /-- The place looked at is further before the start than the text is long. -/
  | outOfRange
  /-- The place looked at is further before the start than can be counted. -/
  | uncountable
  /-- What was read does not make a command. -/
  | command (error : CommandError)
  deriving DecidableEq, Repr

namespace Snag

/-- The wording of a failure.  Nesting that is too deep rejects the whole
script and is worded so. -/
def message : Snag → String
  | .mismatch expected => expected.describe
  | .tooDeep => Rejection.tooDeep.message
  | .outOfRange => "string index out of range"
  | .uncountable => "cannot fit 'int' into an index-sized integer"
  | .command error => error.message

/-- The failure to look at a place before all of the text.  Places are counted
in machine words of 64 bits. -/
def ofPlace (place : Int) : Snag :=
  if place < -9223372036854775808 then .uncountable else .outOfRange

end Snag

namespace Cursor

/-- A step reads something and moves the cursor. -/
def Step (α : Type) := Cursor → Except Snag α × Cursor

instance : Monad Step where
  pure value := fun cursor => (.ok value, cursor)
  bind first next := fun cursor =>
    match first cursor with
    | (.ok value, moved) => next value moved
    | (.error snag, moved) => (.error snag, moved)

/-- Fail where the cursor is. -/
def fail {α : Type} (snag : Snag) : Step α := fun cursor =>
  (.error snag, cursor)

/-- Where the cursor is. -/
def position : Step Int := fun cursor =>
  (.ok cursor.pos, cursor)

/-- Put the cursor at a position. -/
def seek (pos : Int) : Step Unit := fun cursor =>
  (.ok (), { cursor with pos })

/-- Take a step, and go back to where it began if it finds a mismatch. -/
def attempt {α : Type} (step : Step α) : Step (Option α) := fun cursor =>
  match step cursor with
  | (.ok value, moved) => (.ok (some value), moved)
  | (.error (.mismatch _), _) => (.ok none, cursor)
  | (.error snag, moved) => (.error snag, moved)

/-- The place that a position stands for, counted from the start of the text.
A position before all of the text stands for its start. -/
def place (cursor : Cursor) (pos : Int) : Nat :=
  if 0 ≤ pos then pos.toNat else (pos + cursor.text.length).toNat

/-- The text from a position to the end. -/
def tail (cursor : Cursor) (pos : Int) : List Char :=
  cursor.text.drop (cursor.place pos)

/-- The text between two positions.  It is empty if the second stands for a
place before that of the first. -/
def slice (cursor : Cursor) (start stop : Int) : List Char :=
  (cursor.tail start).take (cursor.place stop - cursor.place start)

/-- What the cursor comes by when it reads character by character. -/
def ahead (cursor : Cursor) : List Char :=
  if 0 ≤ cursor.pos then cursor.tail cursor.pos else cursor.tail cursor.pos ++ cursor.text

/-- Leave the given rest of what is ahead. -/
def leave (rest : List Char) (cursor : Cursor) : Cursor :=
  { cursor with pos := cursor.pos + (cursor.ahead.length - rest.length : Nat) }

/-- Move as a scanner does on what is ahead.  It must look at the character at
the cursor first. -/
def follow {α : Type} (scan : Scan α) : Step α := fun cursor =>
  if 0 ≤ cursor.pos + cursor.text.length then
    match scan cursor.ahead with
    | .success value rest => (.ok value, cursor.leave rest)
    | .mismatch expected rest => (.error (.mismatch expected), cursor.leave rest)
    | .tooDeep => (.error .tooDeep, cursor)
  else (.error (.ofPlace cursor.pos), cursor)

/-- The character at a distance from the cursor, if the text reaches so far.
A place before the start of the text counts from its end, as long as the text
is long enough for that. -/
def peek (offset : Int) : Step (Option Char) := fun cursor =>
  let pos := cursor.pos + offset
  if 0 ≤ pos + cursor.text.length then (.ok cursor.text[cursor.place pos]?, cursor)
  else (.error (.ofPlace pos), cursor)

/-- Read one character, if there is one. -/
def advance : Step (Option Char) := do
  let found ← peek 0
  if found.isSome then seek ((← position) + 1)
  pure found

/-- The cursor is at or beyond the end. -/
def isAtEnd : Step Bool := fun cursor =>
  (.ok (cursor.text.length ≤ cursor.pos), cursor)

/-- The literal stands at the cursor.  Beyond the end stands not even the empty
literal. -/
def check (literal : String) : Step Bool := fun cursor =>
  (.ok (cursor.pos ≤ cursor.text.length
    && literal.toList.isPrefixOf (cursor.tail cursor.pos)), cursor)

/-- Read the literal if it stands at the cursor. -/
def accept (literal : String) : Step Bool := do
  let stands ← check literal
  if stands then seek ((← position) + literal.length)
  pure stands

/-- Read all blanks at the cursor. -/
def skipBlanks : Step Unit :=
  follow Scan.skipBlanks

/-- Read all blanks at the cursor and count them. -/
def countBlanks : Step Int := do
  let start ← position
  skipBlanks
  return (← position) - start

/-- Read all blanks at the cursor, at least one. -/
def blanks : Step Unit :=
  follow Scan.blanks

/-- The text from a position to the cursor. -/
def since (start : Int) : Step String := fun cursor =>
  (.ok (String.ofList (cursor.slice start cursor.pos)), cursor)

/-- Read the longest program path at the cursor. -/
def path : Step String := do
  let start ← position
  let _ ← follow Scan.path
  since start

/-- The position where the line ends that the cursor is in.  A line that does
not end before the text does runs on from the start, if that is ahead. -/
def lineEnd (cursor : Cursor) : Int :=
  let tail := cursor.tail cursor.pos
  let line := (Scan.commentLine [] tail).1
  if 0 ≤ cursor.pos then cursor.pos + line.length
  else if line.length < tail.length then line.length - tail.length
  else (Scan.commentLine [] cursor.text).1.length

/-- Move to where the line ends. -/
def seekLineEnd : Step Unit := fun cursor =>
  (.ok (), { cursor with pos := cursor.lineEnd })

/-- Read the rest of a comment together with its line end. -/
def commentText : Step String := do
  let start ← position
  seekLineEnd
  let text ← since start
  unless ← accept "\n" do
    let _ ← accept "\r\n"
  pure text

/-- Put a command together. -/
def command (name : String) (args : List String) : Step Command :=
  match Command.make name args with
  | .ok made => pure made
  | .error error => fail (.command error)

/-- Collect what a step yields until it yields nothing, `bound` times more than
once at most. -/
def collect {α : Type} (step : Step (Option α)) (bound : Nat) (found : List α) :
    Step (List α) := do
  match ← step with
  | none => pure found.reverse
  | some value =>
      match bound with
      | 0 => pure (value :: found).reverse
      | bound + 1 => collect step bound (value :: found)

/-- Everything that a step yields before it yields nothing.  A step that yields
moves the cursor towards the end. -/
def many {α : Type} (step : Step (Option α)) : Step (List α) := fun cursor =>
  collect step (cursor.text.length - cursor.pos).toNat [] cursor

instance : Reader Step where
  mismatch expected := fail (.mismatch expected)
  tooDeep := fail .tooDeep
  attempt := attempt
  many := many
  accept := accept
  ahead := check
  atEnd := isAtEnd
  skipBlanks := skipBlanks
  blanks := blanks
  path := path
  commentText := commentText
  quotedTail frames := follow (Scan.quotedTail frames [])
  bareTail frames := follow (Scan.bareTail frames [])
  command := command

/-- Read the literal. -/
def expect (literal : String) : Step Unit :=
  Reader.expect literal

/-- Read a production with the given number of nested frames at most. -/
def readWithin (frames : Nat) {kind : Kind} (production : Production kind) : Step kind.Value :=
  production.read frames

end Cursor

end StatusShell.Grammar
