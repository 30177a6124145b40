import StatusShell.Grammar.Word
import StatusShell.Script.Node

/-!
The grammar of scripts.  Each production is a value of `Production`, indexed by
what it reads, and `Production.read` says how a reader reads it.  Productions
call each other to a limited depth only: every call, and every attempt at one, takes one
frame of a limit that is passed down, and a text that needs more frames is
rejected as a whole.
-/

namespace StatusShell.Grammar

/-- The kinds of thing that a production can read. -/
inductive Kind where
  | text
  | command
  | node
  | nodes
  | maybe (kind : Kind)
  deriving DecidableEq, Repr

/-- The values of a kind. -/
@[reducible] def Kind.Value : Kind → Type
  | .text => String
  | .command => Command
  | .node => Node
  | .nodes => List Node
  | .maybe kind => Option kind.Value

/-- The productions of the grammar.  `attempt` reads what another production
reads, or nothing where that one finds a mismatch. -/
inductive Production : Kind → Type where
  | script : Production .nodes
  | statements : Production .nodes
  | statement : Production .node
  | block : Production .node
  | conditional : Production .node
  | otherwise : Production .node
  | loop : Production .node
  | comment : Production .node
  | commandLine : Production .node
  | command : Production .command
  | path : Production .text
  | spacedArgument : Production .text
  | argument : Production .text
  | quoted : Production .text
  | bare : Production .text
  | escape : Production .text
  | attempt {kind : Kind} (production : Production kind) : Production (.maybe kind)

/-- The mark that opens a block. -/
def openBrace : String := "\x7b"

/-- The mark that closes a block. -/
def closeBrace : String := "\x7d"

namespace Production

open Reader

variable {m : Type → Type} [Reader m]

/-- Read a production with the given number of nested frames at most. -/
@[specialize] def read : (frames : Nat) → {kind : Kind} → Production kind → m kind.Value
  | 0, _, _ => tooDeep
  | frames + 1, _, .attempt production => Reader.attempt (read frames production)
  | frames + 1, _, .script => do
      skipBlanks
      let nodes ← read frames .statements
      skipBlanks
      if ← atEnd then pure nodes else mismatch .endOfInput
  | frames + 1, _, .statements =>
      many do
        let found ← read frames (.attempt .statement)
        if found.isSome then skipBlanks
        pure found
  | frames + 1, _, .statement =>
      firstOf .statement
        [read frames (.attempt .block),
          read frames (.attempt .conditional),
          read frames (.attempt .loop),
          read frames (.attempt .comment),
          read frames (.attempt .commandLine)]
  | frames + 1, _, .block => do
      expect openBrace
      skipBlanks
      let nodes ← read frames .statements
      skipBlanks
      expect closeBrace
      pure (.block nodes)
  | frames + 1, _, .conditional => do
      expect "if"
      blanks
      let predicate ← read frames .command
      skipBlanks
      let branch ← read frames .statement
      match ← read frames (.attempt .otherwise) with
      | some other => pure (.ifElse predicate branch other)
      | none => pure (.ifThen predicate branch)
  | frames + 1, _, .otherwise => do
      skipBlanks
      expect "else"
      skipBlanks
      read frames .statement
  | frames + 1, _, .loop => do
      expect "while"
      blanks
      let predicate ← read frames .command
      skipBlanks
      let body ← read frames .statement
      pure (.loop predicate body)
  | _ + 1, _, .comment => do
      expect "#"
      let text ← commentText
      pure (.comment text)
  | frames + 1, _, .commandLine => do
      let command ← read frames .command
      skipBlanks
      expect ";"
      pure (.command command)
  | frames + 1, _, .command => do
      if ← accept "(" then
        skipBlanks
        let command ← read frames .command
        skipBlanks
        expect ")"
        pure command
      else
        let name ← read frames .path
        let args ← many (read frames (.attempt .spacedArgument))
        Reader.command name args
  | _ + 1, _, .path => Reader.path
  | frames + 1, _, .spacedArgument => do
      blanks
      read frames .argument
  | frames + 1, _, .argument => do
      if ← ahead "\"" then read frames .quoted else read frames .bare
  | frames + 1, _, .quoted => do
      expect "\""
      quotedTail frames
  | frames + 1, _, .bare => bareTail frames
  | _ + 1, _, .escape => Reader.escape

/-- Read a production from the front of a text. -/
def scan (frames : Nat) {kind : Kind} (production : Production kind) : Scan kind.Value :=
  production.read frames

end Production

end StatusShell.Grammar
