import StatusShell.Grammar.Scan

namespace StatusShell.Grammar

/-- The characters that separate words. -/
def isBlank (c : Char) : Bool :=
  c = ' ' || c = '\t' || c = '\r' || c = '\n'

/-- The characters of a program path: the slash, and the letters and digits of
the basic alphabet. -/
def isPathChar (c : Char) : Bool :=
  c = '/' || c.isAlphanum

/-- The text is a single slash, or a non-empty run of letters and digits of the
basic alphabet. -/
def isPathText (text : String) : Bool :=
  text = "/" || (text ≠ "" && text.toList.all Char.isAlphanum)

/-- The characters that end a bare argument. -/
def endsBare (c : Char) : Bool :=
  isBlank c || c = ';' || c = '"' || c = '{' || c = ')'

namespace Scan

/-- Read all blanks that stand here, possibly none. -/
def skipBlanks : Scan Unit := fun text =>
  .success () (text.dropWhile isBlank)

/-- Read all blanks that stand here, at least one. -/
def blanks : Scan Unit := fun text =>
  match text with
  | [] => .mismatch .blank text
  | c :: rest => if isBlank c then .success () (rest.dropWhile isBlank) else .mismatch .blank text

/-- Read the longest program path that stands here. -/
def path : Scan String := fun text =>
  match text.takeWhile isPathChar with
  | [] => .mismatch .path text
  | c :: word => .success (String.ofList (c :: word)) (text.dropWhile isPathChar)

/-- The text of a comment and what follows it.  A comment runs to the end of
the line, which may be a line feed alone or preceded by a carriage return. -/
def commentLine (taken : List Char) : List Char → List Char × List Char
  | [] => (taken.reverse, [])
  | '\n' :: rest => (taken.reverse, rest)
  | '\r' :: '\n' :: rest => (taken.reverse, rest)
  | c :: rest => commentLine (c :: taken) rest

/-- Read the rest of a comment together with its line end. -/
def commentText : Scan String := fun text =>
  let (line, rest) := commentLine [] text
  .success (String.ofList line) rest

/-- Read a quoted argument up to its closing quote, the opening one having been
read.  Each escape takes one frame of nesting. -/
def quotedTail (frames : Nat) (taken : List Char) : Scan String
  | [] => .mismatch (.literal "\"") []
  | c :: rest =>
      if c = '"' then .success (String.ofList taken.reverse) rest
      else if c = '\\' then
        if frames = 0 then .tooDeep
        else
          match rest with
          | '"' :: rest => quotedTail frames ('"' :: taken) rest
          | rest => quotedTail frames ('\\' :: taken) rest
      else quotedTail frames (c :: taken) rest

/-- Read a bare argument up to the character that ends it.  Each escape takes
one frame of nesting. -/
def bareTail (frames : Nat) (taken : List Char) : Scan String
  | [] =>
      if taken.isEmpty then .mismatch .argument [] else .success (String.ofList taken.reverse) []
  | c :: rest =>
      if endsBare c then
        if taken.isEmpty then .mismatch .argument (c :: rest)
        else .success (String.ofList taken.reverse) (c :: rest)
      else if c = '\\' then
        if frames = 0 then .tooDeep
        else
          match rest with
          | '"' :: rest => bareTail frames ('"' :: taken) rest
          | rest => bareTail frames ('\\' :: taken) rest
      else bareTail frames (c :: taken) rest

/-- The paths that a scanner reads are never empty, so a command can always be
put together from what it reads. -/
instance : Reader Scan where
  mismatch := mismatch
  tooDeep := tooDeep
  attempt := attempt
  many := many
  accept := accept
  ahead := ahead
  atEnd := atEnd
  skipBlanks := skipBlanks
  blanks := blanks
  path := path
  commentText := commentText
  quotedTail frames := quotedTail frames []
  bareTail frames := bareTail frames []
  command name args := pure ⟨name, args⟩

end Scan

end StatusShell.Grammar
