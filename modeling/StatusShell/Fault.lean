import StatusShell.Text.Quote

/-!
What can go wrong while a script runs, kept as causes.  A fault of the
operating system may carry a code with a reason, and a fault in running a
program names the program and what lies behind it.
-/

namespace StatusShell

open Text

/-- What a fault has to say for itself, when that is a single item. -/
inductive Detail where
  | number (value : Int)
  | text (value : String)
  deriving DecidableEq, Repr

/-- A detail as plain text. -/
def Detail.plain : Detail → String
  | .number value => toString value
  | .text value => value

/-- A detail in which text is quoted. -/
def Detail.quoted : Detail → String
  | .number value => toString value
  | .text value => Text.quoted value

/-- The kinds of operating-system fault that are told apart. -/
inductive OsFaultKind where
  | unspecified
  | notFound
  | notPermitted
  | notDirectory
  | isDirectory
  | noChild
  | timedOut
  deriving DecidableEq, Repr

/-- The kind that an error code stands for. -/
def OsFaultKind.ofCode (code : Int) : OsFaultKind :=
  if code = 1 ∨ code = 13 then .notPermitted
  else if code = 2 then .notFound
  else if code = 10 then .noChild
  else if code = 20 then .notDirectory
  else if code = 21 then .isDirectory
  else if code = 110 then .timedOut
  else .unspecified

/-- What an operating-system fault reports. -/
inductive OsReport where
  /-- Nothing. -/
  | silent
  /-- One item that is not understood further. -/
  | remark (detail : Detail)
  /-- An error code and its reason, perhaps with the file concerned. -/
  | coded (code : Int) (reason : String) (file : Option String)
  deriving DecidableEq, Repr

/-- The reason given with an error code. -/
def OsReport.reason? : OsReport → Option String
  | .coded _ reason _ => some reason
  | _ => none

/-- The text of a report. -/
def OsReport.message : OsReport → String
  | .silent => ""
  | .remark detail => detail.plain
  | .coded code reason none => "[Errno " ++ toString code ++ "] " ++ reason
  | .coded code reason (some file) =>
      "[Errno " ++ toString code ++ "] " ++ reason ++ ": " ++ Text.quoted file

/-- A fault of the operating system. -/
structure OsFault where
  kind : OsFaultKind
  report : OsReport
  deriving DecidableEq, Repr

namespace OsFault

/-- A fault whose kind follows from its report: from the code where there is
one. -/
def ofReport (report : OsReport) : OsFault :=
  match report with
  | .coded code _ _ => ⟨.ofCode code, report⟩
  | _ => ⟨.unspecified, report⟩

/-- The fault for an error code and its reason. -/
def coded (code : Int) (reason : String) : OsFault :=
  ofReport (.coded code reason none)

/-- The shortest account of a fault: the reason, or else all that it reports. -/
def account (fault : OsFault) : String :=
  match fault.report.reason? with
  | some reason => if reason = "" then fault.report.message else reason
  | none => fault.report.message

/-- No file or program of that name exists. -/
def noSuchFile : OsFault := coded 2 "No such file or directory"

/-- A file stands where a directory is needed. -/
def notADirectory : OsFault := coded 20 "Not a directory"

/-- A directory stands where a file is needed. -/
def isADirectory : OsFault := coded 21 "Is a directory"

/-- The name is longer than the names of files may be. -/
def nameTooLong : OsFault := coded 36 "File name too long"

end OsFault

/-- The kinds of fault that concern neither the operating system nor the
running of a program. -/
inductive GeneralKind where
  | invalidValue
  | failure
  | missingKey
  | interrupted
  | rejectedScript
  deriving DecidableEq, Repr

/-- A fault in the course of a run. -/
inductive Fault where
  | os (fault : OsFault)
  | general (kind : GeneralKind) (detail : Option Detail)
  /-- The executor takes no more calls. -/
  | callLimit
  /-- A text stands where a statement should be run. -/
  | strayStatement
  /-- A program could not be run, for no stated cause. -/
  | unexplained (program : String)
  /-- A program could not be run because of another fault. -/
  | execution (program : String) (cause : Fault)
  deriving DecidableEq, Repr

namespace Fault

/-- The text of a fault. -/
def message : Fault → String
  | .os fault => fault.report.message
  | .general .missingKey (some detail) => detail.quoted
  | .general _ (some detail) => detail.plain
  | .general .rejectedScript none => "failed to parse"
  | .general _ none => ""
  | .callLimit => "call limit"
  | .strayStatement => "Unknown node type: str"
  | .unexplained program => program ++ ": failed to execute"
  | .execution program (.os fault) => program ++ ": " ++ fault.account
  | .execution program cause => program ++ ": " ++ cause.message

/-- A program could not be run, because of another fault if one is known. -/
def ofCause (program : String) : Option Fault → Fault
  | none => .unexplained program
  | some cause => .execution program cause

/-- The run was interrupted. -/
def isInterrupt : Fault → Bool
  | .general .interrupted _ => true
  | _ => false

/-- The fault says that a program could not be run. -/
def isExecution : Fault → Bool
  | .unexplained _ => true
  | .execution _ _ => true
  | _ => false

/-- The fault says that a program could not be run because there is none of
that name. -/
def isNotFound : Fault → Bool
  | .execution _ (.os fault) => fault.kind = .notFound
  | _ => false

/-- A fault as it leaves the command that met it: a bare operating-system fault
is put down to the program, every other one stays as it is. -/
def blamedOn (program : String) : Fault → Fault
  | .os fault => .execution program (.os fault)
  | fault => fault

/-- An argument holds a character that no program can be given. -/
def embeddedNull : Fault := .general .invalidValue (some (.text "embedded null byte"))

end Fault

end StatusShell
