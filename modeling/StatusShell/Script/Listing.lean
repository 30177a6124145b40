import StatusShell.Script.Node
import StatusShell.Text.Quote

/-!
A listing shows a script one construct to a line, indented by depth, with
arguments and comments quoted.
-/

namespace StatusShell

open Text

/-- A command as one line shows it: its name and its quoted arguments. -/
def Command.shown (command : Command) : List Char :=
  command.name.toList ++ command.args.flatMap fun arg => ' ' :: quotedChars arg.toList

namespace Node

/-- A line at a depth, two blanks to a level. -/
def indented (depth : Nat) (line : List Char) : List Char :=
  List.replicate (2 * depth) ' ' ++ line

mutual

/-- The lines that list a statement at a depth.  The second branch of a
conditional is announced at the depth of the conditional itself. -/
def lines (depth : Nat) : Node → List (List Char)
  | .comment text => [indented depth ("Comment ".toList ++ quotedChars text.toList)]
  | .command call => [indented depth ("Command ".toList ++ call.shown)]
  | .block statements => indented depth "Block".toList :: linesAll (depth + 1) statements
  | .ifThen predicate branch =>
      indented depth ("If ".toList ++ predicate.shown) :: lines (depth + 1) branch
  | .ifElse predicate branch otherwise =>
      indented depth ("If ".toList ++ predicate.shown) ::
        (lines (depth + 1) branch ++
          indented depth "Else".toList :: lines (depth + 1) otherwise)
  | .loop predicate body =>
      indented depth ("While ".toList ++ predicate.shown) :: lines (depth + 1) body
  | .stray _ => []

/-- The lines that list a statement list at a depth. -/
def linesAll (depth : Nat) : List Node → List (List Char)
  | [] => []
  | statement :: statements => lines depth statement ++ linesAll depth statements

end

end Node

/-- Why a tree cannot be listed: it holds a text where a statement should be. -/
structure ListingError where
  stray : String
  deriving DecidableEq, Repr

/-- What a reader is told about a tree that cannot be listed. -/
def ListingError.message (error : ListingError) : String :=
  "not an AST node: " ++ quoted error.stray

/-- The listing of a statement list, each line ended. -/
def listing (nodes : List Node) : String :=
  String.ofList ((Node.linesAll 0 nodes).flatMap fun line => line ++ ['\n'])

/-- List a statement list that may hold strays. -/
def listing? (nodes : List Node) : Except ListingError String :=
  match Node.firstStray? nodes with
  | some text => .error ⟨text⟩
  | none => .ok (listing nodes)

end StatusShell
