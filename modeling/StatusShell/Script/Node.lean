/-!
A script is a list of statements.  Its commands name a program and carry
arguments; everything else decides which commands run, and how often, from the
statuses that earlier commands ended with.
-/

namespace StatusShell

/-- A program together with the arguments to run it with. -/
structure Command where
  name : String
  args : List String
  deriving DecidableEq, Repr

/-- Why a command cannot be put together. -/
inductive CommandError where
  | emptyName
  deriving DecidableEq, Repr

/-- What a reader is told about a command that cannot be put together. -/
def CommandError.message : CommandError → String
  | .emptyName => "command name must not be empty"

/-- Put a command together.  Its name must not be empty. -/
def Command.make (name : String) (args : List String) : Except CommandError Command :=
  if name = "" then .error .emptyName else .ok ⟨name, args⟩

/-- A statement.  Conditionals and loops consult a predicate command; their
branches and bodies are single statements, possibly blocks. -/
inductive Node where
  /-- A remark, without its leading mark and its line end. -/
  | comment (text : String)
  /-- A command in statement position. -/
  | command (call : Command)
  /-- Statements to be run in order. -/
  | block (statements : List Node)
  /-- A conditional with nothing to do when its predicate fails. -/
  | ifThen (predicate : Command) (branch : Node)
  /-- A conditional with a second branch for a failing predicate. -/
  | ifElse (predicate : Command) (branch otherwise : Node)
  /-- A statement repeated as long as the predicate succeeds. -/
  | loop (predicate : Command) (body : Node)
  /-- A text where a statement should stand.  No script reads as one, but a
  tree put together by hand may hold it. -/
  | stray (text : String)
  deriving Repr

namespace Node

mutual

/-- Two statements are the same tree. -/
def same : Node → Node → Bool
  | .comment s, .comment t => s == t
  | .command c, .command d => c == d
  | .block xs, .block ys => sameAll xs ys
  | .ifThen p x, .ifThen q y => p == q && same x y
  | .ifElse p x x', .ifElse q y y' => p == q && same x y && same x' y'
  | .loop p x, .loop q y => p == q && same x y
  | .stray s, .stray t => s == t
  | _, _ => false

/-- Two statement lists are the same, tree by tree. -/
def sameAll : List Node → List Node → Bool
  | [], [] => true
  | x :: xs, y :: ys => same x y && sameAll xs ys
  | _, _ => false

end

mutual

theorem same_eq_true_iff : ∀ x y : Node, same x y = true ↔ x = y
  | .comment _, y => by cases y <;> simp [same]
  | .command _, y => by cases y <;> simp [same]
  | .block xs, y => by
      cases y with
      | block ys => simpa [same] using sameAll_eq_true_iff xs ys
      | _ => simp [same]
  | .ifThen _ x, y => by
      cases y with
      | ifThen _ y => simp [same, same_eq_true_iff x y]
      | _ => simp [same]
  | .ifElse _ x x', y => by
      cases y with
      | ifElse _ y y' => simp [same, same_eq_true_iff x y, same_eq_true_iff x' y', and_assoc]
      | _ => simp [same]
  | .loop _ x, y => by
      cases y with
      | loop _ y => simp [same, same_eq_true_iff x y]
      | _ => simp [same]
  | .stray _, y => by cases y <;> simp [same]

theorem sameAll_eq_true_iff : ∀ xs ys : List Node, sameAll xs ys = true ↔ xs = ys
  | [], ys => by cases ys <;> simp [sameAll]
  | x :: xs, ys => by
      cases ys with
      | nil => simp [sameAll]
      | cons y ys => simp [sameAll, same_eq_true_iff x y, sameAll_eq_true_iff xs ys]

end

instance : DecidableEq Node := fun x y =>
  decidable_of_iff (same x y = true) (same_eq_true_iff x y)

mutual

/-- The first stray text of a statement, in reading order. -/
def stray? : Node → Option String
  | .comment _ => none
  | .command _ => none
  | .block statements => firstStray? statements
  | .ifThen _ branch => stray? branch
  | .ifElse _ branch otherwise => (stray? branch).or (stray? otherwise)
  | .loop _ body => stray? body
  | .stray text => some text

/-- The first stray text of a statement list, in reading order. -/
def firstStray? : List Node → Option String
  | [] => none
  | statement :: statements => (stray? statement).or (firstStray? statements)

end

mutual

/-- The commands of a statement, predicates among them, in reading order. -/
def commands : Node → List Command
  | .comment _ => []
  | .command call => [call]
  | .block statements => allCommands statements
  | .ifThen predicate branch => predicate :: commands branch
  | .ifElse predicate branch otherwise => predicate :: (commands branch ++ commands otherwise)
  | .loop predicate body => predicate :: commands body
  | .stray _ => []

/-- The commands of a statement list, in reading order. -/
def allCommands : List Node → List Command
  | [] => []
  | statement :: statements => commands statement ++ allCommands statements

end

end Node

end StatusShell
