import StatusShell.Proofs.RunLaws

namespace StatusShell

variable {σ : Type}

namespace Node

/-- The statements as a single one.  A block is needed unless there is exactly
one of them. -/
def joined : List Node → Node
  | [statement] => statement
  | statements => .block statements

mutual

/-- What is left of a statement in a list, simplified.  Nothing is left of a
comment, and a block leaves its statements.  Branches and bodies are put
together again from what is left of them, and a second branch of which nothing
is left is dropped. -/
def spliced : Node → List Node
  | .comment _ => []
  | .command call => [.command call]
  | .block statements => simplify statements
  | .ifThen predicate branch => [.ifThen predicate (joined (spliced branch))]
  | .ifElse predicate branch otherwise =>
      match spliced otherwise with
      | [] => [.ifThen predicate (joined (spliced branch))]
      | statement :: statements =>
          [.ifElse predicate (joined (spliced branch)) (joined (statement :: statements))]
  | .loop predicate body => [.loop predicate (joined (spliced body))]
  | .stray text => [.stray text]

/-- The statements of a list, simplified at every depth. -/
def simplify : List Node → List Node
  | [] => []
  | statement :: statements => spliced statement ++ simplify statements

end

/-- The statement does something of its own in a list. -/
def isListed : Node → Bool
  | .comment _ => false
  | .block _ => false
  | _ => true

mutual

/-- A branch or body is simple if it is no comment and no block of exactly one
statement, its own branches, bodies and lists are simple, and it has no second
branch that is an empty block. -/
def isSimple : Node → Bool
  | .comment _ => false
  | .command _ => true
  | .block statements => statements.length ≠ 1 && isSimpleList statements
  | .ifThen _ branch => isSimple branch
  | .ifElse _ branch otherwise => isSimple branch && isSimple otherwise && otherwise ≠ .block []
  | .loop _ body => isSimple body
  | .stray _ => true

/-- A list is simple if all of its statements are, and none is a comment or a
block. -/
def isSimpleList : List Node → Bool
  | [] => true
  | statement :: statements =>
      isListed statement && isSimple statement && isSimpleList statements

end

theorem isSimpleList_append (front back : List Node) :
    isSimpleList (front ++ back) = (isSimpleList front && isSimpleList back) := by
  induction front with
  | nil => simp [isSimpleList]
  | cons statement front ih => simp [isSimpleList, ih, Bool.and_assoc]

theorem isSimple_joined {statements : List Node} (h : isSimpleList statements = true) :
    isSimple (joined statements) = true := by
  match statements, h with
  | [], _ => rfl
  | [statement], h =>
      simp only [isSimpleList, Bool.and_eq_true] at h
      exact h.1.2
  | first :: second :: statements, h =>
      rw [joined, isSimple, h]
      · simp
      · simp

theorem joined_cons_ne {statement : Node} {statements : List Node}
    (h : isListed statement = true) : joined (statement :: statements) ≠ .block [] := by
  cases statements with
  | nil =>
      rw [joined]
      rintro rfl
      cases h
  | cons second statements => simp [joined]

mutual

theorem isSimpleList_spliced : (node : Node) → isSimpleList (spliced node) = true
  | .comment _ => rfl
  | .command _ => rfl
  | .block statements => by
      rw [spliced]
      exact isSimpleList_simplify statements
  | .ifThen predicate branch => by
      have hbranch := isSimple_joined (isSimpleList_spliced branch)
      simp [spliced, isSimpleList, isListed, isSimple, hbranch]
  | .ifElse predicate branch otherwise => by
      have hbranch := isSimple_joined (isSimpleList_spliced branch)
      have hotherwise := isSimpleList_spliced otherwise
      rw [spliced]
      cases hleft : spliced otherwise with
      | nil => simp [isSimpleList, isListed, isSimple, hbranch]
      | cons statement statements =>
          rw [hleft] at hotherwise
          have hsimple := isSimple_joined hotherwise
          simp only [isSimpleList, Bool.and_eq_true] at hotherwise
          have hne : joined (statement :: statements) ≠ .block [] :=
            joined_cons_ne hotherwise.1.1
          simp [isSimpleList, isListed, isSimple, hbranch, hsimple, hne]
  | .loop predicate body => by
      have hbody := isSimple_joined (isSimpleList_spliced body)
      simp [spliced, isSimpleList, isListed, isSimple, hbody]
  | .stray _ => rfl

theorem isSimpleList_simplify : (statements : List Node) →
    isSimpleList (simplify statements) = true
  | [] => rfl
  | statement :: statements => by
      rw [simplify, isSimpleList_append, isSimpleList_spliced, isSimpleList_simplify]
      rfl

end

section

variable (executor : Executor σ) (allowance : Nat)

/-- Go on with a list behind something that showed the given status.  A failure
ends the list, and without a status the one before remains the last. -/
def goOn (last shown : Option Status) (statements : List Node) : Run σ (Option Status) :=
  match shown with
  | none => execAll executor allowance last statements
  | some status =>
      if status.succeeded then execAll executor allowance (some status) statements
      else pure (some status)

variable (last : Option Status) {status : Status} (statement : Node) (statements : List Node)

theorem goOn_of_success (h : status.succeeded = true) :
    goOn executor allowance last (some status) statements =
      execAll executor allowance (some status) statements := by
  rw [goOn, if_pos h]

theorem goOn_of_failure (h : status.succeeded = false) :
    goOn executor allowance last (some status) statements = pure (some status) := by
  rw [goOn, h]
  rfl

theorem goOn_eq_or (h : status.succeeded = true) (shown : Option Status) :
    goOn executor allowance (some status) shown statements =
      goOn executor allowance last (shown.or (some status)) statements := by
  cases shown with
  | none => exact (goOn_of_success executor allowance last statements h).symm
  | some other => rfl

theorem execAll_cons :
    execAll executor allowance last (statement :: statements) = (do
      let shown ← exec executor allowance statement
      goOn executor allowance last shown statements) := by
  rw [execAll]
  rfl

theorem execAll_eq_bind :
    execAll executor allowance last statements = (do
      let shown ← execAll executor allowance none statements
      pure (shown.or last)) := by
  induction statements generalizing last with
  | nil =>
      rw [execAll, execAll, pure_bind]
      rfl
  | cons statement statements ih =>
      rw [execAll_cons, execAll_cons, bind_assoc]
      apply bind_congr
      intro shown
      cases shown with
      | none => exact ih last
      | some status =>
          cases hstatus : status.succeeded with
          | true =>
              rw [goOn_of_success _ _ _ _ hstatus, goOn_of_success _ _ _ _ hstatus,
                ih (some status), bind_assoc]
              apply bind_congr
              intro shown
              rw [pure_bind, Option.or_assoc]
              rfl
          | false =>
              rw [goOn_of_failure _ _ _ _ hstatus, goOn_of_failure _ _ _ _ hstatus, pure_bind]
              rfl

theorem execAll_append (front back : List Node) :
    execAll executor allowance last (front ++ back) = (do
      let shown ← execAll executor allowance none front
      goOn executor allowance last shown back) := by
  induction front generalizing last with
  | nil =>
      rw [execAll, pure_bind]
      rfl
  | cons statement front ih =>
      rw [List.cons_append, execAll_cons, execAll_cons, bind_assoc]
      apply bind_congr
      intro shown
      cases shown with
      | none => exact ih last
      | some status =>
          cases hstatus : status.succeeded with
          | true =>
              rw [goOn_of_success _ _ _ _ hstatus, goOn_of_success _ _ _ _ hstatus,
                ih (some status), execAll_eq_bind _ _ (some status), bind_assoc]
              apply bind_congr
              intro shown
              rw [pure_bind]
              exact goOn_eq_or _ _ _ _ hstatus shown
          | false =>
              rw [goOn_of_failure _ _ _ _ hstatus, goOn_of_failure _ _ _ _ hstatus, pure_bind,
                goOn_of_failure _ _ _ _ hstatus]

theorem execAll_singleton :
    execAll executor allowance none [statement] = exec executor allowance statement := by
  rw [execAll_cons]
  calc
    _ = exec executor allowance statement >>= pure := by
      apply bind_congr
      intro shown
      cases shown with
      | none => rw [goOn, execAll]
      | some status => rw [goOn, execAll, ite_self]
    _ = exec executor allowance statement := bind_pure _

theorem exec_joined :
    exec executor allowance (joined statements) = execAll executor allowance none statements := by
  match statements with
  | [] => rw [joined, exec]; simp
  | [statement] => exact (execAll_singleton executor allowance statement).symm
  | first :: second :: statements => rw [joined, exec]; simp

end

variable (executor : Executor σ) (allowance : Nat)

mutual

theorem execAll_spliced : (node : Node) →
    execAll executor allowance none (spliced node) = exec executor allowance node
  | .comment _ => by
      rw [spliced, execAll, exec]
  | .command call => by
      rw [spliced, execAll_singleton]
  | .block statements => by
      rw [spliced, exec]
      exact execAll_simplify none statements
  | .ifThen predicate branch => by
      rw [spliced, execAll_singleton, exec, exec, exec_joined, execAll_spliced branch]
  | .ifElse predicate branch otherwise => by
      have hotherwise := execAll_spliced otherwise
      rw [spliced]
      cases hleft : spliced otherwise with
      | nil =>
          rw [hleft, execAll] at hotherwise
          simp only
          rw [execAll_singleton, exec, exec, exec_joined, execAll_spliced branch, hotherwise]
      | cons statement statements =>
          rw [hleft] at hotherwise
          simp only
          rw [execAll_singleton, exec, exec, exec_joined, exec_joined, execAll_spliced branch,
            hotherwise]
  | .loop predicate body => by
      rw [spliced, execAll_singleton, exec, exec, exec_joined, execAll_spliced body]
  | .stray text => by
      rw [spliced, execAll_singleton]

/-- The simplified statements run as the statements do, whatever status was seen
before them. -/
theorem execAll_simplify (last : Option Status) : (statements : List Node) →
    execAll executor allowance last (simplify statements) =
      execAll executor allowance last statements
  | [] => by
      rw [simplify]
  | statement :: statements => by
      have hrest := fun last => execAll_simplify last statements
      rw [simplify, execAll_append, execAll_cons, execAll_spliced statement]
      apply bind_congr
      intro shown
      cases shown with
      | none => exact hrest last
      | some status => rw [goOn, goOn, hrest (some status)]

end

end Node

/-- Simplifying a script preserves its behaviour.  From every state it runs to
the same ending, with the same events and to the same state, and nothing is left
in it to simplify. -/
theorem execScript_simplify (executor : Executor σ) (allowance : Nat) (statements : List Node) :
    (∀ state, execScript executor allowance (Node.simplify statements) state =
      execScript executor allowance statements state) ∧
    Node.isSimpleList (Node.simplify statements) = true := by
  refine ⟨?_, Node.isSimpleList_simplify statements⟩
  intro state
  rw [execScript, execScript, Node.execAll_simplify]

end StatusShell
