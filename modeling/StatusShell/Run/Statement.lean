import StatusShell.Run.Basic

/-!
A statement runs to a status or to none.  Comments, empty blocks and
conditionals that have nothing to do yield none, which counts neither as
success nor as failure and never replaces an earlier status.  A sequence stops
at the first failure.  Predicates are consulted, and their statuses are never
the status of a statement.
-/

namespace StatusShell

variable {σ : Type}

/-- Repeat a body as long as a predicate succeeds, with at most `allowance`
looks at the predicate.  Yields the last status of the body and the number of
times it ran, counting from those given.  A failing body ends the repetition at
once, and the failure is recorded under the name of the predicate. -/
def repeatWhile (name : String) (predicate : Run σ Status) (body : Run σ (Option Status)) :
    (allowance : Nat) → (last : Option Status) → (iterations : Nat) →
      Run σ (Option Status × Nat)
  | 0, _, _ => Run.giveUp
  | allowance + 1, last, iterations => do
      let decision ← predicate
      if decision.succeeded then
        match ← body with
        | none => repeatWhile name predicate body allowance last (iterations + 1)
        | some status =>
            if status.succeeded then
              repeatWhile name predicate body allowance (some status) (iterations + 1)
            else
              Run.record (.bodyFailed name (iterations + 1))
              pure (some status, iterations + 1)
      else pure (last, iterations)

namespace Node

mutual

/-- Run a statement.  Each execution of a loop may look at its predicate at
most `allowance` times. -/
def exec (executor : Executor σ) (allowance : Nat) : Node → Run σ (Option Status)
  | .comment _ => pure none
  | .command call => do
      let status ← Run.request executor .statement call
      pure (some status)
  | .block statements => execAll executor allowance none statements
  | .ifThen predicate branch => do
      let decision ← Run.request executor .predicate predicate
      if decision.succeeded then exec executor allowance branch else pure none
  | .ifElse predicate branch otherwise => do
      let decision ← Run.request executor .predicate predicate
      if decision.succeeded then exec executor allowance branch
      else exec executor allowance otherwise
  | .loop predicate body => do
      let (last, iterations) ← Run.deeper
        (repeatWhile predicate.name (Run.request executor .predicate predicate)
          (exec executor allowance body) allowance none 0)
      Run.record (.loopEnded predicate.name iterations)
      pure last
  | .stray _ => Run.raise .strayStatement

/-- Run statements in order up to the first failure.  Yields the last status
seen, starting from the one given. -/
def execAll (executor : Executor σ) (allowance : Nat) (last : Option Status) :
    List Node → Run σ (Option Status)
  | [] => pure last
  | statement :: statements => do
      match ← exec executor allowance statement with
      | none => execAll executor allowance last statements
      | some status =>
          if status.succeeded then execAll executor allowance (some status) statements
          else pure (some status)

end

end Node

/-- Run the statements of a script. -/
def execScript (executor : Executor σ) (allowance : Nat) (statements : List Node) :
    Run σ (Option Status) :=
  Node.execAll executor allowance none statements

end StatusShell
