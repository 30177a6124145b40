import StatusShell.Proofs.Accounts

namespace StatusShell

variable {σ α β : Type}

namespace Run

/-- Record events. -/
def log (events : List Event) : Run σ Unit := fun state => ⟨.value (), events, state⟩

theorem deeper_pure (value : α) : deeper (pure value : Run σ α) = pure value := by
  funext state
  show Trace.mk _ _ { state with loopDepth := state.loopDepth + 1 - 1 } = _
  rw [Int.add_sub_cancel]
  rfl

theorem deeper_log (events : List Event) : deeper (log events : Run σ Unit) = log events := by
  funext state
  show Trace.mk _ _ { state with loopDepth := state.loopDepth + 1 - 1 } = _
  rw [Int.add_sub_cancel]
  rfl

theorem log_bind_log (front back : List Event) (next : Run σ α) :
    (do log front; log back; next) = (do log (front ++ back); next) := by
  funext state
  show Trace.mk _ (front ++ (back ++ (next state).events)) _ = Trace.mk _ (front ++ back ++ _) _
  rw [List.append_assoc]
  rfl

theorem deeper_bind (first : Run σ α) (next : α → Run σ β) :
    deeper (first >>= next) = deeper first >>= fun value => deeper (next value) := by
  funext state
  show deeper (andThen first next) state = andThen (deeper first) _ state
  simp only [deeper, andThen]
  cases (first { state with loopDepth := state.loopDepth + 1 }).ending with
  | value value => simp only [Int.sub_add_cancel]
  | fault cause => rfl
  | unfinished => rfl

/-- The second run does what the first one does, but may go on where that one is
unfinished. -/
def Extends (run run' : Run σ α) : Prop :=
  ∀ state, (run state).ending ≠ .unfinished → run' state = run state

theorem Extends.refl (run : Run σ α) : Extends run run :=
  fun _ _ => rfl

theorem Extends.bind {first first' : Run σ α} {next next' : α → Run σ β}
    (hfirst : Extends first first') (hnext : ∀ value, Extends (next value) (next' value)) :
    Extends (first >>= next) (first' >>= next') := by
  intro state hended
  have hsame : first' state = first state := by
    apply hfirst
    intro hunfinished
    rw [bind_of_unfinished hunfinished] at hended
    exact hended rfl
  show andThen first' next' state = andThen first next state
  simp only [andThen, hsame]
  rcases hending : (first state).ending with value | cause | _
  · rw [bind_of_value hending] at hended
    simp only [hnext value _ hended]
  · rfl
  · rfl

theorem Extends.deeper {run run' : Run σ α} (h : Extends run run') :
    Extends (deeper run) (deeper run') := by
  intro state hended
  have hsame := h { state with loopDepth := state.loopDepth + 1 } hended
  simp only [Run.deeper, hsame]

theorem giveUp_extends (run : Run σ α) : Extends giveUp run :=
  fun _ hended => absurd rfl hended

end Run

/-- What the rounds of a loop come to: the last status that a body showed, the number
of bodies that were run, and whether the last of them failed. -/
structure Rounds where
  shown : Option Status
  count : Nat
  failed : Bool

namespace Rounds

/-- No body was run. -/
def none : Rounds := ⟨.none, 0, false⟩

/-- A body that failed was run. -/
def failure (status : Status) : Rounds := ⟨some status, 1, true⟩

/-- One round more, before the others. -/
def after (shown : Option Status) (rest : Rounds) : Rounds :=
  ⟨rest.shown.or shown, rest.count + 1, rest.failed⟩

/-- What a loop logs about its rounds. -/
def notes (name : String) (rounds : Rounds) : List Event :=
  (if rounds.failed then [.bodyFailed name rounds.count] else []) ++
    [.loopEnded name rounds.count]

end Rounds

section

variable (predicate : Run σ Status) (body : Run σ (Option Status))

/-- One round: what the body shows, if it comes to be run. -/
def oneRound : Run σ (Option (Option Status)) := do
  let decision ← predicate
  if decision.succeeded then
    let shown ← body
    pure (some shown)
  else pure none

/-- What comes after a round: the rounds that follow, unless it was the last one. -/
def furtherRounds (rest : Run σ Rounds) : Option (Option Status) → Run σ Rounds
  | none => pure .none
  | some none => do
      let more ← rest
      pure (more.after none)
  | some (some status) =>
      if status.succeeded then do
        let more ← rest
        pure (more.after (some status))
      else pure (.failure status)

/-- The rounds of a loop, with at most the given number of looks at the predicate. -/
def rounds : Nat → Run σ Rounds
  | 0 => Run.giveUp
  | looks + 1 => oneRound predicate body >>= furtherRounds (rounds looks)

theorem repeatWhile_eq (name : String) (looks : Nat) (last : Option Status) (iterations : Nat) :
    repeatWhile name predicate body looks last iterations = (do
      let all ← rounds predicate body looks
      Run.log (if all.failed then [.bodyFailed name (iterations + all.count)] else [])
      pure (all.shown.or last, iterations + all.count)) := by
  induction looks generalizing last iterations with
  | zero => rfl
  | succ looks ih =>
      rw [rounds, repeatWhile, oneRound, bind_assoc, bind_assoc]
      apply bind_congr
      intro decision
      split
      · rw [bind_assoc]
        apply bind_congr
        intro shown
        rw [pure_bind]
        -- What was seen before counts only if no round shows a status from here on.
        rcases shown with _ | status
        · rw [furtherRounds, bind_assoc]
          simp only [ih, pure_bind, Rounds.after, Option.or_none, Nat.add_comm 1, Nat.add_assoc]
        · rw [furtherRounds]
          simp only
          split
          · rw [bind_assoc]
            simp only [ih, pure_bind, Rounds.after, Option.or_assoc, Option.some_or,
              Nat.add_comm 1, Nat.add_assoc]
          · rfl
      · rfl

theorem extends_rounds {body body' : Run σ (Option Status)} (hbody : Run.Extends body body')
    {looks more : Nat} (hle : looks ≤ more) :
    Run.Extends (rounds predicate body looks) (rounds predicate body' more) := by
  induction looks generalizing more with
  | zero => exact Run.giveUp_extends _
  | succ looks ih =>
      obtain ⟨more, rfl⟩ : ∃ less, more = less + 1 := ⟨more - 1, by omega⟩
      have hrest := ih (Nat.le_of_succ_le_succ hle)
      have hround : Run.Extends (oneRound predicate body) (oneRound predicate body') := by
        apply (Run.Extends.refl predicate).bind
        intro decision
        split
        · exact hbody.bind fun _ => .refl _
        · exact .refl _
      apply hround.bind
      rintro (_ | _ | status)
      · exact .refl _
      · exact hrest.bind fun _ => .refl _
      · rw [furtherRounds, furtherRounds]
        split
        · exact hrest.bind fun _ => .refl _
        · exact .refl _

end

/-- A loop with the given body that may look at its predicate the given number of
times. -/
def loopRun (executor : Executor σ) (predicate : Command) (body : Run σ (Option Status))
    (looks : Nat) : Run σ (Option Status) := do
  let all ← Run.deeper (rounds (Run.request executor .predicate predicate) body looks)
  Run.log (all.notes predicate.name)
  pure all.shown

theorem extends_loopRun (executor : Executor σ) (predicate : Command)
    {body body' : Run σ (Option Status)} (hbody : Run.Extends body body') {looks more : Nat}
    (hle : looks ≤ more) :
    Run.Extends (loopRun executor predicate body looks) (loopRun executor predicate body' more) :=
  (extends_rounds _ hbody hle).deeper.bind fun _ => .refl _

namespace Node

theorem exec_loop (executor : Executor σ) (allowance : Nat) (predicate : Command) (body : Node) :
    exec executor allowance (.loop predicate body) =
      loopRun executor predicate (exec executor allowance body) allowance := by
  rw [exec, repeatWhile_eq, Run.deeper_bind, bind_assoc, loopRun]
  apply bind_congr
  intro all
  rw [Run.deeper_bind, Run.deeper_log, Run.deeper_pure, bind_assoc, pure_bind, Option.or_none,
    Nat.zero_add]
  exact Run.log_bind_log _ _ _

variable (executor : Executor σ) {allowance more : Nat}

mutual

theorem exec_extends (hle : allowance ≤ more) : (node : Node) →
    Run.Extends (exec executor allowance node) (exec executor more node)
  | .comment _ => by
      rw [exec, exec]
      exact .refl _
  | .command call => by
      rw [exec, exec]
      exact .refl _
  | .block statements => by
      rw [exec, exec]
      exact execAll_extends hle none statements
  | .ifThen predicate branch => by
      rw [exec, exec]
      apply (Run.Extends.refl _).bind
      intro decision
      split
      · exact exec_extends hle branch
      · exact .refl _
  | .ifElse predicate branch otherwise => by
      rw [exec, exec]
      apply (Run.Extends.refl _).bind
      intro decision
      split
      · exact exec_extends hle branch
      · exact exec_extends hle otherwise
  | .loop predicate body => by
      rw [exec_loop, exec_loop]
      exact extends_loopRun executor predicate (exec_extends hle body) hle
  | .stray _ => by
      rw [exec, exec]
      exact .refl _

theorem execAll_extends (hle : allowance ≤ more) (last : Option Status) :
    (statements : List Node) →
    Run.Extends (execAll executor allowance last statements)
      (execAll executor more last statements)
  | [] => by
      rw [execAll, execAll]
      exact .refl _
  | statement :: statements => by
      rw [execAll, execAll]
      apply (exec_extends hle statement).bind
      rintro (_ | status)
      · exact execAll_extends hle last statements
      · simp only
        split
        · exact execAll_extends hle (some status) statements
        · exact .refl _

end

/-- The statement runs from the state to the end, however many looks at predicates that
takes, and leaves the trace behind. -/
def RunsTo (executor : Executor σ) (node : Node) (state : State σ)
    (trace : Trace σ (Option Status)) : Prop :=
  trace.ending ≠ .unfinished ∧ ∃ allowance, exec executor allowance node state = trace

theorem RunsTo.exec_of_le {executor : Executor σ} {node : Node} {state : State σ}
    {trace : Trace σ (Option Status)} (h : RunsTo executor node state trace) :
    ∃ allowance, ∀ more, allowance ≤ more → exec executor more node state = trace := by
  obtain ⟨hended, allowance, rfl⟩ := h
  exact ⟨allowance, fun more hle => exec_extends executor hle node state hended⟩

end Node

end StatusShell
