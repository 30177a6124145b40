import StatusShell.Host
import StatusShell.Proofs.Accounts
import StatusShell.Rehearsal
import StatusShell.Report

namespace StatusShell

variable {σ α β : Type}

/-- As long as it answers calls with a status, the executor spends something that
it has only so much of. -/
def Executor.Spends (rank : σ → Nat) (executor : Executor σ) : Prop :=
  ∀ call state status, (executor.call call state).answer = .status status →
    rank (executor.call call state).state < rank state

namespace Run

/-- With less than the bound to spend, the run ends, and never gains by it. -/
def Ends (rank : σ → Nat) (bound : Nat) (run : Run σ α) : Prop :=
  ∀ state, rank state.executor < bound → (run state).ending ≠ .unfinished ∧
    ∀ value, (run state).ending = .value value →
      rank (run state).state.executor ≤ rank state.executor

variable {rank : σ → Nat} {bound : Nat}

theorem Ends.mono {run : Run σ α} (h : Ends rank bound run) {less : Nat} (hle : less ≤ bound) :
    Ends rank less run := by
  intro state hrank
  exact h state (Nat.lt_of_lt_of_le hrank hle)

theorem ends_of_quiet {run : Run σ α}
    (h : ∀ state, (run state).ending ≠ .unfinished ∧ (run state).state = state) :
    Ends rank bound run := by
  intro state _
  obtain ⟨hending, hstate⟩ := h state
  exact ⟨hending, fun _ _ => Nat.le_of_eq (by rw [hstate])⟩

theorem ends_pure (value : α) : Ends rank bound (pure value : Run σ α) := by
  apply ends_of_quiet
  intro state
  refine ⟨?_, rfl⟩
  rintro ⟨⟩

theorem Ends.bind_of_spent {first : Run σ α} {next : α → Run σ β} {left : Nat}
    (hfirst : Ends rank bound first)
    (hspent : ∀ state value, rank state.executor < bound → (first state).ending = .value value →
      rank (first state).state.executor < left)
    (hnext : ∀ value, Ends rank left (next value)) : Ends rank bound (first >>= next) := by
  intro state hrank
  obtain ⟨hended, hvalue⟩ := hfirst state hrank
  rcases hending : (first state).ending with value | cause | _
  · obtain ⟨hended', hvalue'⟩ := hnext value _ (hspent state value hrank hending)
    rw [bind_of_value hending]
    refine ⟨hended', fun result hresult => ?_⟩
    exact Nat.le_trans (hvalue' result hresult) (hvalue value hending)
  · rw [bind_of_fault hending]
    constructor
    · rintro ⟨⟩
    · rintro value ⟨⟩
  · exact absurd hending hended

theorem Ends.bind {first : Run σ α} {next : α → Run σ β} (hfirst : Ends rank bound first)
    (hnext : ∀ value, Ends rank bound (next value)) : Ends rank bound (first >>= next) := by
  apply hfirst.bind_of_spent ?_ hnext
  intro state value hrank hending
  exact Nat.lt_of_le_of_lt ((hfirst state hrank).2 value hending) hrank

theorem Ends.deeper {run : Run σ α} (h : Ends rank bound run) : Ends rank bound (deeper run) := by
  intro state hrank
  exact h { state with loopDepth := state.loopDepth + 1 } hrank

theorem ending_request (executor : Executor σ) (role : Role) (call : Command) (state : State σ) :
    (request executor role call state).ending =
      match (executor.call call state.executor).answer with
      | .status status => .value status
      | .fault fault => .fault (fault.blamedOn call.name) := rfl

section

variable {executor : Executor σ} (h : executor.Spends rank)
include h

theorem rank_lt_of_request {role : Role} {call : Command} {state : State σ} {status : Status}
    (hending : (request executor role call state).ending = .value status) :
    rank (request executor role call state).state.executor < rank state.executor := by
  rw [ending_request] at hending
  split at hending
  · next found hanswer => exact h call state.executor found hanswer
  · cases hending

theorem ends_request (role : Role) (call : Command) :
    Ends rank bound (request executor role call) := by
  intro state _
  constructor
  · rw [ending_request]
    split <;> rintro ⟨⟩
  · intro status hending
    exact Nat.le_of_lt (rank_lt_of_request h hending)

theorem ends_repeatWhile (name : String) (call : Command) {body : Run σ (Option Status)}
    {allowance : Nat} (hle : allowance ≤ bound) (hbody : Ends rank bound body)
    (last : Option Status) (iterations : Nat) :
    Ends rank allowance (repeatWhile name (request executor .predicate call) body allowance last
      iterations) := by
  induction allowance generalizing last iterations with
  | zero => exact fun state hrank => absurd hrank (Nat.not_lt_zero _)
  | succ allowance ih =>
      have hle := Nat.le_of_succ_le hle
      have hspent : ∀ state status, rank state.executor < allowance + 1 →
          (request executor .predicate call state).ending = .value status →
            rank (request executor .predicate call state).state.executor < allowance := by
        intro state status hrank hending
        have hless := rank_lt_of_request h hending
        omega
      refine (ends_request h .predicate call).bind_of_spent hspent fun decision => ?_
      split
      · refine (hbody.mono hle).bind fun shown => ?_
        cases shown with
        | none => exact ih hle last (iterations + 1)
        | some status =>
            simp only
            split
            · exact ih hle (some status) (iterations + 1)
            · exact ends_of_quiet fun _ => ⟨by rintro ⟨⟩, rfl⟩
      · exact ends_pure _

theorem ends_closed (allowance : Nat) : Closed executor allowance (Ends rank allowance) where
  pure := ends_pure
  bind := Ends.bind
  request := ends_request h
  repeated call _ hbody :=
    (ends_repeatWhile h call.name call (Nat.le_refl _) hbody none 0).deeper
  loopEnded _ _ := ends_of_quiet fun _ => ⟨by rintro ⟨⟩, rfl⟩

end

theorem ends_raise (cause : Fault) : Ends rank bound (raise cause : Run σ α) := by
  apply ends_of_quiet
  intro state
  refine ⟨?_, rfl⟩
  rintro ⟨⟩

end Run

section

variable {executor : Executor σ} {rank : σ → Nat} (h : executor.Spends rank) {allowance : Nat}
  (state : State σ) (hrank : rank state.executor < allowance)
include h hrank

theorem Node.exec_ends (node : Node) :
    (node.exec executor allowance state).ending ≠ .unfinished := by
  have hnode : Run.Ends rank allowance (node.exec executor allowance) :=
    Node.exec_of_closed (Run.ends_closed h allowance) node fun _ => Run.ends_raise _
  exact (hnode state hrank).1

theorem execScript_ends (statements : List Node) :
    (execScript executor allowance statements state).ending ≠ .unfinished := by
  -- Each look at a predicate costs a call, and calls are left for fewer looks than are allowed.
  have hstatements : Run.Ends rank allowance (execScript executor allowance statements) :=
    Node.execAll_of_closed (Run.ends_closed h allowance) none statements fun _ => Run.ends_raise _
  exact (hstatements state hrank).1

end

theorem Report.unfinished_of_ofEnding {commandsRun : Int} {ending : Ending (Option Status)}
    (h : Report.ofEnding commandsRun ending = .unfinished) : ending = .unfinished := by
  rcases ending with status | fault | _
  · cases h
  · rw [Report.ofEnding] at h
    split at h <;> cases h
  · rfl

theorem Source.run_ends {executor : Executor σ} {rank : σ → Nat} (h : executor.Spends rank)
    {allowance : Nat} (frames : Nat) (source : Source) {start : σ}
    (hrank : rank start < allowance) :
    (source.run frames executor allowance start).ending ≠ .unfinished := by
  rcases hparse : source.parse frames with rejection | statements
  · simp only [Source.run, hparse]
    rintro ⟨⟩
  · simp only [Source.run, hparse]
    intro hunfinished
    exact execScript_ends h ⟨0, 0, start⟩ hrank statements
      (Report.unfinished_of_ofEnding hunfinished)

theorem Rehearsal.executor_spends (limit : Nat) :
    (executor limit).Spends fun rehearsal => limit - rehearsal.calls.length := by
  intro call rehearsal status hstatus
  by_cases hlimit : rehearsal.calls.length < limit
  · simp only [executor, if_pos hlimit, perform, List.length_append, List.length_singleton]
    omega
  · simp only [executor, if_neg hlimit] at hstatus
    cases hstatus

namespace Host

theorem spawned_start (host : Host) (spawn : Spawn) :
    (host.start spawn).2.spawned = host.spawned ++ [spawn] := by
  rw [start]
  split
  · rfl
  split
  · rfl
  simp only
  split <;> rfl

theorem executor_spends (limit : Nat) (directory : Option String) :
    (executor limit directory).Spends fun host => limit - host.spawned.length := by
  intro call host status hstatus
  by_cases hlimit : host.spawned.length < limit
  · have hspawned := spawned_start host ⟨call, directory⟩
    simp only [executor, if_pos hlimit] at hstatus ⊢
    rcases hstart : host.start ⟨call, directory⟩ with ⟨_ | _ | code, after⟩
    all_goals
      rw [hstart] at hspawned
      simp only at hspawned ⊢
      rw [hspawned, List.length_append, List.length_singleton]
      omega
  · simp only [executor, if_neg hlimit] at hstatus
    cases hstatus

end Host

end StatusShell
