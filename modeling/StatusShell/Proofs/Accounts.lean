import StatusShell.Proofs.FailFast
import StatusShell.Proofs.RunLaws

namespace StatusShell

variable {σ α β : Type}

/-- The fault that a request ends in, as the run passes it on. -/
def Request.fault? (request : Request) : Option Fault :=
  match request.answer with
  | .status _ => none
  | .fault cause => some (cause.blamedOn request.call.name)

/-- A trace from the given state whose requests explain the count of commands
and the fault that ended it, and which made at least the given number of them
if it is unfinished. -/
structure Trace.Accounts (state : State σ) (least : Nat) (trace : Trace σ α) : Prop where
  counted : trace.state.commandCount = state.commandCount + (requests trace.events).length
  faulted {fault : Fault} : trace.ending = .fault fault →
    ∃ before request, requests trace.events = before ++ [request] ∧ request.fault? = some fault
  unfinished : trace.ending = .unfinished → least ≤ (requests trace.events).length

namespace Run

/-- All traces of the run account for themselves. -/
def Accounts (least : Nat) (run : Run σ α) : Prop :=
  ∀ state, (run state).Accounts state least

variable {least : Nat}

theorem Accounts.mono {fewer : Nat} {run : Run σ α} (h : Accounts least run)
    (hle : fewer ≤ least) : Accounts fewer run := by
  intro state
  have hrun := h state
  refine ⟨hrun.counted, hrun.faulted, ?_⟩
  intro hending
  exact Nat.le_trans hle (hrun.unfinished hending)

theorem accounts_of_quiet {run : Run σ α}
    (h : ∀ state, ∃ value events, run state = ⟨.value value, events, state⟩ ∧
      requests events = []) : Accounts least run := by
  intro state
  obtain ⟨value, events, hrun, hrequests⟩ := h state
  rw [hrun]
  refine ⟨?_, nofun, nofun⟩
  simp [hrequests]

theorem accounts_pure (value : α) : Accounts least (pure value : Run σ α) :=
  accounts_of_quiet fun _ => ⟨value, [], rfl, rfl⟩

theorem accounts_giveUp : Accounts 0 (giveUp : Run σ α) :=
  fun _ => ⟨by simp [giveUp, requests], nofun, fun _ => Nat.zero_le _⟩

theorem accounts_request (executor : Executor σ) (role : Role) (call : Command) :
    Accounts least (request executor role call) := by
  intro state
  refine ⟨?_, ?_, ?_⟩
  · rw [requests_request]
    rfl
  · intro fault hfault
    refine ⟨[], _, requests_request executor role call state, ?_⟩
    rw [request] at hfault
    rw [Request.fault?]
    cases hanswer : (executor.call call state.executor).answer with
    | status status => simp [hanswer] at hfault
    | fault cause => simpa [hanswer] using hfault
  · intro hunfinished
    rw [request] at hunfinished
    cases hanswer : (executor.call call state.executor).answer with
    | status status => simp [hanswer] at hunfinished
    | fault cause => simp [hanswer] at hunfinished

theorem bind_of_fault {first : Run σ α} {state : State σ} {cause : Fault}
    (h : (first state).ending = .fault cause) (next : α → Run σ β) :
    (first >>= next) state = ⟨.fault cause, (first state).events, (first state).state⟩ := by
  change andThen first next state = _
  rw [andThen, h]

theorem bind_of_unfinished {first : Run σ α} {state : State σ}
    (h : (first state).ending = .unfinished) (next : α → Run σ β) :
    (first >>= next) state = ⟨.unfinished, (first state).events, (first state).state⟩ := by
  change andThen first next state = _
  rw [andThen, h]

theorem Accounts.bind_of_made {first : Run σ α} {next : α → Run σ β} {rest : Nat}
    (hfirst : Accounts least first)
    (hmade : ∀ state value, (first state).ending = .value value →
      least ≤ (requests (first state).events).length + rest)
    (hnext : ∀ value, Accounts rest (next value)) : Accounts least (first >>= next) := by
  intro state
  have hfirst := hfirst state
  cases hending : (first state).ending with
  | value value =>
      have hnext := hnext value (first state).state
      rw [bind_of_value hending]
      refine ⟨?_, ?_, ?_⟩
      · rw [hnext.counted, hfirst.counted, requests_append, List.length_append]
        omega
      · intro fault hfault
        obtain ⟨before, request, hrequests, hrequest⟩ := hnext.faulted hfault
        refine ⟨requests (first state).events ++ before, request, ?_, hrequest⟩
        rw [requests_append, hrequests, List.append_assoc]
      · intro hunfinished
        have hstart := hmade state value hending
        have hmore := hnext.unfinished hunfinished
        rw [requests_append, List.length_append]
        omega
  | fault cause =>
      rw [bind_of_fault hending]
      refine ⟨hfirst.counted, ?_, nofun⟩
      rintro fault ⟨rfl⟩
      exact hfirst.faulted hending
  | unfinished =>
      rw [bind_of_unfinished hending]
      exact ⟨hfirst.counted, nofun, fun _ => hfirst.unfinished hending⟩

theorem Accounts.bind {first : Run σ α} {next : α → Run σ β} (hfirst : Accounts least first)
    (hnext : ∀ value, Accounts least (next value)) : Accounts least (first >>= next) :=
  hfirst.bind_of_made (fun _ _ _ => Nat.le_add_left _ _) hnext

theorem accounts_request_bind (executor : Executor σ) (role : Role) (call : Command)
    {next : Status → Run σ β} (hnext : ∀ status, Accounts least (next status)) :
    Accounts (least + 1) (request executor role call >>= next) := by
  refine (accounts_request executor role call).bind_of_made ?_ hnext
  intro state status _
  rw [requests_request, List.length_singleton]
  omega

theorem Accounts.deeper {run : Run σ α} (h : Accounts least run) :
    Accounts least (deeper run) := by
  intro state
  have hrun := h { state with loopDepth := state.loopDepth + 1 }
  exact ⟨hrun.counted, hrun.faulted, hrun.unfinished⟩

theorem accounts_repeatWhile (executor : Executor σ) (name : String) (call : Command)
    {body : Run σ (Option Status)} {allowance : Nat} (hle : allowance ≤ least)
    (hbody : Accounts least body) (last : Option Status) (iterations : Nat) :
    Accounts allowance (repeatWhile name (request executor .predicate call) body allowance last
      iterations) := by
  -- Each look at the predicate is a request.
  induction allowance generalizing last iterations with
  | zero => exact accounts_giveUp
  | succ allowance ih =>
      have hrest := ih (Nat.le_of_succ_le hle)
      refine accounts_request_bind executor .predicate call fun decision => ?_
      split
      · refine (hbody.mono (Nat.le_of_succ_le hle)).bind fun shown => ?_
        cases shown with
        | none => exact hrest last (iterations + 1)
        | some status =>
            simp only
            split
            · exact hrest (some status) (iterations + 1)
            · exact accounts_of_quiet fun _ => ⟨_, _, rfl, rfl⟩
      · exact accounts_pure _

theorem accounts_closed (executor : Executor σ) (allowance : Nat) :
    Closed executor allowance (Accounts allowance) where
  pure := accounts_pure
  bind := Accounts.bind
  request := accounts_request executor
  repeated call _ hbody :=
    (accounts_repeatWhile executor call.name call (Nat.le_refl _) hbody none 0).deeper
  loopEnded _ _ := accounts_of_quiet fun _ => ⟨(), _, rfl, rfl⟩

end Run

theorem execScript_accounts (executor : Executor σ) (allowance : Nat) {statements : List Node}
    (h : Node.firstStray? statements = none) :
    Run.Accounts allowance (execScript executor allowance statements) := by
  apply Node.execAll_of_closed (Run.accounts_closed executor allowance)
  simp [h]

end StatusShell
