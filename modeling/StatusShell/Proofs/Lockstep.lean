import Mathlib.Data.List.Forall2
import StatusShell.Proofs.Accounts

/-!
Two runs of the same statements with two executors ask the same questions, one
after the other, up to the first question that the executors answer differently.
Only the kind of an answer counts here: whether a status is a success, or which
fault there was.

The executors may also be linked by a relation between their states that is kept
as long as the answers are alike.  Then the relation holds at every question that
both runs ask, and so does whatever it says about the answers.
-/

namespace StatusShell

variable {σ τ α β κ ι : Type}

/-- Answers of one kind: two successes, two failures or the same fault. -/
def Answer.Alike : Answer → Answer → Prop
  | .status found, .status found' => found.succeeded = found'.succeeded
  | .fault cause, .fault cause' => cause = cause'
  | _, _ => False

instance : (answer answer' : Answer) → Decidable (answer.Alike answer')
  | .status found, .status found' =>
      inferInstanceAs (Decidable (found.succeeded = found'.succeeded))
  | .fault cause, .fault cause' => inferInstanceAs (Decidable (cause = cause'))
  | .status _, .fault _ => .isFalse id
  | .fault _, .status _ => .isFalse id

/-- What a request asks, without the answer to it. -/
structure Question where
  role : Role
  call : Command
  commandCount : Int
  loopDepth : Int
  deriving DecidableEq, Repr

def Request.question (request : Request) : Question :=
  ⟨request.role, request.call, request.commandCount, request.loopDepth⟩

/-- The answers are alike all the way. -/
def AllAlike (made made' : List Request) : Prop :=
  List.Forall₂ (fun request request' => request.answer.Alike request'.answer) made made'

/-- The requests ask the same up to the first answers that are not alike, and the
answers to all that both ask meet a condition. -/
def AskAlike (Met : Answer → Answer → Prop) : List Request → List Request → Prop
  | [], [] => True
  | request :: made, request' :: made' =>
      request.question = request'.question ∧ Met request.answer request'.answer ∧
        (request.answer.Alike request'.answer → AskAlike Met made made')
  | _, _ => False

section

variable {Met : Answer → Answer → Prop} {made made' : List Request}

theorem AskAlike.append {more more' : List Request} (h : AskAlike Met made made')
    (hmore : AllAlike made made' → AskAlike Met more more') :
    AskAlike Met (made ++ more) (made' ++ more') := by
  induction made generalizing made' with
  | nil =>
      rcases made' with _ | ⟨request', made'⟩
      · exact hmore .nil
      · exact h.elim
  | cons request made ih =>
      rcases made' with _ | ⟨request', made'⟩
      · exact h.elim
      obtain ⟨hquestion, hmet, hrest⟩ := h
      refine ⟨hquestion, hmet, fun halike => ih (hrest halike) fun hall => ?_⟩
      exact hmore (.cons halike hall)

theorem AskAlike.allAlike_of_append {more more' : List Request} (h : AskAlike Met made made')
    (hall : AllAlike (made ++ more) (made' ++ more')) :
    AllAlike made made' ∧ AllAlike more more' := by
  induction made generalizing made' with
  | nil =>
      rcases made' with _ | ⟨request', made'⟩
      · exact ⟨.nil, hall⟩
      · exact h.elim
  | cons request made ih =>
      rcases made' with _ | ⟨request', made'⟩
      · exact h.elim
      obtain ⟨halike, hrest⟩ := List.forall₂_cons.mp hall
      obtain ⟨hmade, hmore⟩ := ih (h.2.2 halike) hrest
      exact ⟨.cons halike hmade, hmore⟩

end

/-- The log lines of the interpreter itself, without those of the executor. -/
def interpreterLog (events : List Event) : List String :=
  (events.filter (·.channel ≠ .processes)).map Event.logLine

theorem interpreterLog_append (events more : List Event) :
    interpreterLog (events ++ more) = interpreterLog events ++ interpreterLog more := by
  simp [interpreterLog]

theorem interpreterLog_map_process (notes : List ProcessNote) :
    interpreterLog (notes.map .process) = [] := by
  simp [interpreterLog, Event.channel]

/-- States of the interpreter that differ in nothing but the executors, which
are linked. -/
structure State.Linked (Link : σ → τ → Prop) (state : State σ) (state' : State τ) : Prop where
  commandCount : state.commandCount = state'.commandCount
  loopDepth : state.loopDepth = state'.loopDepth
  executor : Link state.executor state'.executor

/-- Traces that end alike, with values of one kind. -/
structure Trace.EndAlike (Link : σ → τ → Prop) (kind : α → κ) (trace : Trace σ α)
    (trace' : Trace τ α) : Prop where
  ending : trace.ending.map kind = trace'.ending.map kind
  log : interpreterLog trace.events = interpreterLog trace'.events
  state : State.Linked Link trace.state trace'.state

/-- Traces in step: they ask the same as long as the answers are alike, and if
these are alike all the way, then they end alike. -/
structure Trace.InStep (Met : Answer → Answer → Prop) (Link : σ → τ → Prop) (kind : α → κ)
    (trace : Trace σ α) (trace' : Trace τ α) : Prop where
  asked : AskAlike Met (requests trace.events) (requests trace'.events)
  ended : AllAlike (requests trace.events) (requests trace'.events) →
    trace.EndAlike Link kind trace'

namespace Run

/-- Runs that are in step from all states that are linked. -/
def InStep (Met : Answer → Answer → Prop) (Link : σ → τ → Prop) (kind : α → κ)
    (run : Run σ α) (run' : Run τ α) : Prop :=
  ∀ state state', State.Linked Link state state' →
    (run state).InStep Met Link kind (run' state')

variable {Met : Answer → Answer → Prop} {Link : σ → τ → Prop} {kind : α → κ}

theorem inStep_of_quiet {run : Run σ α} {run' : Run τ α}
    (h : ∃ ending ending' events, ending.map kind = ending'.map kind ∧ requests events = [] ∧
      (∀ state, run state = ⟨ending, events, state⟩) ∧
      ∀ state, run' state = ⟨ending', events, state⟩) : InStep Met Link kind run run' := by
  intro state state' hlinked
  obtain ⟨ending, ending', events, hending, hrequests, hrun, hrun'⟩ := h
  rw [hrun, hrun']
  refine ⟨?_, fun _ => ⟨hending, rfl, hlinked⟩⟩
  rw [hrequests]
  trivial

theorem inStep_pure {value value' : α} (h : kind value = kind value') :
    InStep Met Link kind (pure value) (pure value') :=
  inStep_of_quiet ⟨.value value, .value value', [], congrArg Ending.value h, rfl,
    fun _ => rfl, fun _ => rfl⟩

theorem inStep_giveUp : InStep Met Link kind giveUp giveUp :=
  inStep_of_quiet ⟨.unfinished, .unfinished, [], rfl, rfl, fun _ => rfl, fun _ => rfl⟩

theorem inStep_raise (cause : Fault) : InStep Met Link kind (raise cause) (raise cause) :=
  inStep_of_quiet ⟨.fault cause, .fault cause, [], rfl, rfl, fun _ => rfl, fun _ => rfl⟩

theorem inStep_record {event : Event} (h : event.request? = none) :
    InStep Met Link id (record event) (record event) :=
  inStep_of_quiet ⟨.value (), .value (), [event], rfl, by simp [requests, h],
    fun _ => rfl, fun _ => rfl⟩

theorem interpreterLog_request (executor : Executor σ) (role : Role) (call : Command)
    (state : State σ) :
    interpreterLog (request executor role call state).events =
      [Channel.commands.name ++ ": " ++ ("run " ++ call.logged)] := by
  change _ :: interpreterLog (List.map .process _) = _
  rw [interpreterLog_map_process]
  rfl

theorem exists_requests_bind (first : Run σ α) (next : α → Run σ β) (state : State σ) :
    ∃ more, requests ((first >>= next) state).events =
      requests (first state).events ++ more := by
  rcases hending : (first state).ending with value | cause | _
  · rw [bind_of_value hending]
    exact ⟨_, requests_append _ _⟩
  · rw [bind_of_fault hending]
    exact ⟨[], (List.append_nil _).symm⟩
  · rw [bind_of_unfinished hending]
    exact ⟨[], (List.append_nil _).symm⟩

theorem InStep.bind {first : Run σ α} {first' : Run τ α} {next : α → Run σ β}
    {next' : α → Run τ β} {kind' : β → ι} (hfirst : InStep Met Link kind first first')
    (hnext : ∀ value value', kind value = kind value' →
      InStep Met Link kind' (next value) (next' value')) :
    InStep Met Link kind' (first >>= next) (first' >>= next') := by
  intro state state' hlinked
  obtain ⟨hasked, hended⟩ := hfirst state state' hlinked
  by_cases halike : AllAlike (requests (first state).events) (requests (first' state').events)
  · obtain ⟨hending, hlog, hstate⟩ := hended halike
    rcases hvalue : (first state).ending with value | cause | _ <;>
      rcases hvalue' : (first' state').ending with value' | cause' | _ <;>
      rw [hvalue, hvalue'] at hending <;> try cases hending
    · obtain ⟨hasked', hended'⟩ := hnext value value' (Ending.value.inj hending) _ _ hstate
      rw [bind_of_value hvalue, bind_of_value hvalue']
      constructor
      · simp only [requests_append]
        exact hasked.append fun _ => hasked'
      · simp only [requests_append]
        intro hall
        obtain ⟨hending', hlog', hstate'⟩ := hended' (hasked.allAlike_of_append hall).2
        refine ⟨hending', ?_, hstate'⟩
        rw [interpreterLog_append, interpreterLog_append, hlog, hlog']
    · rw [bind_of_fault hvalue, bind_of_fault hvalue']
      exact ⟨hasked, fun _ => ⟨rfl, hlog, hstate⟩⟩
    · rw [bind_of_unfinished hvalue, bind_of_unfinished hvalue']
      exact ⟨hasked, fun _ => ⟨rfl, hlog, hstate⟩⟩
  · obtain ⟨more, hmore⟩ := exists_requests_bind first next state
    obtain ⟨more', hmore'⟩ := exists_requests_bind first' next' state'
    constructor
    · rw [hmore, hmore']
      exact hasked.append fun hall => absurd hall halike
    · rw [hmore, hmore']
      intro hall
      exact absurd (hasked.allAlike_of_append hall).1 halike

theorem InStep.deeper {run : Run σ α} {run' : Run τ α} (h : InStep Met Link kind run run') :
    InStep Met Link kind (deeper run) (deeper run') := by
  intro state state' hlinked
  have hinner : State.Linked Link { state with loopDepth := state.loopDepth + 1 }
      { state' with loopDepth := state'.loopDepth + 1 } :=
    ⟨hlinked.commandCount, congrArg (· + 1) hlinked.loopDepth, hlinked.executor⟩
  obtain ⟨hasked, hended⟩ := h _ _ hinner
  refine ⟨hasked, fun hall => ?_⟩
  obtain ⟨hending, hlog, hstate⟩ := hended hall
  exact ⟨hending, hlog, hstate.commandCount, congrArg (· - 1) hstate.loopDepth, hstate.executor⟩

end Run

/-- From linked states, the answers to the call meet the condition, and if they
are alike, then the states behind them are linked again. -/
structure Executor.Linked (Met : Answer → Answer → Prop) (Link : σ → τ → Prop)
    (executor : Executor σ) (executor' : Executor τ) (call : Command) : Prop where
  met {state : σ} {state' : τ} : Link state state' →
    Met (executor.call call state).answer (executor'.call call state').answer
  state {state : σ} {state' : τ} : Link state state' →
    (executor.call call state).answer.Alike (executor'.call call state').answer →
      Link (executor.call call state).state (executor'.call call state').state

open Run

section

variable {Met : Answer → Answer → Prop} {Link : σ → τ → Prop} {executor : Executor σ}
  {executor' : Executor τ} {call : Command}

theorem inStep_request (h : executor.Linked Met Link executor' call) (role : Role) :
    InStep Met Link Status.succeeded (request executor role call)
      (request executor' role call) := by
  intro state state' hlinked
  obtain ⟨hcount, hdepth, hexecutor⟩ := hlinked
  constructor
  · rw [requests_request, requests_request]
    refine ⟨?_, h.met hexecutor, fun _ => trivial⟩
    rw [Request.question, Request.question, hcount, hdepth]
  · rw [requests_request, requests_request]
    intro hall
    have halike := (List.forall₂_cons.mp hall).1
    refine ⟨?_, ?_, congrArg (· + 1) hcount, hdepth, h.state hexecutor halike⟩
    · revert halike
      simp only [request]
      rcases (executor.call call state.executor).answer with status | cause <;>
        rcases (executor'.call call state'.executor).answer with status' | cause' <;>
        intro halike
      · exact congrArg Ending.value halike
      · exact halike.elim
      · exact halike.elim
      · obtain rfl : cause = cause' := halike
        rfl
    · rw [interpreterLog_request, interpreterLog_request]

/-- The kind of a status that may be missing. -/
def Status.kind? (shown : Option Status) : Option Bool :=
  shown.map Status.succeeded

theorem inStep_repeatWhile (name : String) {predicate : Run σ Status} {predicate' : Run τ Status}
    {body : Run σ (Option Status)} {body' : Run τ (Option Status)}
    (hpredicate : InStep Met Link Status.succeeded predicate predicate')
    (hbody : InStep Met Link Status.kind? body body') (allowance : Nat)
    {last last' : Option Status} (hlast : Status.kind? last = Status.kind? last')
    (iterations : Nat) :
    InStep Met Link (Prod.map Status.kind? id)
      (repeatWhile name predicate body allowance last iterations)
      (repeatWhile name predicate' body' allowance last' iterations) := by
  induction allowance generalizing last last' iterations with
  | zero => exact inStep_giveUp
  | succ allowance ih =>
      refine hpredicate.bind fun decision decision' hdecision => ?_
      rw [hdecision]
      split
      · refine hbody.bind fun shown shown' hshown => ?_
        rcases shown with _ | status <;> rcases shown' with _ | status' <;> try cases hshown
        · exact ih hlast (iterations + 1)
        · have hstatus : status.succeeded = status'.succeeded := Option.some.inj hshown
          simp only [hstatus]
          split
          · exact ih hshown (iterations + 1)
          · refine (inStep_record rfl).bind fun _ _ _ => inStep_pure ?_
            exact congrArg (·, iterations + 1) hshown
      · exact inStep_pure (congrArg (·, iterations) hlast)

end

namespace Node

variable {Met : Answer → Answer → Prop} {Link : σ → τ → Prop} {executor : Executor σ}
  {executor' : Executor τ} (allowance : Nat)

mutual

theorem inStep_exec : (node : Node) →
    (∀ call ∈ node.commands, executor.Linked Met Link executor' call) →
    InStep Met Link Status.kind? (exec executor allowance node) (exec executor' allowance node)
  | .comment _, _ => by
      rw [exec, exec]
      exact inStep_pure rfl
  | .command call, h => by
      rw [exec, exec]
      refine (inStep_request (h call (List.mem_singleton_self call)) .statement).bind ?_
      exact fun status status' hstatus => inStep_pure (congrArg some hstatus)
  | .block statements, h => by
      rw [exec, exec]
      exact inStep_execAll statements rfl h
  | .ifThen predicate branch, h => by
      rw [exec, exec]
      obtain ⟨hpredicate, hbranch⟩ := List.forall_mem_cons.mp h
      refine (inStep_request hpredicate .predicate).bind fun decision decision' hdecision => ?_
      rw [hdecision]
      split
      · exact inStep_exec branch hbranch
      · exact inStep_pure rfl
  | .ifElse predicate branch otherwise, h => by
      rw [exec, exec]
      obtain ⟨hpredicate, hbranches⟩ := List.forall_mem_cons.mp h
      obtain ⟨hbranch, hotherwise⟩ := List.forall_mem_append.mp hbranches
      refine (inStep_request hpredicate .predicate).bind fun decision decision' hdecision => ?_
      rw [hdecision]
      split
      · exact inStep_exec branch hbranch
      · exact inStep_exec otherwise hotherwise
  | .loop predicate body, h => by
      rw [exec, exec]
      obtain ⟨hpredicate, hbody⟩ := List.forall_mem_cons.mp h
      have hrepeat := inStep_repeatWhile predicate.name
        (inStep_request hpredicate .predicate) (inStep_exec body hbody) allowance
        (rfl : Status.kind? none = Status.kind? none) 0
      refine hrepeat.deeper.bind ?_
      rintro ⟨last, iterations⟩ ⟨last', iterations'⟩ hresult
      obtain ⟨hlast, rfl⟩ := Prod.mk.inj hresult
      exact (inStep_record rfl).bind fun _ _ _ => inStep_pure hlast
  | .stray _, _ => by
      rw [exec, exec]
      exact inStep_raise .strayStatement

theorem inStep_execAll {last last' : Option Status} : (statements : List Node) →
    Status.kind? last = Status.kind? last' →
    (∀ call ∈ allCommands statements, executor.Linked Met Link executor' call) →
    InStep Met Link Status.kind? (execAll executor allowance last statements)
      (execAll executor' allowance last' statements)
  | [], hlast, _ => by
      rw [execAll, execAll]
      exact inStep_pure hlast
  | statement :: statements, hlast, h => by
      rw [execAll, execAll]
      obtain ⟨hfirst, hrest⟩ := List.forall_mem_append.mp h
      refine (inStep_exec statement hfirst).bind fun shown shown' hshown => ?_
      rcases shown with _ | status <;> rcases shown' with _ | status' <;> try cases hshown
      · exact inStep_execAll statements hlast hrest
      · have hstatus : status.succeeded = status'.succeeded := Option.some.inj hshown
        simp only [hstatus]
        split
        · exact inStep_execAll statements hshown hrest
        · exact inStep_pure hshown

end

end Node

theorem execScript_inStep {Met : Answer → Answer → Prop} {Link : σ → τ → Prop}
    {executor : Executor σ} {executor' : Executor τ} (allowance : Nat) {statements : List Node}
    (h : ∀ call ∈ Node.allCommands statements, executor.Linked Met Link executor' call) :
    InStep Met Link Status.kind? (execScript executor allowance statements)
      (execScript executor' allowance statements) :=
  Node.inStep_execAll allowance statements rfl h

theorem map_status_of_execScript {executor : Executor σ} {allowance : Nat}
    {statements : List Node} {state : State σ} {shown : Option Status}
    (h : (execScript executor allowance statements state).ending = .value shown) :
    shown.map Answer.status =
      lastAnswer (requests (execScript executor allowance statements state).events) := by
  have hfast : Trace.FailFast id none (execScript executor allowance statements state) :=
    Node.failFast_execAll executor allowance statements passing_none state
  simpa using hfast.shown h

end StatusShell
