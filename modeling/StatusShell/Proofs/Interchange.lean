import StatusShell.Proofs.Lockstep
import StatusShell.Proofs.Termination

namespace StatusShell

variable {α β : Type}

namespace Queues

/-- The same queues with other items. -/
def map (f : α → β) (queues : Queues α) : Queues β :=
  ⟨queues.entries.map fun entry => (entry.1, entry.2.map f)⟩

theorem lookup_map (f : α → β) (program : String) (entries : List (String × List α)) :
    (entries.map fun entry => (entry.1, entry.2.map f)).lookup program =
      (entries.lookup program).map (List.map f) := by
  induction entries with
  | nil => rfl
  | cons entry entries ih =>
      rw [List.map_cons, List.lookup_cons, List.lookup_cons, ih]
      cases program == entry.1 <;> rfl

theorem queue_map (f : α → β) (queues : Queues α) (program : String) :
    (queues.map f).queue program = (queues.queue program).map f := by
  rw [queue, queue, map, lookup_map]
  cases queues.entries.lookup program <;> rfl

theorem mentions_dequeue (queues : Queues α) (program other : String) :
    (queues.dequeue program).2.mentions other = queues.mentions other := by
  rw [dequeue]
  rcases hqueue : queues.queue program with _ | ⟨item, items⟩
  · rfl
  · rw [mentions, mentions, lookup_replace]
    split
    · next heq =>
        rw [queue] at hqueue
        rcases hfound : queues.entries.lookup program with _ | found
        · rw [hfound] at hqueue
          cases hqueue
        · rw [heq, hfound]
          rfl
    · rfl

end Queues

namespace Plan

/-- The outcome to prepare for a plan.  Faults that a host puts down to the
program are prepared as failures of the program, all others as faults of the
executor. -/
def outcome : Plan → Outcome
  | .exits code => .ends (.process code)
  | .failsToStart (.os fault) => .fails (.os fault)
  | .failsToStart (.general .invalidValue detail) => .fails (.general .invalidValue detail)
  | .failsToStart fault => .breaks fault
  | .failsInWait (.os fault) => .fails (.os fault)
  | .failsInWait fault => .breaks fault

/-- What starting a program gives that follows the plan. -/
def started : Plan → Except Fault (Except Fault Int)
  | .exits code => .ok (.ok code)
  | .failsToStart fault => .error fault
  | .failsInWait fault => .ok (.error fault)

theorem answer_failsToStart (program : String) (fault : Fault) :
    (failsToStart fault).outcome.answer program = .fault (Host.startFault program fault) := by
  rcases fault with fault | ⟨kind, detail⟩ | _ | _ | _ | _ <;> try rfl
  cases kind <;> rfl

theorem answer_failsInWait (program : String) (fault : Fault) :
    (failsInWait fault).outcome.answer program = .fault (fault.blamedOn program) := by
  cases fault <;> rfl

end Plan

/-- The rehearsal of what the programs do on a host. -/
def Rehearsal.ofPlans (plans : Queues Plan) : Rehearsal :=
  ⟨plans.map Plan.outcome, .ends (.process 0), []⟩

namespace Host

/-- The next plan of a program.  A program without plans left exits with code
0. -/
def nextPlan (host : Host) (program : String) : Plan :=
  (host.plans.dequeue program).1.getD (.exits 0)

/-- The host after it was asked for a process. -/
def after (host : Host) (spawn : Spawn) : Host :=
  ⟨(host.plans.dequeue spawn.call.name).2, host.spawned ++ [spawn]⟩

/-- The call can be made on a host with the given plans: they mention the
program, and no argument holds a null character. -/
def Callable (plans : Queues Plan) (call : Command) : Prop :=
  plans.mentions call.name = true ∧ ∀ arg ∈ call.args, '\x00' ∉ arg.toList

instance (plans : Queues Plan) (call : Command) : Decidable (Callable plans call) :=
  inferInstanceAs (Decidable (_ ∧ _))

theorem start_of_callable {host : Host} {spawn : Spawn} (h : Callable host.plans spawn.call) :
    host.start spawn = ((host.nextPlan spawn.call.name).started, host.after spawn) := by
  obtain ⟨hknown, hargs⟩ := h
  have hnull : spawn.call.args.any (·.toList.contains '\x00') = false := by
    simpa using hargs
  simp only [start, hnull, hknown, Bool.not_true, Bool.false_eq_true, if_false, nextPlan, after]
  rcases (host.plans.dequeue spawn.call.name).1 with _ | plan
  · rfl
  · cases plan <;> rfl

theorem call_of_callable {limit : Nat} (directory : Option String) {host : Host} {call : Command}
    (h : Callable host.plans call) (hlimit : host.spawned.length < limit) :
    ((executor limit directory).call call host).answer =
        (host.nextPlan call.name).outcome.answer call.name ∧
      ((executor limit directory).call call host).state = host.after ⟨call, directory⟩ := by
  have hstart : host.start ⟨call, directory⟩ = _ := start_of_callable h
  simp only [executor, if_pos hlimit, hstart]
  rcases host.nextPlan call.name with code | fault | fault
  · exact ⟨rfl, rfl⟩
  · exact ⟨(Plan.answer_failsToStart call.name fault).symm, rfl⟩
  · exact ⟨(Plan.answer_failsInWait call.name fault).symm, rfl⟩

/-- The rehearsal stands where the host does, which was given the plans. -/
structure Rehearsed (plans : Queues Plan) (host : Host) (rehearsal : Rehearsal) : Prop where
  known (program : String) : host.plans.mentions program = plans.mentions program
  queue (program : String) :
    rehearsal.prepared.queue program = (host.plans.queue program).map Plan.outcome
  fallback : rehearsal.fallback = .ends (.process 0)
  calls : host.spawned.map Spawn.call = rehearsal.calls

variable {plans : Queues Plan} {host : Host} {rehearsal : Rehearsal} {call : Command}

theorem rehearsed_ofPlans (plans : Queues Plan) :
    Rehearsed plans (ofPlans plans) (Rehearsal.ofPlans plans) :=
  ⟨fun _ => rfl, fun program => Queues.queue_map Plan.outcome plans program, rfl, rfl⟩

theorem Rehearsed.perform (h : Rehearsed plans host rehearsal) (call : Command)
    (directory : Option String) :
    (rehearsal.perform call).1 = (host.nextPlan call.name).outcome ∧
      Rehearsed plans (host.after ⟨call, directory⟩) (rehearsal.perform call).2 := by
  constructor
  · change (rehearsal.prepared.dequeue call.name).1.getD rehearsal.fallback = _
    rw [h.fallback, Queues.dequeue_fst, h.queue, List.head?_map, nextPlan, Queues.dequeue_fst]
    exact Option.getD_map Plan.outcome (.exits 0) _
  · refine ⟨?_, ?_, h.fallback, ?_⟩
    · intro program
      exact (Queues.mentions_dequeue host.plans call.name program).trans (h.known program)
    · intro program
      change (rehearsal.prepared.dequeue call.name).2.queue program =
        ((host.plans.dequeue call.name).2.queue program).map Plan.outcome
      rw [Queues.queue_dequeue, Queues.queue_dequeue, h.queue, h.queue]
      split
      · exact (List.map_tail ..).symm
      · rfl
    · change (host.spawned ++ [_]).map Spawn.call = rehearsal.calls ++ [call]
      rw [List.map_append, h.calls]
      rfl

theorem linked_rehearsal (limit : Nat) (directory : Option String) (hcall : Callable plans call) :
    (executor limit directory).Linked Eq (Rehearsed plans) (Rehearsal.executor limit) call := by
  have hstep : ∀ {host rehearsal}, Rehearsed plans host rehearsal →
      ((executor limit directory).call call host).answer =
          ((Rehearsal.executor limit).call call rehearsal).answer ∧
        Rehearsed plans ((executor limit directory).call call host).state
          ((Rehearsal.executor limit).call call rehearsal).state := by
    intro host rehearsal h
    have hlength : host.spawned.length = rehearsal.calls.length := by
      rw [← h.calls, List.length_map]
    by_cases hlimit : host.spawned.length < limit
    · have hcallable : Callable host.plans call := ⟨(h.known _).trans hcall.1, hcall.2⟩
      obtain ⟨hanswer, hstate⟩ := call_of_callable directory hcallable hlimit
      obtain ⟨houtcome, hafter⟩ := h.perform call directory
      rw [hanswer, hstate]
      simp only [Rehearsal.executor, ← hlength, if_pos hlimit]
      exact ⟨congrArg (Outcome.answer call.name) houtcome.symm, hafter⟩
    · simp only [executor, Rehearsal.executor, ← hlength, if_neg hlimit]
      exact ⟨trivial, h⟩
  exact ⟨fun h => (hstep h).1, fun h _ => (hstep h).2⟩

end Host

theorem Answer.Alike.refl (answer : Answer) : answer.Alike answer := by
  cases answer <;> rfl

theorem AskAlike.eq {made made' : List Request} (h : AskAlike Eq made made') : made = made' := by
  induction made generalizing made' with
  | nil =>
      rcases made' with _ | ⟨request', made'⟩
      · rfl
      · exact h.elim
  | cons request made ih =>
      rcases made' with _ | ⟨request', made'⟩
      · exact h.elim
      rcases request with ⟨role, call, count, depth, answer⟩
      rcases request' with ⟨role', call', count', depth', answer'⟩
      obtain ⟨⟨⟩, ⟨⟩, hrest⟩ := h
      rw [ih (hrest (.refl answer))]

theorem execScript_rehearsed (limit allowance : Nat) (directory : Option String)
    (plans : Queues Plan) {statements : List Node}
    (hcallable : ∀ call ∈ Node.allCommands statements, Host.Callable plans call) :
    let trace := execScript (Host.executor limit directory) allowance statements
      ⟨0, 0, Host.ofPlans plans⟩
    let trace' := execScript (Rehearsal.executor limit) allowance statements
      ⟨0, 0, Rehearsal.ofPlans plans⟩
    trace.ending = trace'.ending ∧
      State.Linked (Host.Rehearsed plans) trace.state trace'.state := by
  intro trace trace'
  have hlinked : ∀ call ∈ Node.allCommands statements, (Host.executor limit directory).Linked Eq
      (Host.Rehearsed plans) (Rehearsal.executor limit) call :=
    fun call hmem => Host.linked_rehearsal limit directory (hcallable call hmem)
  obtain ⟨hasked, hended⟩ := execScript_inStep allowance hlinked ⟨0, 0, Host.ofPlans plans⟩
    ⟨0, 0, Rehearsal.ofPlans plans⟩ ⟨rfl, rfl, Host.rehearsed_ofPlans plans⟩
  have hmade : requests trace.events = requests trace'.events := hasked.eq
  have halike : AllAlike (requests trace.events) (requests trace'.events) := by
    rw [hmade]
    exact List.forall₂_same.mpr fun request _ => .refl request.answer
  obtain ⟨hending, -, hstate⟩ := hended halike
  refine ⟨?_, hstate⟩
  -- the kind of a status is not the status, which is the answer to the same request
  change trace.ending.map Status.kind? = trace'.ending.map Status.kind? at hending
  rcases hvalue : trace.ending with shown | cause | _ <;>
    rcases hvalue' : trace'.ending with shown' | cause' | _ <;>
    rw [hvalue, hvalue'] at hending <;> try cases hending
  · have hanswer : shown.map Answer.status = shown'.map Answer.status := by
      rw [map_status_of_execScript hvalue, map_status_of_execScript hvalue']
      exact congrArg lastAnswer hmade
    rw [Option.map_injective (fun _ _ => Answer.status.inj) hanswer]
  · rfl

/-- A host and a rehearsal of it are interchangeable.  Every source that asks for
known programs only, and gives them no null characters, leads to the same report
or the same fault on both, and to the same calls in the same order.  The run ends
if its loops may look at their predicates more often than calls are taken. -/
theorem Source.run_rehearsed (frames limit allowance : Nat) (directory : Option String)
    (source : Source) (plans : Queues Plan)
    (hcallable : ∀ statements, source.parse frames = .ok statements →
      ∀ call ∈ Node.allCommands statements, Host.Callable plans call) :
    let real := source.run frames (Host.executor limit directory) allowance (Host.ofPlans plans)
    let rehearsed :=
      source.run frames (Rehearsal.executor limit) allowance (Rehearsal.ofPlans plans)
    real.ending = rehearsed.ending ∧
      real.executor.spawned.map Spawn.call = rehearsed.executor.calls ∧
      (limit < allowance → real.ending ≠ .unfinished) := by
  rcases hparse : source.parse frames with rejection | statements
  · simp only [Source.run, hparse]
    refine ⟨trivial, rfl, ?_⟩
    intro _ hending
    cases hending
  · obtain ⟨hending, hstate⟩ :=
      execScript_rehearsed limit allowance directory plans (hcallable statements hparse)
    simp only [Source.run, hparse]
    refine ⟨?_, hstate.executor.calls, ?_⟩
    · rw [hending, hstate.commandCount]
    · intro hlimit hunfinished
      have hends := execScript_ends (Rehearsal.executor_spends limit)
        ⟨0, 0, Rehearsal.ofPlans plans⟩ hlimit statements
      rw [← hending] at hends
      exact hends (Report.unfinished_of_ofEnding hunfinished)

/-- The loop starts its body a second time, and then waits for it in vain. -/
theorem Source.run_rehearsed_lost_child :
    let source := Source.text "while (a) b \"x y\"; c;"
    let plans : Queues Plan :=
      ⟨[("a", []), ("b", [.exits 0, .failsInWait (.os (.coded 10 "No child processes"))]),
        ("c", [.exits 3])]⟩
    (source.run nestingLimit (Rehearsal.executor 9) 10 (Rehearsal.ofPlans plans)).ending =
        .value ⟨none, 126, 4, some "b: No child processes"⟩ ∧
      (source.run nestingLimit (Rehearsal.executor 9) 10 (Rehearsal.ofPlans plans)).executor.calls =
        [⟨"a", []⟩, ⟨"b", ["x y"]⟩, ⟨"a", []⟩, ⟨"b", ["x y"]⟩] := by
  intro source plans
  have hparse : source.parse nestingLimit =
      .ok [.loop ⟨"a", []⟩ (.command ⟨"b", ["x y"]⟩), .command ⟨"c", []⟩] := by
    decide +kernel
  have hcallable : ∀ statements, source.parse nestingLimit = .ok statements →
      ∀ call ∈ Node.allCommands statements, Host.Callable plans call := by
    intro statements h
    rw [hparse] at h
    obtain rfl := Except.ok.inj h
    decide +kernel
  obtain ⟨hending, hcalls, -⟩ :=
    Source.run_rehearsed nestingLimit 9 10 (some "/tmp") source plans hcallable
  rw [← hending, ← hcalls]
  constructor
  · decide +kernel
  · decide +kernel

end StatusShell
