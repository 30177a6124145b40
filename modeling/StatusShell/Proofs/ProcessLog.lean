import StatusShell.Proofs.Reports
import StatusShell.Proofs.Termination

namespace StatusShell

variable {σ α β : Type}

/-- The log line comes from the channel. -/
def Channel.owns (channel : Channel) (line : String) : Bool :=
  (channel.name ++ ": ").toList.isPrefixOf line.toList

namespace Request

/-- The code with which the process of the request exited, if there was one that did. -/
def exitedWith? (request : Request) : Option Int :=
  match request.answer with
  | .status (.process code) => some code
  | _ => none

/-- What a host logs for the request: that it is made, that a process is started for it, and
the code with which the process exits. -/
def lines (request : Request) : List String :=
  [Channel.commands.name ++ ": run " ++ request.call.logged,
    Channel.processes.name ++ ": spawn " ++ request.call.logged] ++
    (request.exitedWith?.map fun code => Channel.processes.name ++ ": " ++ request.call.name ++
      " exited with " ++ toString code).toList

/-- The events behind the lines. -/
def chronicle (request : Request) : List Event :=
  .request request :: .process (.starting request.call) ::
    (request.exitedWith?.map fun code => .process (.exited request.call.name code)).toList

theorem map_logLine_chronicle (request : Request) :
    request.chronicle.map Event.logLine = request.lines := by
  have hrun : ∀ text, ": " ++ ("run " ++ text) = ": run " ++ text := by
    intro text
    rw [← String.append_assoc]
    rfl
  have hspawn : ∀ text, ": " ++ ("spawn " ++ text) = ": spawn " ++ text := by
    intro text
    rw [← String.append_assoc]
    rfl
  rw [chronicle, lines, List.map_cons, List.map_cons]
  cases request.exitedWith? with
  | none =>
      simp [Event.logLine, Event.channel, Event.message, String.append_assoc, hrun, hspawn]
  | some code =>
      simp [Event.logLine, Event.channel, Event.message, String.append_assoc, hrun, hspawn]

end Request

namespace Channel

theorem not_begins_of_ne {channel other : Channel} (h : channel ≠ other) :
    ¬ (channel.name ++ ": ").toList <+: (other.name ++ ": ").toList := by
  revert h
  cases channel <;> cases other <;> decide

theorem owns_logLine (channel : Channel) (event : Event) :
    channel.owns event.logLine = decide (event.channel = channel) := by
  have hline : (event.channel.name ++ ": ").toList <+: event.logLine.toList := by
    have happend : event.logLine.toList =
        (event.channel.name ++ ": ").toList ++ event.message.toList := String.toList_append
    rw [happend]
    exact List.prefix_append ..
  rw [owns]
  by_cases hchannel : event.channel = channel
  · rw [decide_eq_true hchannel, List.isPrefixOf_iff_prefix, ← hchannel]
    exact hline
  · rw [decide_eq_false hchannel, Bool.eq_false_iff, ne_eq, List.isPrefixOf_iff_prefix]
    intro hother
    rcases List.prefix_or_prefix_of_prefix hline hother with h | h
    · exact not_begins_of_ne hchannel h
    · exact not_begins_of_ne (Ne.symm hchannel) h

end Channel

theorem filter_map_logLine (events : List Event) :
    (events.map Event.logLine).filter (!Channel.controlFlow.owns ·) =
      (events.filter (·.channel ≠ .controlFlow)).map Event.logLine := by
  rw [List.filter_map]
  congr 2
  funext event
  simp [Channel.owns_logLine]

theorem Host.executor_call (limit : Nat) (directory : Option String) (call : Command)
    (host : Host) :
    let response := (executor limit directory).call call host
    ((∃ code, response.answer = .status (.process code) ∧
        response.notes = [.starting call, .exited call.name code]) ∨
      ∃ cause, response.answer = .fault cause ∧ response.notes = [.starting call]) ∧
    response.state.spawned =
      host.spawned ++ [⟨call, directory⟩].take (limit - host.spawned.length) := by
  have hspawned := spawned_start host ⟨call, directory⟩
  by_cases hlimit : host.spawned.length < limit
  · obtain ⟨room, hroom⟩ : ∃ room, limit - host.spawned.length = room + 1 :=
      ⟨limit - host.spawned.length - 1, by omega⟩
    rw [hroom, List.take_succ_cons, List.take_nil]
    simp only [executor, if_pos hlimit]
    rcases hstart : host.start ⟨call, directory⟩ with ⟨cause | cause | code, after⟩
    all_goals rw [hstart] at hspawned
    · exact ⟨.inr ⟨_, rfl, rfl⟩, hspawned⟩
    · exact ⟨.inr ⟨_, rfl, rfl⟩, hspawned⟩
    · exact ⟨.inl ⟨code, rfl, rfl⟩, hspawned⟩
  · have hroom : limit - host.spawned.length = 0 := by omega
    have hrefused : (executor limit directory).call call host =
        ⟨.fault .callLimit, [.starting call], host⟩ := by
      simp only [executor, if_neg hlimit]
    rw [hroom, hrefused]
    exact ⟨.inr ⟨_, rfl, rfl⟩, (List.append_nil _).symm⟩

/-- The trace logs what its requests ask for and no more, besides what becomes of loops.  The
processes are those of the requests, as far as there is room for them. -/
structure Trace.Chronicled (limit : Nat) (directory : Option String) (state : State Host)
    (trace : Trace Host α) : Prop where
  events : trace.events.filter (·.channel ≠ .controlFlow) =
    (requests trace.events).flatMap Request.chronicle
  answered : ∀ request ∈ requests trace.events, request.exitedWith? = none →
    ∃ cause, request.answer = .fault cause
  spawned : trace.state.executor.spawned = state.executor.spawned ++
    ((requests trace.events).take (limit - state.executor.spawned.length)).map
      fun request => ⟨request.call, directory⟩

namespace Run

def Chronicled (limit : Nat) (directory : Option String) (run : Run Host α) : Prop :=
  ∀ state, (run state).Chronicled limit directory state

variable {limit : Nat} {directory : Option String}

theorem chronicled_of_quiet {run : Run Host α}
    (h : ∀ state, (∀ event ∈ (run state).events, event.channel = .controlFlow) ∧
      (run state).state = state) : Chronicled limit directory run := by
  intro state
  obtain ⟨hevents, hstate⟩ := h state
  have hrequests : requests (run state).events = [] := by
    rw [requests, List.filterMap_eq_nil_iff]
    exact fun event hevent => Event.request?_of_controlFlow (hevents event hevent)
  refine ⟨?_, ?_, ?_⟩
  · rw [hrequests, List.flatMap_nil, List.filter_eq_nil_iff]
    simpa using hevents
  · simp [hrequests]
  · simp [hrequests, hstate]

theorem Chronicled.bind {first : Run Host α} {next : α → Run Host β}
    (hfirst : Chronicled limit directory first)
    (hnext : ∀ value, Chronicled limit directory (next value)) :
    Chronicled limit directory (first >>= next) := by
  intro state
  have hfirst := hfirst state
  rcases hending : (first state).ending with value | cause | _
  · have hnext := hnext value (first state).state
    rw [bind_of_value hending]
    refine ⟨?_, ?_, ?_⟩
    · rw [List.filter_append, hfirst.events, hnext.events, requests_append, List.flatMap_append]
    · intro request hmem
      rw [requests_append, List.mem_append] at hmem
      rcases hmem with hmem | hmem
      · exact hfirst.answered request hmem
      · exact hnext.answered request hmem
    · have hroom : limit - (first state).state.executor.spawned.length =
          limit - state.executor.spawned.length - (requests (first state).events).length := by
        rw [hfirst.spawned, List.length_append, List.length_map, List.length_take]
        omega
      rw [hnext.spawned, hroom, hfirst.spawned, requests_append, List.take_append,
        List.map_append, List.append_assoc]
  · rw [bind_of_fault hending]
    exact ⟨hfirst.events, hfirst.answered, hfirst.spawned⟩
  · rw [bind_of_unfinished hending]
    exact ⟨hfirst.events, hfirst.answered, hfirst.spawned⟩

theorem filter_events_request (executor : Executor σ) (role : Role) (call : Command)
    (state : State σ) :
    (request executor role call state).events.filter (·.channel ≠ .controlFlow) =
      (request executor role call state).events := by
  rw [List.filter_eq_self]
  intro event hevent
  rcases List.mem_cons.mp hevent with rfl | hnote
  · rfl
  · obtain ⟨note, -, rfl⟩ := List.mem_map.mp hnote
    rfl

theorem chronicled_request (role : Role) (call : Command) :
    Chronicled limit directory (request (Host.executor limit directory) role call) := by
  intro state
  obtain ⟨hanswer, hspawned⟩ := Host.executor_call limit directory call state.executor
  have hrequests := requests_request (Host.executor limit directory) role call state
  refine ⟨?_, ?_, ?_⟩
  · rw [hrequests, filter_events_request, List.flatMap_singleton, Request.chronicle, request]
    rcases hanswer with ⟨code, hanswer, hnotes⟩ | ⟨cause, hanswer, hnotes⟩
    · rw [hanswer, hnotes]
      rfl
    · rw [hanswer, hnotes]
      rfl
  · rw [hrequests]
    intro made hmade hnone
    obtain rfl := List.mem_singleton.mp hmade
    rcases hanswer with ⟨code, hanswer, -⟩ | ⟨cause, hanswer, -⟩
    · rw [Request.exitedWith?, hanswer] at hnone
      cases hnone
    · exact ⟨cause, hanswer⟩
  · rw [hrequests, List.map_take]
    exact hspawned

theorem chronicled_closed (limit : Nat) (directory : Option String) (allowance : Nat) :
    Closed (Host.executor limit directory) allowance (Chronicled limit directory) := by
  refine closed_of_controlFlow ?_ Chronicled.bind chronicled_request ?_ ?_ ?_
  · exact fun _ => chronicled_of_quiet fun _ => ⟨by simp [pure], rfl⟩
  · intro _ run hrun state
    obtain ⟨hevents, hanswered, hspawned⟩ := hrun { state with loopDepth := state.loopDepth + 1 }
    exact ⟨hevents, hanswered, hspawned⟩
  · exact fun event hevent => chronicled_of_quiet fun _ => ⟨by simpa [record] using hevent, rfl⟩
  · exact chronicled_of_quiet fun _ => ⟨by simp [giveUp], rfl⟩

end Run

theorem execScript_chronicled (limit : Nat) (directory : Option String) (allowance : Nat)
    (statements : List Node) :
    Run.Chronicled limit directory
      (execScript (Host.executor limit directory) allowance statements) := by
  apply Node.execAll_of_closed (Run.chronicled_closed limit directory allowance)
  exact fun _ => Run.chronicled_of_quiet fun _ => ⟨by simp [Run.raise], rfl⟩

/-- The run was ended by a fault: one in running a program, which is reported with an exit code
of its own, or another one, which escapes. -/
inductive Ending.ByFault : Ending Report → Prop where
  | reported {report : Report} (herror : report.error.isSome = true)
      (hcode : report.exitCode = Report.notRunnableCode ∨
        report.exitCode = Report.notFoundCode) : ByFault (.value report)
  | escaped {fault : Fault} : ByFault (.fault fault)

theorem Report.not_byFault_rejected (rejection : Rejection) :
    ¬ (Ending.value (rejected rejection)).ByFault := by
  intro h
  cases h with
  | reported _ hcode =>
      have hcode : rejectedCode = notRunnableCode ∨ rejectedCode = notFoundCode := hcode
      revert hcode
      decide

theorem Report.byFault_ofEnding_iff {commandsRun : Int} {ending : Ending (Option Status)} :
    (ofEnding commandsRun ending).ByFault ↔ ∃ fault, ending = .fault fault := by
  constructor
  · intro h
    cases ending with
    | value status =>
        cases h with
        | reported herror _ => cases herror
    | fault fault => exact ⟨fault, rfl⟩
    | unfinished => cases h
  · rintro ⟨fault, rfl⟩
    rw [ofEnding]
    split
    · refine .reported rfl ?_
      show (if fault.isNotFound = true then notFoundCode else notRunnableCode) = _ ∨ _
      split
      · exact .inr rfl
      · exact .inl rfl
    · exact .escaped

namespace Trace.Chronicled

variable {limit : Nat} {directory : Option String} {state : State Host}

theorem log_eq {trace : Trace Host α} (h : trace.Chronicled limit directory state) :
    (trace.events.map Event.logLine).filter (!Channel.controlFlow.owns ·) =
      (requests trace.events).flatMap Request.lines := by
  rw [filter_map_logLine, h.events, List.map_flatMap]
  simp only [Request.map_logLine_chronicle]

variable {trace : Trace Host (Option Status)} (h : trace.Chronicled limit directory state)
  (hfast : trace.FailFast id none)
include h hfast

theorem last_of_exitedWith?_eq_none {before after : List Request} {request : Request}
    (hmade : requests trace.events = before ++ request :: after)
    (hnone : request.exitedWith? = none) :
    after = [] ∧ ∃ fault, trace.ending = .fault fault := by
  obtain ⟨cause, hanswer⟩ := h.answered request (by simp [hmade]) hnone
  obtain ⟨hafter, hending⟩ := hfast.ending_of_fault hmade hanswer
  exact ⟨hafter, _, hending⟩

theorem exists_exitedWith?_eq_none_iff {least : Nat} (haccounts : trace.Accounts state least) :
    (∃ request ∈ requests trace.events, request.exitedWith? = none) ↔
      ∃ fault, trace.ending = .fault fault := by
  constructor
  · rintro ⟨request, hmem, hnone⟩
    obtain ⟨before, after, hmade⟩ := List.append_of_mem hmem
    exact (h.last_of_exitedWith?_eq_none hfast hmade hnone).2
  · rintro ⟨fault, hending⟩
    obtain ⟨before, request, hmade, hfault⟩ := haccounts.faulted hending
    refine ⟨request, by simp [hmade], ?_⟩
    rw [Request.fault?] at hfault
    rw [Request.exitedWith?]
    split at hfault
    · cases hfault
    · next hanswer => rw [hanswer]

end Trace.Chronicled

/-- On a host one process runs at a time, and the log shows it.  Without the lines about loops
it consists of the lines of the requests, in order: that a command is run, that a process is
spawned for the same command, and the code with which that process exited.  Only the last
request can lack the last of these lines, and it does so if and only if a fault ended the run.
The processes asked for are those of the requests, as far as there is room for them.  A run
ends if its loops may look at their predicates more often than there is room for processes. -/
theorem Source.run_process_log (frames limit : Nat) (directory : Option String)
    (allowance : Nat) (source : Source) (host : Host) :
    let run := source.run frames (Host.executor limit directory) allowance host
    let made := requests run.events
    let room := limit - host.spawned.length
    (run.events.map Event.logLine).filter (!Channel.controlFlow.owns ·) =
      made.flatMap Request.lines ∧
    (∀ before request after, made = before ++ request :: after →
      request.exitedWith? = none → after = []) ∧
    ((∃ request ∈ made, request.exitedWith? = none) ↔ run.ending.ByFault) ∧
    run.executor.spawned =
      host.spawned ++ (made.take room).map (fun request => ⟨request.call, directory⟩) ∧
    (room < allowance → run.ending ≠ .unfinished) := by
  intro run made room
  have hends : room < allowance → run.ending ≠ .unfinished := fun hroom =>
    source.run_ends (Host.executor_spends limit directory) frames hroom
  rcases hparse : source.parse frames with rejection | statements
  · have hrun : run = ⟨.value (.rejected rejection), [], host⟩ := by
      simp only [run, Source.run, hparse]
    have hmade : made = [] := by
      simp only [made, hrun]
      rfl
    refine ⟨?_, ?_, ?_, ?_, hends⟩
    · rw [hmade, hrun]
      rfl
    · simp [hmade]
    · rw [hmade, hrun]
      simpa using Report.not_byFault_rejected rejection
    · rw [hmade, hrun]
      simp
  · let trace := execScript (Host.executor limit directory) allowance statements ⟨0, 0, host⟩
    have hrun : run = ⟨Report.ofEnding trace.state.commandCount trace.ending, trace.events,
        trace.state.executor⟩ := by
      simp only [run, Source.run, hparse, trace]
    have hmade : made = requests trace.events := by
      simp only [made, hrun]
    have hlogged : trace.Chronicled limit directory ⟨0, 0, host⟩ :=
      execScript_chronicled limit directory allowance statements _
    have hfast : trace.FailFast id none :=
      Node.failFast_execAll _ allowance statements passing_none _
    have haccounts : trace.Accounts ⟨0, 0, host⟩ allowance :=
      execScript_accounts _ allowance (firstStray?_of_parse hparse) _
    refine ⟨?_, ?_, ?_, ?_, hends⟩
    · rw [hmade, hrun]
      exact hlogged.log_eq
    · intro before request after hsplit hnone
      exact (hlogged.last_of_exitedWith?_eq_none hfast (hmade ▸ hsplit) hnone).1
    · rw [hmade, hrun]
      exact (hlogged.exists_exitedWith?_eq_none_iff hfast haccounts).trans
        Report.byFault_ofEnding_iff.symm
    · rw [hmade, hrun]
      exact hlogged.spawned

/-- The line about the loop is left out, and the last process is never seen to exit. -/
theorem Source.run_process_log_lost_process :
    let source := Source.text "while (a) b \"x y\"; c;"
    let host := Host.ofPlans
      ⟨[("a", [.exits 0, .exits 1]), ("b", []), ("c", [.failsInWait (.os .noSuchFile)])]⟩
    let run := source.run nestingLimit (Host.executor 9 none) 10 host
    (run.events.map Event.logLine).filter (!Channel.controlFlow.owns ·) =
        ["cinnamon.interpreter.interpreter: run a []",
          "cinnamon.executor.process: spawn a []",
          "cinnamon.executor.process: a exited with 0",
          "cinnamon.interpreter.interpreter: run b ['x y']",
          "cinnamon.executor.process: spawn b ['x y']",
          "cinnamon.executor.process: b exited with 0",
          "cinnamon.interpreter.interpreter: run a []",
          "cinnamon.executor.process: spawn a []",
          "cinnamon.executor.process: a exited with 1",
          "cinnamon.interpreter.interpreter: run c []",
          "cinnamon.executor.process: spawn c []"] ∧
      run.ending.ByFault ∧ run.ending ≠ .unfinished := by
  intro source host run
  obtain ⟨hlog, -, hfault, -, hends⟩ :=
    Source.run_process_log nestingLimit 9 none 10 source host
  refine ⟨?_, ?_, ?_⟩
  · rw [hlog]
    decide +kernel
  · apply hfault.mp
    decide +kernel
  · apply hends
    decide

end StatusShell
