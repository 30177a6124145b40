import StatusShell.Proofs.Termination
import StatusShell.Session

namespace StatusShell

variable {σ α β : Type}

/-- The trace counts its requests and comes back to the depth that it started
from. -/
structure Trace.Kept (state : State σ) (trace : Trace σ α) : Prop where
  counted : trace.state.commandCount = state.commandCount + (requests trace.events).length
  restored : trace.state.loopDepth = state.loopDepth

namespace Run

def Keeps (run : Run σ α) : Prop :=
  ∀ state, (run state).Kept state

theorem keeps_of_quiet {run : Run σ α}
    (h : ∀ state, requests (run state).events = [] ∧ (run state).state = state) : Keeps run := by
  intro state
  obtain ⟨hrequests, hstate⟩ := h state
  constructor
  · rw [hrequests, hstate]
    simp
  · rw [hstate]

theorem Keeps.bind {first : Run σ α} {next : α → Run σ β} (hfirst : Keeps first)
    (hnext : ∀ value, Keeps (next value)) : Keeps (first >>= next) := by
  intro state
  obtain ⟨hcounted, hrestored⟩ := hfirst state
  rcases hending : (first state).ending with value | cause | _
  · obtain ⟨hcounted', hrestored'⟩ := hnext value (first state).state
    rw [bind_of_value hending]
    constructor
    · rw [hcounted', hcounted, requests_append, List.length_append]
      omega
    · exact hrestored'.trans hrestored
  · rw [bind_of_fault hending]
    exact ⟨hcounted, hrestored⟩
  · rw [bind_of_unfinished hending]
    exact ⟨hcounted, hrestored⟩

theorem keeps_request (executor : Executor σ) (role : Role) (call : Command) :
    Keeps (request executor role call) := by
  intro state
  refine ⟨?_, rfl⟩
  rw [requests_request]
  rfl

theorem Keeps.deeper {run : Run σ α} (h : Keeps run) : Keeps (deeper run) := by
  intro state
  obtain ⟨hcounted, hrestored⟩ := h { state with loopDepth := state.loopDepth + 1 }
  refine ⟨hcounted, ?_⟩
  show _ - 1 = state.loopDepth
  rw [hrestored]
  exact Int.add_sub_cancel _ _

theorem keeps_closed (executor : Executor σ) (allowance : Nat) :
    Closed executor allowance Keeps :=
  closed_of_steps (fun _ => keeps_of_quiet fun _ => ⟨rfl, rfl⟩) Keeps.bind
    (keeps_request executor) Keeps.deeper
    (fun _ hevent => keeps_of_quiet fun _ => ⟨by simp [record, requests, hevent], rfl⟩)
    (keeps_of_quiet fun _ => ⟨rfl, rfl⟩)

end Run

/-- A call and the answer to it. -/
structure Exchange where
  call : Command
  answer : Answer
  deriving DecidableEq, Repr

def Request.exchange (request : Request) : Exchange :=
  ⟨request.call, request.answer⟩

/-- Of the exchanges, those for which there is room go on record, in order.  The
others are refused. -/
structure Rehearsal.Records (limit : Nat) (before after : Rehearsal)
    (made : List Exchange) : Prop where
  calls : after.calls =
    before.calls ++ (made.take (limit - before.calls.length)).map Exchange.call
  refused : ∀ exchange ∈ made.drop (limit - before.calls.length),
    exchange.answer = .fault .callLimit

namespace Rehearsal

variable {limit : Nat} {before after : Rehearsal}

theorem records_nil (h : after.calls = before.calls) : Records limit before after [] := by
  constructor
  · simp [h]
  · simp

theorem Records.append {middle : Rehearsal} {made more : List Exchange}
    (h : Records limit before middle made) (h' : Records limit middle after more) :
    Records limit before after (made ++ more) := by
  have hroom : limit - middle.calls.length = limit - before.calls.length - made.length := by
    rw [h.calls, List.length_append, List.length_map, List.length_take]
    omega
  constructor
  · rw [h'.calls, hroom, h.calls, List.take_append, List.map_append, List.append_assoc]
  · intro exchange hmem
    rw [List.drop_append, List.mem_append, ← hroom] at hmem
    rcases hmem with hmem | hmem
    · exact h.refused exchange hmem
    · exact h'.refused exchange hmem

theorem records_call (limit : Nat) (call : Command) (rehearsal : Rehearsal) :
    Records limit rehearsal ((executor limit).call call rehearsal).state
      [⟨call, ((executor limit).call call rehearsal).answer⟩] := by
  by_cases hlimit : rehearsal.calls.length < limit
  · obtain ⟨room, hroom⟩ : ∃ room, limit - rehearsal.calls.length = room + 1 :=
      ⟨limit - rehearsal.calls.length - 1, by omega⟩
    constructor
    · rw [hroom, List.take_succ_cons, List.take_nil]
      simp only [executor, if_pos hlimit]
      rfl
    · rw [hroom, List.drop_succ_cons, List.drop_nil]
      simp
  · have hroom : limit - rehearsal.calls.length = 0 := by omega
    simp only [executor, if_neg hlimit]
    constructor
    · simp [hroom]
    · simp [hroom]

end Rehearsal

namespace Run

/-- The requests of the run are put on record. -/
def Records (limit : Nat) (run : Run Rehearsal α) : Prop :=
  ∀ state, Rehearsal.Records limit state.executor (run state).state.executor
    ((requests (run state).events).map Request.exchange)

variable {limit : Nat}

theorem records_of_quiet {run : Run Rehearsal α}
    (h : ∀ state, requests (run state).events = [] ∧ (run state).state = state) :
    Records limit run := by
  intro state
  obtain ⟨hrequests, hstate⟩ := h state
  rw [hrequests, hstate]
  exact Rehearsal.records_nil rfl

theorem Records.bind {first : Run Rehearsal α} {next : α → Run Rehearsal β}
    (hfirst : Records limit first) (hnext : ∀ value, Records limit (next value)) :
    Records limit (first >>= next) := by
  intro state
  rcases hending : (first state).ending with value | cause | _
  · rw [bind_of_value hending]
    simp only [requests_append, List.map_append]
    exact (hfirst state).append (hnext value (first state).state)
  · rw [bind_of_fault hending]
    exact hfirst state
  · rw [bind_of_unfinished hending]
    exact hfirst state

theorem records_request (role : Role) (call : Command) :
    Records limit (request (Rehearsal.executor limit) role call) := by
  intro state
  rw [requests_request]
  exact Rehearsal.records_call limit call state.executor

theorem records_closed (limit allowance : Nat) :
    Closed (Rehearsal.executor limit) allowance (Records limit) :=
  closed_of_steps (fun _ => records_of_quiet fun _ => ⟨rfl, rfl⟩) Records.bind records_request
    (fun hrun state => hrun { state with loopDepth := state.loopDepth + 1 })
    (fun _ hevent => records_of_quiet fun _ => ⟨by simp [record, requests, hevent], rfl⟩)
    (records_of_quiet fun _ => ⟨rfl, rfl⟩)

end Run

section

variable (executor : Executor σ) (allowance : Nat)

theorem Node.keeps_exec (node : Node) : Run.Keeps (node.exec executor allowance) := by
  apply Node.exec_of_closed (Run.keeps_closed executor allowance)
  exact fun _ => Run.keeps_of_quiet fun _ => ⟨rfl, rfl⟩

theorem execScript_keeps (statements : List Node) :
    Run.Keeps (execScript executor allowance statements) := by
  apply Node.execAll_of_closed (Run.keeps_closed executor allowance)
  exact fun _ => Run.keeps_of_quiet fun _ => ⟨rfl, rfl⟩

end

section

variable (limit allowance : Nat)

theorem Node.records_exec (node : Node) :
    Run.Records limit (node.exec (Rehearsal.executor limit) allowance) := by
  apply Node.exec_of_closed (Run.records_closed limit allowance)
  exact fun _ => Run.records_of_quiet fun _ => ⟨rfl, rfl⟩

theorem execScript_records (statements : List Node) :
    Run.Records limit (execScript (Rehearsal.executor limit) allowance statements) := by
  apply Node.execAll_of_closed (Run.records_closed limit allowance)
  exact fun _ => Run.records_of_quiet fun _ => ⟨rfl, rfl⟩

theorem Source.run_records (frames : Nat) (source : Source) (start : Rehearsal) :
    let run := source.run frames (Rehearsal.executor limit) allowance start
    Rehearsal.Records limit start run.executor ((requests run.events).map Request.exchange) := by
  rcases hparse : source.parse frames with rejection | statements
  · simp only [Source.run, hparse]
    exact Rehearsal.records_nil rfl
  · simp only [Source.run, hparse]
    exact execScript_records limit allowance statements ⟨0, 0, start⟩

end

namespace Session

/-- The requests that a step made on the interpreter of the session. -/
def Result.requests : Result → List Request
  | .ran _ events => StatusShell.requests events
  | _ => []

/-- The step did not end because a loop was cut short. -/
def Result.Finished : Result → Prop
  | .ran ending _ => ending ≠ .unfinished
  | .reported ending => ending ≠ .unfinished
  | _ => True

/-- The exchanges of a step with the rehearsal, on whichever interpreter or on
none. -/
def exchanges (frames limit : Nat) (session : Session) : Step → List Exchange
  | .call call => [⟨call, ((Rehearsal.executor limit).call call session.executor).answer⟩]
  | .runSource source =>
      (StatusShell.requests (source.rehearse frames limit session.executor).events).map
        Request.exchange
  | step => (Session.step frames limit session step).1.requests.map Request.exchange

/-- What a step leaves in the books. -/
structure Booked (limit : Nat) (session : Session) (made : List Exchange) (result : Result)
    (after : Session) : Prop where
  restored : after.loopDepth = session.loopDepth
  counted : after.commandCount = session.commandCount + result.requests.length
  recorded : Rehearsal.Records limit session.executor after.executor made
  finished : result.Finished

variable {limit : Nat} {session after : Session}

theorem booked_of_quiet {result : Result} (hdepth : after.loopDepth = session.loopDepth)
    (hcount : after.commandCount = session.commandCount)
    (hcalls : after.executor.calls = session.executor.calls) (hrequests : result.requests = [])
    (hfinished : result.Finished) : Booked limit session [] result after := by
  refine ⟨hdepth, ?_, Rehearsal.records_nil hcalls, hfinished⟩
  rw [hcount, hrequests]
  exact (Int.add_zero _).symm

theorem booked_onInterpreter {run : Run Rehearsal (Option Status)} (hkeeps : run.Keeps)
    (hrecords : run.Records limit) (hends : (run session).ending ≠ .unfinished) :
    Booked limit session ((onInterpreter run session).1.requests.map Request.exchange)
      (onInterpreter run session).1 (onInterpreter run session).2 := by
  obtain ⟨hcounted, hrestored⟩ := hkeeps session
  exact ⟨hrestored, hcounted, hrecords session, hends⟩

theorem booked_execScript (statements : List Node) :
    let run := execScript (Rehearsal.executor limit) (limit + 1) statements
    Booked limit session ((onInterpreter run session).1.requests.map Request.exchange)
      (onInterpreter run session).1 (onInterpreter run session).2 := by
  apply booked_onInterpreter
  · exact execScript_keeps _ _ statements
  · exact execScript_records _ _ statements
  · exact execScript_ends (Rehearsal.executor_spends limit) session (by omega) statements

/-- Every step leaves the books in order. -/
theorem booked_step (frames limit : Nat) (session : Session) (step : Step) :
    Booked limit session (exchanges frames limit session step) (session.step frames limit step).1
      (session.step frames limit step).2 := by
  cases step with
  | prepare program outcomes => exact booked_of_quiet rfl rfl rfl rfl trivial
  | setFallback outcome => exact booked_of_quiet rfl rfl rfl rfl trivial
  | call call =>
      refine ⟨rfl, (Int.add_zero _).symm, ?_, trivial⟩
      exact Rehearsal.records_call limit call session.executor
  | runSource source =>
      refine ⟨rfl, (Int.add_zero _).symm, ?_, ?_⟩
      · exact source.run_records limit (limit + 1) frames session.executor
      · exact source.run_ends (Rehearsal.executor_spends limit) frames (by omega)
  | execSource source =>
      rcases hparse : source.parse frames with rejection | statements
      · have hstep : session.step frames limit (.execSource source) =
            (.rejected rejection, session) := by
          simp only [Session.step, hparse]
        show Booked limit session ((session.step frames limit _).1.requests.map _) _ _
        rw [hstep]
        exact booked_of_quiet rfl rfl rfl rfl trivial
      · have hstep : session.step frames limit (.execSource source) =
            onInterpreter (execScript (Rehearsal.executor limit) (limit + 1) statements)
              session := by
          simp only [Session.step, hparse]
        show Booked limit session ((session.step frames limit _).1.requests.map _) _ _
        rw [hstep]
        exact booked_execScript statements
  | execNode node =>
      apply booked_onInterpreter
      · exact node.keeps_exec _ _
      · exact node.records_exec _ _
      · exact node.exec_ends (Rehearsal.executor_spends limit) session (by omega)
  | execNodes nodes => exact booked_execScript nodes
  | count program => exact booked_of_quiet rfl rfl rfl rfl trivial
  | programs => exact booked_of_quiet rfl rfl rfl rfl trivial
  | calls => exact booked_of_quiet rfl rfl rfl rfl trivial

/-- Take steps one after the other. -/
def play (frames limit : Nat) (session : Session) : List Step → List Result × Session
  | [] => ([], session)
  | step :: steps =>
      let (result, after) := session.step frames limit step
      let (results, last) := play frames limit after steps
      (result :: results, last)

theorem play_cons (frames limit : Nat) (session : Session) (step : Step) (steps : List Step) :
    play frames limit session (step :: steps) =
      ((session.step frames limit step).1 :: (play frames limit (session.step frames limit step).2 steps).1,
        (play frames limit (session.step frames limit step).2 steps).2) := rfl

theorem play_keeps (frames limit : Nat) (session : Session) (steps : List Step) :
    (play frames limit session steps).2.loopDepth = session.loopDepth ∧
      (play frames limit session steps).2.commandCount = session.commandCount +
        ((play frames limit session steps).1.flatMap Result.requests).length := by
  induction steps generalizing session with
  | nil => exact ⟨rfl, (Int.add_zero _).symm⟩
  | cons step steps ih =>
      obtain ⟨hrestored, hcounted, -, -⟩ := booked_step frames limit session step
      obtain ⟨hdepth, hcount⟩ := ih (session.step frames limit step).2
      rw [play_cons]
      constructor
      · exact hdepth.trans hrestored
      · rw [hcount, hcounted, List.flatMap_cons, List.length_append]
        omega

/-- The books of a session are in order at every point of it.  The interpreter is at
the depth that it started from and has counted the requests made on it so far, those
that met a fault or were refused among them.  Whatever step comes next, it ends, the
books are in order behind it, and of all that it puts to the rehearsal, as far as there
is room, the calls go on record in the order in which they were made. -/
theorem play_booked (frames limit : Nat) (start : Session) (steps : List Step) (step : Step) :
    let session := (play frames limit start steps).2
    let made := exchanges frames limit session step
    let room := limit - session.executor.calls.length
    let result := (session.step frames limit step).1
    let after := (session.step frames limit step).2
    session.loopDepth = start.loopDepth ∧
    session.commandCount = start.commandCount +
      ((play frames limit start steps).1.flatMap Result.requests).length ∧
    after.loopDepth = start.loopDepth ∧
    after.commandCount = session.commandCount + result.requests.length ∧
    after.executor.calls = session.executor.calls ++ (made.take room).map Exchange.call ∧
    (∀ exchange ∈ made.drop room, exchange.answer = .fault .callLimit) ∧
    result.Finished := by
  intro session made room result after
  obtain ⟨hdepth, hcount⟩ := play_keeps frames limit start steps
  obtain ⟨hrestored, hcounted, hrecorded, hfinished⟩ := booked_step frames limit session step
  exact ⟨hdepth, hcount, hrestored.trans hdepth, hcounted, hrecorded.calls, hrecorded.refused,
    hfinished⟩

/-- The second look of the loop is refused, and so is the call behind it. -/
theorem play_booked_refused :
    let start : Session := ⟨7, -2, .fresh⟩
    let steps : List Step := [.runSource (.text "a;"),
      .execNode (.loop ⟨"b", []⟩ (.command ⟨"c", []⟩)), .execNodes [.stray "d"]]
    let session := (play nestingLimit 3 start steps).2
    session.loopDepth = -2 ∧ session.commandCount = 10 ∧
      (session.step nestingLimit 3 (.call ⟨"e", []⟩)).2.executor.calls =
        [⟨"a", []⟩, ⟨"b", []⟩, ⟨"c", []⟩] := by
  intro start steps session
  obtain ⟨hdepth, hcount, -, -, hcalls, -⟩ :=
    play_booked nestingLimit 3 start steps (.call ⟨"e", []⟩)
  refine ⟨hdepth, ?_, ?_⟩
  · rw [hcount]
    decide +kernel
  · rw [hcalls]
    decide +kernel

end Session

end StatusShell
