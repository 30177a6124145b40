import StatusShell.Run.Statement

/-!
A run goes no further once a statement has failed or a request has met a fault,
and its status is the answer to the last request that was made for a statement.
Parts of a run have this property relative to the status that was seen last
before them: if that one was a failure already, then nothing more is done.
-/

namespace StatusShell

variable {σ α β : Type}

/-- The answer to the last request that was made for a statement. -/
def lastAnswer (made : List Request) : Option Answer :=
  (made.filter (·.role = .statement)).getLast?.map (·.answer)

theorem lastAnswer_append (made more : List Request) :
    lastAnswer (made ++ more) = (lastAnswer more).or (lastAnswer made) := by
  simp [lastAnswer, Option.map_or]

theorem requests_append (events more : List Event) :
    requests (events ++ more) = requests events ++ requests more :=
  List.filterMap_append

theorem requests_map_process (notes : List ProcessNote) :
    requests (notes.map .process) = [] := by
  simp [requests, Event.request?]

/-- The ending with another value. -/
def Ending.map (f : α → β) : Ending α → Ending β
  | .value found => .value (f found)
  | .fault cause => .fault cause
  | .unfinished => .unfinished

theorem Ending.map_id (ending : Ending α) : ending.map id = ending := by
  cases ending <;> rfl

/-- How a run must end that makes the request, if the answer to it allows
nothing more. -/
def Request.verdict (request : Request) : Option (Ending (Option Status)) :=
  match request.answer with
  | .fault fault => some (.fault (fault.blamedOn request.call.name))
  | .status status =>
      if request.role = .statement ∧ status.succeeded = false then some (.value (some status))
      else none

theorem Request.of_verdict_eq_value {request : Request} {shown : Option Status}
    (h : request.verdict = some (.value shown)) :
    ∃ status, shown = some status ∧ status.succeeded = false := by
  rw [Request.verdict] at h
  split at h
  · cases h
  · next status _ =>
      split at h
      · next hfailed =>
          cases h
          exact ⟨status, rfl, hfailed.2⟩
      · cases h

/-- What the status of a request counts for: that of a predicate for nothing. -/
def Role.counted : Role → Status → Option Status
  | .predicate, _ => none
  | .statement, status => some status

/-- The last status seen is not a failure. -/
def Passing (last : Option Status) : Prop :=
  ∀ status ∈ last, status.succeeded = true

/-- A trace that stops where it must, if `last` is the status that was seen last
before it and `view` is the status that its value shows. -/
structure Trace.FailFast (view : α → Option Status) (last : Option Status)
    (trace : Trace σ α) : Prop where
  /-- After a request that allows nothing more there is no other. -/
  stopped {before after : List Request} {request : Request} {ending : Ending (Option Status)} :
    requests trace.events = before ++ request :: after → request.verdict = some ending →
      after = [] ∧ trace.ending.map view = ending
  /-- The value shows the last status seen. -/
  shown {value : α} : trace.ending = .value value →
    (view value).map Answer.status =
      (lastAnswer (requests trace.events)).or (last.map Answer.status)
  /-- After a failure nothing is requested, and the failure stays the status. -/
  halted : ¬ Passing last → requests trace.events = [] ∧ trace.ending.map view = .value last

namespace Run

/-- All traces of the run stop where they must. -/
def FailFast (view : α → Option Status) (last : Option Status) (run : Run σ α) : Prop :=
  ∀ state, (run state).FailFast view last

theorem bind_of_value {first : Run σ α} {next : α → Run σ β} {state : State σ} {value : α}
    (h : (first state).ending = .value value) :
    (first >>= next) state =
      ⟨(next value (first state).state).ending,
        (first state).events ++ (next value (first state).state).events,
        (next value (first state).state).state⟩ := by
  change andThen first next state = _
  rw [andThen, h]

theorem bind_of_ended {first : Run σ α} {state : State σ}
    (h : ∀ value, (first state).ending ≠ .value value) (next : α → Run σ β)
    (view : α → Option Status) (view' : β → Option Status) :
    ∃ ending, (first >>= next) state = ⟨ending, (first state).events, (first state).state⟩ ∧
      (∀ value, ending ≠ .value value) ∧ ending.map view' = (first state).ending.map view := by
  change ∃ ending, andThen first next state = _ ∧ _
  rw [andThen]
  cases hending : (first state).ending with
  | value value => exact absurd hending (h value)
  | fault cause => exact ⟨.fault cause, rfl, by simp, rfl⟩
  | unfinished => exact ⟨.unfinished, rfl, by simp, rfl⟩

variable {view : α → Option Status} {last : Option Status}

theorem failFast_of_quiet {run : Run σ α}
    (h : ∀ state, requests (run state).events = [] ∧
      ∃ value, (run state).ending = .value value ∧ view value = last) :
    FailFast view last run := by
  intro state
  obtain ⟨hrequests, value, hending, hview⟩ := h state
  refine ⟨?_, ?_, ?_⟩
  · intro before after request ending hmade
    rw [hrequests] at hmade
    simp at hmade
  · intro found hfound
    rw [hending] at hfound
    cases hfound
    rw [hrequests, hview]
    rfl
  · intro _
    refine ⟨hrequests, ?_⟩
    rw [hending, ← hview]
    rfl

theorem failFast_pure {value : α} (h : view value = last) :
    FailFast view last (pure value : Run σ α) :=
  failFast_of_quiet fun _ => ⟨rfl, value, rfl, h⟩

theorem failFast_of_ended {run : Run σ α} (hlast : Passing last)
    (h : ∀ state, requests (run state).events = [] ∧
      ∀ value, (run state).ending ≠ .value value) :
    FailFast view last run := by
  intro state
  obtain ⟨hrequests, hending⟩ := h state
  refine ⟨?_, ?_, ?_⟩
  · intro before after request ending hmade
    rw [hrequests] at hmade
    simp at hmade
  · intro found hfound
    exact absurd hfound (hending found)
  · intro hfailed
    exact absurd hlast hfailed

theorem requests_request (executor : Executor σ) (role : Role) (call : Command)
    (state : State σ) :
    requests (request executor role call state).events =
      [⟨role, call, state.commandCount + 1, state.loopDepth,
        (executor.call call state.executor).answer⟩] := by
  change _ :: requests _ = _
  rw [requests_map_process]

theorem failFast_request (executor : Executor σ) (role : Role) (call : Command) :
    FailFast role.counted none (request executor role call) := by
  intro state
  have hrequests := requests_request executor role call state
  refine ⟨?_, ?_, ?_⟩
  · intro before after made ending hmade hverdict
    rw [hrequests] at hmade
    rcases List.singleton_eq_append_iff.mp hmade with ⟨_, hcons⟩ | ⟨_, hcons⟩
    · obtain ⟨rfl, rfl⟩ := List.cons.inj hcons
      refine ⟨rfl, ?_⟩
      rw [Request.verdict] at hverdict
      rw [request]
      cases hanswer : (executor.call call state.executor).answer with
      | fault cause => simpa [hanswer, Ending.map] using hverdict
      | status status =>
          simp only [hanswer] at hverdict
          split at hverdict
          · next hfailed =>
              obtain ⟨rfl, _⟩ := hfailed
              simpa [Ending.map, Role.counted] using hverdict
          · cases hverdict
    · cases hcons
  · intro status hstatus
    rw [request] at hstatus
    rw [hrequests]
    cases hanswer : (executor.call call state.executor).answer with
    | fault cause => simp [hanswer] at hstatus
    | status found =>
        obtain rfl : found = status := by simpa [hanswer] using hstatus
        cases role <;> rfl
  · intro hfailed
    exact absurd (by simp [Passing]) hfailed

theorem FailFast.bind {first : Run σ α} {next : α → Run σ β} {view' : β → Option Status}
    (hfirst : FailFast view none first) (hlast : Passing last)
    (hnext : ∀ value, FailFast view' ((view value).or last) (next value)) :
    FailFast view' last (first >>= next) := by
  -- Where the first run shows a failure, the second one does nothing more.
  intro state
  have hfirst := hfirst state
  by_cases hended : ∃ value, (first state).ending = .value value
  · obtain ⟨value, hending⟩ := hended
    have hnext := hnext value (first state).state
    rw [bind_of_value hending]
    refine ⟨?_, ?_, fun hfailed => absurd hlast hfailed⟩
    · intro before after request ending hmade hverdict
      rw [requests_append] at hmade
      -- The request was made by the second run, or else by the first one.
      rcases List.append_eq_append_iff.mp hmade with ⟨more, rfl, hmore⟩ | ⟨more, hbefore, hmore⟩
      · exact hnext.stopped hmore hverdict
      · cases more with
        | nil =>
            have hrequests : requests (next value (first state).state).events =
                [] ++ request :: after := hmore.symm
            exact hnext.stopped hrequests hverdict
        | cons made more =>
            obtain ⟨rfl, rfl⟩ := List.cons.inj hmore
            obtain ⟨rfl, rfl⟩ := hfirst.stopped hbefore hverdict
            rw [hending] at hverdict ⊢
            -- The first run ended with a value all the same, so it shows a failure.
            obtain ⟨status, hview, hfailed⟩ := Request.of_verdict_eq_value hverdict
            have hstays : (view value).or last = view value := by rw [hview]; rfl
            rw [hstays] at hnext
            obtain ⟨hrequests, hvalue⟩ := hnext.halted (by simp [Passing, hview, hfailed])
            exact ⟨by rw [hrequests]; rfl, hvalue⟩
    · intro result hresult
      rw [hnext.shown hresult, requests_append, lastAnswer_append, Option.or_assoc,
        Option.map_or, hfirst.shown hending]
      simp
  · obtain ⟨ending, heq, hnone, hmap⟩ := bind_of_ended
      (fun value h => hended ⟨value, h⟩) next view view'
    rw [heq]
    refine ⟨?_, fun hvalue => absurd hvalue (hnone _), fun hfailed => absurd hlast hfailed⟩
    intro before after request ending' hmade hverdict
    obtain ⟨hafter, hstopped⟩ := hfirst.stopped hmade hverdict
    exact ⟨hafter, hmap.trans hstopped⟩

theorem FailFast.deeper {run : Run σ α} (h : FailFast view last run) :
    FailFast view last (deeper run) := by
  intro state
  have hrun := h { state with loopDepth := state.loopDepth + 1 }
  exact ⟨hrun.stopped, hrun.shown, hrun.halted⟩

end Run

open Run

variable {last : Option Status}

theorem passing_none : Passing none := by
  simp [Passing]

theorem passing_some {status : Status} (h : status.succeeded = true) : Passing (some status) := by
  simpa [Passing] using h

theorem failFast_repeatWhile (name : String) {predicate : Run σ Status}
    {body : Run σ (Option Status)} (hpredicate : FailFast (fun _ => none) none predicate)
    (hbody : FailFast id none body) (allowance : Nat) (hlast : Passing last)
    (iterations : Nat) :
    FailFast Prod.fst last (repeatWhile name predicate body allowance last iterations) := by
  induction allowance generalizing last iterations with
  | zero => exact failFast_of_ended hlast fun _ => ⟨rfl, fun _ h => by cases h⟩
  | succ allowance ih =>
      refine hpredicate.bind hlast fun decision => ?_
      split
      · refine hbody.bind hlast fun shown => ?_
        cases shown with
        | none => exact ih hlast (iterations + 1)
        | some status =>
            by_cases hstatus : status.succeeded = true
            · simp only [hstatus, if_true]
              exact ih (passing_some hstatus) (iterations + 1)
            · simp only [hstatus]
              exact failFast_of_quiet fun _ => ⟨rfl, (some status, iterations + 1), rfl, rfl⟩
      · exact failFast_pure rfl

namespace Node

variable (executor : Executor σ) (allowance : Nat)

mutual

theorem failFast_exec : (node : Node) → FailFast id none (exec executor allowance node)
  | .comment _ => by
      rw [exec]
      exact failFast_pure rfl
  | .command call => by
      rw [exec]
      exact (failFast_request executor .statement call).bind passing_none
        fun status => failFast_pure rfl
  | .block statements => by
      rw [exec]
      exact failFast_execAll statements passing_none
  | .ifThen predicate branch => by
      rw [exec]
      refine (failFast_request executor .predicate predicate).bind passing_none fun decision => ?_
      split
      · exact failFast_exec branch
      · exact failFast_pure rfl
  | .ifElse predicate branch otherwise => by
      rw [exec]
      refine (failFast_request executor .predicate predicate).bind passing_none fun decision => ?_
      split
      · exact failFast_exec branch
      · exact failFast_exec otherwise
  | .loop predicate body => by
      rw [exec]
      have hrepeat := failFast_repeatWhile predicate.name
        (failFast_request executor .predicate predicate) (failFast_exec body) allowance
        passing_none 0
      refine hrepeat.deeper.bind passing_none fun result => ?_
      exact failFast_of_quiet fun _ => ⟨rfl, result.1, rfl, by simp⟩
  | .stray _ => by
      rw [exec]
      exact failFast_of_ended passing_none fun _ => ⟨rfl, fun _ h => by cases h⟩

theorem failFast_execAll {last : Option Status} : (statements : List Node) → Passing last →
    FailFast id last (execAll executor allowance last statements)
  | [], _ => by
      rw [execAll]
      exact failFast_pure rfl
  | statement :: statements, hlast => by
      rw [execAll]
      refine (failFast_exec statement).bind hlast fun shown => ?_
      cases shown with
      | none => exact failFast_execAll statements hlast
      | some status =>
          by_cases hstatus : status.succeeded = true
          · simp only [hstatus, if_true]
            exact failFast_execAll statements (passing_some hstatus)
          · simp only [hstatus]
            exact failFast_pure rfl

end

end Node

theorem Fault.blamedOn_eq_self {cause : Fault} {program : String}
    (h : ∀ os, cause ≠ .os os) : cause.blamedOn program = cause := by
  cases cause with
  | os os => exact absurd rfl (h os)
  | _ => rfl

namespace Trace.FailFast

variable {trace : Trace σ (Option Status)} {before after : List Request} {request : Request}

theorem ending_of_failure {status : Status} (h : trace.FailFast id last)
    (hmade : requests trace.events = before ++ request :: after)
    (hrole : request.role = .statement) (hanswer : request.answer = .status status)
    (hfailed : status.succeeded = false) :
    after = [] ∧ trace.ending = .value (some status) := by
  have hverdict : request.verdict = some (.value (some status)) := by
    simp [Request.verdict, hanswer, hrole, hfailed]
  rw [← Ending.map_id trace.ending]
  exact h.stopped hmade hverdict

theorem ending_of_fault {cause : Fault} (h : trace.FailFast id last)
    (hmade : requests trace.events = before ++ request :: after)
    (hanswer : request.answer = .fault cause) :
    after = [] ∧ trace.ending = .fault (cause.blamedOn request.call.name) := by
  have hverdict : request.verdict = some (.fault (cause.blamedOn request.call.name)) := by
    simp [Request.verdict, hanswer]
  rw [← Ending.map_id trace.ending]
  exact h.stopped hmade hverdict

end Trace.FailFast

theorem lastAnswer_eq_none_iff {made : List Request} :
    lastAnswer made = none ↔ ∀ request ∈ made, request.role = .predicate := by
  rw [lastAnswer, Option.map_eq_none_iff, List.getLast?_eq_none_iff, List.filter_eq_nil_iff]
  refine forall₂_congr fun request _ => ?_
  cases request.role <;> simp

/-- Running a script fails fast.  The first statement that fails is the last
request, and its status is that of the run.  The first fault is the last request
too, and the run ends with it, where a fault of the operating system is put down
to the command that met it.  A run that ends with a value shows the answer to
the last request for a statement, and none if there was no such request. -/
theorem execScript_fails_fast (executor : Executor σ) (allowance : Nat)
    (statements : List Node) (state : State σ) :
    let trace := execScript executor allowance statements state
    (∀ before request after status, requests trace.events = before ++ request :: after →
      request.role = .statement → request.answer = .status status → status.succeeded = false →
        after = [] ∧ trace.ending = .value (some status)) ∧
    (∀ before request after cause, requests trace.events = before ++ request :: after →
      request.answer = .fault cause →
        after = [] ∧
          (∀ os, cause = .os os →
            trace.ending = .fault (.execution request.call.name (.os os))) ∧
          ((∀ os, cause ≠ .os os) → trace.ending = .fault cause)) ∧
    (∀ value, trace.ending = .value value →
      value.map Answer.status = lastAnswer (requests trace.events) ∧
        (value = none ↔ ∀ request ∈ requests trace.events, request.role = .predicate)) := by
  intro trace
  have hfast : trace.FailFast id none :=
    Node.failFast_execAll executor allowance statements passing_none state
  refine ⟨?_, ?_, ?_⟩
  · intro before request after status hmade hrole hanswer hfailed
    exact hfast.ending_of_failure hmade hrole hanswer hfailed
  · intro before request after cause hmade hanswer
    obtain ⟨hafter, hending⟩ := hfast.ending_of_fault hmade hanswer
    refine ⟨hafter, ?_, ?_⟩
    · rintro os rfl
      exact hending
    · intro hother
      rw [hending, Fault.blamedOn_eq_self hother]
  · intro value hvalue
    have hshown : value.map Answer.status = lastAnswer (requests trace.events) := by
      simpa using hfast.shown hvalue
    refine ⟨hshown, ?_⟩
    rw [← lastAnswer_eq_none_iff, ← hshown, Option.map_eq_none_iff]

/-- A failure inside a loop: neither the loop nor the script goes on. -/
theorem execScript_fails_fast_in_loop :
    let executor : Executor Unit :=
      ⟨fun call state => ⟨.status (.verdict call.name (call.name = "a")), [], state⟩⟩
    let trace := execScript executor 5
      [.loop ⟨"a", []⟩ (.block [.command ⟨"b", []⟩, .command ⟨"c", []⟩]), .command ⟨"d", []⟩]
      ⟨0, 0, ()⟩
    (requests trace.events).map (·.call.name) = ["a", "b"] ∧
      trace.ending = .value (some (.verdict "b" false)) := by
  intro executor trace
  have hmade : requests trace.events =
      [⟨.predicate, ⟨"a", []⟩, 1, 1, .status (.verdict "a" true)⟩] ++
        ⟨.statement, ⟨"b", []⟩, 2, 1, .status (.verdict "b" false)⟩ :: [] := by
    decide
  refine ⟨by rw [hmade]; rfl, ?_⟩
  exact ((execScript_fails_fast executor 5 _ _).1 _ _ _ _ hmade rfl rfl rfl).2

end StatusShell
