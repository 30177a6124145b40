import StatusShell.Proofs.Loops
import StatusShell.Proofs.Simplification

namespace StatusShell

variable {σ α β : Type}

/-- The state as it is inside one more loop. -/
def State.deeper (state : State σ) : State σ := { state with loopDepth := state.loopDepth + 1 }

/-- The event as it is inside one more loop. -/
def Event.deeper : Event → Event
  | .request made => .request { made with loopDepth := made.loopDepth + 1 }
  | event => event

def Trace.deeper (trace : Trace σ α) : Trace σ α :=
  ⟨trace.ending, trace.events.map Event.deeper, trace.state.deeper⟩

theorem map_call_requests_deeper (events : List Event) :
    (requests (events.map Event.deeper)).map Request.call =
      (requests events).map Request.call := by
  rw [requests, requests, List.filterMap_map, List.map_filterMap, List.map_filterMap]
  congr 1
  funext event
  cases event <;> rfl

namespace Run

theorem bind_pure_apply (run : Run σ α) (f : α → β) (state : State σ) :
    (do let value ← run; pure (f value) : Run σ β) state =
      ⟨(run state).ending.map f, (run state).events, (run state).state⟩ := by
  rcases hending : (run state).ending with value | cause | _
  · rw [bind_of_value hending]
    exact congrArg (Trace.mk _ · _) (List.append_nil (run state).events)
  · exact bind_of_fault hending _
  · exact bind_of_unfinished hending _

/-- However many loops it is inside of, the run does the same. -/
def Uniform (run : Run σ α) : Prop :=
  ∀ state : State σ, run state.deeper = (run state).deeper

theorem uniform_pure (value : α) : Uniform (pure value : Run σ α) :=
  fun _ => rfl

theorem uniform_request (executor : Executor σ) (role : Role) (call : Command) :
    Uniform (request executor role call) := by
  intro state
  have hnotes : ∀ notes : List ProcessNote,
      (notes.map Event.process).map Event.deeper = notes.map Event.process := by
    intro notes
    rw [List.map_map]
    rfl
  simp only [request, Trace.deeper, List.map_cons, hnotes]
  rfl

theorem uniform_record {event : Event} (h : event.request? = none) :
    Uniform (record event : Run σ Unit) := by
  intro state
  cases event with
  | request made => cases h
  | process note => rfl
  | bodyFailed program iteration => rfl
  | loopEnded program iterations => rfl

theorem Uniform.bind {first : Run σ α} {next : α → Run σ β} (hfirst : Uniform first)
    (hnext : ∀ value, Uniform (next value)) : Uniform (first >>= next) := by
  intro state
  show andThen first next state.deeper = (andThen first next state).deeper
  simp only [andThen, hfirst state]
  rcases hending : (first state).ending with value | cause | _
  · have hrest : next value (first state).deeper.state = (next value (first state).state).deeper :=
      hnext value (first state).state
    simp only [Trace.deeper, hending, List.map_append] at hrest ⊢
    rw [hrest]
  · simp only [Trace.deeper, hending]
  · simp only [Trace.deeper, hending]

theorem Uniform.deeper_eq {run : Run σ α} (h : Uniform run) (state : State σ) :
    Run.deeper run state =
      ⟨(run state).ending, (run state).events.map Event.deeper, (run state).state⟩ := by
  have hsame : run { state with loopDepth := state.loopDepth + 1 } = (run state).deeper := h state
  simp only [Run.deeper, hsame, Trace.deeper, State.deeper, Int.add_sub_cancel]

theorem Uniform.deeper {run : Run σ α} (h : Uniform run) : Uniform (deeper run) := by
  intro state
  rw [h.deeper_eq, h.deeper_eq, h state]
  rfl

theorem uniform_closed (executor : Executor σ) (allowance : Nat) :
    Closed executor allowance Uniform :=
  closed_of_steps uniform_pure Uniform.bind (uniform_request executor) Uniform.deeper
    (fun _ => uniform_record) fun _ => rfl

end Run

theorem Node.uniform_exec (executor : Executor σ) (allowance : Nat) (node : Node) :
    Run.Uniform (node.exec executor allowance) :=
  exec_of_closed (Run.uniform_closed executor allowance) node fun _ _ => rfl

theorem uniform_oneRound {predicate : Run σ Status} {body : Run σ (Option Status)}
    (hpredicate : Run.Uniform predicate) (hbody : Run.Uniform body) :
    Run.Uniform (oneRound predicate body) := by
  apply hpredicate.bind
  intro decision
  split
  · exact hbody.bind fun _ => Run.uniform_pure _
  · exact Run.uniform_pure _

/-- What a loop logs when it closes, beside what the unrolled loop logs.  Neither may
come to close, and the unrolled loop may not come to the loop inside it.  Otherwise the
loop has seen one round more. -/
inductive Closings (name : String) : List Event → List Event → Prop
  | neither : Closings name [] []
  | first (all : Rounds) (h : all.count ≤ 1) : Closings name (all.notes name) []
  | both (shown : Option Status) (rest : Rounds) :
      Closings name ((rest.after shown).notes name) (rest.notes name)

theorem requests_notes (name : String) (all : Rounds) : requests (all.notes name) = [] := by
  rw [Rounds.notes]
  split <;> rfl

theorem Closings.requests_eq_nil {name : String} {own own' : List Event}
    (h : Closings name own own') : requests own = [] ∧ requests own' = [] := by
  cases h with
  | neither => exact ⟨rfl, rfl⟩
  | first all => exact ⟨requests_notes name all, rfl⟩
  | both shown rest => exact ⟨requests_notes name _, requests_notes name rest⟩

/-- The first trace is that of a loop and the second one that of the loop unrolled.  They
differ in the depth at which the events of the first round took place, and in how the
loop closes. -/
structure Trace.Unrolled (name : String) (first : List Event) (trace trace' : Trace σ α) :
    Prop where
  ending : trace.ending = trace'.ending
  state : trace.state = trace'.state
  events : ∃ rest own own', trace.events = first.map Event.deeper ++ rest ++ own ∧
    trace'.events = first ++ rest ++ own' ∧ Closings name own own'

theorem Trace.Unrolled.map_call {name : String} {first : List Event} {trace trace' : Trace σ α}
    (h : trace.Unrolled name first trace') :
    (requests trace.events).map Request.call = (requests trace'.events).map Request.call := by
  obtain ⟨rest, own, own', hevents, hevents', hclosings⟩ := h.events
  obtain ⟨hown, hown'⟩ := hclosings.requests_eq_nil
  rw [hevents, hevents']
  simp only [requests_append, List.map_append, map_call_requests_deeper, hown, hown']

namespace Run

theorem unrolled_closing {name : String} (rest : Run σ α) (result : α → β)
    {own own' : α → List Event} (h : ∀ value, Closings name (own value) (own' value))
    (state : State σ) :
    ((do let value ← rest; log (own value); pure (result value) : Run σ β) state).Unrolled name []
      ((do let value ← rest; log (own' value); pure (result value) : Run σ β) state) := by
  rcases hending : (rest state).ending with value | cause | _
  · rw [bind_of_value hending, bind_of_value hending]
    refine ⟨rfl, rfl, (rest state).events, own value, own' value, ?_, ?_, h value⟩
    · exact congrArg ((rest state).events ++ ·) (List.append_nil (own value))
    · exact congrArg ((rest state).events ++ ·) (List.append_nil (own' value))
  · rw [bind_of_fault hending, bind_of_fault hending]
    exact ⟨rfl, rfl, (rest state).events, [], [], by simp, by simp, .neither⟩
  · rw [bind_of_unfinished hending, bind_of_unfinished hending]
    exact ⟨rfl, rfl, (rest state).events, [], [], by simp, by simp, .neither⟩

theorem unrolled_pure (name : String) {all : Rounds} (h : all.count ≤ 1) (state : State σ) :
    ((do let all ← Run.deeper (pure all); log (all.notes name); pure all.shown :
        Run σ (Option Status)) state).Unrolled name [] ((pure all.shown : Run σ _) state) := by
  rw [deeper_pure, pure_bind]
  exact ⟨rfl, rfl, [], all.notes name, [], List.append_nil _, rfl, .first all h⟩

theorem Uniform.unrolled_bind {name : String} {first : Run σ α} (h : Uniform first)
    {next next' : α → Run σ β}
    (hnext : ∀ value state, (next value state).Unrolled name [] (next' value state))
    (state : State σ) :
    ((Run.deeper first >>= next) state).Unrolled name (first state).events
      ((first >>= next') state) := by
  show (andThen (Run.deeper first) next state).Unrolled name _ (andThen first next' state)
  simp only [andThen, h.deeper_eq state]
  cases (first state).ending with
  | value value =>
      obtain ⟨hending, hstate, rest, own, own', hevents, hevents', hclosings⟩ :=
        hnext value (first state).state
      refine ⟨hending, hstate, rest, own, own', ?_, ?_, hclosings⟩
      · simp [hevents]
      · simp [hevents']
  | fault cause => exact ⟨rfl, rfl, [], [], [], by simp, by simp, .neither⟩
  | unfinished => exact ⟨rfl, rfl, [], [], [], by simp, by simp, .neither⟩

end Run

section

variable (executor : Executor σ) (allowance : Nat) (predicate : Command) (body : Node)

/-- The first round of a loop. -/
def firstRound : Run σ (Option (Option Status)) :=
  oneRound (Run.request executor .predicate predicate) (body.exec executor allowance)

/-- The loop after its first round, with as many looks as the loop inside the unrolled
one. -/
def loopAfter (round : Option (Option Status)) : Run σ (Option Status) := do
  let all ← Run.deeper (furtherRounds
    (rounds (Run.request executor .predicate predicate) (body.exec executor allowance) allowance)
    round)
  Run.log (all.notes predicate.name)
  pure all.shown

/-- The unrolled loop after its first round. -/
def unrolledAfter : Option (Option Status) → Run σ (Option Status)
  | none => pure none
  | some shown => Node.goOn executor allowance none shown [.loop predicate body]

theorem loopRun_eq_bind :
    loopRun executor predicate (body.exec executor allowance) (allowance + 1) =
      Run.deeper (firstRound executor allowance predicate body) >>=
        loopAfter executor allowance predicate body := by
  rw [loopRun, rounds, Run.deeper_bind, bind_assoc]
  rfl

theorem exec_eq_bind :
    Node.exec executor allowance (.ifThen predicate (.block [body, .loop predicate body])) =
      firstRound executor allowance predicate body >>=
        unrolledAfter executor allowance predicate body := by
  rw [Node.exec, firstRound, oneRound, bind_assoc]
  apply bind_congr
  intro decision
  split
  · rw [Node.exec, Node.execAll_cons, bind_assoc]
    rfl
  · rfl

theorem unrolled_after (round : Option (Option Status)) (state : State σ) :
    (loopAfter executor allowance predicate body round state).Unrolled predicate.name []
      (unrolledAfter executor allowance predicate body round state) := by
  have hloop := Node.exec_loop executor allowance predicate body
  -- Without a body, or with one that failed, there is no way back into the loop.
  rcases round with _ | _ | status
  · exact Run.unrolled_pure predicate.name (Nat.zero_le 1) state
  · rw [loopAfter, unrolledAfter, furtherRounds, Run.deeper_bind, bind_assoc, Node.goOn,
      Node.execAll_singleton, hloop, loopRun]
    simp only [Run.deeper_pure, pure_bind, Rounds.after, Option.or_none]
    exact Run.unrolled_closing _ Rounds.shown (fun rest => .both none rest) state
  · rw [loopAfter, unrolledAfter, furtherRounds]
    rcases hstatus : status.succeeded with _ | _
    · rw [Node.goOn_of_failure _ _ _ _ hstatus]
      exact Run.unrolled_pure predicate.name (Nat.le_refl 1) state
    · rw [Node.goOn_of_success _ _ _ _ hstatus, Node.execAll_eq_bind, Node.execAll_singleton, hloop,
        loopRun, if_pos rfl, Run.deeper_bind, bind_assoc, bind_assoc]
      simp only [Run.deeper_pure, pure_bind, bind_assoc]
      exact Run.unrolled_closing _ (fun rest : Rounds => rest.shown.or (some status))
        (fun rest => .both (some status) rest) state

theorem exec_ifThen_eq_bind :
    Node.exec executor allowance (.ifThen predicate body) = (do
      let round ← firstRound executor allowance predicate body
      pure round.join) := by
  rw [Node.exec, firstRound, oneRound, bind_assoc]
  apply bind_congr
  intro decision
  split
  · rw [bind_assoc]
    exact (bind_pure _).symm
  · rfl

theorem events_exec_ifThen (state : State σ) :
    (Node.exec executor allowance (.ifThen predicate body) state).events =
      (firstRound executor allowance predicate body state).events := by
  rw [exec_ifThen_eq_bind, Run.bind_pure_apply]

theorem exec_ifThen_ended {state : State σ}
    (h : (Node.exec executor allowance (.ifThen predicate (.block [body, .loop predicate body]))
      state).ending ≠ .unfinished) :
    (Node.exec executor allowance (.ifThen predicate body) state).ending ≠ .unfinished := by
  rw [exec_ifThen_eq_bind, Run.bind_pure_apply]
  intro hmapped
  rcases hending : (firstRound executor allowance predicate body state).ending with
    round | cause | _
  · simp [hending, Ending.map] at hmapped
  · simp [hending, Ending.map] at hmapped
  · rw [exec_eq_bind, Run.bind_of_unfinished hending] at h
    exact h rfl

theorem loopRun_of_ended {state : State σ}
    (h : (Node.exec executor allowance (.loop predicate body) state).ending ≠ .unfinished) :
    loopRun executor predicate (body.exec executor allowance) (allowance + 1) state =
      Node.exec executor allowance (.loop predicate body) state := by
  rw [Node.exec_loop] at h ⊢
  exact extends_loopRun executor predicate (.refl _) (Nat.le_succ allowance) state h

theorem exec_of_loopRun_ended {state : State σ}
    (h : (loopRun executor predicate (body.exec executor allowance) (allowance + 1) state).ending ≠
      .unfinished) :
    Node.exec executor (allowance + 1) (.loop predicate body) state =
      loopRun executor predicate (body.exec executor allowance) (allowance + 1) state := by
  have hbody := Node.exec_extends executor (Nat.le_succ allowance) body
  rw [Node.exec_loop]
  exact extends_loopRun executor predicate hbody (Nat.le_refl (allowance + 1)) state h

theorem firstRound_unrolled (state : State σ) :
    (loopRun executor predicate (body.exec executor allowance) (allowance + 1) state).Unrolled
      predicate.name (firstRound executor allowance predicate body state).events
      (Node.exec executor allowance (.ifThen predicate (.block [body, .loop predicate body]))
        state) := by
  have huniform : Run.Uniform (firstRound executor allowance predicate body) :=
    uniform_oneRound (Run.uniform_request executor .predicate predicate)
      (Node.uniform_exec executor allowance body)
  rw [loopRun_eq_bind, exec_eq_bind]
  exact huniform.unrolled_bind (unrolled_after executor allowance predicate body) state

end

/-- A loop runs to an end if and only if the loop unrolled does: the conditional that runs
the body and then the loop, if the predicate succeeds.  They end alike, with a status, with
none or by a fault, make the same requests and leave the same state behind.  The requests
of the first round, which is a conditional of its own, are one loop deeper inside the loop,
and the lines that a loop logs when it closes count one round more. -/
theorem Node.exec_loop_unrolled (executor : Executor σ) (predicate : Command) (body : Node)
    (state : State σ) :
    let loop : Node := .loop predicate body
    let unrolled : Node := .ifThen predicate (.block [body, loop])
    ((∃ trace, loop.RunsTo executor state trace) ↔
      ∃ trace', unrolled.RunsTo executor state trace') ∧
    ∀ trace trace', loop.RunsTo executor state trace → unrolled.RunsTo executor state trace' →
      (requests trace.events).map Request.call = (requests trace'.events).map Request.call ∧
      ∃ first, RunsTo executor (.ifThen predicate body) state first ∧
        trace.Unrolled predicate.name first.events trace' := by
  intro loop unrolled
  constructor
  · constructor
    -- The loop makes the first look itself, and so needs one look more than the loop inside.
    · rintro ⟨trace, hended, allowance, rfl⟩
      have hlonger := loopRun_of_ended executor allowance predicate body hended
      refine ⟨_, ?_, allowance, rfl⟩
      rw [← (firstRound_unrolled executor allowance predicate body state).ending, hlonger]
      exact hended
    · rintro ⟨trace', hended, allowance, rfl⟩
      rw [← (firstRound_unrolled executor allowance predicate body state).ending] at hended
      have hlonger := exec_of_loopRun_ended executor allowance predicate body hended
      refine ⟨_, ?_, allowance + 1, rfl⟩
      rw [hlonger]
      exact hended
  · intro trace trace' hloop hunrolled
    -- The two runs may have been given different allowances; one that is enough for both is
    -- enough to compare them.
    obtain ⟨least, hleast⟩ := hloop.exec_of_le
    obtain ⟨least', hleast'⟩ := hunrolled.exec_of_le
    have htrace := hleast (max least least') (Nat.le_max_left least least')
    have htrace' := hleast' (max least least') (Nat.le_max_right least least')
    have hended := hloop.1
    rw [← htrace] at hended
    have hboth := firstRound_unrolled executor (max least least') predicate body state
    rw [loopRun_of_ended executor _ predicate body hended, htrace, htrace'] at hboth
    have hended' := hunrolled.1
    rw [← htrace'] at hended'
    rw [← events_exec_ifThen] at hboth
    exact ⟨hboth.map_call, _, ⟨exec_ifThen_ended executor _ predicate body hended', _, rfl⟩, hboth⟩

/-- A loop of two rounds, of which the second one shows no status.  The first status is
the result, once from the loop that remembers it and once from the block around the
loop. -/
theorem Node.exec_loop_unrolled_silent_round :
    let executor : Executor Nat :=
      ⟨fun call calls => ⟨.status (.process (if calls < 4 then 0 else 1)),
        [.exited call.name 0], calls + 1⟩⟩
    let body : Node := .ifThen ⟨"b", []⟩ (.command ⟨"c", ["x"]⟩)
    let loop : Node := .loop ⟨"a", []⟩ body
    let trace := exec executor 3 loop ⟨5, 2, 0⟩
    let trace' := exec executor 2 (.ifThen ⟨"a", []⟩ (.block [body, loop])) ⟨5, 2, 0⟩
    trace.ending = .value (some (.process 0)) ∧ trace.ending = trace'.ending ∧
      trace.state = trace'.state ∧ trace.state.commandCount = 11 ∧
      (requests trace.events).map Request.call = (requests trace'.events).map Request.call := by
  intro executor body loop trace trace'
  have hloop : loop.RunsTo executor ⟨5, 2, 0⟩ trace := ⟨by decide, 3, rfl⟩
  have hunrolled : RunsTo executor (.ifThen ⟨"a", []⟩ (.block [body, loop])) ⟨5, 2, 0⟩ trace' :=
    ⟨by decide, 2, rfl⟩
  obtain ⟨hcalls, first, -, hboth⟩ :=
    (exec_loop_unrolled executor ⟨"a", []⟩ body ⟨5, 2, 0⟩).2 trace trace' hloop hunrolled
  exact ⟨by decide, hboth.ending, hboth.state, by decide, hcalls⟩

end StatusShell
