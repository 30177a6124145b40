import StatusShell.Proofs.Termination
import StatusShell.Proofs.Unrolling

namespace StatusShell

variable {σ : Type}

structure Pass (σ : Type) where
  look : Trace σ Status
  run : Trace σ (Option Status)
  shown : Option Status

def Pass.events (pass : Pass σ) : List Event :=
  pass.look.events ++ pass.run.events

section

variable (executor : Executor σ) (predicate : Command) (body : Node)

/-- Passes one after the other, from a state to the state after the last of them. -/
inductive Passes : State σ → List (Pass σ) → State σ → Prop
  | nil (state : State σ) : Passes state [] state
  | cons {state after : State σ} {pass : Pass σ} {passes : List (Pass σ)} {decision : Status}
      (hlook : Run.request executor .predicate predicate state = pass.look)
      (hdecision : pass.look.ending = .value decision) (hsucceeded : decision.succeeded = true)
      (hrun : body.RunsTo executor pass.look.state pass.run)
      (hshown : pass.run.ending = .value pass.shown)
      (hpasses : Passes pass.run.state passes after) : Passes state (pass :: passes) after

/-- How a loop comes out of its passes, and what it has done until then. -/
inductive Leaves (passes : List (Pass σ)) (after : State σ) : Trace σ Rounds → Prop
  | predicateFailed {look : Trace σ Status} {decision : Status}
      (hlook : Run.request executor .predicate predicate after = look)
      (hdecision : look.ending = .value decision) (hfailed : decision.succeeded = false)
      (hpassing : ∀ pass ∈ passes, Passing pass.shown) :
      Leaves passes after
        ⟨.value ⟨(passes.filterMap Pass.shown).getLast?, passes.length, false⟩,
          passes.flatMap Pass.events ++ look.events, look.state⟩
  | bodyFailed {before : List (Pass σ)} {last : Pass σ} {status : Status}
      (hpasses : passes = before ++ [last]) (hpassing : ∀ pass ∈ before, Passing pass.shown)
      (hshown : last.shown = some status) (hfailed : status.succeeded = false) :
      Leaves passes after
        ⟨.value ⟨some status, passes.length, true⟩, passes.flatMap Pass.events, after⟩
  | predicateFaulted {look : Trace σ Status} {cause : Fault}
      (hlook : Run.request executor .predicate predicate after = look)
      (hfault : look.ending = .fault cause) (hpassing : ∀ pass ∈ passes, Passing pass.shown) :
      Leaves passes after
        ⟨.fault cause, passes.flatMap Pass.events ++ look.events, look.state⟩
  | bodyFaulted {look : Trace σ Status} {decision : Status} {run : Trace σ (Option Status)}
      {cause : Fault} (hlook : Run.request executor .predicate predicate after = look)
      (hdecision : look.ending = .value decision) (hsucceeded : decision.succeeded = true)
      (hrun : body.RunsTo executor look.state run) (hfault : run.ending = .fault cause)
      (hpassing : ∀ pass ∈ passes, Passing pass.shown) :
      Leaves passes after
        ⟨.fault cause, passes.flatMap Pass.events ++ look.events ++ run.events, run.state⟩

end

section

variable {executor : Executor σ} {predicate : Command} {body : Node}

theorem getLast?_shown_cons (pass : Pass σ) (passes : List (Pass σ)) :
    ((pass :: passes).filterMap Pass.shown).getLast? =
      (passes.filterMap Pass.shown).getLast?.or pass.shown := by
  rcases hshown : pass.shown with _ | status
  · simp [hshown]
  · simp [hshown, List.getLast?_cons]

theorem Leaves.cons {pass : Pass σ} {passes : List (Pass σ)} {after : State σ}
    {trace : Trace σ Rounds} (hpass : Passing pass.shown)
    (h : Leaves executor predicate body passes after trace) :
    Leaves executor predicate body (pass :: passes) after
      ⟨trace.ending.map (Rounds.after pass.shown), pass.events ++ trace.events, trace.state⟩ := by
  have hall : ∀ {others : List (Pass σ)}, (∀ other ∈ others, Passing other.shown) →
      ∀ other ∈ pass :: others, Passing other.shown :=
    fun hothers => List.forall_mem_cons.mpr ⟨hpass, hothers⟩
  rcases h with ⟨hlook, hdecision, hfailed, hpassing⟩ | ⟨hpasses, hpassing, hshown, hfailed⟩ |
    ⟨hlook, hfault, hpassing⟩ | ⟨hlook, hdecision, hsucceeded, hrun, hfault, hpassing⟩
  · rw [← List.append_assoc]
    show Leaves _ _ _ _ _ ⟨.value ⟨(passes.filterMap Pass.shown).getLast?.or pass.shown, _, _⟩, _, _⟩
    rw [← getLast?_shown_cons]
    exact .predicateFailed hlook hdecision hfailed (hall hpassing)
  · subst hpasses
    exact .bodyFailed (List.cons_append ..).symm (hall hpassing) hshown hfailed
  · rw [← List.append_assoc]
    exact .predicateFaulted hlook hfault (hall hpassing)
  · rw [← List.append_assoc, ← List.append_assoc]
    exact .bodyFaulted hlook hdecision hsucceeded hrun hfault (hall hpassing)

end

section

variable {predicate : Run σ Status} {body : Run σ (Option Status)} {state : State σ} {looks : Nat}

/-- The rounds of a loop from a successful look on. -/
def afterLook (predicate : Run σ Status) (body : Run σ (Option Status)) (looks : Nat) :
    Run σ Rounds := do
  let shown ← body
  furtherRounds (rounds predicate body looks) (some shown)

theorem rounds_succ :
    rounds predicate body (looks + 1) = (do
      let decision ← predicate
      if decision.succeeded then afterLook predicate body looks else pure .none) := by
  rw [rounds, oneRound, bind_assoc]
  apply bind_congr
  intro decision
  split
  · rw [bind_assoc]
    rfl
  · rfl

theorem rounds_of_look_fault {cause : Fault} (h : (predicate state).ending = .fault cause) :
    rounds predicate body (looks + 1) state =
      ⟨.fault cause, (predicate state).events, (predicate state).state⟩ := by
  rw [rounds_succ, Run.bind_of_fault h]

theorem rounds_of_failed_look {decision : Status}
    (h : (predicate state).ending = .value decision) (hfailed : decision.succeeded = false) :
    rounds predicate body (looks + 1) state =
      ⟨.value .none, (predicate state).events, (predicate state).state⟩ := by
  rw [rounds_succ, Run.bind_of_value h, hfailed]
  exact congrArg (Trace.mk _ · _) (List.append_nil _)

theorem rounds_of_look {decision : Status} (h : (predicate state).ending = .value decision)
    (hsucceeded : decision.succeeded = true) :
    rounds predicate body (looks + 1) state =
      ⟨(afterLook predicate body looks (predicate state).state).ending,
        (predicate state).events ++ (afterLook predicate body looks (predicate state).state).events,
        (afterLook predicate body looks (predicate state).state).state⟩ := by
  rw [rounds_succ, Run.bind_of_value h, hsucceeded]
  rfl

theorem afterLook_of_fault {cause : Fault} (h : (body state).ending = .fault cause) :
    afterLook predicate body looks state =
      ⟨.fault cause, (body state).events, (body state).state⟩ := by
  rw [afterLook, Run.bind_of_fault h]

theorem afterLook_of_unfinished (h : (body state).ending = .unfinished) :
    (afterLook predicate body looks state).ending = .unfinished := by
  rw [afterLook, Run.bind_of_unfinished h]

theorem afterLook_of_failure {status : Status} (h : (body state).ending = .value (some status))
    (hfailed : status.succeeded = false) :
    afterLook predicate body looks state =
      ⟨.value (.failure status), (body state).events, (body state).state⟩ := by
  rw [afterLook, Run.bind_of_value h, furtherRounds, hfailed]
  exact congrArg (Trace.mk _ · _) (List.append_nil _)

theorem afterLook_of_passing {shown : Option Status} (h : (body state).ending = .value shown)
    (hpassing : Passing shown) :
    afterLook predicate body looks state =
      ⟨(rounds predicate body looks (body state).state).ending.map (Rounds.after shown),
        (body state).events ++ (rounds predicate body looks (body state).state).events,
        (rounds predicate body looks (body state).state).state⟩ := by
  have hfurther : furtherRounds (rounds predicate body looks) (some shown) = (do
      let more ← rounds predicate body looks
      pure (more.after shown)) := by
    rcases shown with _ | status
    · rfl
    · rw [furtherRounds, if_pos (hpassing status rfl)]
  rw [afterLook, Run.bind_of_value h, hfurther, Run.bind_pure_apply]

theorem passing_or_failure (shown : Option Status) :
    Passing shown ∨ ∃ status, shown = some status ∧ status.succeeded = false := by
  rcases shown with _ | status
  · exact .inl passing_none
  · rcases hstatus : status.succeeded with _ | _
    · exact .inr ⟨status, rfl, hstatus⟩
    · exact .inl (passing_some hstatus)

end

section

variable (executor : Executor σ) (predicate : Command) (body : Node) (allowance : Nat)

/-- The rounds of a loop are passes, and then one of the ways to leave it. -/
theorem rounds_leave (looks : Nat) {state : State σ}
    (hended : (rounds (Run.request executor .predicate predicate) (body.exec executor allowance)
      looks state).ending ≠ .unfinished) :
    ∃ passes after, Passes executor predicate body state passes after ∧
      Leaves executor predicate body passes after
        (rounds (Run.request executor .predicate predicate) (body.exec executor allowance)
          looks state) := by
  induction looks generalizing state with
  | zero => exact absurd rfl hended
  | succ looks ih =>
      generalize hlook : Run.request executor .predicate predicate state = look
      rcases hdecision : look.ending with decision | cause | _
      · rcases hsucceeded : decision.succeeded with _ | _
        · rw [rounds_of_failed_look (hlook ▸ hdecision) hsucceeded, hlook]
          exact ⟨[], state, .nil state, .predicateFailed hlook hdecision hsucceeded (by simp)⟩
        rw [rounds_of_look (hlook ▸ hdecision) hsucceeded, hlook] at hended ⊢
        generalize hrun : body.exec executor allowance look.state = run
        have hruns : run.ending ≠ .unfinished → body.RunsTo executor look.state run :=
          fun hended => ⟨hended, allowance, hrun⟩
        rcases hshown : run.ending with shown | cause | _
        · have hruns := hruns (by simp [hshown])
          rcases passing_or_failure shown with hpassing | ⟨status, rfl, hfailed⟩
          · rw [afterLook_of_passing (hrun ▸ hshown) hpassing, hrun] at hended ⊢
            obtain ⟨passes, after, hpasses, hleaves⟩ :=
              ih fun hrest => hended (congrArg (Ending.map (Rounds.after shown)) hrest)
            refine ⟨⟨look, run, shown⟩ :: passes, after,
              .cons hlook hdecision hsucceeded hruns hshown hpasses, ?_⟩
            simpa only [Pass.events, List.append_assoc] using hleaves.cons hpassing
          · rw [afterLook_of_failure (hrun ▸ hshown) hfailed, hrun]
            let pass : Pass σ := ⟨look, run, some status⟩
            have hpasses : Passes executor predicate body state [pass] run.state :=
              .cons hlook hdecision hsucceeded hruns hshown (.nil run.state)
            have hleaves : Leaves executor predicate body [pass] run.state _ :=
              .bodyFailed (List.nil_append [pass]).symm (by simp) rfl hfailed
            rw [List.flatMap_singleton] at hleaves
            exact ⟨[pass], run.state, hpasses, hleaves⟩
        · have hruns := hruns (by simp [hshown])
          rw [afterLook_of_fault (hrun ▸ hshown), hrun]
          exact ⟨[], state, .nil state,
            .bodyFaulted hlook hdecision hsucceeded hruns hshown (by simp)⟩
        · exact absurd (afterLook_of_unfinished (hrun ▸ hshown)) hended
      · rw [rounds_of_look_fault (hlook ▸ hdecision), hlook]
        exact ⟨[], state, .nil state, .predicateFaulted hlook hdecision (by simp)⟩
      · rw [← hlook, Run.ending_request] at hdecision
        split at hdecision <;> cases hdecision

end

/-- The lines that a loop logs itself when its rounds have ended: none unless they ended
with a value. -/
def ownLines (name : String) : Ending Rounds → List Event
  | .value all => all.notes name
  | _ => []

theorem loopRun_ending_events (executor : Executor σ) (predicate : Command)
    (body : Run σ (Option Status)) (looks : Nat) (state : State σ) :
    let inner := rounds (Run.request executor .predicate predicate) body looks state.deeper
    (loopRun executor predicate body looks state).ending = inner.ending.map Rounds.shown ∧
      (loopRun executor predicate body looks state).events =
        inner.events ++ ownLines predicate.name inner.ending := by
  intro inner
  have hdeeper : Run.deeper (rounds (Run.request executor .predicate predicate) body looks) state =
      ⟨inner.ending, inner.events, { inner.state with loopDepth := inner.state.loopDepth - 1 }⟩ :=
    rfl
  rw [loopRun]
  rcases hending : inner.ending with all | cause | _
  · rw [Run.bind_of_value ((congrArg Trace.ending hdeeper).trans hending), hdeeper]
    exact ⟨rfl, congrArg (inner.events ++ ·) (List.append_nil _)⟩
  · rw [Run.bind_of_fault ((congrArg Trace.ending hdeeper).trans hending), hdeeper]
    exact ⟨rfl, (List.append_nil _).symm⟩
  · rw [Run.bind_of_unfinished ((congrArg Trace.ending hdeeper).trans hending), hdeeper]
    exact ⟨rfl, (List.append_nil _).symm⟩

theorem Node.exec_loop_leaves {executor : Executor σ} {predicate : Command} {body : Node}
    {state : State σ} {trace : Trace σ (Option Status)}
    (h : RunsTo executor (.loop predicate body) state trace) :
    ∃ passes after inner, Passes executor predicate body state.deeper passes after ∧
      Leaves executor predicate body passes after inner ∧
      trace.ending = inner.ending.map Rounds.shown ∧
      trace.events = inner.events ++ ownLines predicate.name inner.ending := by
  obtain ⟨hended, allowance, htrace⟩ := h
  obtain ⟨hending, hevents⟩ := loopRun_ending_events executor predicate
    (body.exec executor allowance) allowance state
  rw [← exec_loop, htrace] at hending hevents
  have hinner : (rounds (Run.request executor .predicate predicate)
      (body.exec executor allowance) allowance state.deeper).ending ≠ .unfinished := by
    intro hunfinished
    rw [hunfinished] at hending
    exact hended hending
  obtain ⟨passes, after, hpasses, hleaves⟩ := rounds_leave executor predicate body allowance
    allowance hinner
  exact ⟨passes, after, _, hpasses, hleaves, hending, hevents⟩

/-- A loop that ends does so after a number of passes.  If it ends with a value, then its
last line in the log tells their number.  Either each body showed a success or nothing and
the next look at the predicate failed: then the value is the last status shown, if any, and
the loop logs nothing else.  Or the last body alone showed a failure, which is the value:
then the loop logs that as well, right before its last line.  If the loop ends by a fault,
it was met by the look at the predicate after these passes or by the body behind that look,
and all that is logged comes from the predicate and the body. -/
theorem Node.exec_loop_passes {executor : Executor σ} {predicate : Command} {body : Node}
    {state : State σ} {trace : Trace σ (Option Status)}
    (h : RunsTo executor (.loop predicate body) state trace) :
    ∃ passes after, Passes executor predicate body state.deeper passes after ∧
      let look := Run.request executor .predicate predicate after
      let done := passes.flatMap Pass.events
      let ended : Event := .loopEnded predicate.name passes.length
      let failed : Event := .bodyFailed predicate.name passes.length
      ended.message =
        "while " ++ predicate.name ++ ": " ++ toString passes.length ++ " iteration(s)" ∧
      failed.message =
        "while " ++ predicate.name ++ ": body failed on iteration " ++ toString passes.length ∧
      (∀ result, trace.ending = .value result →
        (∃ decision, look.ending = .value decision ∧ decision.succeeded = false ∧
          (∀ pass ∈ passes, Passing pass.shown) ∧
          result = (passes.filterMap Pass.shown).getLast? ∧
          trace.events = done ++ look.events ++ [ended]) ∨
        ∃ before last status, passes = before ++ [last] ∧
          (∀ pass ∈ before, Passing pass.shown) ∧
          last.shown = some status ∧ status.succeeded = false ∧ result = some status ∧
          trace.events = done ++ [failed, ended]) ∧
      (∀ cause, trace.ending = .fault cause → (∀ pass ∈ passes, Passing pass.shown) ∧
        (look.ending = .fault cause ∧ trace.events = done ++ look.events ∨
          ∃ decision run, look.ending = .value decision ∧ decision.succeeded = true ∧
            body.RunsTo executor look.state run ∧ run.ending = .fault cause ∧
            trace.events = done ++ look.events ++ run.events)) := by
  obtain ⟨passes, after, inner, hpasses, hleaves, hending, hevents⟩ := exec_loop_leaves h
  refine ⟨passes, after, hpasses, rfl, rfl, ?_⟩
  rcases hleaves with ⟨rfl, hdecision, hfailed, hpassing⟩ | ⟨hlast, hpassing, hshown, hfailed⟩ |
    ⟨rfl, hfault, hpassing⟩ | ⟨rfl, hdecision, hsucceeded, hrun, hfault, hpassing⟩
  · constructor
    · intro result hresult
      obtain rfl := Ending.value.inj (hresult.symm.trans hending)
      exact .inl ⟨_, hdecision, hfailed, hpassing, rfl, hevents⟩
    · intro cause hcause
      cases hending.symm.trans hcause
  · constructor
    · intro result hresult
      obtain rfl := Ending.value.inj (hresult.symm.trans hending)
      exact .inr ⟨_, _, _, hlast, hpassing, hshown, hfailed, rfl, hevents⟩
    · intro cause hcause
      cases hending.symm.trans hcause
  · rw [show ownLines predicate.name (.fault _) = [] from rfl, List.append_nil] at hevents
    constructor
    · intro result hresult
      cases hending.symm.trans hresult
    · intro cause hcause
      obtain rfl := Ending.fault.inj (hcause.symm.trans hending)
      exact ⟨hpassing, .inl ⟨hfault, hevents⟩⟩
  · rw [show ownLines predicate.name (.fault _) = [] from rfl, List.append_nil] at hevents
    constructor
    · intro result hresult
      cases hending.symm.trans hresult
    · intro cause hcause
      obtain rfl := Ending.fault.inj (hcause.symm.trans hending)
      exact ⟨hpassing, .inr ⟨_, _, hdecision, hsucceeded, hrun, hfault, hevents⟩⟩

/-- A loop of two passes around a loop with the same predicate, which ends twice in
between. -/
theorem Node.exec_loop_passes_nested :
    let executor : Executor Nat :=
      ⟨fun _ calls => ⟨.status (.process (if calls ∈ [0, 1, 3] then 0 else 1)), [], calls + 1⟩⟩
    let predicate : Command := ⟨"a", ["x"]⟩
    let body : Node := .loop predicate (.comment "c")
    let trace := exec executor 3 (.loop predicate body) ⟨5, 2, 0⟩
    trace.ending = .value none ∧
      (trace.events.filter (·.channel = .controlFlow)).map Event.message =
        ["while a: 1 iteration(s)", "while a: 0 iteration(s)", "while a: 2 iteration(s)"] ∧
      ∃ passes after, Passes executor predicate body (State.deeper ⟨5, 2, 0⟩) passes after ∧
        passes.length = 2 := by
  intro executor predicate body trace
  have hrun : RunsTo executor (.loop predicate body) ⟨5, 2, 0⟩ trace := ⟨by decide, 3, rfl⟩
  have hvalue : trace.ending = .value none := by decide
  have hlast : trace.events.getLast? = some (.loopEnded "a" 2) := by decide
  obtain ⟨passes, after, hpasses, -, -, hvalues, -⟩ := exec_loop_passes hrun
  refine ⟨hvalue, by decide, passes, after, hpasses, ?_⟩
  rcases hvalues none hvalue with ⟨_, _, _, _, _, hevents⟩ | ⟨_, _, _, _, _, _, _, hnone, _⟩
  · rw [hevents, List.getLast?_concat] at hlast
    exact (Event.loopEnded.inj (Option.some.inj hlast)).2
  · cases hnone

end StatusShell
