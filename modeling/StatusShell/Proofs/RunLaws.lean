import StatusShell.Run.Statement

/-!
Runs that are composed one after the other obey the laws of monads.  All that
the interpreter does is composed of a few kinds of runs, so a property that
these have and that composition keeps is a property of every statement.
-/

namespace StatusShell

variable {σ : Type}

theorem Event.request?_of_controlFlow {event : Event} (h : event.channel = .controlFlow) :
    event.request? = none := by
  cases event with
  | request made => cases h
  | process note => rfl
  | bodyFailed name iteration => rfl
  | loopEnded name iterations => rfl

namespace Run

theorem andThen_pure {α : Type} (run : Run σ α) : andThen run pure = run := by
  funext state
  rw [andThen]
  rcases run state with ⟨ending, events, after⟩
  cases ending with
  | value value =>
      change Trace.mk (.value value) (events ++ []) after = _
      rw [List.append_nil]
  | fault cause => rfl
  | unfinished => rfl

theorem andThen_assoc {α β γ : Type} (first : Run σ α) (next : α → Run σ β)
    (last : β → Run σ γ) :
    andThen (andThen first next) last = andThen first fun value => andThen (next value) last := by
  funext state
  simp only [andThen]
  cases (first state).ending with
  | value value =>
      simp only
      cases (next value (first state).state).ending with
      | value value => simp only [List.append_assoc]
      | fault cause => rfl
      | unfinished => rfl
  | fault cause => rfl
  | unfinished => rfl

instance : LawfulMonad (Run σ) :=
  LawfulMonad.mk' (Run σ) andThen_pure (fun _ _ => rfl) andThen_assoc

/-- A property that runs of the interpreter keep: requests have it, and runs
that are composed of runs with the property have it. -/
structure Closed (executor : Executor σ) (allowance : Nat)
    (P : ∀ {α : Type}, Run σ α → Prop) : Prop where
  pure {α : Type} (value : α) : P (Pure.pure value : Run σ α)
  bind {α β : Type} {first : Run σ α} {next : α → Run σ β} (hfirst : P first)
    (hnext : ∀ value, P (next value)) : P (first >>= next)
  request (role : Role) (call : Command) : P (request executor role call)
  repeated (call : Command) {body : Run σ (Option Status)} (hbody : P body) :
    P (deeper (repeatWhile call.name (Run.request executor .predicate call) body allowance none 0))
  loopEnded (name : String) (iterations : Nat) :
    P (record (.loopEnded name iterations) : Run σ Unit)

theorem closed_of_controlFlow {executor : Executor σ} {allowance : Nat}
    {P : ∀ {α : Type}, Run σ α → Prop}
    (hpure : ∀ {α : Type} (value : α), P (Pure.pure value : Run σ α))
    (hbind : ∀ {α β : Type} {first : Run σ α} {next : α → Run σ β}, P first →
      (∀ value, P (next value)) → P (first >>= next))
    (hrequest : ∀ role call, P (request executor role call))
    (hdeeper : ∀ {α : Type} {run : Run σ α}, P run → P (deeper run))
    (hrecord : ∀ event, event.channel = .controlFlow → P (record event : Run σ Unit))
    (hgiveUp : ∀ {α : Type}, P (giveUp : Run σ α)) : Closed executor allowance P where
  pure := hpure
  bind := hbind
  request := hrequest
  loopEnded name iterations := hrecord (.loopEnded name iterations) rfl
  repeated call body hbody := by
    have hrepeat : ∀ looks last iterations, P (repeatWhile call.name
        (Run.request executor .predicate call) body looks last iterations) := by
      intro looks
      induction looks with
      | zero => exact fun _ _ => hgiveUp
      | succ looks ih =>
          intro last iterations
          refine hbind (hrequest .predicate call) fun decision => ?_
          split
          · refine hbind hbody fun shown => ?_
            rcases shown with _ | status
            · exact ih last (iterations + 1)
            · simp only
              split
              · exact ih (some status) (iterations + 1)
              · exact hbind (hrecord _ rfl) fun _ => hpure _
          · exact hpure _
    exact hdeeper (hrepeat allowance none 0)

theorem closed_of_steps {executor : Executor σ} {allowance : Nat}
    {P : ∀ {α : Type}, Run σ α → Prop}
    (hpure : ∀ {α : Type} (value : α), P (Pure.pure value : Run σ α))
    (hbind : ∀ {α β : Type} {first : Run σ α} {next : α → Run σ β}, P first →
      (∀ value, P (next value)) → P (first >>= next))
    (hrequest : ∀ role call, P (request executor role call))
    (hdeeper : ∀ {α : Type} {run : Run σ α}, P run → P (deeper run))
    (hrecord : ∀ event, event.request? = none → P (record event : Run σ Unit))
    (hgiveUp : ∀ {α : Type}, P (giveUp : Run σ α)) : Closed executor allowance P := by
  refine closed_of_controlFlow hpure hbind hrequest hdeeper (fun event hevent => ?_) hgiveUp
  exact hrecord event (Event.request?_of_controlFlow hevent)

end Run

namespace Node

variable {executor : Executor σ} {allowance : Nat} {P : ∀ {α : Type}, Run σ α → Prop}

mutual

theorem exec_of_closed (h : Run.Closed executor allowance P) : (node : Node) →
    (node.stray?.isSome = true → P (Run.raise .strayStatement : Run σ (Option Status))) →
    P (exec executor allowance node)
  | .comment _, _ => by
      rw [exec]
      exact h.pure none
  | .command call, _ => by
      rw [exec]
      exact h.bind (h.request .statement call) fun status => h.pure (some status)
  | .block statements, hstray => by
      rw [exec]
      exact execAll_of_closed h none statements hstray
  | .ifThen predicate branch, hstray => by
      rw [exec]
      refine h.bind (h.request .predicate predicate) fun decision => ?_
      split
      · exact exec_of_closed h branch hstray
      · exact h.pure none
  | .ifElse predicate branch otherwise, hstray => by
      simp only [stray?, Option.isSome_or, Bool.or_eq_true] at hstray
      rw [exec]
      refine h.bind (h.request .predicate predicate) fun decision => ?_
      split
      · exact exec_of_closed h branch fun hbranch => hstray (.inl hbranch)
      · exact exec_of_closed h otherwise fun hotherwise => hstray (.inr hotherwise)
  | .loop predicate body, hstray => by
      rw [exec]
      refine h.bind (h.repeated predicate (exec_of_closed h body hstray)) fun result => ?_
      exact h.bind (h.loopEnded predicate.name result.2) fun _ => h.pure result.1
  | .stray text, hstray => by
      rw [exec]
      exact hstray rfl

theorem execAll_of_closed (h : Run.Closed executor allowance P) (last : Option Status) :
    (statements : List Node) → ((firstStray? statements).isSome = true →
      P (Run.raise .strayStatement : Run σ (Option Status))) →
    P (execAll executor allowance last statements)
  | [], _ => by
      rw [execAll]
      exact h.pure last
  | statement :: statements, hstray => by
      simp only [firstStray?, Option.isSome_or, Bool.or_eq_true] at hstray
      have hrest := fun last => execAll_of_closed h last statements fun hrest => hstray (.inr hrest)
      rw [execAll]
      refine h.bind (exec_of_closed h statement fun hfirst => hstray (.inl hfirst)) fun shown => ?_
      cases shown with
      | none => exact hrest last
      | some status =>
          simp only
          split
          · exact hrest (some status)
          · exact h.pure (some status)

end

end Node

end StatusShell
