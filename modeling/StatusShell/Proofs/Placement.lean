import StatusShell.Proofs.Sessions

namespace StatusShell

variable {σ α β : Type}

/-- The command stands in the statement, for the given purpose and inside of so many loops
of the statement.  The predicate of a loop stands inside of that loop. -/
inductive Node.Holds : Node → Role → Command → Nat → Prop
  | command {call : Command} : Holds (.command call) .statement call 0
  | block {statements : List Node} {statement : Node} {role : Role} {call : Command} {loops : Nat}
      (hmem : statement ∈ statements) (h : Holds statement role call loops) :
      Holds (.block statements) role call loops
  | ifThenPredicate {predicate : Command} {branch : Node} :
      Holds (.ifThen predicate branch) .predicate predicate 0
  | ifThenBranch {predicate : Command} {branch : Node} {role : Role} {call : Command}
      {loops : Nat} (h : Holds branch role call loops) :
      Holds (.ifThen predicate branch) role call loops
  | ifElsePredicate {predicate : Command} {branch otherwise : Node} :
      Holds (.ifElse predicate branch otherwise) .predicate predicate 0
  | ifElseBranch {predicate : Command} {branch otherwise : Node} {role : Role} {call : Command}
      {loops : Nat} (h : Holds branch role call loops) :
      Holds (.ifElse predicate branch otherwise) role call loops
  | ifElseOtherwise {predicate : Command} {branch otherwise : Node} {role : Role}
      {call : Command} {loops : Nat} (h : Holds otherwise role call loops) :
      Holds (.ifElse predicate branch otherwise) role call loops
  | loopPredicate {predicate : Command} {body : Node} :
      Holds (.loop predicate body) .predicate predicate 1
  | loopBody {predicate : Command} {body : Node} {role : Role} {call : Command} {loops : Nat}
      (h : Holds body role call loops) : Holds (.loop predicate body) role call (loops + 1)

namespace Run

/-- Every request of the run is among those held, inside of as many loops as its depth
tells. -/
def Places (Held : Role → Command → Nat → Prop) (run : Run σ α) : Prop :=
  ∀ state, ∀ request ∈ requests (run state).events, ∃ loops : Nat,
    Held request.role request.call loops ∧ request.loopDepth = state.loopDepth + loops

variable {Held Held' : Role → Command → Nat → Prop}

theorem Places.mono {run : Run σ α} (h : Places Held run)
    (himp : ∀ {role call loops}, Held role call loops → Held' role call loops) :
    Places Held' run := by
  intro state request hrequest
  obtain ⟨loops, hheld, hdepth⟩ := h state request hrequest
  exact ⟨loops, himp hheld, hdepth⟩

theorem places_of_quiet {run : Run σ α} (h : ∀ state, requests (run state).events = []) :
    Places Held run := by
  intro state request hrequest
  rw [h] at hrequest
  exact absurd hrequest List.not_mem_nil

theorem places_request (executor : Executor σ) (role : Role) (call : Command)
    (h : Held role call 0) : Places Held (request executor role call) := by
  intro state made hmade
  rw [requests_request, List.mem_singleton] at hmade
  subst hmade
  exact ⟨0, h, (Int.add_zero _).symm⟩

theorem Places.bind {first : Run σ α} {next : α → Run σ β} (hfirst : Places Held first)
    (hkeeps : Keeps first) (hnext : ∀ value, Places Held (next value)) :
    Places Held (first >>= next) := by
  intro state request hrequest
  rcases hending : (first state).ending with value | cause | _
  · rw [bind_of_value hending, requests_append, List.mem_append] at hrequest
    rcases hrequest with hrequest | hrequest
    · exact hfirst state request hrequest
    · obtain ⟨loops, hheld, hdepth⟩ := hnext value _ request hrequest
      rw [(hkeeps state).restored] at hdepth
      exact ⟨loops, hheld, hdepth⟩
  · rw [bind_of_fault hending] at hrequest
    exact hfirst state request hrequest
  · rw [bind_of_unfinished hending] at hrequest
    exact hfirst state request hrequest

theorem Places.deeper {run : Run σ α}
    (h : Places (fun role call loops => Held role call (loops + 1)) run) :
    Places Held (deeper run) := by
  intro state request hrequest
  obtain ⟨loops, hheld, hdepth⟩ := h _ request hrequest
  refine ⟨loops + 1, hheld, ?_⟩
  rw [hdepth]
  show state.loopDepth + 1 + (loops : Int) = _
  omega

theorem places_repeatWhile (name : String) {predicate : Run σ Status}
    {body : Run σ (Option Status)} (hpredicate : Places Held predicate)
    (hkept : Keeps predicate) (hbody : Places Held body) (hbodyKept : Keeps body)
    (allowance : Nat) (last : Option Status) (iterations : Nat) :
    Places Held (repeatWhile name predicate body allowance last iterations) := by
  induction allowance generalizing last iterations with
  | zero => exact places_of_quiet fun _ => rfl
  | succ allowance ih =>
      refine hpredicate.bind hkept fun decision => ?_
      split
      · refine hbody.bind hbodyKept fun shown => ?_
        rcases shown with _ | status
        · exact ih last (iterations + 1)
        · simp only
          split
          · exact ih (some status) (iterations + 1)
          · exact places_of_quiet fun _ => rfl
      · exact places_of_quiet fun _ => rfl

end Run

namespace Node

open Run

variable (executor : Executor σ) (allowance : Nat)

mutual

theorem places_exec : (node : Node) → Places node.Holds (exec executor allowance node)
  | .comment _ => by
      rw [exec]
      exact places_of_quiet fun _ => rfl
  | .command call => by
      rw [exec]
      exact (places_request executor .statement call .command).bind (keeps_request _ _ _)
        fun _ => places_of_quiet fun _ => rfl
  | .block statements => by
      rw [exec]
      exact (places_execAll none statements).mono fun ⟨_, hmem, h⟩ => .block hmem h
  | .ifThen predicate branch => by
      rw [exec]
      refine (places_request executor .predicate predicate .ifThenPredicate).bind
        (keeps_request _ _ _) fun decision => ?_
      split
      · exact (places_exec branch).mono .ifThenBranch
      · exact places_of_quiet fun _ => rfl
  | .ifElse predicate branch otherwise => by
      rw [exec]
      refine (places_request executor .predicate predicate .ifElsePredicate).bind
        (keeps_request _ _ _) fun decision => ?_
      split
      · exact (places_exec branch).mono .ifElseBranch
      · exact (places_exec otherwise).mono .ifElseOtherwise
  | .loop predicate body => by
      rw [exec]
      -- Inside the loop its own predicate is as deep as the commands of the body.
      have hrepeat : Places (fun role call loops => Holds (.loop predicate body) role call (loops + 1))
          (repeatWhile predicate.name (Run.request executor .predicate predicate)
            (exec executor allowance body) allowance none 0) :=
        places_repeatWhile predicate.name (places_request _ _ _ .loopPredicate)
          (keeps_request _ _ _) ((places_exec body).mono .loopBody)
          (keeps_exec executor allowance body) allowance none 0
      refine hrepeat.deeper.bind ?_ fun _ => places_of_quiet fun _ => rfl
      exact (keeps_closed executor allowance).repeated predicate (keeps_exec _ _ body)
  | .stray _ => by
      rw [exec]
      exact places_of_quiet fun _ => rfl

theorem places_execAll (last : Option Status) : (statements : List Node) →
    Places (fun role call loops => ∃ statement ∈ statements, statement.Holds role call loops)
      (execAll executor allowance last statements)
  | [] => by
      rw [execAll]
      exact places_of_quiet fun _ => rfl
  | statement :: statements => by
      have hrest : ∀ last, Places (fun role call loops =>
          ∃ other ∈ statement :: statements, other.Holds role call loops)
          (execAll executor allowance last statements) := by
        intro last
        apply (places_execAll last statements).mono
        rintro _ _ _ ⟨other, hmem, h⟩
        exact ⟨other, List.mem_cons_of_mem _ hmem, h⟩
      rw [execAll]
      refine Places.bind ?_ (keeps_exec executor allowance statement) fun shown => ?_
      · exact (places_exec statement).mono fun h => ⟨statement, List.mem_cons_self .., h⟩
      rcases shown with _ | status
      · exact hrest last
      · simp only
        split
        · exact hrest (some status)
        · exact places_of_quiet fun _ => rfl

end

end Node

namespace Run

/-- The requests of the run are numbered on from the count that it starts with. -/
def Numbers (run : Run σ α) : Prop :=
  ∀ state index request, (requests (run state).events)[index]? = some request →
    request.commandCount = state.commandCount + (index + 1 : Nat)

theorem numbers_of_quiet {run : Run σ α} (h : ∀ state, requests (run state).events = []) :
    Numbers run := by
  intro state index request hrequest
  rw [h] at hrequest
  cases hrequest

theorem numbers_request (executor : Executor σ) (role : Role) (call : Command) :
    Numbers (request executor role call) := by
  intro state index made hmade
  rw [requests_request, List.getElem?_singleton] at hmade
  split at hmade
  · next hindex =>
      cases hmade
      rw [hindex]
      rfl
  · cases hmade

theorem Numbers.bind {first : Run σ α} {next : α → Run σ β} (hfirst : Numbers first)
    (hkeeps : Keeps first) (hnext : ∀ value, Numbers (next value)) : Numbers (first >>= next) := by
  intro state index request hrequest
  rcases hending : (first state).ending with value | cause | _
  · rw [bind_of_value hending, requests_append, List.getElem?_append] at hrequest
    split at hrequest
    · exact hfirst state index request hrequest
    · rw [hnext value _ _ request hrequest, (hkeeps state).counted]
      omega
  · rw [bind_of_fault hending] at hrequest
    exact hfirst state index request hrequest
  · rw [bind_of_unfinished hending] at hrequest
    exact hfirst state index request hrequest

theorem keeps_numbers_closed (executor : Executor σ) (allowance : Nat) :
    Closed executor allowance fun run => Keeps run ∧ Numbers run :=
  closed_of_steps (fun _ => ⟨keeps_of_quiet fun _ => ⟨rfl, rfl⟩, numbers_of_quiet fun _ => rfl⟩)
    (fun hfirst hnext => ⟨hfirst.1.bind fun value => (hnext value).1,
      hfirst.2.bind hfirst.1 fun value => (hnext value).2⟩)
    (fun role call => ⟨keeps_request executor role call, numbers_request executor role call⟩)
    (fun hrun => ⟨hrun.1.deeper, fun state => hrun.2 { state with loopDepth := state.loopDepth + 1 }⟩)
    (fun _ hevent => ⟨keeps_of_quiet fun _ => ⟨by simp [record, requests, hevent], rfl⟩,
      numbers_of_quiet fun _ => by simp [record, requests, hevent]⟩)
    ⟨keeps_of_quiet fun _ => ⟨rfl, rfl⟩, numbers_of_quiet fun _ => rfl⟩

end Run

theorem execScript_numbers (executor : Executor σ) (allowance : Nat) (statements : List Node) :
    Run.Numbers (execScript executor allowance statements) := by
  apply (Node.execAll_of_closed (Run.keeps_numbers_closed executor allowance) none statements _).2
  exact fun _ => ⟨Run.keeps_of_quiet fun _ => ⟨rfl, rfl⟩, Run.numbers_of_quiet fun _ => rfl⟩

/-- Every request is made for a command that stands in the statements, as a statement or as
a predicate.  The count of commands at the request goes up by one from request to request,
and the depth is that of the start and one more for each loop that the command stands in. -/
theorem execScript_requests_placed (executor : Executor σ) (allowance : Nat)
    (statements : List Node) (state : State σ) {index : Nat} {request : Request}
    (h : (requests (execScript executor allowance statements state).events)[index]? =
      some request) :
    request.commandCount = state.commandCount + (index + 1 : Nat) ∧
      ∃ statement ∈ statements, ∃ loops : Nat,
        statement.Holds request.role request.call loops ∧
          request.loopDepth = state.loopDepth + loops := by
  refine ⟨execScript_numbers executor allowance statements state index request h, ?_⟩
  obtain ⟨loops, ⟨statement, hmem, hheld⟩, hdepth⟩ :=
    Node.places_execAll executor allowance none statements state request
      (List.mem_of_getElem? h)
  exact ⟨statement, hmem, loops, hheld, hdepth⟩

/-- The sixth request of two loops, one inside the other: the inner loop has been left once
and is entered again. -/
theorem execScript_requests_placed_nested :
    let executor : Executor Nat :=
      ⟨fun _ calls => ⟨.status (.process (if calls ∈ [0, 1, 2, 4, 5] then 0 else 1)), [],
        calls + 1⟩⟩
    let inner : Node := .loop ⟨"b", []⟩ (.command ⟨"c", ["x"]⟩)
    let outer : Node := .loop ⟨"a", []⟩ inner
    let made := requests (execScript executor 3 [.comment "", outer] ⟨7, -1, 0⟩).events
    made[5]? = some ⟨.predicate, ⟨"b", []⟩, 13, 1, .status (.process 0)⟩ ∧
      ∃ statement ∈ [.comment "", outer], ∃ loops : Nat,
        statement.Holds .predicate ⟨"b", []⟩ loops ∧ (1 : Int) = -1 + loops := by
  intro executor inner outer made
  have hmade : made[5]? = some ⟨.predicate, ⟨"b", []⟩, 13, 1, .status (.process 0)⟩ := by decide
  exact ⟨hmade, (execScript_requests_placed executor 3 _ _ hmade).2⟩

end StatusShell
