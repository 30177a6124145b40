import StatusShell.Proofs.Lockstep

namespace StatusShell

variable {σ τ : Type}

/-- The first answers are alike, the given number of them, as far as both runs
have asked. -/
def AlikeUpTo (count : Nat) (made made' : List Request) : Prop :=
  ∀ index < count, ∀ request ∈ made[index]?, ∀ request' ∈ made'[index]?,
    request.answer.Alike request'.answer

instance (count : Nat) (made made' : List Request) : Decidable (AlikeUpTo count made made') :=
  inferInstanceAs (Decidable (∀ index < count, ∀ request ∈ made[index]?,
    ∀ request' ∈ made'[index]?, request.answer.Alike request'.answer))

theorem AlikeUpTo.of_cons {count : Nat} {request request' : Request} {made made' : List Request}
    (h : AlikeUpTo (count + 1) (request :: made) (request' :: made')) :
    request.answer.Alike request'.answer ∧ AlikeUpTo count made made' := by
  constructor
  · exact h 0 (Nat.succ_pos count) request rfl request' rfl
  · intro index hindex found hfound found' hfound'
    exact h (index + 1) (Nat.succ_lt_succ hindex) found hfound found' hfound'

namespace AskAlike

variable {Met : Answer → Answer → Prop} {made made' : List Request}

theorem take_question (h : AskAlike Met made made') {count : Nat}
    (halike : AlikeUpTo count made made') :
    (made.take (count + 1)).map Request.question =
      (made'.take (count + 1)).map Request.question := by
  induction made generalizing made' count with
  | nil =>
      rcases made' with _ | ⟨request', made'⟩
      · rfl
      · exact h.elim
  | cons request made ih =>
      rcases made' with _ | ⟨request', made'⟩
      · exact h.elim
      obtain ⟨hquestion, _, hrest⟩ := h
      rw [List.take_succ_cons, List.take_succ_cons, List.map_cons, List.map_cons, hquestion]
      rcases count with _ | count
      · rfl
      · obtain ⟨hfirst, hmore⟩ := halike.of_cons
        rw [ih (hrest hfirst) hmore]

theorem allAlike (h : AskAlike Met made made') (halike : AlikeUpTo made.length made made') :
    AllAlike made made' := by
  induction made generalizing made' with
  | nil =>
      rcases made' with _ | ⟨request', made'⟩
      · exact .nil
      · exact h.elim
  | cons request made ih =>
      rcases made' with _ | ⟨request', made'⟩
      · exact h.elim
      obtain ⟨hfirst, hmore⟩ := halike.of_cons
      exact .cons hfirst (ih (h.2.2 hfirst) hmore)

theorem map_question (h : AskAlike Met made made') (hall : AllAlike made made') :
    made.map Request.question = made'.map Request.question := by
  induction hall with
  | nil => rfl
  | cons halike _ ih =>
      obtain ⟨hquestion, _, hrest⟩ := h
      rw [List.map_cons, List.map_cons, hquestion, ih (hrest halike)]

end AskAlike

theorem lastAnswer_of_map_question {made made' : List Request}
    (h : made.map Request.question = made'.map Request.question) :
    lastAnswer made = none ∧ lastAnswer made' = none ∨
      ∃ (index : Nat) (answer answer' : Answer),
        lastAnswer made = some answer ∧ lastAnswer made' = some answer' ∧
          made[index]?.map Request.answer = some answer ∧
          made'[index]?.map Request.answer = some answer' := by
  induction made generalizing made' with
  | nil =>
      obtain rfl := List.map_eq_nil_iff.mp h.symm
      exact .inl ⟨rfl, rfl⟩
  | cons request made ih =>
      rcases made' with _ | ⟨request', made'⟩
      · cases h
      obtain ⟨hquestion, hrest⟩ := List.cons.inj h
      have hrole : request.role = request'.role := congrArg Question.role hquestion
      rw [← List.singleton_append, ← List.singleton_append (l := made'), lastAnswer_append,
        lastAnswer_append]
      rcases ih hrest with ⟨hnone, hnone'⟩ | ⟨index, answer, answer', hlast, hlast', hmade, hmade'⟩
      · rw [hnone, hnone']
        rcases hkind : request.role with _ | _
        · left
          simp [lastAnswer, hkind, ← hrole]
        · right
          refine ⟨0, request.answer, request'.answer, ?_⟩
          simp [lastAnswer, hkind, ← hrole]
      · right
        rw [hlast, hlast']
        exact ⟨index + 1, answer, answer', rfl, rfl, hmade, hmade'⟩

theorem status_of_map_question {made made' : List Request}
    (h : made.map Request.question = made'.map Request.question) {shown shown' : Option Status}
    (hshown : shown.map Answer.status = lastAnswer made)
    (hshown' : shown'.map Answer.status = lastAnswer made') :
    shown = none ∧ shown' = none ∨
      ∃ (index : Nat) (status status' : Status), shown = some status ∧ shown' = some status' ∧
        made[index]?.map Request.answer = some (.status status) ∧
        made'[index]?.map Request.answer = some (.status status') := by
  rcases lastAnswer_of_map_question h with
    ⟨hnone, hnone'⟩ | ⟨index, answer, answer', hsome, hsome', hmade, hmade'⟩
  · left
    rw [hnone] at hshown
    rw [hnone'] at hshown'
    exact ⟨Option.map_eq_none_iff.mp hshown, Option.map_eq_none_iff.mp hshown'⟩
  · right
    rw [hsome] at hshown
    rw [hsome'] at hshown'
    obtain ⟨status, rfl, rfl⟩ := Option.map_eq_some_iff.mp hshown
    obtain ⟨status', rfl, rfl⟩ := Option.map_eq_some_iff.mp hshown'
    exact ⟨index, status, status', rfl, rfl, hmade, hmade'⟩

theorem Ending.exists_value_of_map_eq {α β : Type} {f : α → β} {ending ending' : Ending α}
    (h : ending.map f = ending'.map f) {value : α} (hvalue : ending = .value value) :
    ∃ value', ending' = .value value' := by
  subst hvalue
  rcases ending' with value' | cause | _
  · exact ⟨value', rfl⟩
  · cases h
  · cases h

/-- A run depends on the past only, and statuses are opaque to it.  As long as
two executors give answers of one kind, they are asked the same: the same
commands for the same purpose and at the same counts.  If all their answers are
of one kind and one run ends with a value, then so does the other, with the same
log and the same counts, and the two values are the answers to the same request,
or no value at all. -/
theorem execScript_opaque (executor : Executor σ) (executor' : Executor τ) (allowance : Nat)
    (statements : List Node) (commandCount loopDepth : Int) (start : σ) (start' : τ) :
    let trace := execScript executor allowance statements ⟨commandCount, loopDepth, start⟩
    let trace' := execScript executor' allowance statements ⟨commandCount, loopDepth, start'⟩
    let made := requests trace.events
    let made' := requests trace'.events
    (∀ count, AlikeUpTo count made made' →
      (made.take (count + 1)).map Request.question =
        (made'.take (count + 1)).map Request.question) ∧
    (∀ shown, trace.ending = .value shown → AlikeUpTo made.length made made' →
      interpreterLog trace.events = interpreterLog trace'.events ∧
        trace.state.commandCount = trace'.state.commandCount ∧
        trace.state.loopDepth = trace'.state.loopDepth ∧
        ∃ shown', trace'.ending = .value shown' ∧
          (shown = none ∧ shown' = none ∨
            ∃ (index : Nat) (status status' : Status), shown = some status ∧ shown' = some status' ∧
              made[index]?.map Request.answer = some (.status status) ∧
              made'[index]?.map Request.answer = some (.status status'))) := by
  intro trace trace' made made'
  have hfree : ∀ call ∈ Node.allCommands statements,
      executor.Linked (fun _ _ => True) (fun _ _ => True) executor' call :=
    fun _ _ => ⟨fun _ => trivial, fun _ _ => trivial⟩
  obtain ⟨hasked, hended⟩ := execScript_inStep allowance hfree
    ⟨commandCount, loopDepth, start⟩ ⟨commandCount, loopDepth, start'⟩ ⟨rfl, rfl, trivial⟩
  constructor
  · intro count halike
    exact hasked.take_question halike
  · intro shown hshown halike
    have hall := hasked.allAlike halike
    obtain ⟨hending, hlog, hstate⟩ := hended hall
    refine ⟨hlog, hstate.commandCount, hstate.loopDepth, ?_⟩
    obtain ⟨shown', hshown'⟩ := Ending.exists_value_of_map_eq hending hshown
    exact ⟨shown', hshown', status_of_map_question (hasked.map_question hall)
      (map_status_of_execScript hshown) (map_status_of_execScript hshown')⟩

/-- A loop run with return codes and the same loop run with verdicts.  The body
fails in its second round, with another code than the verdict would have. -/
theorem execScript_opaque_in_loop :
    let executor : Executor Nat :=
      ⟨fun call calls => ⟨.status (.process (if calls < 3 then 0 else 7)),
        [.exited call.name 0], calls + 1⟩⟩
    let executor' : Executor Nat :=
      ⟨fun call calls => ⟨.status (.verdict call.name (calls < 3)), [], calls + 1⟩⟩
    let statements : List Node := [.loop ⟨"a", []⟩ (.command ⟨"b", ["x"]⟩), .command ⟨"c", []⟩]
    let trace := execScript executor 9 statements ⟨5, 2, 0⟩
    let trace' := execScript executor' 9 statements ⟨5, 2, 0⟩
    ((requests trace.events).take 3).map Request.question =
        ((requests trace'.events).take 3).map Request.question ∧
      interpreterLog trace.events = interpreterLog trace'.events ∧
      trace.ending = .value (some (.process 7)) ∧
      trace'.ending = .value (some (.verdict "b" false)) := by
  intro executor executor' statements trace trace'
  obtain ⟨hasked, hended⟩ := execScript_opaque executor executor' 9 statements 5 2 0 0
  have hending : trace.ending = .value (some (.process 7)) := by decide
  obtain ⟨hlog, -⟩ := hended _ hending (by decide)
  refine ⟨hasked 2 (by decide), hlog, hending, ?_⟩
  decide

end StatusShell
