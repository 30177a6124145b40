import StatusShell.Proofs.Sessions

namespace StatusShell

/-- The answer to a call that was put to the executor directly. -/
def Session.Result.answer? : Session.Result → Option Answer
  | .answered answer => some answer
  | _ => none

namespace Rehearsal

/-- What can be done with a rehearsal. -/
inductive Operation where
  | prepare (program : String) (outcomes : List Outcome)
  | setFallback (outcome : Outcome)
  | run (call : Command)

namespace Operation

/-- The outcomes that the operation prepares for a program. -/
def outcomesFor (program : String) : Operation → List Outcome
  | .prepare name outcomes => if name = program then outcomes else []
  | _ => []

def fallback? : Operation → Option Outcome
  | .setFallback outcome => some outcome
  | _ => none

def call? : Operation → Option Command
  | .run call => some call
  | _ => none

/-- The operation is one on the program, or it sets the outcome of all programs that have none
prepared. -/
def concerns (program : String) : Operation → Bool
  | .prepare name _ => name = program
  | .setFallback _ => true
  | .run call => call.name = program

/-- The operation as a step of a session. -/
def step : Operation → Session.Step
  | .prepare program outcomes => .prepare program outcomes
  | .setFallback outcome => .setFallback outcome
  | .run call => .call call

end Operation

/-- A run of a program: the outcome that it took from the queue of the program, if it took one,
and the answer to the call. -/
structure Turn where
  call : Command
  taken : Option Outcome
  answer : Answer
  deriving DecidableEq, Repr

def turn (rehearsal : Rehearsal) (call : Command) : Turn :=
  ⟨call, (rehearsal.prepared.dequeue call.name).1, (rehearsal.perform call).1.answer call.name⟩

@[simp] theorem turn_call (rehearsal : Rehearsal) (call : Command) :
    (rehearsal.turn call).call = call := rfl

def turn? (rehearsal : Rehearsal) : Operation → Option Turn
  | .run call => some (rehearsal.turn call)
  | _ => none

/-- The rehearsal after an operation. -/
def after (rehearsal : Rehearsal) : Operation → Rehearsal
  | .prepare program outcomes => rehearsal.prepare program outcomes
  | .setFallback outcome => rehearsal.setFallback outcome
  | .run call => (rehearsal.perform call).2

/-- The rehearsal after operations, one after the other. -/
def afterAll (rehearsal : Rehearsal) (operations : List Operation) : Rehearsal :=
  operations.foldl after rehearsal

/-- The runs among the operations. -/
def turns (rehearsal : Rehearsal) : List Operation → List Turn
  | [] => []
  | operation :: operations =>
      (rehearsal.turn? operation).toList ++ (rehearsal.after operation).turns operations

def turnsOf (program : String) (turns : List Turn) : List Turn :=
  turns.filter (·.call.name = program)

/-- The outcomes that the runs of a program took from its queue, in order. -/
def drawn (program : String) (turns : List Turn) : List Outcome :=
  (turnsOf program turns).filterMap Turn.taken

/-- A run takes the outcome that waits longest for its program.  Where none waits, it gives the
fallback and takes nothing.  Either way it is recorded, whatever the answer, and the queues of
other programs stay as they were. -/
structure Draws (before after : Rehearsal) (turn : Turn) : Prop where
  queue : before.prepared.queue turn.call.name =
    turn.taken.toList ++ after.prepared.queue turn.call.name
  others : ∀ other, other ≠ turn.call.name →
    after.prepared.queue other = before.prepared.queue other
  answer : turn.answer = (turn.taken.getD before.fallback).answer turn.call.name
  taken_eq_none_iff : turn.taken = none ↔ before.prepared.queue turn.call.name = []
  prepared_of_none : turn.taken = none → after.prepared = before.prepared
  fallback : after.fallback = before.fallback
  calls : after.calls = before.calls ++ [turn.call]

variable {start start' : Rehearsal} {program : String}

theorem draws_turn (rehearsal : Rehearsal) (call : Command) :
    Draws rehearsal (rehearsal.after (.run call)) (rehearsal.turn call) := by
  have hqueue : ∀ other, (rehearsal.after (.run call)).prepared.queue other = _ :=
    rehearsal.prepared.queue_dequeue call.name
  have htaken : (rehearsal.turn call).taken = (rehearsal.prepared.queue call.name).head? :=
    rehearsal.prepared.dequeue_fst call.name
  refine ⟨?_, ?_, rfl, ?_, ?_, rfl, rfl⟩
  · rw [hqueue, htaken, turn_call, if_pos rfl]
    cases rehearsal.prepared.queue call.name <;> rfl
  · intro other hother
    rw [turn_call] at hother
    rw [hqueue, if_neg hother]
  · rw [htaken, List.head?_eq_none_iff, turn_call]
  · intro hnone
    rw [htaken, List.head?_eq_none_iff] at hnone
    show (rehearsal.prepared.dequeue call.name).2 = rehearsal.prepared
    rw [Queues.dequeue, hnone]

theorem drawn_turn (rehearsal : Rehearsal) (call : Command) (program : String) :
    drawn program [rehearsal.turn call] =
      if call.name = program then (rehearsal.turn call).taken.toList else [] := by
  by_cases hname : call.name = program
  · rw [if_pos hname, drawn, turnsOf, List.filter_cons_of_pos (by simp [hname])]
    cases htaken : (rehearsal.turn call).taken <;> simp [htaken]
  · simp [drawn, turnsOf, hname]

theorem drawn_append_queue_after (rehearsal : Rehearsal) (operation : Operation)
    (program : String) :
    drawn program (rehearsal.turn? operation).toList ++
        (rehearsal.after operation).prepared.queue program =
      rehearsal.prepared.queue program ++ operation.outcomesFor program := by
  cases operation with
  | prepare name outcomes =>
      show (rehearsal.prepared.enqueue name outcomes).queue program = _
      rw [Queues.queue_enqueue, Operation.outcomesFor]
      by_cases hname : name = program
      · simp [hname]
      · simp [hname, Ne.symm hname]
  | setFallback outcome => exact (List.append_nil _).symm
  | run call =>
      have hdraws := rehearsal.draws_turn call
      have hturn := rehearsal.drawn_turn call program
      show drawn program [rehearsal.turn call] ++ _ = rehearsal.prepared.queue program ++ []
      by_cases hname : call.name = program
      · subst hname
        rw [hturn, if_pos rfl, List.append_nil]
        exact hdraws.queue.symm
      · rw [hturn, if_neg hname, hdraws.others program (Ne.symm hname), List.append_nil,
          List.nil_append]

/-- The rehearsals are alike as far as a program can tell. -/
structure AlikeFor (program : String) (rehearsal other : Rehearsal) : Prop where
  queue : rehearsal.prepared.queue program = other.prepared.queue program
  fallback : rehearsal.fallback = other.fallback

theorem AlikeFor.trans {middle : Rehearsal} (h : AlikeFor program start middle)
    (h' : AlikeFor program middle start') : AlikeFor program start start' :=
  ⟨h.queue.trans h'.queue, h.fallback.trans h'.fallback⟩

theorem AlikeFor.after (h : AlikeFor program start start') (operation : Operation) :
    AlikeFor program (start.after operation) (start'.after operation) := by
  obtain ⟨hqueue, hfallback⟩ := h
  cases operation with
  | prepare name outcomes =>
      refine ⟨?_, hfallback⟩
      show (start.prepared.enqueue _ _).queue _ = (start'.prepared.enqueue _ _).queue _
      rw [Queues.queue_enqueue, Queues.queue_enqueue]
      split
      · next hname => rw [← hname, hqueue]
      · exact hqueue
  | setFallback outcome => exact ⟨hqueue, rfl⟩
  | run call =>
      refine ⟨?_, hfallback⟩
      show (start.prepared.dequeue _).2.queue _ = (start'.prepared.dequeue _).2.queue _
      rw [Queues.queue_dequeue, Queues.queue_dequeue]
      split
      · next hname => rw [← hname, hqueue]
      · exact hqueue

theorem alikeFor_after_of_not_concerns {operation : Operation}
    (h : operation.concerns program = false) (rehearsal : Rehearsal) :
    AlikeFor program (rehearsal.after operation) rehearsal := by
  cases operation with
  | prepare name outcomes =>
      have hname : program ≠ name := by simpa [Operation.concerns, eq_comm] using h
      refine ⟨?_, rfl⟩
      show (rehearsal.prepared.enqueue _ _).queue _ = _
      rw [Queues.queue_enqueue, if_neg hname]
  | setFallback outcome => cases h
  | run call =>
      have hname : program ≠ call.name := by simpa [Operation.concerns, eq_comm] using h
      exact ⟨(rehearsal.draws_turn call).others program hname, rfl⟩

theorem AlikeFor.turn_eq {call : Command} (h : AlikeFor call.name start start') :
    start.turn call = start'.turn call := by
  have htaken : (start.prepared.dequeue call.name).1 = (start'.prepared.dequeue call.name).1 := by
    rw [Queues.dequeue_fst, Queues.dequeue_fst, h.queue]
  rw [turn, turn, perform, perform, htaken, h.fallback]

theorem AlikeFor.turnsOf_turn? (h : AlikeFor program start start') (operation : Operation) :
    turnsOf program (start.turn? operation).toList =
      if operation.concerns program then (start'.turn? operation).toList else [] := by
  cases operation with
  | prepare name outcomes => simp [turn?, turnsOf]
  | setFallback outcome => simp [turn?, turnsOf]
  | run call =>
      by_cases hname : call.name = program
      · subst hname
        simp [turn?, turnsOf, Operation.concerns, h.turn_eq]
      · simp [turn?, turnsOf, Operation.concerns, hname]

theorem afterAll_cons (rehearsal : Rehearsal) (operation : Operation)
    (operations : List Operation) :
    rehearsal.afterAll (operation :: operations) =
      (rehearsal.after operation).afterAll operations :=
  rfl

theorem turns_append (rehearsal : Rehearsal) (earlier later : List Operation) :
    rehearsal.turns (earlier ++ later) =
      rehearsal.turns earlier ++ (rehearsal.afterAll earlier).turns later := by
  induction earlier generalizing rehearsal with
  | nil => rfl
  | cons operation earlier ih =>
      rw [List.cons_append, turns, ih, turns, afterAll_cons, List.append_assoc]

theorem turnsOf_append (program : String) (made more : List Turn) :
    turnsOf program (made ++ more) = turnsOf program made ++ turnsOf program more :=
  List.filter_append made more

theorem drawn_append (program : String) (made more : List Turn) :
    drawn program (made ++ more) = drawn program made ++ drawn program more := by
  rw [drawn, turnsOf_append, List.filterMap_append]
  rfl

theorem drawn_append_queue_afterAll (rehearsal : Rehearsal) (operations : List Operation)
    (program : String) :
    drawn program (rehearsal.turns operations) ++
        (rehearsal.afterAll operations).prepared.queue program =
      rehearsal.prepared.queue program ++ operations.flatMap (·.outcomesFor program) := by
  induction operations generalizing rehearsal with
  | nil => exact (List.append_nil _).symm
  | cons operation operations ih =>
      rw [turns, drawn_append, afterAll_cons, List.append_assoc, ih, ← List.append_assoc,
        drawn_append_queue_after, List.flatMap_cons, List.append_assoc]

theorem turnsOf_turns (h : AlikeFor program start start') (operations : List Operation) :
    turnsOf program (start.turns operations) =
      start'.turns (operations.filter (·.concerns program)) := by
  induction operations generalizing start start' with
  | nil => rfl
  | cons operation operations ih =>
      rw [turns, turnsOf_append, h.turnsOf_turn?]
      by_cases hconcerns : operation.concerns program = true
      · rw [if_pos hconcerns, List.filter_cons_of_pos hconcerns, turns, ih (h.after operation)]
      · rw [if_neg hconcerns, List.filter_cons_of_neg hconcerns, List.nil_append]
        have hconcerns : operation.concerns program = false := by simpa using hconcerns
        exact ih ((alikeFor_after_of_not_concerns hconcerns start).trans h)

theorem fallback_afterAll (rehearsal : Rehearsal) (operations : List Operation) :
    (rehearsal.afterAll operations).fallback =
      (operations.filterMap Operation.fallback?).getLast?.getD rehearsal.fallback := by
  induction operations generalizing rehearsal with
  | nil => rfl
  | cons operation operations ih =>
      rw [afterAll_cons, ih]
      cases operation with
      | prepare name outcomes => rfl
      | setFallback outcome =>
          show _ = (outcome :: operations.filterMap Operation.fallback?).getLast?.getD _
          rw [List.getLast?_cons, Option.getD_some]
          rfl
      | run call => rfl

theorem calls_afterAll (rehearsal : Rehearsal) (operations : List Operation) :
    (rehearsal.afterAll operations).calls =
      rehearsal.calls ++ operations.filterMap Operation.call? := by
  induction operations generalizing rehearsal with
  | nil => exact (List.append_nil _).symm
  | cons operation operations ih =>
      rw [afterAll_cons, ih]
      cases operation with
      | prepare name outcomes => rfl
      | setFallback outcome => rfl
      | run call =>
          rw [(rehearsal.draws_turn call).calls]
          exact List.append_assoc ..

theorem map_call_turns (rehearsal : Rehearsal) (operations : List Operation) :
    (rehearsal.turns operations).map Turn.call = operations.filterMap Operation.call? := by
  induction operations generalizing rehearsal with
  | nil => rfl
  | cons operation operations ih =>
      rw [turns, List.map_append, ih]
      cases operation with
      | prepare name outcomes => rfl
      | setFallback outcome => rfl
      | run call => rfl

theorem length_turnsOf (program : String) (turns : List Turn) :
    (turnsOf program turns).length = ((turns.map Turn.call).map Command.name).count program := by
  rw [turnsOf, ← List.countP_eq_length_filter, List.map_map, List.count, List.countP_map]
  rfl

theorem count_afterAll (rehearsal : Rehearsal) (operations : List Operation) (program : String) :
    (rehearsal.afterAll operations).count program =
      rehearsal.count program + (turnsOf program (rehearsal.turns operations)).length := by
  rw [count, programs, calls_afterAll, List.map_append, List.count_append, length_turnsOf,
    map_call_turns]
  rfl

theorem executor_call_of_lt {limit : Nat} {rehearsal : Rehearsal}
    (h : rehearsal.calls.length < limit) (call : Command) :
    (executor limit).call call rehearsal =
      ⟨(rehearsal.turn call).answer, [], rehearsal.after (.run call)⟩ := by
  simp only [executor, if_pos h]
  rfl

theorem play_operations {frames limit : Nat} (session : Session) {operations : List Operation}
    (h : session.executor.calls.length + (session.executor.turns operations).length ≤ limit) :
    let played := session.play frames limit (operations.map Operation.step)
    played.1.filterMap Session.Result.answer? =
        (session.executor.turns operations).map Turn.answer ∧
      played.2.executor = session.executor.afterAll operations := by
  induction operations generalizing session with
  | nil => exact ⟨rfl, rfl⟩
  | cons operation operations ih =>
      rw [turns, List.length_append, ← Nat.add_assoc] at h
      cases operation with
      | prepare name outcomes =>
          exact ih { session with executor := session.executor.prepare name outcomes } h
      | setFallback outcome =>
          exact ih { session with executor := session.executor.setFallback outcome } h
      | run call =>
          have hone : (session.executor.turn? (.run call)).toList.length = 1 := rfl
          have hcalls : (session.executor.after (.run call)).calls.length =
              session.executor.calls.length + 1 := by
            rw [(session.executor.draws_turn call).calls, List.length_append, List.length_singleton]
          have hroom : (session.executor.after (.run call)).calls.length +
              ((session.executor.after (.run call)).turns operations).length ≤ limit := by
            omega
          obtain ⟨hanswers, hlast⟩ :=
            ih { session with executor := session.executor.after (.run call) } hroom
          have hstep : session.step frames limit (.call call) =
              (.answered (session.executor.turn call).answer,
                { session with executor := session.executor.after (.run call) }) := by
            rw [Session.step, executor_call_of_lt (by omega)]
          rw [List.map_cons, Operation.step, Session.play_cons, hstep]
          exact ⟨congrArg _ hanswers, hlast⟩

/-- Prepared outcomes are neither lost, doubled nor reordered.  Whatever is done with a
rehearsal, the outcomes that the runs of a program took and those that still wait for it are
those that waited for it at first and those that were prepared for it, in that order.  At every
run, the program takes the first of those that wait for it, or gives the fallback that was set
last if none waits.  The runs of a program depend only on what concerns it, and all runs are on
record.  As long as there is room for them, this is what a session does. -/
theorem outcomes_conserved (start : Rehearsal) (operations : List Operation) (program : String) :
    let turns := start.turns operations
    let last := start.afterAll operations
    drawn program turns ++ last.prepared.queue program =
      start.prepared.queue program ++ operations.flatMap (·.outcomesFor program) ∧
    (∀ earlier call later, operations = earlier ++ .run call :: later →
      let before := start.afterAll earlier
      let after := before.after (.run call)
      turns = start.turns earlier ++ before.turn call :: after.turns later ∧
        before.fallback =
          (earlier.filterMap Operation.fallback?).getLast?.getD start.fallback ∧
        Draws before after (before.turn call)) ∧
    (∀ (start' : Rehearsal) (operations' : List Operation),
      start'.prepared.queue program = start.prepared.queue program →
      start'.fallback = start.fallback →
      operations'.filter (·.concerns program) = operations.filter (·.concerns program) →
      turnsOf program (start'.turns operations') = turnsOf program turns) ∧
    (last.calls = start.calls ++ operations.filterMap Operation.call? ∧
      turns.map Turn.call = operations.filterMap Operation.call?) ∧
    (last.count program = last.programs.count program ∧
      last.count program = start.count program + (turnsOf program turns).length) ∧
    (∀ (frames limit : Nat) (session : Session), session.executor = start →
      start.calls.length + turns.length ≤ limit →
      let played := session.play frames limit (operations.map Operation.step)
      played.1.filterMap Session.Result.answer? = turns.map Turn.answer ∧
        played.2.executor = last) := by
  intro turns last
  refine ⟨?_, ?_, ?_, ?_, ?_, ?_⟩
  · exact drawn_append_queue_afterAll start operations program
  · rintro earlier call later rfl before after
    refine ⟨?_, fallback_afterAll start earlier, before.draws_turn call⟩
    exact turns_append start earlier (.run call :: later)
  · intro start' operations' hqueue hfallback hfilter
    rw [turnsOf_turns ⟨hqueue, hfallback⟩, hfilter]
    exact (turnsOf_turns ⟨rfl, rfl⟩ operations).symm
  · exact ⟨calls_afterAll start operations, map_call_turns start operations⟩
  · exact ⟨rfl, count_afterAll start operations program⟩
  · rintro frames limit session rfl hroom
    exact play_operations session hroom

/-- The queue runs dry after a fault and is filled again.  The fallback is replaced in between,
and there is just room for all the runs. -/
theorem outcomes_conserved_refilled :
    let operations : List Operation :=
      [.prepare "p" [.fails .callLimit], .run ⟨"q", []⟩, .run ⟨"p", []⟩, .run ⟨"p", []⟩,
        .setFallback (.ends (.process 3)), .prepare "p" [.ends (.process 1), .ends (.process 2)],
        .run ⟨"p", []⟩, .run ⟨"q", []⟩]
    let session : Session := ⟨0, 0, .fresh⟩
    drawn "p" (fresh.turns operations) ++ [.ends (.process 2)] =
        [.fails .callLimit, .ends (.process 1), .ends (.process 2)] ∧
      (fresh.afterAll operations).count "p" = 3 ∧
      (session.play nestingLimit 5 (operations.map Operation.step)).1.filterMap Session.Result.answer? =
        [.status (.process 0), .fault (.execution "p" .callLimit), .status (.process 0),
          .status (.process 1), .status (.process 3)] := by
  intro operations session
  obtain ⟨hdrawn, -, -, -, ⟨-, hcount⟩, hplay⟩ := outcomes_conserved fresh operations "p"
  obtain ⟨hanswers, -⟩ := hplay nestingLimit 5 session rfl (by decide)
  refine ⟨?_, ?_, ?_⟩
  · have hqueue : (fresh.afterAll operations).prepared.queue "p" = [.ends (.process 2)] := by
      decide
    rw [hqueue] at hdrawn
    exact hdrawn
  · rw [hcount]
    decide
  · rw [hanswers]
    decide

end Rehearsal

end StatusShell
