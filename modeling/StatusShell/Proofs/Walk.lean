import Mathlib.Data.List.Perm.Subperm
import StatusShell.Proofs.Unrolling

/-!
The interpreter on its way through a tree, with a journal of what it comes by: statements
and predicates, told by their numbers in reading order, and requests.  The journal is kept
beside the state of the executor and changes nothing.  Between two requests the way only
goes forward, so no statement is visited twice; every way back into a loop leads through a
request for its predicate.
-/

namespace StatusShell

variable {σ α β : Type}

inductive Mark where
  | visit (number : Nat)
  | request (call : Command)
  deriving DecidableEq, Repr

def Mark.call? : Mark → Option Command
  | .visit _ => none
  | .request call => some call

/-- The state of an executor and the marks made so far, oldest first. -/
structure Journal (σ : Type) where
  marks : List Mark
  executor : σ

/-- The executor, which also marks each request. -/
def Executor.journalled (executor : Executor σ) : Executor (Journal σ) where
  call := fun call journal =>
    let response := executor.call call journal.executor
    ⟨response.answer, response.notes, ⟨journal.marks ++ [.request call], response.state⟩⟩

def Run.visit (number : Nat) : Run (Journal σ) Unit := fun state =>
  ⟨.value (), [], { state with
    executor := ⟨state.executor.marks ++ [.visit number], state.executor.executor⟩ }⟩

namespace Node

mutual

/-- The number of statements and predicates in a statement. -/
def size : Node → Nat
  | .comment _ => 1
  | .command _ => 1
  | .block statements => 1 + sizeAll statements
  | .ifThen _ branch => 2 + size branch
  | .ifElse _ branch otherwise => 2 + size branch + size otherwise
  | .loop _ body => 2 + size body
  | .stray _ => 1

def sizeAll : List Node → Nat
  | [] => 0
  | statement :: statements => size statement + sizeAll statements

end

/-- Request a predicate with the given number. -/
def walkPredicate (executor : Executor σ) (number : Nat) (predicate : Command) :
    Run (Journal σ) Status := do
  Run.visit number
  Run.request executor.journalled .predicate predicate

mutual

/-- Run a statement that has the given number in reading order, and mark what is visited on
the way. -/
def walk (executor : Executor σ) (allowance number : Nat) :
    Node → Run (Journal σ) (Option Status)
  | .comment _ => do
      Run.visit number
      pure none
  | .command call => do
      Run.visit number
      let status ← Run.request executor.journalled .statement call
      pure (some status)
  | .block statements => do
      Run.visit number
      walkAll executor allowance (number + 1) none statements
  | .ifThen predicate branch => do
      Run.visit number
      let decision ← walkPredicate executor (number + 1) predicate
      if decision.succeeded then walk executor allowance (number + 2) branch else pure none
  | .ifElse predicate branch otherwise => do
      Run.visit number
      let decision ← walkPredicate executor (number + 1) predicate
      if decision.succeeded then walk executor allowance (number + 2) branch
      else walk executor allowance (number + 2 + branch.size) otherwise
  | .loop predicate body => do
      Run.visit number
      let (last, iterations) ← Run.deeper
        (repeatWhile predicate.name (walkPredicate executor (number + 1) predicate)
          (walk executor allowance (number + 2) body) allowance none 0)
      Run.record (.loopEnded predicate.name iterations)
      pure last
  | .stray _ => do
      Run.visit number
      Run.raise .strayStatement

def walkAll (executor : Executor σ) (allowance number : Nat) (last : Option Status) :
    List Node → Run (Journal σ) (Option Status)
  | [] => pure last
  | statement :: statements => do
      match ← walk executor allowance number statement with
      | none => walkAll executor allowance (number + statement.size) last statements
      | some status =>
          if status.succeeded then
            walkAll executor allowance (number + statement.size) (some status) statements
          else pure (some status)

end

end Node

def State.forget (state : State (Journal σ)) : State σ :=
  ⟨state.commandCount, state.loopDepth, state.executor.executor⟩

/-- The trace without the journal. -/
def Trace.forget (trace : Trace (Journal σ) α) : Trace σ α :=
  ⟨trace.ending, trace.events, trace.state.forget⟩

namespace Run

/-- But for the journal, the first run is the second one. -/
def Mirrors (run : Run (Journal σ) α) (run' : Run σ α) : Prop :=
  ∀ state, (run state).forget = run' state.forget

theorem mirrors_pure (value : α) : Mirrors (pure value : Run (Journal σ) α) (pure value) :=
  fun _ => rfl

theorem mirrors_request (executor : Executor σ) (role : Role) (call : Command) :
    Mirrors (request executor.journalled role call) (request executor role call) :=
  fun _ => rfl

theorem Mirrors.bind {first : Run (Journal σ) α} {first' : Run σ α}
    {next : α → Run (Journal σ) β} {next' : α → Run σ β} (hfirst : Mirrors first first')
    (hnext : ∀ value, Mirrors (next value) (next' value)) :
    Mirrors (first >>= next) (first' >>= next') := by
  intro state
  show (andThen first next state).forget = andThen first' next' state.forget
  simp only [andThen, ← hfirst state]
  simp only [Trace.forget]
  cases (first state).ending with
  | value value =>
      simp only [← hnext value (first state).state]
      rfl
  | fault cause => rfl
  | unfinished => rfl

theorem Mirrors.visit_bind {run : Run (Journal σ) α} {run' : Run σ α} (h : Mirrors run run')
    (number : Nat) : Mirrors (do visit number; run) run' := by
  intro state
  exact h _

theorem Mirrors.deeper {run : Run (Journal σ) α} {run' : Run σ α} (h : Mirrors run run') :
    Mirrors (deeper run) (deeper run') := by
  intro state
  have hrun : run' { state.forget with loopDepth := state.forget.loopDepth + 1 } = _ :=
    (h { state with loopDepth := state.loopDepth + 1 }).symm
  simp only [Run.deeper, hrun]
  rfl

theorem mirrors_repeatWhile (name : String) {predicate : Run (Journal σ) Status}
    {predicate' : Run σ Status} {body : Run (Journal σ) (Option Status)}
    {body' : Run σ (Option Status)} (hpredicate : Mirrors predicate predicate')
    (hbody : Mirrors body body') (allowance : Nat) (last : Option Status) (iterations : Nat) :
    Mirrors (repeatWhile name predicate body allowance last iterations)
      (repeatWhile name predicate' body' allowance last iterations) := by
  induction allowance generalizing last iterations with
  | zero => exact fun _ => rfl
  | succ allowance ih =>
      refine hpredicate.bind fun decision => ?_
      split
      · refine hbody.bind fun shown => ?_
        rcases shown with _ | status
        · exact ih last (iterations + 1)
        · simp only
          split
          · exact ih (some status) (iterations + 1)
          · exact fun _ => rfl
      · exact mirrors_pure _

end Run

namespace Node

open Run

variable (executor : Executor σ) (allowance : Nat)

theorem mirrors_walkPredicate (number : Nat) (predicate : Command) :
    Mirrors (walkPredicate executor number predicate) (Run.request executor .predicate predicate) :=
  (mirrors_request executor .predicate predicate).visit_bind number

mutual

theorem mirrors_walk (number : Nat) : (node : Node) →
    Mirrors (walk executor allowance number node) (exec executor allowance node)
  | .comment _ => by
      rw [walk, exec]
      exact (mirrors_pure none).visit_bind number
  | .command call => by
      rw [walk, exec]
      apply Mirrors.visit_bind
      exact (mirrors_request executor .statement call).bind fun _ => mirrors_pure _
  | .block statements => by
      rw [walk, exec]
      exact (mirrors_walkAll (number + 1) none statements).visit_bind number
  | .ifThen predicate branch => by
      rw [walk, exec]
      apply Mirrors.visit_bind
      refine (mirrors_walkPredicate executor (number + 1) predicate).bind fun decision => ?_
      split
      · exact mirrors_walk (number + 2) branch
      · exact mirrors_pure none
  | .ifElse predicate branch otherwise => by
      rw [walk, exec]
      apply Mirrors.visit_bind
      refine (mirrors_walkPredicate executor (number + 1) predicate).bind fun decision => ?_
      split
      · exact mirrors_walk (number + 2) branch
      · exact mirrors_walk (number + 2 + branch.size) otherwise
  | .loop predicate body => by
      rw [walk, exec]
      apply Mirrors.visit_bind
      apply Mirrors.bind
      · apply Mirrors.deeper
        exact mirrors_repeatWhile predicate.name (mirrors_walkPredicate executor _ predicate)
          (mirrors_walk (number + 2) body) allowance none 0
      · exact fun _ _ => rfl
  | .stray _ => by
      rw [walk, exec]
      exact fun _ => rfl

theorem mirrors_walkAll (number : Nat) (last : Option Status) : (statements : List Node) →
    Mirrors (walkAll executor allowance number last statements)
      (execAll executor allowance last statements)
  | [] => by
      rw [walkAll, execAll]
      exact mirrors_pure last
  | statement :: statements => by
      rw [walkAll, execAll]
      refine (mirrors_walk number statement).bind fun shown => ?_
      rcases shown with _ | status
      · exact mirrors_walkAll _ last statements
      · simp only
        split
        · exact mirrors_walkAll _ (some status) statements
        · exact mirrors_pure _

end

end Node

/-- No number is visited that was seen since the last request. -/
def Fresh : (seen : List Nat) → List Mark → Prop
  | _, [] => True
  | seen, .visit number :: marks => number ∉ seen ∧ Fresh (number :: seen) marks
  | _, .request _ :: marks => Fresh [] marks

/-- What was seen since the last request. -/
def seenAfter : (seen : List Nat) → List Mark → List Nat
  | seen, [] => seen
  | seen, .visit number :: marks => seenAfter (number :: seen) marks
  | _, .request _ :: marks => seenAfter [] marks

theorem fresh_append {seen : List Nat} {marks more : List Mark} :
    Fresh seen (marks ++ more) ↔ Fresh seen marks ∧ Fresh (seenAfter seen marks) more := by
  fun_induction seenAfter seen marks with
  | case1 seen => simp [Fresh]
  | case2 seen number marks ih => simp [Fresh, ih, and_assoc]
  | case3 seen call marks ih => simp [Fresh, ih]

theorem mem_seenAfter {seen : List Nat} {marks : List Mark} {number : Nat}
    (h : number ∈ seenAfter seen marks) : number ∈ seen ∨ .visit number ∈ marks := by
  fun_induction seenAfter seen marks with
  | case1 seen => exact .inl h
  | case2 seen visited marks ih =>
      rcases ih h with hseen | hmark
      · rcases List.mem_cons.mp hseen with rfl | hseen
        · exact .inr (List.mem_cons_self ..)
        · exact .inl hseen
      · exact .inr (List.mem_cons_of_mem _ hmark)
  | case3 seen call marks ih =>
      rcases ih h with hseen | hmark
      · cases hseen
      · exact .inr (List.mem_cons_of_mem _ hmark)

theorem nodup_of_fresh {seen : List Nat} {marks : List Mark} (h : Fresh seen marks)
    (hvisits : ∀ mark ∈ marks, mark.call? = none) :
    marks.Nodup ∧ ∀ number ∈ seen, .visit number ∉ marks := by
  fun_induction Fresh seen marks with
  | case1 seen => simp
  | case2 seen number marks ih =>
      obtain ⟨hnumber, hfresh⟩ := h
      obtain ⟨hnodup, hunseen⟩ := ih hfresh fun mark hmark =>
        hvisits mark (List.mem_cons_of_mem _ hmark)
      refine ⟨List.nodup_cons.mpr ⟨hunseen number (List.mem_cons_self ..), hnodup⟩, ?_⟩
      intro other hother hmem
      rcases List.mem_cons.mp hmem with heq | hmem
      · obtain rfl := Mark.visit.inj heq
        exact hnumber hother
      · exact hunseen other (List.mem_cons_of_mem _ hother) hmem
  | case3 seen call marks ih => cases hvisits (.request call) (List.mem_cons_self ..)

theorem nodup_of_infix {marks stretch : List Mark} (h : Fresh [] marks)
    (hstretch : stretch <:+: marks) (hvisits : ∀ mark ∈ stretch, mark.call? = none) :
    stretch.Nodup := by
  obtain ⟨before, after, rfl⟩ := hstretch
  exact (nodup_of_fresh (fresh_append.mp (fresh_append.mp h).1).2 hvisits).1

theorem length_le_of_forall_lt {bound : Nat} {seen : List Nat} (hnodup : seen.Nodup)
    (hseen : ∀ number ∈ seen, number < bound) : seen.length ≤ bound := by
  have hsubset : seen ⊆ List.range bound := fun number hmem =>
    List.mem_range.mpr (hseen number hmem)
  simpa using (List.subperm_of_subset hnodup hsubset).length_le

theorem length_visits_le {bound : Nat} {seen : List Nat} {marks : List Mark}
    (h : Fresh seen marks) (hnodup : seen.Nodup) (hseen : ∀ number ∈ seen, number < bound)
    (hmarks : ∀ number, .visit number ∈ marks → number < bound) :
    (marks.filter (·.call? = none)).length + seen.length ≤
      ((marks.filterMap Mark.call?).length + 1) * bound := by
  fun_induction Fresh seen marks with
  | case1 seen => simpa using length_le_of_forall_lt hnodup hseen
  | case2 seen number marks ih =>
      obtain ⟨hnumber, hfresh⟩ := h
      have hlater := ih hfresh (List.nodup_cons.mpr ⟨hnumber, hnodup⟩)
        (List.forall_mem_cons.mpr ⟨hmarks number (List.mem_cons_self ..), hseen⟩)
        fun other hother => hmarks other (List.mem_cons_of_mem _ hother)
      simp only [List.filter_cons, Mark.call?, decide_true, if_true, List.filterMap_cons,
        List.length_cons] at hlater ⊢
      omega
  | case3 seen call marks ih =>
      have hlater := ih h List.nodup_nil (by simp) fun other hother =>
        hmarks other (List.mem_cons_of_mem _ hother)
      have hlength := length_le_of_forall_lt hnodup hseen
      simp only [List.filter_cons, Mark.call?, reduceCtorEq, decide_false, Bool.false_eq_true,
        if_false, List.filterMap_cons, List.length_cons, List.length_nil,
        Nat.add_mul _ _ bound] at hlater ⊢
      omega

/-- The marks visit numbers from `low` up to but not including `high`.  Whatever was seen
before, if it is not from `low` up to `free`, then nothing is visited twice between two
requests. -/
structure Marked (low free high : Nat) (marks : List Mark) : Prop where
  fresh : ∀ seen, (∀ number ∈ seen, number < low ∨ free ≤ number) → Fresh seen marks
  within : ∀ number, .visit number ∈ marks → low ≤ number ∧ number < high

section

variable {low free high : Nat} {marks more : List Mark}

variable (low free high) in
theorem marked_nil : Marked low free high [] :=
  ⟨fun _ _ => trivial, fun _ h => by cases h⟩

theorem Marked.mono {low' free' high' : Nat} (h : Marked low free high marks) (hlow : low' ≤ low)
    (hfree : free ≤ free') (hhigh : high ≤ high') : Marked low' free' high' marks := by
  constructor
  · intro seen hseen
    apply h.fresh
    intro number hnumber
    have := hseen number hnumber
    omega
  · intro number hnumber
    have := h.within number hnumber
    omega

theorem marked_visit (number : Nat) : Marked number (number + 1) (number + 1) [.visit number] := by
  constructor
  · intro seen hseen
    refine ⟨fun hmem => ?_, trivial⟩
    have := hseen number hmem
    omega
  · intro other hother
    obtain rfl := Mark.visit.inj (List.mem_singleton.mp hother)
    omega

theorem Marked.request_cons (h : Marked low free high marks) (call : Command) :
    Marked low low high (.request call :: marks) := by
  constructor
  · intro seen _
    exact h.fresh [] (by simp)
  · intro number hnumber
    rcases List.mem_cons.mp hnumber with heq | hnumber
    · cases heq
    · exact h.within number hnumber

theorem Marked.append {low' free' high' : Nat} (h : Marked low free high marks)
    (h' : Marked low' free' high' more) (hapart : high ≤ low' ∨ free' ≤ low) :
    Marked (min low low') (max free free') (max high high') (marks ++ more) := by
  constructor
  · intro seen hseen
    rw [fresh_append]
    constructor
    · apply h.fresh
      intro number hnumber
      have := hseen number hnumber
      omega
    · apply h'.fresh
      intro number hnumber
      rcases mem_seenAfter hnumber with hnumber | hnumber
      · have := hseen number hnumber
        omega
      · have := h.within number hnumber
        omega
  · intro number hnumber
    rcases List.mem_append.mp hnumber with hnumber | hnumber
    · have := h.within number hnumber
      omega
    · have := h'.within number hnumber
      omega

end

namespace Run

/-- The run adds marks to the journal, among them one for each request. -/
def Marks (low free high : Nat) (run : Run (Journal σ) α) : Prop :=
  ∀ state, ∃ marks, (run state).state.executor.marks = state.executor.marks ++ marks ∧
    marks.filterMap Mark.call? = (requests (run state).events).map Request.call ∧
    Marked low free high marks

variable {low free high : Nat}

theorem Marks.mono {low' free' high' : Nat} {run : Run (Journal σ) α} (h : Marks low free high run)
    (hlow : low' ≤ low) (hfree : free ≤ free') (hhigh : high ≤ high') :
    Marks low' free' high' run := by
  intro state
  obtain ⟨marks, hmarks, hcalls, hmarked⟩ := h state
  exact ⟨marks, hmarks, hcalls, hmarked.mono hlow hfree hhigh⟩

theorem marks_of_quiet {run : Run (Journal σ) α}
    (h : ∀ state, requests (run state).events = [] ∧ (run state).state = state) :
    Marks low free high run := by
  intro state
  obtain ⟨hrequests, hstate⟩ := h state
  rw [hrequests, hstate]
  exact ⟨[], (List.append_nil _).symm, rfl, marked_nil low free high⟩

theorem marks_visit (number : Nat) :
    Marks number (number + 1) (number + 1) (visit number : Run (Journal σ) Unit) :=
  fun _ => ⟨[.visit number], rfl, rfl, marked_visit number⟩

theorem Marks.deeper {run : Run (Journal σ) α} (h : Marks low free high run) :
    Marks low free high (deeper run) :=
  fun state => h { state with loopDepth := state.loopDepth + 1 }

theorem Marks.bind {low' free' high' : Nat} {first : Run (Journal σ) α}
    {next : α → Run (Journal σ) β} (hfirst : Marks low free high first)
    (hnext : ∀ value, Marks low' free' high' (next value)) (hapart : high ≤ low' ∨ free' ≤ low) :
    Marks (min low low') (max free free') (max high high') (first >>= next) := by
  intro state
  obtain ⟨marks, hmarks, hcalls, hmarked⟩ := hfirst state
  have hstopped := hmarked.append (marked_nil low' free' high') hapart
  rw [List.append_nil] at hstopped
  rcases hending : (first state).ending with value | cause | _
  · obtain ⟨more, hmore, hcalls', hmarked'⟩ := hnext value (first state).state
    rw [bind_of_value hending]
    refine ⟨marks ++ more, ?_, ?_, hmarked.append hmarked' hapart⟩
    · rw [hmore, hmarks, List.append_assoc]
    · rw [List.filterMap_append, hcalls, hcalls', requests_append, List.map_append]
  · rw [bind_of_fault hending]
    exact ⟨marks, hmarks, hcalls, hstopped⟩
  · rw [bind_of_unfinished hending]
    exact ⟨marks, hmarks, hcalls, hstopped⟩

theorem Marks.visit_bind {number : Nat} {run : Run (Journal σ) α}
    (h : Marks (number + 1) free high run) (hfree : number + 1 ≤ free)
    (hhigh : number + 1 ≤ high) : Marks number free high (do visit number; run) :=
  ((marks_visit number).bind (fun _ => h) (by omega)).mono (by omega) (by omega) (by omega)

theorem Marks.request_bind {next : Status → Run (Journal σ) α}
    (hnext : ∀ status, Marks low free high (next status)) (executor : Executor σ) (role : Role)
    (call : Command) :
    Marks low low high (request executor.journalled role call >>= next) := by
  intro state
  have hcalls : (requests (request executor.journalled role call state).events).map Request.call
      = [call] := by
    rw [requests_request]
    rfl
  have hstopped := (marked_nil low free high).request_cons call
  rcases hending : (request executor.journalled role call state).ending with status | cause | _
  · obtain ⟨marks, hmarks, hcalls', hmarked⟩ :=
      hnext status (request executor.journalled role call state).state
    rw [bind_of_value hending]
    refine ⟨.request call :: marks, ?_, ?_, hmarked.request_cons call⟩
    · rw [hmarks]
      exact List.append_assoc _ [Mark.request call] marks
    · rw [requests_append, List.map_append, hcalls, ← hcalls']
      rfl
  · rw [bind_of_fault hending]
    exact ⟨[.request call], rfl, hcalls.symm, hstopped⟩
  · rw [bind_of_unfinished hending]
    exact ⟨[.request call], rfl, hcalls.symm, hstopped⟩

end Run

namespace Node

open Run

variable (executor : Executor σ) (allowance : Nat)

theorem marks_predicate_bind {low free high number : Nat} (predicate : Command)
    {next : Status → Run (Journal σ) α} (hnext : ∀ decision, Marks low free high (next decision)) :
    Marks (min number low) (max (number + 1) low) (max (number + 1) high)
      (walkPredicate executor number predicate >>= next) := by
  rw [walkPredicate, bind_assoc]
  apply (marks_visit number).bind
  · intro _
    exact Marks.request_bind hnext executor .predicate predicate
  · omega

theorem marks_repeatWhile {number high : Nat} (name : String) (predicate : Command)
    {body : Run (Journal σ) (Option Status)} (hbody : Marks (number + 1) high high body)
    (hhigh : number + 1 ≤ high) (last : Option Status) (iterations : Nat) :
    Marks number (number + 1) high
      (repeatWhile name (walkPredicate executor number predicate) body allowance last
        iterations) := by
  -- The way back to the predicate meets the request for it before anything else.
  induction allowance generalizing last iterations with
  | zero => exact marks_of_quiet fun _ => ⟨rfl, rfl⟩
  | succ allowance ih =>
      refine (marks_predicate_bind executor predicate fun decision =>
        (?_ : Marks number high high _)).mono (by omega) (by omega) (by omega)
      split
      · refine (hbody.bind (fun shown => (?_ : Marks number (number + 1) high _)) (by omega)).mono
          (by omega) (by omega) (by omega)
        cases shown with
        | none => exact ih last (iterations + 1)
        | some status =>
            simp only
            split
            · exact ih (some status) (iterations + 1)
            · exact marks_of_quiet fun _ => ⟨rfl, rfl⟩
      · exact marks_of_quiet fun _ => ⟨rfl, rfl⟩

mutual

/-- A walk visits no numbers but those of the statement and what is in it, and between two
requests none of them twice. -/
theorem marks_walk (number : Nat) : (node : Node) →
    Marks number (number + node.size) (number + node.size) (walk executor allowance number node)
  | .comment _ => by
      rw [walk, size]
      exact Marks.visit_bind (marks_of_quiet fun _ => ⟨rfl, rfl⟩) (by omega) (by omega)
  | .command call => by
      rw [walk, size]
      have hstatus : ∀ status : Status, Marks (number + 1) (number + 1) (number + 1)
          (pure (some status) : Run (Journal σ) (Option Status)) :=
        fun _ => marks_of_quiet fun _ => ⟨rfl, rfl⟩
      exact (Marks.request_bind hstatus executor .statement call).visit_bind (by omega) (by omega)
  | .block statements => by
      rw [walk, size, ← Nat.add_assoc]
      exact Marks.visit_bind (marks_walkAll (number + 1) none statements) (by omega) (by omega)
  | .ifThen predicate branch => by
      rw [walk, size, ← Nat.add_assoc]
      refine Marks.visit_bind ?_ (by omega) (by omega)
      refine (marks_predicate_bind executor predicate fun decision =>
        (?_ : Marks (number + 2) (number + 2 + branch.size) (number + 2 + branch.size) _)).mono
          (by omega) (by omega) (by omega)
      split
      · exact marks_walk (number + 2) branch
      · exact marks_of_quiet fun _ => ⟨rfl, rfl⟩
  | .ifElse predicate branch otherwise => by
      rw [walk, size, Nat.add_assoc 2, ← Nat.add_assoc, ← Nat.add_assoc]
      refine Marks.visit_bind ?_ (by omega) (by omega)
      refine (marks_predicate_bind executor predicate fun decision =>
        (?_ : Marks (number + 2) (number + 2 + branch.size + otherwise.size)
          (number + 2 + branch.size + otherwise.size) _)).mono (by omega) (by omega) (by omega)
      split
      · exact (marks_walk (number + 2) branch).mono (by omega) (by omega) (by omega)
      · exact (marks_walk (number + 2 + branch.size) otherwise).mono (by omega) (by omega) (by omega)
  | .loop predicate body => by
      rw [walk, size, ← Nat.add_assoc]
      refine Marks.visit_bind ?_ (by omega) (by omega)
      have hloop := marks_repeatWhile executor allowance predicate.name predicate
        (marks_walk (number + 2) body) (by omega) none 0
      have hended : ∀ result : Option Status × Nat, Marks (number + 1) (number + 1) (number + 1) (do
          Run.record (.loopEnded predicate.name result.2)
          pure result.1 : Run (Journal σ) (Option Status)) :=
        fun _ => marks_of_quiet fun _ => ⟨rfl, rfl⟩
      exact (hloop.deeper.bind hended (by omega)).mono (by omega) (by omega) (by omega)
  | .stray _ => by
      rw [walk, size]
      exact Marks.visit_bind (marks_of_quiet fun _ => ⟨rfl, rfl⟩) (by omega) (by omega)

theorem marks_walkAll (number : Nat) (last : Option Status) : (statements : List Node) →
    Marks number (number + sizeAll statements) (number + sizeAll statements)
      (walkAll executor allowance number last statements)
  | [] => by
      rw [walkAll]
      exact marks_of_quiet fun _ => ⟨rfl, rfl⟩
  | statement :: statements => by
      rw [walkAll, sizeAll, ← Nat.add_assoc]
      have hrest := fun last => marks_walkAll (number + statement.size) last statements
      refine ((marks_walk number statement).bind (fun shown =>
        (?_ : Marks (number + statement.size) (number + statement.size + sizeAll statements)
          (number + statement.size + sizeAll statements) _)) (by omega)).mono
            (by omega) (by omega) (by omega)
      cases shown with
      | none => exact hrest last
      | some status =>
          simp only
          split
          · exact hrest (some status)
          · exact marks_of_quiet fun _ => ⟨rfl, rfl⟩

end

end Node

/-- The state with an empty journal. -/
def State.journalled (state : State σ) : State (Journal σ) :=
  ⟨state.commandCount, state.loopDepth, ⟨[], state.executor⟩⟩

/-- Run the statements of a script and keep a journal. -/
def walkScript (executor : Executor σ) (allowance : Nat) (statements : List Node)
    (start : State σ) : Trace (Journal σ) (Option Status) :=
  Node.walkAll executor allowance 0 none statements start.journalled

theorem forget_walkScript (executor : Executor σ) (allowance : Nat) (statements : List Node)
    (start : State σ) : (walkScript executor allowance statements start).forget =
      execScript executor allowance statements start :=
  Node.mirrors_walkAll executor allowance 0 none statements start.journalled

/-- A trace with a journal of which no part goes back: from one request to the next, none
of the things numbered up to `size` is visited twice. -/
structure Trace.Onward (size : Nat) (walked : Trace (Journal σ) α) : Prop where
  requested : walked.state.executor.marks.filterMap Mark.call? =
    (requests walked.events).map Request.call
  numbered : ∀ number, .visit number ∈ walked.state.executor.marks → number < size
  once : ∀ stretch, stretch <:+: walked.state.executor.marks →
    (∀ mark ∈ stretch, mark.call? = none) → stretch.Nodup
  few : (walked.state.executor.marks.filter (·.call? = none)).length ≤
    ((requests walked.events).length + 1) * size

theorem onward_walkScript (executor : Executor σ) (allowance : Nat) (statements : List Node)
    (start : State σ) :
    (walkScript executor allowance statements start).Onward (Node.sizeAll statements) := by
  obtain ⟨marks, hmarks, hcalls, hmarked⟩ :=
    Node.marks_walkAll executor allowance 0 none statements start.journalled
  rw [Nat.zero_add] at hmarked
  have hmarks : (walkScript executor allowance statements start).state.executor.marks = marks :=
    hmarks
  have hfresh := hmarked.fresh [] (by simp)
  have hwithin := fun number hnumber => (hmarked.within number hnumber).2
  have hfew := length_visits_le hfresh List.nodup_nil (by simp) hwithin
  rw [hcalls, List.length_map] at hfew
  constructor
  all_goals rw [hmarks]
  · exact hcalls
  · exact hwithin
  · exact fun stretch => nodup_of_infix hfresh
  · exact hfew

end StatusShell
