import StatusShell.Proofs.Termination
import StatusShell.Proofs.Walk

namespace StatusShell

variable {σ α β : Type}

namespace Executor

/-- The state of the executor after a number of calls. -/
def stateAfter (executor : Executor σ) (start : σ) (calls : List Command) : σ :=
  calls.foldl (fun state call => (executor.call call state).state) start

/-- From the given state on, every call after the first `limit` ones raises. -/
def RaisesAfter (executor : Executor σ) (limit : Nat) (start : σ) : Prop :=
  ∀ calls call, limit ≤ calls.length →
    ∃ cause, (executor.call call (executor.stateAfter start calls)).answer = .fault cause

variable {executor : Executor σ} {start : σ}

theorem RaisesAfter.answer_eq_fault (h : executor.RaisesAfter 0 start) (call : Command) :
    ∃ cause, (executor.call call start).answer = .fault cause :=
  h [] call (Nat.le_refl 0)

theorem RaisesAfter.after_call {limit : Nat} (h : executor.RaisesAfter (limit + 1) start)
    (call : Command) : executor.RaisesAfter limit (executor.call call start).state := by
  intro calls next hlength
  exact h (call :: calls) next (Nat.succ_le_succ hlength)

end Executor

namespace Rehearsal

theorem le_length_calls_stateAfter (limit : Nat) (rehearsal : Rehearsal) (calls : List Command) :
    min limit (rehearsal.calls.length + calls.length) ≤
      ((executor limit).stateAfter rehearsal calls).calls.length := by
  induction calls generalizing rehearsal with
  | nil => exact Nat.min_le_right _ _
  | cons call calls ih =>
      have hlater := ih ((executor limit).call call rehearsal).state
      have hcall : min limit (rehearsal.calls.length + 1) ≤
          ((executor limit).call call rehearsal).state.calls.length := by
        by_cases hlimit : rehearsal.calls.length < limit
        · simp only [executor, if_pos hlimit, perform, List.length_append, List.length_singleton]
          omega
        · simp only [executor, if_neg hlimit]
          omega
      show _ ≤ ((executor limit).stateAfter ((executor limit).call call rehearsal).state
        calls).calls.length
      rw [List.length_cons]
      omega

theorem executor_raisesAfter (limit : Nat) (rehearsal : Rehearsal) :
    (executor limit).RaisesAfter (limit - rehearsal.calls.length) rehearsal := by
  intro calls call hlength
  have hcalls := le_length_calls_stateAfter limit rehearsal calls
  generalize (executor limit).stateAfter rehearsal calls = after at hcalls ⊢
  have hlimit : ¬ after.calls.length < limit := by omega
  exact ⟨.callLimit, by simp only [executor, if_neg hlimit]⟩

end Rehearsal

/-- A trace that an executor started from the given state allows.  If it is unfinished,
then the number of its requests explains it; and if the executor raises after so many calls,
then each request is one of them, or else the one that raises. -/
structure Trace.Pays (executor : Executor σ) (Explains : Nat → Prop) (start : σ)
    (trace : Trace σ α) : Prop where
  explained : trace.ending = .unfinished → Explains (requests trace.events).length
  bounded {limit : Nat} : executor.RaisesAfter limit start →
    (requests trace.events).length ≤ limit + 1 ∧
      (trace.ending = .unfinished → (requests trace.events).length ≤ limit)
  left {limit : Nat} {value : α} : executor.RaisesAfter limit start →
    trace.ending = .value value →
      ∃ left, left + (requests trace.events).length = limit ∧
        executor.RaisesAfter left trace.state.executor

namespace Run

def Pays (executor : Executor σ) (Explains : Nat → Prop) (run : Run σ α) : Prop :=
  ∀ state, (run state).Pays executor Explains state.executor

variable {executor : Executor σ} {Explains Explains' : Nat → Prop}

theorem Pays.mono {run : Run σ α} (h : Pays executor Explains run)
    (himp : ∀ made, Explains made → Explains' made) : Pays executor Explains' run := by
  intro state
  have hrun := h state
  exact ⟨fun hending => himp _ (hrun.explained hending), hrun.bounded, hrun.left⟩

theorem pays_of_quiet {run : Run σ α}
    (h : ∀ state, requests (run state).events = [] ∧ (run state).state = state ∧
      (run state).ending ≠ .unfinished) : Pays executor Explains run := by
  intro state
  obtain ⟨hrequests, hstate, hended⟩ := h state
  refine ⟨fun hunfinished => absurd hunfinished hended, fun _ => ?_, fun hraises _ => ?_⟩
  · simp [hrequests]
  · rw [hrequests, hstate]
    exact ⟨_, rfl, hraises⟩

theorem pays_pure (value : α) : Pays executor Explains (pure value : Run σ α) :=
  pays_of_quiet fun _ => ⟨rfl, rfl, by rintro ⟨⟩⟩

theorem pays_raise (cause : Fault) : Pays executor Explains (raise cause : Run σ α) :=
  pays_of_quiet fun _ => ⟨rfl, rfl, by rintro ⟨⟩⟩

theorem pays_giveUp (h : Explains 0) : Pays executor Explains (giveUp : Run σ α) := by
  intro state
  refine ⟨fun _ => h, fun _ => ⟨Nat.zero_le _, fun _ => Nat.zero_le _⟩, ?_⟩
  rintro limit value _ ⟨⟩

theorem Pays.deeper {run : Run σ α} (h : Pays executor Explains run) :
    Pays executor Explains (deeper run) := by
  intro state
  have hrun := h { state with loopDepth := state.loopDepth + 1 }
  exact ⟨hrun.explained, hrun.bounded, hrun.left⟩

theorem Pays.bind_of_made {first : Run σ α} {next : α → Run σ β}
    (hfirst : Pays executor Explains first) (hnext : ∀ value, Pays executor Explains' (next value))
    (hmade : ∀ state more, Explains' more →
      Explains ((requests (first state).events).length + more)) :
    Pays executor Explains (first >>= next) := by
  intro state
  have hrun := hfirst state
  rcases hending : (first state).ending with value | cause | _
  · have hrest := hnext value (first state).state
    rw [bind_of_value hending]
    constructor
    all_goals simp only [requests_append, List.length_append]
    · intro hunfinished
      exact hmade state _ (hrest.explained hunfinished)
    · intro limit hraises
      obtain ⟨left, hleft, hraises'⟩ := hrun.left hraises hending
      obtain ⟨hbounded, hcut⟩ := hrest.bounded hraises'
      refine ⟨by omega, fun hunfinished => ?_⟩
      have := hcut hunfinished
      omega
    · intro limit result hraises hresult
      obtain ⟨left, hleft, hraises'⟩ := hrun.left hraises hending
      obtain ⟨left', hleft', hraises''⟩ := hrest.left hraises' hresult
      exact ⟨left', by omega, hraises''⟩
  · rw [bind_of_fault hending]
    refine ⟨?_, fun hraises => ⟨(hrun.bounded hraises).1, ?_⟩, ?_⟩
    · rintro ⟨⟩
    · rintro ⟨⟩
    · rintro limit value _ ⟨⟩
  · rw [bind_of_unfinished hending]
    refine ⟨fun _ => hrun.explained hending, fun hraises => ?_, ?_⟩
    · exact ⟨(hrun.bounded hraises).1, fun _ => (hrun.bounded hraises).2 hending⟩
    · rintro limit value _ ⟨⟩

theorem pays_request (role : Role) (call : Command) :
    Pays executor Explains (request executor role call) := by
  intro state
  have hone : (requests (request executor role call state).events).length = 1 := by
    rw [requests_request]
    rfl
  have hended : (request executor role call state).ending ≠ .unfinished := by
    rw [ending_request]
    split <;> rintro ⟨⟩
  refine ⟨fun hunfinished => absurd hunfinished hended, fun _ => ⟨by omega, ?_⟩, ?_⟩
  · intro hunfinished
    exact absurd hunfinished hended
  · intro limit status hraises hstatus
    cases limit with
    | zero =>
        obtain ⟨cause, hcause⟩ := hraises.answer_eq_fault call
        rw [ending_request, hcause] at hstatus
        cases hstatus
    | succ limit => exact ⟨limit, by omega, hraises.after_call call⟩

theorem Pays.bind {first : Run σ α} {next : α → Run σ β} (hfirst : Pays executor Explains first)
    (hnext : ∀ value, Pays executor Explains (next value))
    (hmono : ∀ made more, Explains more → Explains (made + more)) :
    Pays executor Explains (first >>= next) :=
  hfirst.bind_of_made hnext fun _ => hmono _

theorem pays_request_bind {next : Status → Run σ α} (role : Role) (call : Command)
    (hnext : ∀ status, Pays executor Explains' (next status))
    (himp : ∀ made, Explains' made → Explains (1 + made)) :
    Pays executor Explains (request executor role call >>= next) := by
  refine (pays_request role call).bind_of_made hnext fun state more hexplains => ?_
  rw [requests_request]
  exact himp more hexplains

theorem pays_repeatWhile (name : String) (call : Command) {body : Run σ (Option Status)}
    {looks allowance : Nat} (hle : looks ≤ allowance)
    (hbody : Pays executor (allowance ≤ ·) body) (last : Option Status) (iterations : Nat) :
    Pays executor (looks ≤ ·)
      (repeatWhile name (request executor .predicate call) body looks last iterations) := by
  induction looks generalizing last iterations with
  | zero => exact pays_giveUp (Nat.le_refl 0)
  | succ looks ih =>
      have hle' := Nat.le_of_succ_le hle
      refine pays_request_bind .predicate call (fun decision =>
        (?_ : Pays executor (looks ≤ ·) _)) (by omega)
      split
      · refine (hbody.mono (by omega)).bind (fun shown => ?_) (by omega)
        cases shown with
        | none => exact ih hle' last (iterations + 1)
        | some status =>
            simp only
            split
            · exact ih hle' (some status) (iterations + 1)
            · exact pays_of_quiet fun _ => ⟨rfl, rfl, by rintro ⟨⟩⟩
      · exact pays_pure _

theorem pays_closed (executor : Executor σ) (allowance : Nat) :
    Closed executor allowance (Pays executor (allowance ≤ ·)) where
  pure := pays_pure
  bind hfirst hnext := hfirst.bind hnext (by omega)
  request := pays_request
  repeated call _ hbody :=
    (pays_repeatWhile call.name call (Nat.le_refl _) hbody none 0).deeper
  loopEnded _ _ := pays_of_quiet fun _ => ⟨rfl, rfl, by rintro ⟨⟩⟩

end Run

theorem pays_execScript (executor : Executor σ) (allowance : Nat) (statements : List Node) :
    Run.Pays executor (allowance ≤ ·) (execScript executor allowance statements) :=
  Node.execAll_of_closed (Run.pays_closed executor allowance) none statements
    fun _ => Run.pays_raise _

namespace Node

mutual

/-- Run a statement.  Each statement, each step through a list of statements and each look
at the predicate of a loop takes a unit of fuel from what comes after it. -/
def execWithin (executor : Executor σ) : (fuel : Nat) → Node → Run σ (Option Status)
  | 0, _ => Run.giveUp
  | _ + 1, .comment _ => pure none
  | _ + 1, .command call => do
      let status ← Run.request executor .statement call
      pure (some status)
  | fuel + 1, .block statements => execAllWithin executor fuel none statements
  | fuel + 1, .ifThen predicate branch => do
      let decision ← Run.request executor .predicate predicate
      if decision.succeeded then execWithin executor fuel branch else pure none
  | fuel + 1, .ifElse predicate branch otherwise => do
      let decision ← Run.request executor .predicate predicate
      if decision.succeeded then execWithin executor fuel branch
      else execWithin executor fuel otherwise
  | fuel + 1, .loop predicate body => do
      let (last, iterations) ← Run.deeper (repeatWithin executor predicate body fuel none 0)
      Run.record (.loopEnded predicate.name iterations)
      pure last
  | _ + 1, .stray _ => Run.raise .strayStatement

def execAllWithin (executor : Executor σ) : (fuel : Nat) → (last : Option Status) →
    List Node → Run σ (Option Status)
  | 0, _, _ => Run.giveUp
  | _ + 1, last, [] => pure last
  | fuel + 1, last, statement :: statements => do
      match ← execWithin executor fuel statement with
      | none => execAllWithin executor fuel last statements
      | some status =>
          if status.succeeded then execAllWithin executor fuel (some status) statements
          else pure (some status)

def repeatWithin (executor : Executor σ) (predicate : Command) (body : Node) : (fuel : Nat) →
    (last : Option Status) → (iterations : Nat) → Run σ (Option Status × Nat)
  | 0, _, _ => Run.giveUp
  | fuel + 1, last, iterations => do
      let decision ← Run.request executor .predicate predicate
      if decision.succeeded then
        match ← execWithin executor fuel body with
        | none => repeatWithin executor predicate body fuel last (iterations + 1)
        | some status =>
            if status.succeeded then
              repeatWithin executor predicate body fuel (some status) (iterations + 1)
            else
              Run.record (.bodyFailed predicate.name (iterations + 1))
              pure (some status, iterations + 1)
      else pure (last, iterations)

end

open Run

variable (executor : Executor σ)

section

variable {allowance : Nat}

mutual

theorem extends_execWithin : {fuel : Nat} → fuel ≤ allowance → (node : Node) →
    Extends (execWithin executor fuel node) (exec executor allowance node)
  | 0, _, node => by
      rw [execWithin]
      exact giveUp_extends _
  | _ + 1, _, .comment _ => by
      rw [execWithin, exec]
      exact .refl _
  | _ + 1, _, .command call => by
      rw [execWithin, exec]
      exact .refl _
  | fuel + 1, hle, .block statements => by
      rw [execWithin, exec]
      exact extends_execAllWithin (Nat.le_of_succ_le hle) none statements
  | fuel + 1, hle, .ifThen predicate branch => by
      rw [execWithin, exec]
      refine (Extends.refl _).bind fun decision => ?_
      split
      · exact extends_execWithin (Nat.le_of_succ_le hle) branch
      · exact .refl _
  | fuel + 1, hle, .ifElse predicate branch otherwise => by
      rw [execWithin, exec]
      refine (Extends.refl _).bind fun decision => ?_
      split
      · exact extends_execWithin (Nat.le_of_succ_le hle) branch
      · exact extends_execWithin (Nat.le_of_succ_le hle) otherwise
  | fuel + 1, hle, .loop predicate body => by
      have hle := Nat.le_of_succ_le hle
      rw [execWithin, exec]
      exact (extends_repeatWithin hle hle predicate body none 0).deeper.bind fun _ => .refl _
  | _ + 1, _, .stray _ => by
      rw [execWithin, exec]
      exact .refl _

theorem extends_execAllWithin : {fuel : Nat} → fuel ≤ allowance → (last : Option Status) →
    (statements : List Node) →
    Extends (execAllWithin executor fuel last statements)
      (execAll executor allowance last statements)
  | 0, _, _, _ => by
      rw [execAllWithin]
      exact giveUp_extends _
  | _ + 1, _, last, [] => by
      rw [execAllWithin, execAll]
      exact .refl _
  | fuel + 1, hle, last, statement :: statements => by
      have hle := Nat.le_of_succ_le hle
      rw [execAllWithin, execAll]
      refine (extends_execWithin hle statement).bind fun shown => ?_
      cases shown with
      | none => exact extends_execAllWithin hle last statements
      | some status =>
          simp only
          split
          · exact extends_execAllWithin hle (some status) statements
          · exact .refl _

theorem extends_repeatWithin : {fuel looks : Nat} → fuel ≤ looks → fuel ≤ allowance →
    (predicate : Command) → (body : Node) → (last : Option Status) → (iterations : Nat) →
    Extends (repeatWithin executor predicate body fuel last iterations)
      (repeatWhile predicate.name (Run.request executor .predicate predicate)
        (exec executor allowance body) looks last iterations)
  | 0, _, _, _, _, _, _, _ => by
      rw [repeatWithin]
      exact giveUp_extends _
  | fuel + 1, looks + 1, hlooks, hle, predicate, body, last, iterations => by
      have hlooks := Nat.le_of_succ_le_succ hlooks
      have hle := Nat.le_of_succ_le hle
      rw [repeatWithin, repeatWhile]
      refine (Extends.refl _).bind fun decision => ?_
      split
      · refine (extends_execWithin hle body).bind fun shown => ?_
        cases shown with
        | none => exact extends_repeatWithin hlooks hle predicate body last (iterations + 1)
        | some status =>
            simp only
            split
            · exact extends_repeatWithin hlooks hle predicate body (some status) (iterations + 1)
            · exact .refl _
      · exact .refl _

end

end

theorem le_mul_add {least factor offset : Nat} (made more : Nat)
    (h : least ≤ factor * (more + offset)) : least ≤ factor * (made + more + offset) :=
  Nat.le_trans h (Nat.mul_le_mul_left factor (by omega))

theorem one_le_size (node : Node) : 1 ≤ node.size := by
  cases node <;> simp only [size] <;> omega

mutual

theorem pays_execWithin : (fuel : Nat) → (node : Node) →
    Pays executor (fun made => fuel + 1 ≤ node.size * (made + 2)) (execWithin executor fuel node)
  | 0, node => by
      rw [execWithin]
      have := one_le_size node
      exact pays_giveUp (by omega)
  | _ + 1, .comment _ => by
      rw [execWithin]
      exact pays_pure none
  | _ + 1, .command call => by
      rw [execWithin]
      exact (pays_request .statement call).bind (fun _ => pays_pure _) le_mul_add
  | fuel + 1, .block statements => by
      rw [execWithin, size]
      refine (pays_execAllWithin fuel none statements).mono fun made h => ?_
      simp only [Nat.add_mul 1]
      omega
  | fuel + 1, .ifThen predicate branch => by
      rw [execWithin, size]
      refine pays_request_bind .predicate predicate (fun decision =>
        (?_ : Pays executor (fun made => fuel + 1 ≤ branch.size * (made + 2)) _)) ?_
      · split
        · exact pays_execWithin fuel branch
        · exact pays_pure none
      · intro made h
        have := le_mul_add 1 made h
        simp only [Nat.add_mul 2]
        omega
  | fuel + 1, .ifElse predicate branch otherwise => by
      rw [execWithin, size]
      refine pays_request_bind .predicate predicate (fun decision =>
        (?_ : Pays executor
          (fun made => fuel + 1 ≤ (branch.size + otherwise.size) * (made + 2)) _)) ?_
      · split
        · refine (pays_execWithin fuel branch).mono fun made h => ?_
          exact Nat.le_trans h (Nat.mul_le_mul_right _ (Nat.le_add_right _ _))
        · refine (pays_execWithin fuel otherwise).mono fun made h => ?_
          exact Nat.le_trans h (Nat.mul_le_mul_right _ (Nat.le_add_left _ _))
      · intro made h
        have := le_mul_add 1 made h
        simp only [Nat.add_assoc 2, Nat.add_mul 2]
        omega
  | fuel + 1, .loop predicate body => by
      rw [execWithin, size]
      have hrounds : Pays executor (fun made => fuel + 1 + 1 ≤ (2 + body.size) * (made + 2))
          (repeatWithin executor predicate body fuel none 0) := by
        refine (pays_repeatWithin fuel predicate body none 0).mono fun made h => ?_
        simp only [Nat.add_mul, Nat.mul_add] at h ⊢
        omega
      refine hrounds.deeper.bind (fun _ => ?_) le_mul_add
      exact pays_of_quiet fun _ => ⟨rfl, rfl, by rintro ⟨⟩⟩
  | _ + 1, .stray _ => by
      rw [execWithin]
      exact pays_raise _

theorem pays_execAllWithin : (fuel : Nat) → (last : Option Status) → (statements : List Node) →
    Pays executor (fun made => fuel ≤ sizeAll statements * (made + 2))
      (execAllWithin executor fuel last statements)
  | 0, _, _ => by
      rw [execAllWithin]
      exact pays_giveUp (Nat.zero_le _)
  | _ + 1, last, [] => by
      rw [execAllWithin]
      exact pays_pure last
  | fuel + 1, last, statement :: statements => by
      rw [execAllWithin, sizeAll]
      have hrest : ∀ last, Pays executor
          (fun made => fuel + 1 ≤ (statement.size + sizeAll statements) * (made + 2))
          (execAllWithin executor fuel last statements) := by
        intro last
        refine (pays_execAllWithin fuel last statements).mono fun made h => ?_
        have := Nat.mul_le_mul_right (made + 2) (one_le_size statement)
        rw [Nat.add_mul]
        omega
      refine ((pays_execWithin fuel statement).mono fun made h => ?_).bind (fun shown => ?_)
        le_mul_add
      · exact Nat.le_trans h (Nat.mul_le_mul_right _ (Nat.le_add_right _ _))
      · cases shown with
        | none => exact hrest last
        | some status =>
            simp only
            split
            · exact hrest (some status)
            · exact pays_pure _

theorem pays_repeatWithin : (fuel : Nat) → (predicate : Command) → (body : Node) →
    (last : Option Status) → (iterations : Nat) →
    Pays executor (fun made => fuel ≤ (body.size + 1) * (made + 1))
      (repeatWithin executor predicate body fuel last iterations)
  | 0, _, _, _, _ => by
      rw [repeatWithin]
      exact pays_giveUp (Nat.zero_le _)
  | fuel + 1, predicate, body, last, iterations => by
      have hagain : ∀ last, Pays executor (fun made => fuel + 1 ≤ (body.size + 1) * (made + 2))
          (repeatWithin executor predicate body fuel last (iterations + 1)) := by
        intro last
        refine (pays_repeatWithin fuel predicate body last _).mono fun made h => ?_
        rw [Nat.mul_add] at h ⊢
        omega
      rw [repeatWithin]
      refine pays_request_bind .predicate predicate (fun decision =>
        (?_ : Pays executor (fun made => fuel + 1 ≤ (body.size + 1) * (made + 2)) _)) ?_
      · split
        · refine ((pays_execWithin fuel body).mono fun made h => ?_).bind (fun shown => ?_)
            le_mul_add
          · exact Nat.le_trans h (Nat.mul_le_mul_right _ (Nat.le_succ _))
          · cases shown with
            | none => exact hagain last
            | some status =>
                simp only
                split
                · exact hagain (some status)
                · exact pays_of_quiet fun _ => ⟨rfl, rfl, by rintro ⟨⟩⟩
        · exact pays_pure _
      · intro made h
        rwa [Nat.add_comm 1 made]

end

end Node

section

variable {executor : Executor σ} {limit allowance : Nat} {start : State σ}
  (hraises : executor.RaisesAfter limit start.executor) (hlimit : limit < allowance)
  (statements : List Node)
include hraises hlimit

theorem execScript_ends_of_raisesAfter :
    (execScript executor allowance statements start).ending ≠ .unfinished := by
  have hpays := pays_execScript executor allowance statements start
  intro hunfinished
  have hmade := hpays.explained hunfinished
  have hleft := (hpays.bounded hraises).2 hunfinished
  omega

theorem execAllWithin_eq_execScript {fuel : Nat}
    (hfuel : (limit + 2) * Node.sizeAll statements < fuel) :
    Node.execAllWithin executor fuel none statements start =
      execScript executor allowance statements start := by
  have hpays := Node.pays_execAllWithin executor fuel none statements start
  have hended : (Node.execAllWithin executor fuel none statements start).ending ≠ .unfinished := by
    intro hunfinished
    have hshort := hpays.explained hunfinished
    have hmade := (hpays.bounded hraises).2 hunfinished
    have hle := Nat.mul_le_mul_left (Node.sizeAll statements) (Nat.add_le_add_right hmade 2)
    rw [Nat.mul_comm] at hfuel
    omega
  -- Both go on to the run with the larger of the two numbers.
  rw [← Node.extends_execAllWithin executor (Nat.le_max_left fuel allowance) none statements start
    hended]
  exact Node.execAll_extends executor (Nat.le_max_right fuel allowance) none statements start
    (execScript_ends_of_raisesAfter hraises hlimit statements)

end

/-- The interpreter goes on only for as long as it makes requests.  With an executor that
raises on every request after the first `limit` ones, each run comes to an end after at most
`limit + 1` requests, visits nothing twice between two of them, and needs no more fuel than
that leaves room for. -/
theorem execScript_bounded_by_requests (executor : Executor σ) (statements : List Node)
    (start : State σ) :
    (∀ allowance, (execScript executor allowance statements start).ending = .unfinished →
      allowance ≤ (requests (execScript executor allowance statements start).events).length) ∧
    ∀ limit, executor.RaisesAfter limit start.executor →
      ∃ trace, trace.ending ≠ .unfinished ∧ (requests trace.events).length ≤ limit + 1 ∧
        (∀ allowance, limit < allowance →
          execScript executor allowance statements start = trace ∧
          (walkScript executor allowance statements start).forget = trace ∧
          (walkScript executor allowance statements start).Onward (Node.sizeAll statements)) ∧
        ∀ fuel, (limit + 2) * Node.sizeAll statements < fuel →
          Node.execAllWithin executor fuel none statements start = trace := by
  constructor
  · intro allowance
    exact (pays_execScript executor allowance statements start).explained
  intro limit hraises
  have hlimit := Nat.lt_succ_self limit
  have hended := execScript_ends_of_raisesAfter hraises hlimit statements
  have hpays := pays_execScript executor (limit + 1) statements start
  refine ⟨execScript executor (limit + 1) statements start, hended, (hpays.bounded hraises).1,
    ?_, ?_⟩
  · intro allowance hallowance
    have hsame := Node.execAll_extends executor hallowance none statements start hended
    refine ⟨hsame, ?_, onward_walkScript executor allowance statements start⟩
    rw [forget_walkScript]
    exact hsame
  · intro fuel hfuel
    exact execAllWithin_eq_execScript hraises hlimit statements hfuel

/-- Two loops with nothing in them but a comment, on an executor that takes three calls. -/
theorem execScript_bounded_by_requests_nested_loops :
    let statements : List Node := [.loop ⟨"a", []⟩ (.loop ⟨"b", []⟩ (.comment "c"))]
    let start : State Rehearsal := ⟨0, 0, .fresh⟩
    (Rehearsal.executor 3).RaisesAfter 3 start.executor ∧
    ∃ trace, trace.ending ≠ .unfinished ∧ (requests trace.events).length ≤ 4 ∧
      execScript (Rehearsal.executor 3) 4 statements start = trace ∧
      (walkScript (Rehearsal.executor 3) 4 statements start).Onward 5 ∧
      Node.execAllWithin (Rehearsal.executor 3) 26 none statements start = trace := by
  intro statements start
  have hraises : (Rehearsal.executor 3).RaisesAfter 3 start.executor :=
    Rehearsal.executor_raisesAfter 3 .fresh
  obtain ⟨trace, hended, hmade, hexec, hwithin⟩ :=
    (execScript_bounded_by_requests (Rehearsal.executor 3) statements start).2 3 hraises
  obtain ⟨hsame, _, honward⟩ := hexec 4 (by decide)
  exact ⟨hraises, trace, hended, hmade, hsame, honward, hwithin 26 (by decide)⟩

end StatusShell
