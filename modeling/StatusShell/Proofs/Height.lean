import StatusShell.Proofs.Shape
import StatusShell.Rehearsal
import StatusShell.Run.Statement
import StatusShell.Script.Listing

namespace StatusShell

open Grammar

namespace Grammar.Production

open Scan

variable {frames : Nat} {text rest : List Char} {node : Node} {nodes : List Node}

section

variable (h : ∀ n < frames, ∀ text node rest,
  statement.scan n text = .success node rest → 3 * node.height ≤ n)
include h

theorem heightAll_of_repeats (hnodes : Repeats (statementRound frames) text nodes rest) :
    3 * Node.heightAll nodes + 1 ≤ frames := by
  induction hnodes with
  | done hround =>
      obtain ⟨n, rfl, -, -⟩ := statementRound_eq_none_iff.mp hround
      exact Nat.le_add_left 1 n
  | more hround _ ih =>
      obtain ⟨n, mid, rfl, hnode, -⟩ := statementRound_eq_some_iff.mp hround
      have hfirst := h n (Nat.lt_succ_self n) _ _ _ hnode
      rw [Node.heightAll]
      omega

theorem heightAll_of_scan_statements
    (hscan : statements.scan (frames + 1) text = .success nodes rest) :
    3 * Node.heightAll nodes + 2 ≤ frames + 1 := by
  obtain ⟨n, heq, hrounds⟩ := scan_statements_eq_success_iff.mp hscan
  obtain rfl := Nat.succ.inj heq
  exact Nat.succ_le_succ (heightAll_of_repeats h hrounds)

-- A statement takes two frames before one of its alternatives is read; those are added here.

theorem height_of_scan_block (hscan : block.scan frames text = .success node rest) :
    3 * node.height ≤ frames + 2 := by
  obtain ⟨n, after, nodes, mid, rfl, -, hnodes, -, rfl⟩ := scan_block_eq_success_iff.mp hscan
  obtain ⟨m, rfl, -⟩ := scan_statements_eq_success_iff.mp hnodes
  have hinner := heightAll_of_scan_statements (fun k hk => h k (by omega)) hnodes
  rw [Node.height]
  omega

theorem height_of_scan_conditional (hscan : conditional.scan frames text = .success node rest) :
    3 * node.height ≤ frames + 2 := by
  obtain ⟨n, c, after, predicate, mid, branch, tail, rfl, -, -, -, hbranch, hnode⟩ :=
    scan_conditional_eq_success_iff.mp hscan
  have hfirst := h n (Nat.lt_succ_self n) _ _ _ hbranch
  rcases hnode with ⟨other, hattempt, rfl⟩ | ⟨-, rfl⟩
  · obtain ⟨m, rfl, hother⟩ := scan_attempt_eq_some_iff.mp hattempt
    obtain ⟨k, last, rfl, -, hlast⟩ := scan_otherwise_eq_success_iff.mp hother
    have hsecond := h k (by omega) _ _ _ hlast
    rw [Node.height]
    omega
  · rw [Node.height]
    omega

theorem height_of_scan_loop (hscan : loop.scan frames text = .success node rest) :
    3 * node.height ≤ frames + 2 := by
  obtain ⟨n, c, after, predicate, mid, body, rfl, -, -, -, hbody, rfl⟩ :=
    scan_loop_eq_success_iff.mp hscan
  have hbody := h n (Nat.lt_succ_self n) _ _ _ hbody
  rw [Node.height]
  omega

end

theorem height_of_scan_comment (hscan : comment.scan frames text = .success node rest) :
    3 * node.height ≤ frames + 2 := by
  obtain ⟨n, value, ending, rfl, -, -, -, rfl⟩ := scan_comment_eq_success_iff.mp hscan
  exact Nat.le_add_left 3 n

theorem height_of_scan_commandLine (hscan : commandLine.scan frames text = .success node rest) :
    3 * node.height ≤ frames + 2 := by
  obtain ⟨n, call, mid, rfl, -, -, rfl⟩ := scan_commandLine_eq_success_iff.mp hscan
  exact Nat.le_add_left 3 n

theorem height_of_scan_statement (hscan : statement.scan frames text = .success node rest) :
    3 * node.height ≤ frames := by
  induction frames using Nat.strongRecOn generalizing text node rest with
  | ind frames ih =>
      obtain ⟨n, rfl, halternatives⟩ := scan_statement_eq_success_iff.mp hscan
      have hinner : ∀ m < n, ∀ text node rest,
          statement.scan m text = .success node rest → 3 * node.height ≤ m :=
        fun m hm text node rest => ih m (by omega)
      rcases halternatives with hblock | ⟨-, hconditional | ⟨-, hloop | ⟨-, hcomment | ⟨-, hline⟩⟩⟩⟩
      · exact height_of_scan_block hinner hblock
      · exact height_of_scan_conditional hinner hconditional
      · exact height_of_scan_loop hinner hloop
      · exact height_of_scan_comment hcomment
      · exact height_of_scan_commandLine hline

end Grammar.Production

open Production in
theorem heightAll_of_readText {frames : Nat} {text : List Char} {nodes : List Node}
    (h : readText frames text = .ok nodes) : 3 * Node.heightAll nodes + 3 ≤ frames := by
  obtain ⟨rest, hscan⟩ := readText_eq_ok_iff.mp h
  obtain ⟨n, mid, rfl, hnodes, -, -⟩ := scan_script_eq_success_iff.mp hscan
  obtain ⟨m, rfl, -⟩ := scan_statements_eq_success_iff.mp hnodes
  have hheight := heightAll_of_scan_statements
    (fun _ _ _ _ _ hnode => height_of_scan_statement hnode) hnodes
  exact Nat.succ_le_succ hheight

variable {σ α : Type}

/-- Make a call, if one more may be nested; `body` is told how many more after that. -/
def Run.nested (body : (calls : Nat) → Run σ α) : (calls : Nat) → Run σ α
  | 0 => Run.giveUp
  | calls + 1 => body calls

/-- Consult a predicate: a call to consult it and one to put it to the executor. -/
def Run.consult (executor : Executor σ) (predicate : Command) : (calls : Nat) → Run σ Status :=
  nested <| nested fun _ => request executor .predicate predicate

theorem Run.consult_eq_request (executor : Executor σ) (predicate : Command) (calls : Nat) :
    consult executor predicate (calls + 2) = request executor .predicate predicate :=
  rfl

namespace Node

mutual

/-- Run a statement with at most `calls` calls nested in one another.  There is one call for
every statement, and inside it one to carry out what the statement says. -/
def execNested (executor : Executor σ) (allowance : Nat) :
    Node → (calls : Nat) → Run σ (Option Status)
  | .comment _ => Run.nested fun _ => pure none
  | .command call => Run.nested <| Run.nested fun _ => do
      let status ← Run.request executor .statement call
      pure (some status)
  | .block statements => Run.nested <| Run.nested fun calls =>
      execAllNested executor allowance none statements calls
  | .ifThen predicate branch => Run.nested <| Run.nested fun calls => do
      let decision ← Run.consult executor predicate calls
      if decision.succeeded then execNested executor allowance branch calls else pure none
  | .ifElse predicate branch otherwise => Run.nested <| Run.nested fun calls => do
      let decision ← Run.consult executor predicate calls
      if decision.succeeded then execNested executor allowance branch calls
      else execNested executor allowance otherwise calls
  | .loop predicate body => Run.nested <| Run.nested fun calls => do
      let (last, iterations) ← Run.deeper
        (repeatWhile predicate.name (Run.consult executor predicate calls)
          (execNested executor allowance body calls) allowance none 0)
      Run.record (.loopEnded predicate.name iterations)
      pure last
  | .stray _ => Run.nested fun _ => Run.raise .strayStatement

/-- Run statements in order up to the first failure, each with at most `calls` nested
calls. -/
def execAllNested (executor : Executor σ) (allowance : Nat) (last : Option Status) :
    List Node → (calls : Nat) → Run σ (Option Status)
  | [], _ => pure last
  | statement :: statements, calls => do
      match ← execNested executor allowance statement calls with
      | none => execAllNested executor allowance last statements calls
      | some status =>
          if status.succeeded then execAllNested executor allowance (some status) statements calls
          else pure (some status)

end

section

variable (executor : Executor σ) (allowance : Nat)

mutual

theorem execNested_eq_exec : (node : Node) → {calls : Nat} → 2 * node.height ≤ calls →
    node.execNested executor allowance calls = node.exec executor allowance
  | .comment _, calls, h => by
      obtain ⟨n, rfl⟩ := Nat.exists_eq_add_of_le' (show 2 ≤ calls from h)
      rw [execNested, exec]
      rfl
  | .command _, calls, h => by
      obtain ⟨n, rfl⟩ := Nat.exists_eq_add_of_le' (show 2 ≤ calls from h)
      rw [execNested, exec]
      rfl
  | .block statements, calls, h => by
      rw [height] at h
      obtain ⟨n, rfl⟩ := Nat.exists_eq_add_of_le' (show 2 ≤ calls by omega)
      have hinner : 2 * heightAll statements ≤ n := by omega
      rw [execNested, exec, ← execAllNested_eq_execAll none statements hinner]
      rfl
  | .ifThen predicate branch, calls, h => by
      have hpositive := one_le_height branch
      rw [height] at h
      obtain ⟨n, rfl⟩ := Nat.exists_eq_add_of_le' (show 4 ≤ calls by omega)
      have hbranch : 2 * branch.height ≤ n + 2 := by omega
      rw [execNested, exec, ← execNested_eq_exec branch hbranch,
        ← Run.consult_eq_request executor predicate n]
      rfl
  | .ifElse predicate branch otherwise, calls, h => by
      have hpositive := one_le_height branch
      rw [height] at h
      obtain ⟨n, rfl⟩ := Nat.exists_eq_add_of_le' (show 4 ≤ calls by omega)
      have hbranch : 2 * branch.height ≤ n + 2 := by omega
      have hotherwise : 2 * otherwise.height ≤ n + 2 := by omega
      rw [execNested, exec, ← execNested_eq_exec branch hbranch,
        ← execNested_eq_exec otherwise hotherwise, ← Run.consult_eq_request executor predicate n]
      rfl
  | .loop predicate body, calls, h => by
      have hpositive := one_le_height body
      rw [height] at h
      obtain ⟨n, rfl⟩ := Nat.exists_eq_add_of_le' (show 4 ≤ calls by omega)
      have hbody : 2 * body.height ≤ n + 2 := by omega
      rw [execNested, exec, ← execNested_eq_exec body hbody,
        ← Run.consult_eq_request executor predicate n]
      rfl
  | .stray _, calls, h => by
      obtain ⟨n, rfl⟩ := Nat.exists_eq_add_of_le' (show 2 ≤ calls from h)
      rw [execNested, exec]
      rfl

theorem execAllNested_eq_execAll (last : Option Status) : (statements : List Node) →
    {calls : Nat} → 2 * heightAll statements ≤ calls →
      execAllNested executor allowance last statements calls =
        execAll executor allowance last statements
  | [], _, _ => by
      rw [execAllNested, execAll]
  | statement :: statements, calls, h => by
      rw [heightAll] at h
      have hfirst : 2 * statement.height ≤ calls := by omega
      have hrest : 2 * heightAll statements ≤ calls := by omega
      rw [execAllNested, execAll, execNested_eq_exec statement hfirst,
        execAllNested_eq_execAll last statements hrest]
      congr 1
      funext shown
      rcases shown with _ | status
      · rfl
      · simp only [execAllNested_eq_execAll (some status) statements hrest]

end

end

mutual

/-- The lines that list a statement, with at most `calls` calls nested in one another: one
for every statement. -/
def linesNested (depth : Nat) : Node → (calls : Nat) → Option (List (List Char))
  | _, 0 => none
  | .block statements, calls + 1 => do
      let inner ← linesAllNested (depth + 1) statements calls
      pure (indented depth "Block".toList :: inner)
  | .ifThen predicate branch, calls + 1 => do
      let first ← linesNested (depth + 1) branch calls
      pure (indented depth ("If ".toList ++ predicate.shown) :: first)
  | .ifElse predicate branch otherwise, calls + 1 => do
      let first ← linesNested (depth + 1) branch calls
      let second ← linesNested (depth + 1) otherwise calls
      pure (indented depth ("If ".toList ++ predicate.shown) ::
        (first ++ indented depth "Else".toList :: second))
  | .loop predicate body, calls + 1 => do
      let inner ← linesNested (depth + 1) body calls
      pure (indented depth ("While ".toList ++ predicate.shown) :: inner)
  | .comment text, _ + 1 => some (lines depth (.comment text))
  | .command call, _ + 1 => some (lines depth (.command call))
  | .stray text, _ + 1 => some (lines depth (.stray text))

def linesAllNested (depth : Nat) : List Node → (calls : Nat) → Option (List (List Char))
  | [], _ => some []
  | statement :: statements, calls => do
      let first ← linesNested depth statement calls
      let more ← linesAllNested depth statements calls
      pure (first ++ more)

end

mutual

theorem linesNested_eq : (depth : Nat) → (node : Node) → (calls : Nat) →
    linesNested depth node calls = if node.height ≤ calls then some (node.lines depth) else none
  | depth, node, 0 => by
      have hpositive := one_le_height node
      rw [linesNested, if_neg (by omega)]
  | depth, .comment _, calls + 1 => by
      rw [linesNested]
      exact (if_pos (Nat.le_add_left 1 calls)).symm
  | depth, .command _, calls + 1 => by
      rw [linesNested]
      exact (if_pos (Nat.le_add_left 1 calls)).symm
  | depth, .block statements, calls + 1 => by
      rw [linesNested, linesAllNested_eq (depth + 1) statements calls, height, lines]
      by_cases h : heightAll statements ≤ calls <;> simp [h]
  | depth, .ifThen predicate branch, calls + 1 => by
      rw [linesNested, linesNested_eq (depth + 1) branch calls, height, lines]
      by_cases h : branch.height ≤ calls <;> simp [h]
  | depth, .ifElse predicate branch otherwise, calls + 1 => by
      rw [linesNested, linesNested_eq (depth + 1) branch calls,
        linesNested_eq (depth + 1) otherwise calls, height, lines]
      simp only [Nat.succ_le_succ_iff, Nat.max_le]
      by_cases h : branch.height ≤ calls <;> by_cases h' : otherwise.height ≤ calls <;>
        simp [h, h']
  | depth, .loop predicate body, calls + 1 => by
      rw [linesNested, linesNested_eq (depth + 1) body calls, height, lines]
      by_cases h : body.height ≤ calls <;> simp [h]
  | depth, .stray _, calls + 1 => by
      rw [linesNested]
      exact (if_pos (Nat.le_add_left 1 calls)).symm

theorem linesAllNested_eq : (depth : Nat) → (statements : List Node) → (calls : Nat) →
    linesAllNested depth statements calls =
      if heightAll statements ≤ calls then some (linesAll depth statements) else none
  | depth, [], calls => by
      rw [linesAllNested, heightAll, if_pos (Nat.zero_le calls), linesAll]
  | depth, statement :: statements, calls => by
      rw [linesAllNested, linesNested_eq depth statement calls,
        linesAllNested_eq depth statements calls, heightAll, linesAll]
      simp only [Nat.max_le]
      by_cases h : statement.height ≤ calls <;> by_cases h' : heightAll statements ≤ calls <;>
        simp [h, h']

end

end Node

/-- The listing of a statement list, if as many calls may be nested as it takes. -/
def listingNested (calls : Nat) (nodes : List Node) : Option String := do
  let lines ← Node.linesAllNested 0 nodes calls
  pure (String.ofList (lines.flatMap fun line => line ++ ['\n']))

theorem listingNested_eq (calls : Nat) (nodes : List Node) :
    listingNested calls nodes =
      if Node.heightAll nodes ≤ calls then some (listing nodes) else none := by
  rw [listingNested, Node.linesAllNested_eq]
  by_cases h : Node.heightAll nodes ≤ calls
  · rw [if_pos h, if_pos h]
    rfl
  · rw [if_neg h, if_neg h]
    rfl

/-- Whatever is accepted within a limit is at most a third as high as the limit.  Nested
calls by which it is run or listed are bounded by the height, two to a level and one to a
level; so they are never more than the frames that reading it was allowed. -/
theorem readText_shallow {frames : Nat} {text : List Char} {nodes : List Node}
    (h : readText frames text = .ok nodes) :
    3 * Node.heightAll nodes ≤ frames ∧
    (∀ {σ : Type} (executor : Executor σ) (allowance calls : Nat),
      2 * Node.heightAll nodes ≤ calls →
        Node.execAllNested executor allowance none nodes calls =
          execScript executor allowance nodes) ∧
    (∀ calls, listingNested calls nodes =
      if Node.heightAll nodes ≤ calls then some (listing nodes) else none) := by
  have hheight := heightAll_of_readText h
  refine ⟨by omega, ?_, fun calls => listingNested_eq calls nodes⟩
  intro σ executor allowance calls hcalls
  exact Node.execAllNested_eq_execAll executor allowance none nodes hcalls

/-- Conditionals without braces inside a loop without braces: four levels in sixteen frames. -/
theorem readText_shallow_unbraced :
    readText 16 "while (a) if (b) if (c) #d".toList =
      .ok [.loop ⟨"a", []⟩ (.ifThen ⟨"b", []⟩ (.ifThen ⟨"c", []⟩ (.comment "d")))] ∧
    3 * Node.heightAll
      [.loop ⟨"a", []⟩ (.ifThen ⟨"b", []⟩ (.ifThen ⟨"c", []⟩ (.comment "d")))] ≤ 16 ∧
    Node.execAllNested (Rehearsal.executor 5) 6 none
        [.loop ⟨"a", []⟩ (.ifThen ⟨"b", []⟩ (.ifThen ⟨"c", []⟩ (.comment "d")))] 8 =
      execScript (Rehearsal.executor 5) 6
        [.loop ⟨"a", []⟩ (.ifThen ⟨"b", []⟩ (.ifThen ⟨"c", []⟩ (.comment "d")))] ∧
    listingNested 3
      [.loop ⟨"a", []⟩ (.ifThen ⟨"b", []⟩ (.ifThen ⟨"c", []⟩ (.comment "d")))] = none := by
  have h : readText 16 "while (a) if (b) if (c) #d".toList =
      .ok [.loop ⟨"a", []⟩ (.ifThen ⟨"b", []⟩ (.ifThen ⟨"c", []⟩ (.comment "d")))] := by
    decide +kernel
  obtain ⟨hheight, hexec, hlisting⟩ := readText_shallow h
  refine ⟨h, hheight, hexec (Rehearsal.executor 5) 6 8 (by decide), ?_⟩
  exact (hlisting 3).trans (if_neg (by decide))

end StatusShell
