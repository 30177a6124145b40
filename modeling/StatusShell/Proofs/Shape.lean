import StatusShell.Proofs.Derivation
import StatusShell.Proofs.Limit

namespace StatusShell

open Grammar

/-- The argument can be written down: between double quotes unless it ends in a
backslash, and bare if no character of it ends a bare argument. -/
def isWritable (arg : String) : Bool :=
  arg.toList.getLast? ≠ some '\\' || arg.toList.all fun c => !isBarrier c

/-- The command has the name of a program and arguments that can be written
down. -/
def Command.wellFormed (call : Command) : Bool :=
  call.name ≠ "" && call.name.toList.all isPathChar && call.args.all isWritable

namespace Node

/-- A second branch behind the statement would become part of it. -/
def isOpen : Node → Bool
  | .ifThen _ _ => true
  | .ifElse _ _ otherwise => isOpen otherwise
  | .loop _ body => isOpen body
  | _ => false

mutual

/-- All commands in the statement are well formed, its comments have no line
feeds, and no second branch stands behind an open first one. -/
def wellFormed : Node → Bool
  | .comment text => '\n' ∉ text.toList
  | .command call => call.wellFormed
  | .block statements => wellFormedAll statements
  | .ifThen predicate branch => predicate.wellFormed && wellFormed branch
  | .ifElse predicate branch otherwise =>
      predicate.wellFormed && wellFormed branch && !isOpen branch && wellFormed otherwise
  | .loop predicate body => predicate.wellFormed && wellFormed body
  | .stray _ => false

/-- All statements of a list are well formed. -/
def wellFormedAll : List Node → Bool
  | [] => true
  | statement :: statements => wellFormed statement && wellFormedAll statements

end

mutual

/-- How many statements stand inside one another, the statement itself
counted. -/
def height : Node → Nat
  | .block statements => heightAll statements + 1
  | .ifThen _ branch => height branch + 1
  | .ifElse _ branch otherwise => max (height branch) (height otherwise) + 1
  | .loop _ body => height body + 1
  | _ => 1

/-- The height of the highest statement of a list. -/
def heightAll : List Node → Nat
  | [] => 0
  | statement :: statements => max (height statement) (heightAll statements)

end

theorem one_le_height (node : Node) : 1 ≤ node.height := by
  cases node <;> simp [height]

end Node

namespace Grammar

theorem wellFormed_iff {call : Command} :
    call.wellFormed = true ↔
      call.name.toList ≠ [] ∧ (∀ c ∈ call.name.toList, isPathChar c = true) ∧
        call.args.all isWritable = true := by
  simp [Command.wellFormed, and_assoc]

theorem isWritable_iff {arg : String} :
    isWritable arg = true ↔ arg.toList.getLast? ≠ some '\\' ∨ BareWord arg.toList := by
  simp [isWritable, BareWord]

theorem Word.isWritable {piece rest : List Char} {value : String}
    (h : Word .argument piece value rest) : isWritable value = true := by
  rw [isWritable_iff]
  cases h with
  | quotedArgument h =>
      cases h with
      | quoted hspells =>
          left
          intro hlast
          exact (spells_iff.mp hspells).2 hlast rfl
  | bareArgument h =>
      cases h with
      | bare hne hbare hspells hrest => exact .inr hbare

theorem Arguments.all_isWritable {piece rest : List Char} {values : List String}
    (h : Arguments piece values rest) : values.all StatusShell.isWritable = true := by
  induction h with
  | nil => rfl
  | cons hvalue _ ih =>
      cases hvalue with
      | spacedArgument _ _ hvalue =>
          rw [List.all_cons, hvalue.isWritable, ih]
          rfl

namespace Production

open Scan

variable {frames : Nat} {text rest : List Char}

theorem command_wellFormed_of_scan {call : Command}
    (h : command.scan frames text = .success call rest) : call.wellFormed = true := by
  induction frames generalizing text rest with
  | zero => cases h
  | succ frames ih =>
      obtain ⟨_, heq, ⟨_, _, _, hinner, _⟩ | ⟨mid, hname, hargs⟩⟩ :=
        scan_command_eq_success_iff.mp h
      · cases heq
        exact ih hinner
      · obtain ⟨_, _, hne, hpath, _, _⟩ := scan_path_eq_success_iff.mp hname
        obtain ⟨piece, _, hpiece⟩ := arguments_of_repeats hargs
        exact wellFormed_iff.mpr ⟨hne, hpath, hpiece.all_isWritable⟩

/-- No second branch can be read at the text, with any number of frames. -/
def NoElse (text : List Char) : Prop :=
  ∀ frames node rest, otherwise.scan frames text ≠ .success node rest

theorem noElse_of_mismatched (h : (otherwise.scan frames text).Mismatched) : NoElse text := by
  intro frames' node rest hscan
  obtain ⟨expected, after, hmismatch⟩ := h
  rcases Nat.le_total frames frames' with hle | hle
  · rcases scan_approximates_of_le hle otherwise text with hdeep | heq
    · rw [hmismatch] at hdeep
      cases hdeep
    · rw [hmismatch, hscan] at heq
      cases heq
  · rcases scan_approximates_of_le hle otherwise text with hdeep | heq
    · rw [hscan] at hdeep
      cases hdeep
    · rw [hscan, hmismatch] at heq
      cases heq

/-- The statement is well formed, and if it is open, then no second branch
follows it. -/
def Settled (node : Node) (rest : List Char) : Prop :=
  node.wellFormed = true ∧ (node.isOpen = true → NoElse rest)

section

variable (h : ∀ n < frames, ∀ text node rest,
  statement.scan n text = .success node rest → Settled node rest)
include h

theorem wellFormedAll_of_repeats {nodes : List Node}
    (hnodes : Repeats (statementRound frames) text nodes rest) :
    Node.wellFormedAll nodes = true := by
  induction hnodes with
  | done => rfl
  | more hround _ ih =>
      obtain ⟨n, mid, rfl, hnode, rfl⟩ := statementRound_eq_some_iff.mp hround
      rw [Node.wellFormedAll, (h n (by omega) _ _ _ hnode).1, ih]
      rfl

theorem settled_of_scan_block {node : Node}
    (hscan : block.scan frames text = .success node rest) : Settled node rest := by
  obtain ⟨n, after, nodes, mid, rfl, rfl, hnodes, hmid, rfl⟩ := scan_block_eq_success_iff.mp hscan
  obtain ⟨m, rfl, hrounds⟩ := scan_statements_eq_success_iff.mp hnodes
  refine ⟨?_, by simp [Node.isOpen]⟩
  rw [Node.wellFormed]
  exact wellFormedAll_of_repeats (fun k hk => h k (by omega)) hrounds

theorem settled_of_scan_conditional {node : Node}
    (hscan : conditional.scan frames text = .success node rest) : Settled node rest := by
  obtain ⟨n, c, after, predicate, mid, branch, tail, rfl, rfl, hc, hpredicate, hbranch, hnode⟩ :=
    scan_conditional_eq_success_iff.mp hscan
  obtain ⟨hwell, hopen⟩ := h n (by omega) _ _ _ hbranch
  have hcall := command_wellFormed_of_scan hpredicate
  rcases hnode with ⟨other, hattempt, rfl⟩ | ⟨hattempt, rfl⟩
  · obtain ⟨m, rfl, hother⟩ := scan_attempt_eq_some_iff.mp hattempt
    -- An open branch would have taken the second branch for itself.
    have hclosed : branch.isOpen = false := by
      rw [Bool.eq_false_iff]
      intro hbranchOpen
      exact hopen hbranchOpen _ _ _ hother
    obtain ⟨k, last, rfl, _, hlast⟩ := scan_otherwise_eq_success_iff.mp hother
    obtain ⟨hwellOther, hopenOther⟩ := h k (by omega) _ _ _ hlast
    refine ⟨?_, by simpa [Node.isOpen] using hopenOther⟩
    rw [Node.wellFormed, hcall, hwell, hclosed, hwellOther]
    rfl
  · obtain ⟨m, rfl, hmismatch, rfl⟩ := scan_attempt_eq_none_iff.mp hattempt
    refine ⟨?_, fun _ => noElse_of_mismatched hmismatch⟩
    rw [Node.wellFormed, hcall, hwell]
    rfl

theorem settled_of_scan_loop {node : Node}
    (hscan : loop.scan frames text = .success node rest) : Settled node rest := by
  obtain ⟨n, c, after, predicate, mid, body, rfl, rfl, hc, hpredicate, hbody, rfl⟩ :=
    scan_loop_eq_success_iff.mp hscan
  obtain ⟨hwell, hopen⟩ := h n (by omega) _ _ _ hbody
  refine ⟨?_, by simpa [Node.isOpen] using hopen⟩
  rw [Node.wellFormed, command_wellFormed_of_scan hpredicate, hwell]
  rfl

end

theorem settled_of_scan_statement {node : Node}
    (hscan : statement.scan frames text = .success node rest) : Settled node rest := by
  induction frames using Nat.strongRecOn generalizing text node rest with
  | ind frames ih =>
      obtain ⟨n, rfl, hblock | ⟨_, hconditional | ⟨_, hloop | ⟨_, hcomment | ⟨_, hline⟩⟩⟩⟩⟩ :=
        scan_statement_eq_success_iff.mp hscan
      · exact settled_of_scan_block (fun m hm _ _ _ => ih m (by omega)) hblock
      · exact settled_of_scan_conditional (fun m hm _ _ _ => ih m (by omega)) hconditional
      · exact settled_of_scan_loop (fun m hm _ _ _ => ih m (by omega)) hloop
      · obtain ⟨_, value, ending, _, rfl, hline, _, rfl⟩ :=
          scan_comment_eq_success_iff.mp hcomment
        exact ⟨by simpa [Node.wellFormed] using hline, by simp [Node.isOpen]⟩
      · obtain ⟨_, call, mid, _, hcall, _, rfl⟩ := scan_commandLine_eq_success_iff.mp hline
        refine ⟨?_, by simp [Node.isOpen]⟩
        rw [Node.wellFormed]
        exact command_wellFormed_of_scan hcall

end Production

end Grammar

open Production in
theorem wellFormedAll_of_readText {frames : Nat} {text : List Char} {nodes : List Node}
    (h : readText frames text = .ok nodes) : Node.wellFormedAll nodes = true := by
  obtain ⟨rest, hscan⟩ := readText_eq_ok_iff.mp h
  obtain ⟨n, mid, rfl, hnodes, _, _⟩ := scan_script_eq_success_iff.mp hscan
  obtain ⟨m, rfl, hrounds⟩ := scan_statements_eq_success_iff.mp hnodes
  exact wellFormedAll_of_repeats (fun k _ _ _ _ => settled_of_scan_statement) hrounds

theorem Source.exists_readText_of_parse {frames : Nat} {source : Source} {nodes : List Node}
    (h : source.parse frames = .ok nodes) : ∃ text, readText frames text = .ok nodes := by
  rw [Source.parse] at h
  rcases hchars : source.chars with rejection | text
  · rw [hchars] at h
    cases h
  · rw [hchars] at h
    exact ⟨text, h⟩

/-- Whatever script is accepted, as text or as bytes, all of its statements are
well formed. -/
theorem wellFormedAll_of_parse {frames : Nat} {source : Source} {nodes : List Node}
    (h : source.parse frames = .ok nodes) : Node.wellFormedAll nodes = true := by
  obtain ⟨text, htext⟩ := source.exists_readText_of_parse h
  exact wellFormedAll_of_readText htext

/-- A second branch goes to the inner one of two conditionals. -/
theorem wellFormedAll_dangling_else :
    (Source.text "if (a) if (b) c \\; else d \"; \";").parse nestingLimit =
      .ok [.ifThen ⟨"a", []⟩ (.ifElse ⟨"b", []⟩ (.command ⟨"c", ["\\"]⟩)
        (.command ⟨"d", ["; "]⟩))] ∧
    Node.wellFormedAll [.ifThen ⟨"a", []⟩ (.ifElse ⟨"b", []⟩ (.command ⟨"c", ["\\"]⟩)
      (.command ⟨"d", ["; "]⟩))] = true := by
  refine ⟨?hparse, wellFormedAll_of_parse ?hparse⟩
  decide +kernel

end StatusShell
