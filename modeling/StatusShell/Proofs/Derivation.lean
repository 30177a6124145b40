import StatusShell.Proofs.Reading
import StatusShell.Source

namespace StatusShell.Grammar

/-- The grammar.  `Derives production piece value rest` says that the piece of
text is derived from the production with the given value where the rest follows
it.  Every piece is put together from the pieces derived for its parts, the
blanks between them and the marks of the production. -/
inductive Derives : {kind : Kind} → Production kind → (piece : List Char) → kind.Value →
    (rest : List Char) → Prop where
  | word {production : Production .text} {piece rest : List Char} {value : String}
      (h : Word production piece value rest) : Derives production piece value rest
  | command {piece more rest : List Char} {name : String} {args : List String}
      (hname : Word .path piece name (more ++ rest)) (hargs : Arguments more args rest) :
      Derives .command (piece ++ more) ⟨name, args⟩ rest
  | parentheses {before piece after rest : List Char} {call : Command} (hbefore : Blanks before)
      (hcall : Derives .command piece call (after ++ ')' :: rest)) (hafter : Blanks after) :
      Derives .command ('(' :: before ++ piece ++ after ++ [')']) call rest
  | commandLine {piece blanks rest : List Char} {call : Command}
      (hcall : Derives .command piece call (blanks ++ ';' :: rest)) (hblanks : Blanks blanks) :
      Derives .commandLine (piece ++ blanks ++ [';']) (.command call) rest
  | comment {ending rest : List Char} {value : String} (hline : '\n' ∉ value.toList)
      (hend : LineEnd value.toList ending rest) :
      Derives .comment ('#' :: value.toList ++ ending) (.comment value) rest
  | block {blanks piece rest : List Char} {nodes : List Node} (hblanks : Blanks blanks)
      (hnodes : Derives .statements piece nodes ('}' :: rest)) :
      Derives .block ('{' :: blanks ++ piece ++ ['}']) (.block nodes) rest
  | ifThen {before piece after more rest : List Char} {predicate : Command} {branch : Node}
      (hbefore : Blanks before) (hne : before ≠ [])
      (hpredicate : Derives .command piece predicate (after ++ more ++ rest))
      (hafter : Blanks after) (hbranch : Derives .statement more branch rest) :
      Derives .conditional ("if".toList ++ before ++ piece ++ after ++ more)
        (.ifThen predicate branch) rest
  | ifElse {before piece after more last rest : List Char} {predicate : Command}
      {branch other : Node} (hbefore : Blanks before) (hne : before ≠ [])
      (hpredicate : Derives .command piece predicate (after ++ more ++ last ++ rest))
      (hafter : Blanks after) (hbranch : Derives .statement more branch (last ++ rest))
      (hother : Derives .otherwise last other rest) :
      Derives .conditional ("if".toList ++ before ++ piece ++ after ++ more ++ last)
        (.ifElse predicate branch other) rest
  | otherwise {before after piece rest : List Char} {node : Node} (hbefore : Blanks before)
      (hafter : Blanks after) (hnode : Derives .statement piece node rest) :
      Derives .otherwise (before ++ "else".toList ++ after ++ piece) node rest
  | loop {before piece after more rest : List Char} {predicate : Command} {body : Node}
      (hbefore : Blanks before) (hne : before ≠ [])
      (hpredicate : Derives .command piece predicate (after ++ more ++ rest))
      (hafter : Blanks after) (hbody : Derives .statement more body rest) :
      Derives .loop ("while".toList ++ before ++ piece ++ after ++ more)
        (.loop predicate body) rest
  | blockStatement {piece rest : List Char} {node : Node} (h : Derives .block piece node rest) :
      Derives .statement piece node rest
  | conditionalStatement {piece rest : List Char} {node : Node}
      (h : Derives .conditional piece node rest) : Derives .statement piece node rest
  | loopStatement {piece rest : List Char} {node : Node} (h : Derives .loop piece node rest) :
      Derives .statement piece node rest
  | commentStatement {piece rest : List Char} {node : Node} (h : Derives .comment piece node rest) :
      Derives .statement piece node rest
  | commandStatement {piece rest : List Char} {node : Node}
      (h : Derives .commandLine piece node rest) : Derives .statement piece node rest
  | noStatements {rest : List Char} : Derives .statements [] [] rest
  | moreStatements {piece blanks more rest : List Char} {node : Node} {nodes : List Node}
      (hnode : Derives .statement piece node (blanks ++ more ++ rest)) (hblanks : Blanks blanks)
      (hnodes : Derives .statements more nodes rest) :
      Derives .statements (piece ++ blanks ++ more) (node :: nodes) rest
  | script {blanks piece : List Char} {nodes : List Node} (hblanks : Blanks blanks)
      (hnodes : Derives .statements piece nodes []) : Derives .script (blanks ++ piece) nodes []
  | attempted {kind : Kind} {production : Production kind} {piece rest : List Char}
      {value : kind.Value} (h : Derives production piece value rest) :
      Derives (.attempt production) piece (some value) rest
  | nothing {kind : Kind} {production : Production kind} {rest : List Char} :
      Derives (.attempt production) [] none rest

theorem Derives.statement_ne_nil {piece rest : List Char} {node : Node}
    (h : Derives .statement piece node rest) : piece ≠ [] := by
  cases h with
  | blockStatement h => cases h; simp
  | conditionalStatement h => cases h <;> simp
  | loopStatement h => cases h; simp
  | commentStatement h => cases h; simp
  | commandStatement h => cases h; simp

namespace Production

open Scan

variable {frames : Nat} {text rest : List Char}

theorem arguments_of_repeats {args : List String}
    (h : Repeats ((attempt spacedArgument).scan frames) text args rest) :
    ∃ piece, text = piece ++ rest ∧ Arguments piece args rest := by
  induction h with
  | done hstep =>
      obtain ⟨_, _, _, rfl⟩ := scan_attempt_eq_none_iff.mp hstep
      exact ⟨[], rfl, .nil⟩
  | more hstep _ ih =>
      obtain ⟨more, rfl, hmore⟩ := ih
      obtain ⟨_, _, hvalue⟩ := scan_attempt_eq_some_iff.mp hstep
      obtain ⟨piece, rfl, hpiece⟩ := word_of_scan hvalue
      exact ⟨piece ++ more, by simp, .cons hpiece hmore⟩

/-- Every reading with the given number of frames is a derivation. -/
def Sound (frames : Nat) : Prop :=
  ∀ {kind : Kind} (production : Production kind) {text rest : List Char} {value : kind.Value},
    production.scan frames text = .success value rest →
      ∃ piece, text = piece ++ rest ∧ Derives production piece value rest

theorem statementRound_progresses (h : ∀ n < frames, Sound n) :
    Progresses (statementRound frames) := by
  intro text node rest hround
  obtain ⟨n, mid, rfl, hnode, rfl⟩ := statementRound_eq_some_iff.mp hround
  obtain ⟨piece, rfl, hpiece⟩ := h n (by omega) statement hnode
  have hne := List.length_pos_iff.mpr hpiece.statement_ne_nil
  have hsuffix := (List.dropWhile_suffix isBlank (l := mid)).length_le
  rw [List.length_append]
  omega

theorem derives_of_repeats (h : ∀ n < frames, Sound n) {nodes : List Node}
    (hnodes : Repeats (statementRound frames) text nodes rest) :
    ∃ piece, text = piece ++ rest ∧ Derives .statements piece nodes rest := by
  induction hnodes with
  | done hround =>
      obtain ⟨_, _, _, rfl⟩ := statementRound_eq_none_iff.mp hround
      exact ⟨[], rfl, .noStatements⟩
  | more hround _ ih =>
      obtain ⟨more, hmore, hderives⟩ := ih
      obtain ⟨n, mid, rfl, hnode, rfl⟩ := statementRound_eq_some_iff.mp hround
      obtain ⟨piece, rfl, hpiece⟩ := h n (by omega) statement hnode
      obtain ⟨blanks, hblanks, hmid⟩ := exists_blanks_append mid
      rw [hmore] at hmid
      subst hmid
      refine ⟨piece ++ blanks ++ more, by simp, .moreStatements ?_ hblanks hderives⟩
      rw [List.append_assoc]
      exact hpiece

theorem stops_isBlank_of_repeats {nodes : List Node}
    (hnodes : Repeats (statementRound frames) text nodes rest) (htext : Stops isBlank text) :
    Stops isBlank rest := by
  induction hnodes with
  | done hround =>
      obtain ⟨_, _, _, rfl⟩ := statementRound_eq_none_iff.mp hround
      exact htext
  | more hround _ ih =>
      obtain ⟨_, mid, _, _, rfl⟩ := statementRound_eq_some_iff.mp hround
      exact ih (stops_dropWhile _ _)

section

variable (h : ∀ n < frames, Sound n)
include h

theorem repeats_of_scan_statements {nodes : List Node}
    (hscan : statements.scan frames text = .success nodes rest) :
    ∃ n, frames = n + 1 ∧ Repeats (statementRound n) text nodes rest := by
  cases frames with
  | zero => cases hscan
  | succ n =>
      rw [scan_statements, many_eq_success_iff] at hscan
      · exact ⟨n, rfl, hscan⟩
      · exact statementRound_progresses fun m hm => h m (by omega)

theorem derives_of_scan_statements {nodes : List Node} {mid : List Char}
    (hscan : statements.scan frames (text.dropWhile isBlank) = .success nodes mid)
    (hmid : mid.dropWhile isBlank = rest) :
    ∃ blanks piece, text = blanks ++ piece ++ rest ∧ Blanks blanks ∧
      Derives .statements piece nodes rest := by
  -- The blanks behind the last statement were skipped with it, so none are left to skip.
  obtain ⟨blanks, hblanks, htext⟩ := exists_blanks_append text
  obtain ⟨n, rfl, hnodes⟩ := repeats_of_scan_statements h hscan
  have hstops := stops_isBlank_of_repeats hnodes (stops_dropWhile _ _)
  obtain ⟨piece, hpiece, hderives⟩ := derives_of_repeats (fun m hm => h m (by omega)) hnodes
  rw [dropWhile_of_stops hstops] at hmid
  subst hmid
  refine ⟨blanks, piece, ?_, hblanks, hderives⟩
  rw [List.append_assoc, ← hpiece]
  exact htext

theorem derives_of_scan_block {node : Node}
    (hscan : block.scan frames text = .success node rest) :
    ∃ piece, text = piece ++ rest ∧ Derives .block piece node rest := by
  obtain ⟨n, after, nodes, mid, rfl, rfl, hnodes, hmid, rfl⟩ := scan_block_eq_success_iff.mp hscan
  obtain ⟨blanks, piece, rfl, hblanks, hderives⟩ :=
    derives_of_scan_statements (fun m hm => h m (by omega)) hnodes hmid
  exact ⟨'{' :: blanks ++ piece ++ ['}'], by simp, .block hblanks hderives⟩

theorem derives_of_scan_script {nodes : List Node}
    (hscan : script.scan frames text = .success nodes rest) :
    ∃ piece, text = piece ++ rest ∧ Derives .script piece nodes rest := by
  obtain ⟨n, mid, rfl, hnodes, hmid, rfl⟩ := scan_script_eq_success_iff.mp hscan
  obtain ⟨blanks, piece, rfl, hblanks, hderives⟩ :=
    derives_of_scan_statements (fun m hm => h m (by omega)) hnodes hmid
  exact ⟨blanks ++ piece, rfl, .script hblanks hderives⟩

theorem derives_of_scan_command {call : Command}
    (hscan : command.scan frames text = .success call rest) :
    ∃ piece, text = piece ++ rest ∧ Derives .command piece call rest := by
  obtain ⟨n, rfl, ⟨after, mid, rfl, hcall, hmid⟩ | ⟨mid, hname, hargs⟩⟩ :=
    scan_command_eq_success_iff.mp hscan
  · obtain ⟨before, hbefore, hafter⟩ := exists_blanks_append after
    obtain ⟨blanks, hblanks, hmid'⟩ := exists_blanks_append mid
    obtain ⟨piece, hpiece, hderives⟩ := h n (by omega) command hcall
    rw [hmid] at hmid'
    subst hmid'
    refine ⟨'(' :: before ++ piece ++ blanks ++ [')'], ?_, .parentheses hbefore hderives hblanks⟩
    rw [hafter, hpiece]
    simp
  · obtain ⟨more, rfl, hmore⟩ := arguments_of_repeats hargs
    obtain ⟨piece, rfl, hpiece⟩ := word_of_scan hname
    exact ⟨piece ++ more, by simp, .command hpiece hmore⟩

theorem derives_of_scan_commandLine {node : Node}
    (hscan : commandLine.scan frames text = .success node rest) :
    ∃ piece, text = piece ++ rest ∧ Derives .commandLine piece node rest := by
  obtain ⟨n, call, mid, rfl, hcall, hmid, rfl⟩ := scan_commandLine_eq_success_iff.mp hscan
  obtain ⟨blanks, hblanks, hmid'⟩ := exists_blanks_append mid
  obtain ⟨piece, rfl, hderives⟩ := h n (by omega) command hcall
  rw [hmid] at hmid'
  subst hmid'
  exact ⟨piece ++ blanks ++ [';'], by simp, .commandLine hderives hblanks⟩

theorem derives_of_scan_guarded {n : Nat} (hn : n < frames) {c : Char} {after mid : List Char}
    {predicate : Command} {node : Node} (hc : isBlank c = true)
    (hpredicate : command.scan n (after.dropWhile isBlank) = .success predicate mid)
    (hnode : statement.scan n (mid.dropWhile isBlank) = .success node rest) :
    ∃ before piece blanks more, c :: after = before ++ piece ++ blanks ++ more ++ rest ∧
      Blanks before ∧ before ≠ [] ∧
      Derives .command piece predicate (blanks ++ more ++ rest) ∧ Blanks blanks ∧
      Derives .statement more node rest := by
  obtain ⟨before, hbefore, hafter⟩ := exists_blanks_append after
  obtain ⟨blanks, hblanks, hmid⟩ := exists_blanks_append mid
  obtain ⟨piece, hpiece, hcommand⟩ := h n hn command hpredicate
  obtain ⟨more, hmore, hstatement⟩ := h n hn statement hnode
  rw [hmore, ← List.append_assoc] at hmid
  subst hmid
  refine ⟨c :: before, piece, blanks, more, ?_, ?_, by simp, hcommand, hblanks, hstatement⟩
  · rw [hafter, hpiece]
    simp
  · exact List.forall_mem_cons.mpr ⟨hc, hbefore⟩

theorem derives_of_scan_otherwise {node : Node}
    (hscan : otherwise.scan frames text = .success node rest) :
    ∃ piece, text = piece ++ rest ∧ Derives .otherwise piece node rest := by
  obtain ⟨n, after, rfl, htext, hnode⟩ := scan_otherwise_eq_success_iff.mp hscan
  obtain ⟨before, hbefore, htext'⟩ := exists_blanks_append text
  obtain ⟨blanks, hblanks, hafter⟩ := exists_blanks_append after
  obtain ⟨piece, hpiece, hstatement⟩ := h n (by omega) statement hnode
  refine ⟨before ++ "else".toList ++ blanks ++ piece, ?_,
    .otherwise hbefore hblanks hstatement⟩
  rw [htext', htext, hafter, hpiece]
  simp

theorem derives_of_scan_conditional {node : Node}
    (hscan : conditional.scan frames text = .success node rest) :
    ∃ piece, text = piece ++ rest ∧ Derives .conditional piece node rest := by
  obtain ⟨n, c, after, predicate, mid, branch, tail, rfl, rfl, hc, hpredicate, hbranch, hnode⟩ :=
    scan_conditional_eq_success_iff.mp hscan
  obtain ⟨before, piece, blanks, more, htext, hbefore, hne, hcommand, hblanks, hstatement⟩ :=
    derives_of_scan_guarded h (by omega) hc hpredicate hbranch
  rw [htext]
  rcases hnode with ⟨other, hother, rfl⟩ | ⟨hnone, rfl⟩
  · obtain ⟨m, rfl, hscanned⟩ := scan_attempt_eq_some_iff.mp hother
    obtain ⟨last, rfl, hlast⟩ := h m (by omega) otherwise hscanned
    rw [← List.append_assoc] at hcommand
    exact ⟨"if".toList ++ before ++ piece ++ blanks ++ more ++ last, by simp,
      .ifElse hbefore hne hcommand hblanks hstatement hlast⟩
  · obtain ⟨_, _, _, rfl⟩ := scan_attempt_eq_none_iff.mp hnone
    exact ⟨"if".toList ++ before ++ piece ++ blanks ++ more, by simp,
      .ifThen hbefore hne hcommand hblanks hstatement⟩

theorem derives_of_scan_loop {node : Node}
    (hscan : loop.scan frames text = .success node rest) :
    ∃ piece, text = piece ++ rest ∧ Derives .loop piece node rest := by
  obtain ⟨n, c, after, predicate, mid, body, rfl, rfl, hc, hpredicate, hbody, rfl⟩ :=
    scan_loop_eq_success_iff.mp hscan
  obtain ⟨before, piece, blanks, more, htext, hbefore, hne, hcommand, hblanks, hstatement⟩ :=
    derives_of_scan_guarded h (by omega) hc hpredicate hbody
  rw [htext]
  exact ⟨"while".toList ++ before ++ piece ++ blanks ++ more, by simp,
    .loop hbefore hne hcommand hblanks hstatement⟩

theorem derives_of_scan_statement {node : Node}
    (hscan : statement.scan frames text = .success node rest) :
    ∃ piece, text = piece ++ rest ∧ Derives .statement piece node rest := by
  obtain ⟨n, rfl, hblock | ⟨_, hconditional | ⟨_, hloop | ⟨_, hcomment | ⟨_, hline⟩⟩⟩⟩⟩ :=
    scan_statement_eq_success_iff.mp hscan
  · obtain ⟨piece, htext, hpiece⟩ := h n (by omega) block hblock
    exact ⟨piece, htext, .blockStatement hpiece⟩
  · obtain ⟨piece, htext, hpiece⟩ := h n (by omega) conditional hconditional
    exact ⟨piece, htext, .conditionalStatement hpiece⟩
  · obtain ⟨piece, htext, hpiece⟩ := h n (by omega) loop hloop
    exact ⟨piece, htext, .loopStatement hpiece⟩
  · obtain ⟨piece, htext, hpiece⟩ := h n (by omega) comment hcomment
    exact ⟨piece, htext, .commentStatement hpiece⟩
  · obtain ⟨piece, htext, hpiece⟩ := h n (by omega) commandLine hline
    exact ⟨piece, htext, .commandStatement hpiece⟩

end

/-- Whatever a production reads is derived from it, with any number of
frames. -/
theorem sound (frames : Nat) : Sound frames := by
  induction frames using Nat.strongRecOn with
  | ind frames ih =>
      intro kind production text rest value hscan
      cases production with
      | script => exact derives_of_scan_script ih hscan
      | statements =>
          obtain ⟨n, rfl, hnodes⟩ := repeats_of_scan_statements ih hscan
          exact derives_of_repeats (fun m hm => ih m (by omega)) hnodes
      | statement => exact derives_of_scan_statement ih hscan
      | block => exact derives_of_scan_block ih hscan
      | conditional => exact derives_of_scan_conditional ih hscan
      | otherwise => exact derives_of_scan_otherwise ih hscan
      | loop => exact derives_of_scan_loop ih hscan
      | comment =>
          obtain ⟨_, value, ending, _, rfl, hline, hend, rfl⟩ :=
            scan_comment_eq_success_iff.mp hscan
          exact ⟨'#' :: value.toList ++ ending, by simp, .comment hline hend⟩
      | commandLine => exact derives_of_scan_commandLine ih hscan
      | command => exact derives_of_scan_command ih hscan
      | path | spacedArgument | argument | quoted | bare | escape =>
          obtain ⟨piece, htext, hword⟩ := word_of_scan hscan
          exact ⟨piece, htext, .word hword⟩
      | attempt production =>
          cases value with
          | none =>
              obtain ⟨_, _, _, rfl⟩ := scan_attempt_eq_none_iff.mp hscan
              exact ⟨[], rfl, .nothing⟩
          | some value =>
              obtain ⟨n, rfl, hvalue⟩ := scan_attempt_eq_some_iff.mp hscan
              obtain ⟨piece, htext, hpiece⟩ := ih n (by omega) production hvalue
              exact ⟨piece, htext, .attempted hpiece⟩

theorem scan_statements_eq_success_iff {nodes : List Node} :
    statements.scan frames text = .success nodes rest ↔
      ∃ n, frames = n + 1 ∧ Repeats (statementRound n) text nodes rest := by
  constructor
  · exact repeats_of_scan_statements fun n _ => sound n
  · rintro ⟨n, rfl, hnodes⟩
    rw [scan_statements, many_eq_success_iff]
    · exact hnodes
    · exact statementRound_progresses fun m _ => sound m

end Production

end StatusShell.Grammar

namespace StatusShell

open Grammar

theorem readText_eq_ok_iff {frames : Nat} {text : List Char} {nodes : List Node} :
    readText frames text = .ok nodes ↔
      ∃ rest, Production.script.scan frames text = .success nodes rest := by
  rw [readText]
  cases Production.script.scan frames text <;> simp

theorem derives_of_readText {frames : Nat} {text : List Char} {nodes : List Node}
    (h : readText frames text = .ok nodes) : Derives .script text nodes [] := by
  obtain ⟨rest, hscan⟩ := readText_eq_ok_iff.mp h
  obtain ⟨piece, rfl, hpiece⟩ := Production.sound frames .script hscan
  cases hpiece with
  | script hblanks hnodes =>
      rw [List.append_nil]
      exact .script hblanks hnodes

/-- A script that is accepted is derived from the grammar: all of its text, and
as exactly the statements that it is read as. -/
theorem derives_of_parse_text {frames : Nat} {content : String} {nodes : List Node}
    (h : (Source.text content).parse frames = .ok nodes) :
    Derives .script content.toList nodes [] := by
  rw [Source.parse, Source.chars] at h
  split at h
  · exact derives_of_readText h
  · cases h

/-- A comment as a first branch, which ends at the carriage return, and a bare
argument that ends in a backslash. -/
theorem derives_commented_conditional :
    (Source.text "if (test -f x ) # no\r\n else \x7b /bin/run \"a \\\"b\" c\\; \x7d").parse nestingLimit =
      .ok [.ifElse ⟨"test", ["-f", "x"]⟩ (.comment " no")
        (.block [.command ⟨"/bin/run", ["a \"b", "c\\"]⟩])] ∧
    Derives .script
      "if (test -f x ) # no\r\n else \x7b /bin/run \"a \\\"b\" c\\; \x7d".toList
      [.ifElse ⟨"test", ["-f", "x"]⟩ (.comment " no")
        (.block [.command ⟨"/bin/run", ["a \"b", "c\\"]⟩])] [] := by
  refine ⟨?hparse, derives_of_parse_text ?hparse⟩
  decide +kernel

end StatusShell
