import StatusShell.Proofs.Lexis

namespace StatusShell.Grammar.Production

open Scan

section

variable (frames : Nat)

theorem scan_zero {kind : Kind} (production : Production kind) :
    production.scan 0 = Scan.tooDeep := by
  rw [scan, read]
  rfl

theorem scan_attempt {kind : Kind} (production : Production kind) :
    (attempt production).scan (frames + 1) = Scan.attempt (production.scan frames) :=
  rfl

theorem scan_script :
    script.scan (frames + 1) = (do
      skipBlanks
      let nodes ← statements.scan frames
      skipBlanks
      if ← atEnd then pure nodes else mismatch .endOfInput : Scan (List Node)) :=
  rfl

/-- One round of reading statements: a statement, if there is one, and the
blanks behind it. -/
def statementRound : Scan (Option Node) := do
  let found ← (attempt statement).scan frames
  if found.isSome then skipBlanks
  pure found

theorem scan_statements : statements.scan (frames + 1) = many (statementRound frames) :=
  rfl

theorem scan_statement :
    statement.scan (frames + 1) =
      (Reader.firstOf .statement
        [(attempt block).scan frames, (attempt conditional).scan frames,
          (attempt loop).scan frames, (attempt comment).scan frames,
          (attempt commandLine).scan frames] : Scan Node) :=
  rfl

theorem scan_block :
    block.scan (frames + 1) = (do
      Reader.expect openBrace
      skipBlanks
      let nodes ← statements.scan frames
      skipBlanks
      Reader.expect closeBrace
      pure (.block nodes) : Scan Node) :=
  rfl

theorem scan_conditional :
    conditional.scan (frames + 1) = (do
      Reader.expect "if"
      blanks
      let predicate ← command.scan frames
      skipBlanks
      let branch ← statement.scan frames
      match ← (attempt otherwise).scan frames with
      | some other => pure (.ifElse predicate branch other)
      | none => pure (.ifThen predicate branch) : Scan Node) :=
  rfl

theorem scan_otherwise :
    otherwise.scan (frames + 1) = (do
      skipBlanks
      Reader.expect "else"
      skipBlanks
      statement.scan frames : Scan Node) :=
  rfl

theorem scan_loop :
    loop.scan (frames + 1) = (do
      Reader.expect "while"
      blanks
      let predicate ← command.scan frames
      skipBlanks
      let body ← statement.scan frames
      pure (.loop predicate body) : Scan Node) :=
  rfl

theorem scan_comment :
    comment.scan (frames + 1) = (do
      Reader.expect "#"
      let text ← commentText
      pure (.comment text) : Scan Node) :=
  rfl

theorem scan_commandLine :
    commandLine.scan (frames + 1) = (do
      let call ← command.scan frames
      skipBlanks
      Reader.expect ";"
      pure (.command call) : Scan Node) :=
  rfl

theorem scan_command :
    command.scan (frames + 1) = (do
      if ← accept "(" then
        skipBlanks
        let inner ← command.scan frames
        skipBlanks
        Reader.expect ")"
        pure inner
      else
        let name ← path.scan frames
        let args ← many ((attempt spacedArgument).scan frames)
        pure ⟨name, args⟩ : Scan Command) :=
  rfl

theorem scan_path : path.scan (frames + 1) = Scan.path :=
  rfl

theorem scan_spacedArgument :
    spacedArgument.scan (frames + 1) = (do
      blanks
      argument.scan frames : Scan String) :=
  rfl

theorem scan_argument :
    argument.scan (frames + 1) = (do
      if ← ahead "\"" then quoted.scan frames else bare.scan frames : Scan String) :=
  rfl

theorem scan_quoted :
    quoted.scan (frames + 1) = (do
      Reader.expect "\""
      quotedTail frames [] : Scan String) :=
  rfl

theorem scan_bare : bare.scan (frames + 1) = bareTail frames [] :=
  rfl

theorem scan_escape :
    escape.scan (frames + 1) = (do
      Reader.expect "\\"
      if ← accept "\"" then pure "\"" else pure "\\" : Scan String) :=
  rfl

end

variable {frames : Nat} {text rest : List Char}

theorem scan_attempt_eq_some_iff {kind : Kind} {production : Production kind}
    {value : kind.Value} :
    (attempt production).scan frames text = .success (some value) rest ↔
      ∃ n, frames = n + 1 ∧ production.scan n text = .success value rest := by
  cases frames with
  | zero => simp [scan_zero, Scan.tooDeep]
  | succ n => simp [scan_attempt, attempt_eq_some_iff]

theorem scan_attempt_eq_none_iff {kind : Kind} {production : Production kind} :
    (attempt production).scan frames text = .success none rest ↔
      ∃ n, frames = n + 1 ∧ (production.scan n text).Mismatched ∧ text = rest := by
  cases frames with
  | zero => simp [scan_zero, Scan.tooDeep]
  | succ n => simp [scan_attempt, attempt_eq_none_iff]

theorem scan_statement_eq_success_iff {node : Node} :
    statement.scan frames text = .success node rest ↔
      ∃ n, frames = n + 2 ∧
        (block.scan n text = .success node rest ∨ (block.scan n text).Mismatched ∧
          (conditional.scan n text = .success node rest ∨ (conditional.scan n text).Mismatched ∧
            (loop.scan n text = .success node rest ∨ (loop.scan n text).Mismatched ∧
              (comment.scan n text = .success node rest ∨ (comment.scan n text).Mismatched ∧
                commandLine.scan n text = .success node rest)))) := by
  cases frames with
  | zero => simp [scan_zero, Scan.tooDeep]
  | succ frames =>
      rw [scan_statement]
      cases frames with
      | zero =>
          have hdeep : (Reader.firstOf .statement
              [(attempt block).scan 0, (attempt conditional).scan 0, (attempt loop).scan 0,
                (attempt comment).scan 0, (attempt commandLine).scan 0] : Scan Node) text =
                .tooDeep :=
            rfl
          simp [hdeep]
      | succ n =>
          simp only [scan_attempt, firstOf_attempt_eq_success_iff, firstOf_nil_apply]
          simp

theorem scan_statement_mismatched_iff :
    (statement.scan (frames + 2) text).Mismatched ↔
      (block.scan frames text).Mismatched ∧ (conditional.scan frames text).Mismatched ∧
        (loop.scan frames text).Mismatched ∧ (comment.scan frames text).Mismatched ∧
        (commandLine.scan frames text).Mismatched := by
  have hnil : ((Reader.firstOf .statement [] : Scan Node) text).Mismatched :=
    ⟨_, _, firstOf_nil_apply _⟩
  rw [scan_statement]
  simp only [scan_attempt, firstOf_attempt_mismatched_iff, hnil, and_true]

theorem statementRound_eq_some_iff {node : Node} :
    statementRound frames text = .success (some node) rest ↔
      ∃ n mid, frames = n + 1 ∧ statement.scan n text = .success node mid ∧
        mid.dropWhile isBlank = rest := by
  rw [statementRound, bind_eq_success_iff]
  constructor
  · rintro ⟨found, mid, hfound, h⟩
    cases found with
    | none => cases h
    | some found =>
        obtain ⟨n, rfl, hnode⟩ := scan_attempt_eq_some_iff.mp hfound
        cases h
        exact ⟨n, mid, rfl, hnode, rfl⟩
  · rintro ⟨n, mid, rfl, hnode, rfl⟩
    exact ⟨some node, mid, scan_attempt_eq_some_iff.mpr ⟨n, rfl, hnode⟩, rfl⟩

theorem statementRound_eq_none_iff :
    statementRound frames text = .success none rest ↔
      ∃ n, frames = n + 1 ∧ (statement.scan n text).Mismatched ∧ text = rest := by
  rw [← scan_attempt_eq_none_iff, statementRound, bind_eq_success_iff]
  constructor
  · rintro ⟨found, mid, hfound, h⟩
    cases found with
    | none =>
        cases h
        exact hfound
    | some found => cases h
  · intro h
    exact ⟨none, rest, h, rfl⟩

theorem scan_script_eq_success_iff {nodes : List Node} :
    script.scan frames text = .success nodes rest ↔
      ∃ n mid, frames = n + 1 ∧
        statements.scan n (text.dropWhile isBlank) = .success nodes mid ∧
        mid.dropWhile isBlank = [] ∧ rest = [] := by
  cases frames with
  | zero => simp [scan_zero, Scan.tooDeep]
  | succ n =>
      rw [scan_script]
      simp only [bind_eq_success_iff, skipBlanks_eq_success_iff]
      constructor
      · rintro ⟨_, _, rfl, found, mid, hfound, _, after, hafter, ended, _, hended, h⟩
        cases hended
        cases after with
        | nil =>
            cases h
            exact ⟨n, mid, rfl, hfound, hafter, rfl⟩
        | cons c after => cases h
      · rintro ⟨_, mid, heq, hnodes, hmid, rfl⟩
        cases heq
        exact ⟨(), _, rfl, nodes, mid, hnodes, (), [], hmid, true, [], rfl, rfl⟩

theorem scan_block_eq_success_iff {node : Node} :
    block.scan frames text = .success node rest ↔
      ∃ n after nodes mid, frames = n + 1 ∧ text = '{' :: after ∧
        statements.scan n (after.dropWhile isBlank) = .success nodes mid ∧
        mid.dropWhile isBlank = '}' :: rest ∧ node = .block nodes := by
  cases frames with
  | zero => simp [scan_zero, Scan.tooDeep]
  | succ n =>
      rw [scan_block]
      simp only [bind_eq_success_iff, expect_eq_success_iff, skipBlanks_eq_success_iff,
        pure_eq_success_iff]
      constructor
      · rintro ⟨_, after, rfl, _, _, rfl, nodes, mid, hnodes, _, _, rfl, _, _, hmid, rfl, rfl⟩
        exact ⟨n, after, nodes, mid, rfl, rfl, hnodes, hmid, rfl⟩
      · rintro ⟨_, after, nodes, mid, heq, rfl, hnodes, hmid, rfl⟩
        cases heq
        exact ⟨(), after, rfl, (), _, rfl, nodes, mid, hnodes, (), _, rfl, (), rest, hmid, rfl, rfl⟩

theorem scan_conditional_eq_success_iff {node : Node} :
    conditional.scan frames text = .success node rest ↔
      ∃ n c after predicate mid branch tail, frames = n + 1 ∧
        text = 'i' :: 'f' :: c :: after ∧ isBlank c = true ∧
        command.scan n (after.dropWhile isBlank) = .success predicate mid ∧
        statement.scan n (mid.dropWhile isBlank) = .success branch tail ∧
        ((∃ other, (attempt otherwise).scan n tail = .success (some other) rest ∧
            node = .ifElse predicate branch other) ∨
          (attempt otherwise).scan n tail = .success none rest ∧
            node = .ifThen predicate branch) := by
  cases frames with
  | zero => simp [scan_zero, Scan.tooDeep]
  | succ n =>
      rw [scan_conditional]
      simp only [bind_eq_success_iff, expect_eq_success_iff, skipBlanks_eq_success_iff,
        blanks_eq_success_iff]
      constructor
      · rintro ⟨_, _, rfl, _, _, ⟨c, after, rfl, hc, rfl⟩, predicate, mid, hpredicate, _, _, rfl,
          branch, tail, hbranch, found, last, hfound, hnode⟩
        refine ⟨n, c, after, predicate, mid, branch, tail, rfl, rfl, hc, hpredicate, hbranch, ?_⟩
        cases found with
        | none =>
            obtain ⟨rfl, rfl⟩ := pure_eq_success_iff.mp hnode
            exact .inr ⟨hfound, rfl⟩
        | some other =>
            obtain ⟨rfl, rfl⟩ := pure_eq_success_iff.mp hnode
            exact .inl ⟨other, hfound, rfl⟩
      · rintro ⟨_, c, after, predicate, mid, branch, tail, heq, rfl, hc, hpredicate, hbranch, hnode⟩
        cases heq
        refine ⟨(), _, rfl, (), _, ⟨c, after, rfl, hc, rfl⟩, predicate, mid, hpredicate, (), _, rfl,
          branch, tail, hbranch, ?_⟩
        rcases hnode with ⟨other, hother, rfl⟩ | ⟨hnone, rfl⟩
        · exact ⟨some other, rest, hother, rfl⟩
        · exact ⟨none, rest, hnone, rfl⟩

theorem scan_otherwise_eq_success_iff {node : Node} :
    otherwise.scan frames text = .success node rest ↔
      ∃ n after, frames = n + 1 ∧ text.dropWhile isBlank = 'e' :: 'l' :: 's' :: 'e' :: after ∧
        statement.scan n (after.dropWhile isBlank) = .success node rest := by
  cases frames with
  | zero => simp [scan_zero, Scan.tooDeep]
  | succ n =>
      rw [scan_otherwise]
      simp only [bind_eq_success_iff, expect_eq_success_iff, skipBlanks_eq_success_iff]
      constructor
      · rintro ⟨_, _, rfl, _, after, htext, _, _, rfl, hnode⟩
        exact ⟨n, after, rfl, htext, hnode⟩
      · rintro ⟨_, after, heq, htext, hnode⟩
        cases heq
        exact ⟨(), _, rfl, (), after, htext, (), _, rfl, hnode⟩

theorem scan_loop_eq_success_iff {node : Node} :
    loop.scan frames text = .success node rest ↔
      ∃ n c after predicate mid body, frames = n + 1 ∧
        text = 'w' :: 'h' :: 'i' :: 'l' :: 'e' :: c :: after ∧ isBlank c = true ∧
        command.scan n (after.dropWhile isBlank) = .success predicate mid ∧
        statement.scan n (mid.dropWhile isBlank) = .success body rest ∧
        node = .loop predicate body := by
  cases frames with
  | zero => simp [scan_zero, Scan.tooDeep]
  | succ n =>
      rw [scan_loop]
      simp only [bind_eq_success_iff, expect_eq_success_iff, skipBlanks_eq_success_iff,
        blanks_eq_success_iff, pure_eq_success_iff]
      constructor
      · rintro ⟨_, _, rfl, _, _, ⟨c, after, rfl, hc, rfl⟩, predicate, mid, hpredicate, _, _, rfl,
          body, _, hbody, rfl, rfl⟩
        exact ⟨n, c, after, predicate, mid, body, rfl, rfl, hc, hpredicate, hbody, rfl⟩
      · rintro ⟨_, c, after, predicate, mid, body, heq, rfl, hc, hpredicate, hbody, rfl⟩
        cases heq
        exact ⟨(), _, rfl, (), _, ⟨c, after, rfl, hc, rfl⟩, predicate, mid, hpredicate, (), _, rfl,
          body, rest, hbody, rfl, rfl⟩

theorem scan_comment_eq_success_iff {node : Node} :
    comment.scan frames text = .success node rest ↔
      ∃ n value ending, frames = n + 1 ∧ text = '#' :: (value.toList ++ ending ++ rest) ∧
        '\n' ∉ value.toList ∧ LineEnd value.toList ending rest ∧ node = .comment value := by
  cases frames with
  | zero => simp [scan_zero, Scan.tooDeep]
  | succ n =>
      rw [scan_comment]
      simp only [bind_eq_success_iff, expect_eq_success_iff, commentText_eq_success_iff,
        pure_eq_success_iff]
      constructor
      · rintro ⟨_, _, rfl, value, _, ⟨ending, rfl, hline, hend⟩, rfl, rfl⟩
        exact ⟨n, value, ending, rfl, rfl, hline, hend, rfl⟩
      · rintro ⟨_, value, ending, heq, rfl, hline, hend, rfl⟩
        cases heq
        exact ⟨(), _, rfl, value, rest, ⟨ending, rfl, hline, hend⟩, rfl, rfl⟩

theorem scan_commandLine_eq_success_iff {node : Node} :
    commandLine.scan frames text = .success node rest ↔
      ∃ n call mid, frames = n + 1 ∧ command.scan n text = .success call mid ∧
        mid.dropWhile isBlank = ';' :: rest ∧ node = .command call := by
  cases frames with
  | zero => simp [scan_zero, Scan.tooDeep]
  | succ n =>
      rw [scan_commandLine]
      simp only [bind_eq_success_iff, expect_eq_success_iff, skipBlanks_eq_success_iff,
        pure_eq_success_iff]
      constructor
      · rintro ⟨call, mid, hcall, _, _, rfl, _, _, hmid, rfl, rfl⟩
        exact ⟨n, call, mid, rfl, hcall, hmid, rfl⟩
      · rintro ⟨_, call, mid, heq, hcall, hmid, rfl⟩
        cases heq
        exact ⟨call, mid, hcall, (), _, rfl, (), rest, hmid, rfl, rfl⟩

theorem scan_argument_apply (frames : Nat) (text : List Char) :
    argument.scan (frames + 1) text =
      if text.head? = some '"' then quoted.scan frames text else bare.scan frames text := by
  have hahead : ahead "\"" text = .success (decide (text.head? = some '"')) text := by
    cases text with
    | nil => rfl
    | cons c text =>
        by_cases hc : c = '"'
        · subst hc
          rfl
        · simp [ahead, List.isPrefixOf?, hc, Ne.symm hc]
  rw [scan_argument, bind_apply, hahead]
  by_cases h : text.head? = some '"' <;> simp [h]

theorem scan_spacedArgument_eq_success_iff {value : String} :
    spacedArgument.scan frames text = .success value rest ↔
      ∃ n c after, frames = n + 1 ∧ text = c :: after ∧ isBlank c = true ∧
        argument.scan n (after.dropWhile isBlank) = .success value rest := by
  cases frames with
  | zero => simp [scan_zero, Scan.tooDeep]
  | succ n =>
      rw [scan_spacedArgument]
      simp only [bind_eq_success_iff, blanks_eq_success_iff]
      constructor
      · rintro ⟨_, _, ⟨c, after, rfl, hc, rfl⟩, hvalue⟩
        exact ⟨n, c, after, rfl, rfl, hc, hvalue⟩
      · rintro ⟨_, c, after, heq, rfl, hc, hvalue⟩
        cases heq
        exact ⟨(), _, ⟨c, after, rfl, hc, rfl⟩, hvalue⟩

theorem scan_path_eq_success_iff {name : String} :
    path.scan frames text = .success name rest ↔
      ∃ n, frames = n + 1 ∧ name.toList ≠ [] ∧ (∀ c ∈ name.toList, isPathChar c = true) ∧
        text = name.toList ++ rest ∧ Stops isPathChar rest := by
  cases frames with
  | zero => simp [scan_zero, Scan.tooDeep]
  | succ n =>
      rw [scan_path, path_eq_success_iff]
      simp

theorem word_of_scan {production : Production .text} {value : String}
    (h : production.scan frames text = .success value rest) :
    ∃ piece, text = piece ++ rest ∧ Word production piece value rest := by
  induction frames generalizing production text with
  | zero => cases h
  | succ frames ih =>
      cases production with
      | path =>
          obtain ⟨_, _, hne, hname, rfl, hrest⟩ := scan_path_eq_success_iff.mp h
          exact ⟨value.toList, rfl, .path hne hname hrest⟩
      | spacedArgument =>
          obtain ⟨_, c, after, heq, rfl, hc, hvalue⟩ := scan_spacedArgument_eq_success_iff.mp h
          cases heq
          obtain ⟨blanks, hblanks, hafter⟩ := exists_blanks_append after
          obtain ⟨piece, hpiece, hword⟩ := ih hvalue
          refine ⟨c :: blanks ++ piece, ?_, .spacedArgument ?_ (by simp) hword⟩
          · rw [List.append_assoc, ← hpiece, List.cons_append, ← hafter]
          · exact List.forall_mem_cons.mpr ⟨hc, hblanks⟩
      | argument =>
          rw [scan_argument_apply] at h
          split at h
          · obtain ⟨piece, hpiece, hword⟩ := ih h
            exact ⟨piece, hpiece, .quotedArgument hword⟩
          · obtain ⟨piece, hpiece, hword⟩ := ih h
            exact ⟨piece, hpiece, .bareArgument hword⟩
      | quoted =>
          rw [scan_quoted, bind_eq_success_iff] at h
          obtain ⟨_, after, hafter, htail⟩ := h
          obtain rfl := expect_eq_success_iff.mp hafter
          obtain ⟨spelling, word, rfl, hspells, rfl⟩ := spells_of_quotedTail htail
          exact ⟨'"' :: spelling ++ ['"'], by simp, .quoted (by simpa using hspells)⟩
      | bare =>
          rw [scan_bare] at h
          obtain ⟨spelling, word, rfl, hspells, hbare, rfl, hne, hrest⟩ := spells_of_bareTail h
          exact ⟨spelling, rfl, .bare (by simpa using hne) (by simpa using hbare)
            (by simpa using hspells) hrest⟩
      | escape =>
          rw [scan_escape, bind_eq_success_iff] at h
          obtain ⟨_, after, hafter, h⟩ := h
          obtain rfl := expect_eq_success_iff.mp hafter
          obtain ⟨quoted, mid, hquoted, h⟩ := bind_eq_success_iff.mp h
          cases quoted with
          | true =>
              obtain rfl := accept_eq_true_iff.mp hquoted
              obtain ⟨rfl, rfl⟩ := pure_eq_success_iff.mp h
              exact ⟨['\\', '"'], rfl, .escapedQuote⟩
          | false =>
              obtain ⟨hquote, rfl⟩ := accept_eq_false_iff.mp hquoted
              obtain ⟨rfl, rfl⟩ := pure_eq_success_iff.mp h
              refine ⟨['\\'], rfl, .backslash ?_⟩
              intro hhead
              obtain ⟨more, rfl⟩ := List.head?_eq_some_iff.mp hhead
              exact hquote ⟨more, rfl⟩

theorem scan_quoted_of_word {piece : List Char} {value : String}
    (h : Word .quoted piece value rest) (frames : Nat) :
    quoted.scan (frames + 2) (piece ++ rest) = .success value rest := by
  cases h with
  | @quoted spelling _ _ hspells =>
      rw [scan_quoted, bind_eq_success_iff]
      refine ⟨(), spelling ++ '"' :: rest, expect_eq_success_iff.mpr (by simp), ?_⟩
      rw [quotedTail_append hspells, quotedTail_quote]
      simp

theorem scan_bare_of_word {piece : List Char} {value : String}
    (h : Word .bare piece value rest) (frames : Nat) :
    bare.scan (frames + 2) (piece ++ rest) = .success value rest := by
  rw [scan_bare]
  cases h with
  | bare hne hbare hspells hrest =>
      rw [bareTail_append hspells hbare, bareTail_stop _ (by simpa using hne) hrest]
      simp

theorem scan_argument_of_word {piece : List Char} {value : String}
    (h : Word .argument piece value rest) (frames : Nat) :
    argument.scan (frames + 3) (piece ++ rest) = .success value rest := by
  rw [scan_argument_apply]
  cases h with
  | quotedArgument h =>
      have hquote : (piece ++ rest).head? = some '"' := by
        cases h
        rfl
      rw [if_pos hquote]
      exact scan_quoted_of_word h frames
  | bareArgument h =>
      rw [if_neg h.head?_bare_ne_quote]
      exact scan_bare_of_word h frames

theorem scan_spacedArgument_of_word {piece : List Char} {value : String}
    (h : Word .spacedArgument piece value rest) (frames : Nat) :
    spacedArgument.scan (frames + 4) (piece ++ rest) = .success value rest := by
  cases h with
  | @spacedArgument blanks piece _ _ hblanks hne h =>
      cases blanks with
      | nil => exact absurd rfl hne
      | cons c blanks =>
          obtain ⟨hc, hblanks⟩ := List.forall_mem_cons.mp hblanks
          refine scan_spacedArgument_eq_success_iff.mpr
            ⟨frames + 3, c, blanks ++ (piece ++ rest), rfl, by simp, hc, ?_⟩
          rw [Blanks.dropWhile_append hblanks h.argument_stops_isBlank]
          exact scan_argument_of_word h frames

theorem spacedArgument_progresses (frames : Nat) :
    Progresses ((attempt spacedArgument).scan frames) := by
  intro text value rest h
  obtain ⟨n, _, h⟩ := scan_attempt_eq_some_iff.mp h
  obtain ⟨n, c, after, _, rfl, _, hvalue⟩ := scan_spacedArgument_eq_success_iff.mp h
  obtain ⟨piece, hpiece, _⟩ := word_of_scan hvalue
  have hsuffix := (List.dropWhile_suffix isBlank (l := after)).length_le
  rw [hpiece, List.length_append] at hsuffix
  rw [List.length_cons]
  omega

theorem head?_ne_paren_of_scan_path {name : String}
    (h : path.scan frames text = .success name rest) : ¬ "(".toList <+: text := by
  obtain ⟨_, _, hne, hname, rfl, _⟩ := scan_path_eq_success_iff.mp h
  rintro ⟨after, hafter⟩
  cases hword : name.toList with
  | nil => exact hne hword
  | cons c word =>
      rw [hword, List.cons_append] at hafter
      obtain rfl : '(' = c := (List.cons.inj hafter).1
      exact absurd (hname '(' (by simp [hword])) (by decide)

theorem scan_command_eq_success_iff {call : Command} :
    command.scan frames text = .success call rest ↔
      ∃ n, frames = n + 1 ∧
        ((∃ after mid, text = '(' :: after ∧
            command.scan n (after.dropWhile isBlank) = .success call mid ∧
            mid.dropWhile isBlank = ')' :: rest) ∨
          ∃ mid, path.scan n text = .success call.name mid ∧
            Repeats ((attempt spacedArgument).scan n) mid call.args rest) := by
  cases frames with
  | zero => simp [scan_zero, Scan.tooDeep]
  | succ n =>
      rw [scan_command, bind_eq_success_iff]
      constructor
      · rintro ⟨opened, after, hopened, h⟩
        refine ⟨n, rfl, ?_⟩
        cases opened with
        | true =>
            obtain rfl := accept_eq_true_iff.mp hopened
            simp only [if_true, bind_eq_success_iff, expect_eq_success_iff,
              skipBlanks_eq_success_iff, pure_eq_success_iff] at h
            obtain ⟨_, _, rfl, inner, mid, hinner, _, _, rfl, _, _, hmid, rfl, rfl⟩ := h
            exact .inl ⟨after, mid, rfl, hinner, hmid⟩
        | false =>
            obtain ⟨_, rfl⟩ := accept_eq_false_iff.mp hopened
            simp only [Bool.false_eq_true, if_false, bind_eq_success_iff, pure_eq_success_iff,
              many_eq_success_iff (spacedArgument_progresses n)] at h
            obtain ⟨name, mid, hname, args, _, hargs, rfl, rfl⟩ := h
            exact .inr ⟨mid, hname, hargs⟩
      · rintro ⟨_, heq, ⟨after, mid, rfl, hinner, hmid⟩ | ⟨mid, hname, hargs⟩⟩
        · cases heq
          refine ⟨true, after, accept_eq_true_iff.mpr rfl, ?_⟩
          simp only [if_true, bind_eq_success_iff, expect_eq_success_iff,
            skipBlanks_eq_success_iff, pure_eq_success_iff]
          exact ⟨(), _, rfl, call, mid, hinner, (), _, rfl, (), rest, hmid, rfl, rfl⟩
        · cases heq
          refine ⟨false, text,
            accept_eq_false_iff.mpr ⟨head?_ne_paren_of_scan_path hname, rfl⟩, ?_⟩
          simp only [Bool.false_eq_true, if_false, bind_eq_success_iff, pure_eq_success_iff,
            many_eq_success_iff (spacedArgument_progresses n)]
          exact ⟨call.name, mid, hname, call.args, rest, hargs, rfl, rfl⟩

end StatusShell.Grammar.Production
