import StatusShell.Proofs.Layout

/-!
Whatever layout a list of well-formed statements has, reading it gives the list
back.  At every place this takes two things: the alternative that the layout
was written for succeeds there, and those that are tried before it fail.
-/

namespace StatusShell

open Grammar

namespace Grammar.Production

open Scan

variable {most frames : Nat} {text piece rest : List Char}

theorem scan_spacedArgument_mismatched (h : EndsCommand rest) (frames : Nat) :
    (spacedArgument.scan (frames + 3) rest).Mismatched := by
  obtain ⟨blanks, mark, after, rfl, hblanks, hmark⟩ := h
  have hstops : Stops isBlank (mark :: after) := by
    rw [stops_cons_iff]
    rcases hmark with rfl | rfl | rfl <;> decide
  rw [scan_spacedArgument, bind_mismatched_iff]
  cases blanks with
  | nil =>
      left
      rw [blanks_mismatched_iff]
      intro c more heq
      obtain ⟨rfl, _⟩ := List.cons.inj heq
      exact stops_cons_iff.mp hstops
  | cons c blanks =>
      obtain ⟨hc, hblanks⟩ := List.forall_mem_cons.mp hblanks
      refine .inr ⟨(), mark :: after, ?_, ?_⟩
      · rw [blanks_eq_success_iff]
        exact ⟨c, blanks ++ mark :: after, rfl, hc, Blanks.dropWhile_append hblanks hstops⟩
      · rw [scan_argument_apply, if_neg, scan_bare]
        · apply bareTail_mismatched
          rw [stops_cons_iff]
          rcases hmark with rfl | rfl | rfl <;> decide
        · rcases hmark with rfl | rfl | rfl <;> simp

theorem repeats_of_arguments {piece : List Char} {args : List String}
    (h : Arguments piece args rest) (hrest : (spacedArgument.scan (frames + 4) rest).Mismatched) :
    Repeats ((attempt spacedArgument).scan (frames + 5)) (piece ++ rest) args rest := by
  induction h with
  | nil => exact .done (scan_attempt_eq_none_iff.mpr ⟨_, rfl, hrest, rfl⟩)
  | @cons piece more rest arg args harg hargs ih =>
      refine .more (scan_attempt_eq_some_iff.mpr ⟨_, rfl, ?_⟩) (ih hrest)
      rw [List.append_assoc]
      exact scan_spacedArgument_of_word harg frames

theorem scan_command_of_layout {most : Nat} {call : Command} {piece : List Char}
    (h : CommandLayout most call piece) (hcall : call.wellFormed = true)
    (hrest : piece.head? = some '(' ∨ EndsCommand rest) (hframes : most + 6 ≤ frames) :
    command.scan frames (piece ++ rest) = .success call rest := by
  induction h generalizing frames rest with
  | @plain most name args piece hargs =>
      obtain ⟨n, rfl⟩ : ∃ n, frames = n + 6 := ⟨frames - 6, by omega⟩
      obtain ⟨hne, hname, _⟩ := wellFormed_iff.mp hcall
      have hends : EndsCommand rest :=
        hrest.resolve_left (head?_ne_paren_of_wellFormed hcall piece)
      have hbarrier := hargs.atBarrier_append hends.atBarrier
      refine scan_command_eq_success_iff.mpr ⟨n + 5, rfl, .inr ⟨piece ++ rest, ?_, ?_⟩⟩
      · rw [List.append_assoc]
        exact scan_path_eq_success_iff.mpr
          ⟨n + 4, rfl, hne, hname, rfl, hbarrier.stops_isPathChar⟩
      · exact repeats_of_arguments (hargs.arguments hends.atBarrier)
          (scan_spacedArgument_mismatched hends (n + 1))
  | @parentheses most call before piece after hbefore hinner hafter ih =>
      obtain ⟨n, rfl⟩ : ∃ n, frames = n + 1 := ⟨frames - 1, by omega⟩
      have hclose : EndsCommand (after ++ ')' :: rest) :=
        ⟨after, ')', rest, rfl, hafter, .inr (.inl rfl)⟩
      refine scan_command_eq_success_iff.mpr ⟨n, rfl, .inl
        ⟨before ++ (piece ++ (after ++ ')' :: rest)), after ++ ')' :: rest, by simp, ?_, ?_⟩⟩
      · rw [hbefore.dropWhile_append (hinner.stops_isBlank hcall _)]
        exact ih hcall (.inr hclose) (by omega)
      · exact hafter.dropWhile_append (stops_cons_iff.mpr (by decide))

theorem scan_block_mismatched (h : text.head? ≠ some '{') (frames : Nat) :
    (block.scan (frames + 1) text).Mismatched := by
  rw [scan_block]
  refine bind_mismatched_iff.mpr (.inl (expect_mismatched_iff.mpr ?_))
  rintro ⟨after, rfl⟩
  exact h rfl

theorem scan_comment_mismatched (h : text.head? ≠ some '#') (frames : Nat) :
    (comment.scan (frames + 1) text).Mismatched := by
  rw [scan_comment]
  refine bind_mismatched_iff.mpr (.inl (expect_mismatched_iff.mpr ?_))
  rintro ⟨after, rfl⟩
  exact h rfl

theorem keyword_mismatched {α : Type} {keyword : String} (next : Scan α)
    (hkeyword : keyword.toList.all isPathChar = true)
    (h : text.takeWhile isPathChar ≠ keyword.toList) :
    ((do Reader.expect keyword; blanks; next : Scan α) text).Mismatched := by
  -- Either the keyword does not stand here, or a longer word that starts with it does.
  by_cases hprefix : keyword.toList <+: text
  · obtain ⟨after, rfl⟩ := hprefix
    refine bind_mismatched_iff.mpr (.inr ⟨(), after, expect_eq_success_iff.mpr rfl, ?_⟩)
    refine bind_mismatched_iff.mpr (.inl (blanks_mismatched_iff.mpr ?_))
    rintro c after rfl
    rw [Bool.eq_false_iff]
    intro hblank
    have hbarrier : AtBarrier (c :: after) := ⟨c, after, rfl, by simp [isBarrier, hblank]⟩
    apply h
    rw [List.takeWhile_append_of_pos (List.all_eq_true.mp hkeyword),
      takeWhile_of_stops hbarrier.stops_isPathChar, List.append_nil]
  · exact bind_mismatched_iff.mpr (.inl (expect_mismatched_iff.mpr hprefix))

theorem scan_conditional_mismatched (h : text.takeWhile isPathChar ≠ "if".toList)
    (frames : Nat) : (conditional.scan (frames + 1) text).Mismatched := by
  rw [scan_conditional]
  exact keyword_mismatched _ (by decide) h

theorem scan_loop_mismatched (h : text.takeWhile isPathChar ≠ "while".toList)
    (frames : Nat) : (loop.scan (frames + 1) text).Mismatched := by
  rw [scan_loop]
  exact keyword_mismatched _ (by decide) h

theorem scan_otherwise_mismatched (h : ¬ "else".toList <+: text.dropWhile isBlank)
    (frames : Nat) : (otherwise.scan (frames + 1) text).Mismatched := by
  rw [scan_otherwise]
  refine bind_mismatched_iff.mpr (.inr ⟨(), _, skipBlanks_eq_success_iff.mpr rfl, ?_⟩)
  exact bind_mismatched_iff.mpr (.inl (expect_mismatched_iff.mpr h))

theorem scan_command_mismatched (hparen : text.head? ≠ some '(') (h : Stops isPathChar text)
    (frames : Nat) : (command.scan (frames + 2) text).Mismatched := by
  rw [scan_command]
  refine bind_mismatched_iff.mpr (.inr ⟨false, text, accept_eq_false_iff.mpr ⟨?_, rfl⟩, ?_⟩)
  · rintro ⟨after, rfl⟩
    exact hparen rfl
  · refine bind_mismatched_iff.mpr (.inl ?_)
    rw [scan_path]
    exact path_mismatched_of_stops h

theorem scan_statement_mismatched_of_endsStatements (h : EndsStatements rest) (frames : Nat) :
    (statement.scan (frames + 5) rest).Mismatched := by
  have hhead : ∀ mark ∈ rest.head?, mark = '}' := by
    rcases h with rfl | ⟨after, rfl⟩ <;> simp
  have hstops : Stops isPathChar rest := by
    intro c hc
    rw [hhead c hc]
    decide
  have hmark : ∀ {mark : Char}, mark ≠ '}' → rest.head? ≠ some mark :=
    fun hne heq => hne (hhead _ heq)
  have hword := takeWhile_of_stops hstops
  refine scan_statement_mismatched_iff.mpr ⟨scan_block_mismatched (hmark (by decide)) _,
    scan_conditional_mismatched (by rw [hword]; decide) _,
    scan_loop_mismatched (by rw [hword]; decide) _,
    scan_comment_mismatched (hmark (by decide)) _, ?_⟩
  rw [scan_commandLine]
  exact bind_mismatched_iff.mpr (.inl (scan_command_mismatched (hmark (by decide)) hstops _))

/-- All statements that are low enough for the frames are read from all of
their layouts, unless a second branch that follows an open statement would
become part of it. -/
def Complete (most frames : Nat) : Prop :=
  ∀ {node : Node} {piece rest : List Char}, StatementLayout most node piece rest →
    node.wellFormed = true → (node.isOpen = true → ¬ "else".toList <+: rest.dropWhile isBlank) →
    5 * node.height + most + 5 ≤ frames → statement.scan frames (piece ++ rest) = .success node rest

theorem scan_comment_of_layout {text : String} {ending : List Char}
    (hend : LineEnd text.toList ending rest) (htext : '\n' ∉ text.toList) (frames : Nat) :
    statement.scan (frames + 3) ('#' :: text.toList ++ ending ++ rest) =
      .success (.comment text) rest := by
  refine scan_statement_eq_success_iff.mpr
    ⟨frames + 1, rfl, .inr ⟨?_, .inr ⟨?_, .inr ⟨?_, .inl ?_⟩⟩⟩⟩
  · exact scan_block_mismatched (by simp) frames
  · exact scan_conditional_mismatched (by simp [isPathChar]) frames
  · exact scan_loop_mismatched (by simp [isPathChar]) frames
  · exact scan_comment_eq_success_iff.mpr ⟨frames, text, ending, rfl, rfl, htext, hend, rfl⟩

theorem scan_commandLine_of_layout {call : Command} {blanks : List Char}
    (h : CommandLayout most call piece) (hcall : call.wellFormed = true)
    (hkeyword : call.isKeyword = true → piece.head? = some '(') (hblanks : Blanks blanks)
    (hframes : most + 6 ≤ frames) :
    statement.scan (frames + 3) (piece ++ blanks ++ [';'] ++ rest) =
      .success (.command call) rest := by
  have hbarrier : AtBarrier (blanks ++ ';' :: rest) :=
    hblanks.atBarrier_append ⟨';', rest, rfl, by decide⟩
  have htext : piece ++ blanks ++ [';'] ++ rest = piece ++ (blanks ++ ';' :: rest) := by simp
  obtain ⟨hif, hwhile, _⟩ := h.takeWhile_isPathChar_ne hcall hkeyword hbarrier
  rw [htext]
  refine scan_statement_eq_success_iff.mpr
    ⟨frames + 1, rfl, .inr ⟨?_, .inr ⟨?_, .inr ⟨?_, .inr ⟨?_, ?_⟩⟩⟩⟩⟩
  · exact scan_block_mismatched (h.head?_append_ne hcall _ (by decide) (by decide)) frames
  · exact scan_conditional_mismatched hif frames
  · exact scan_loop_mismatched hwhile frames
  · exact scan_comment_mismatched (h.head?_append_ne hcall _ (by decide) (by decide)) frames
  · have hends : EndsCommand (blanks ++ ';' :: rest) :=
      ⟨blanks, ';', rest, rfl, hblanks, .inl rfl⟩
    exact scan_commandLine_eq_success_iff.mpr ⟨frames, call, blanks ++ ';' :: rest, rfl,
      scan_command_of_layout h hcall (.inr hends) hframes,
      hblanks.dropWhile_append (stops_cons_iff.mpr (by decide)), rfl⟩

theorem repeats_of_layout {nodes : List Node} (hcomplete : Complete most frames)
    (h : StatementsLayout most nodes piece rest) (hnodes : Node.wellFormedAll nodes = true)
    (hrest : EndsStatements rest) (hframes : 5 * Node.heightAll nodes + most + 5 ≤ frames) :
    Repeats (statementRound (frames + 1)) (piece ++ rest) nodes rest := by
  induction nodes generalizing piece with
  | nil =>
      cases h
      obtain ⟨n, rfl⟩ : ∃ n, frames = n + 5 := ⟨frames - 5, by omega⟩
      exact .done (statementRound_eq_none_iff.mpr
        ⟨n + 5, rfl, scan_statement_mismatched_of_endsStatements hrest n, rfl⟩)
  | cons node nodes ih =>
      cases h with
      | @cons _ _ piece blanks more _ hnode hblanks hmore =>
          rw [Node.wellFormedAll, Bool.and_eq_true] at hnodes
          rw [Node.heightAll] at hframes
          obtain ⟨hstops, helse⟩ := hmore.not_else_prefix hnodes.2 hrest
          have hnext : (blanks ++ more ++ rest).dropWhile isBlank = more ++ rest := by
            rw [List.append_assoc]
            exact hblanks.dropWhile_append hstops
          have htext : piece ++ blanks ++ more ++ rest = piece ++ (blanks ++ more ++ rest) := by
            simp
          rw [htext]
          refine .more (statementRound_eq_some_iff.mpr ⟨frames, _, rfl, ?_, hnext⟩)
            (ih hmore hnodes.2 (by omega))
          exact hcomplete hnode hnodes.1 (fun _ => by rwa [hnext]) (by omega)

theorem scan_block_of_layout {nodes : List Node} {blanks : List Char}
    (hcomplete : Complete most frames) (hblanks : Blanks blanks)
    (h : StatementsLayout most nodes piece ('}' :: rest))
    (hnodes : Node.wellFormedAll nodes = true)
    (hframes : 5 * Node.heightAll nodes + most + 5 ≤ frames) :
    statement.scan (frames + 5) ('{' :: blanks ++ piece ++ ['}'] ++ rest) =
      .success (.block nodes) rest := by
  have hrest : EndsStatements ('}' :: rest) := .inr ⟨rest, rfl⟩
  have hskip := hblanks.dropWhile_append (h.not_else_prefix hnodes hrest).1
  refine scan_statement_eq_success_iff.mpr ⟨frames + 3, rfl, .inl ?_⟩
  refine scan_block_eq_success_iff.mpr
    ⟨frames + 2, blanks ++ (piece ++ '}' :: rest), nodes, '}' :: rest, rfl, by simp, ?_, rfl, rfl⟩
  rw [hskip]
  exact scan_statements_eq_success_iff.mpr
    ⟨frames + 1, rfl, repeats_of_layout hcomplete h hnodes hrest hframes⟩

theorem scan_of_guardLayout {predicate : Command} {node : Node} {guard : List Char}
    (hcomplete : Complete most frames) (h : GuardLayout most predicate node guard)
    (hcall : predicate.wellFormed = true) (hnode : StatementLayout most node piece rest)
    (hwell : node.wellFormed = true)
    (hopen : node.isOpen = true → ¬ "else".toList <+: rest.dropWhile isBlank)
    (hframes : 5 * node.height + most + 5 ≤ frames) :
    ∃ c after mid, guard ++ (piece ++ rest) = c :: after ∧ isBlank c = true ∧
      command.scan frames (after.dropWhile isBlank) = .success predicate mid ∧
      statement.scan frames (mid.dropWhile isBlank) = .success node rest := by
  cases h with
  | @guard before word after hbefore hne hpredicate hblock hafter =>
      cases before with
      | nil => exact absurd rfl hne
      | cons c before =>
          obtain ⟨hc, hblanks⟩ := List.forall_mem_cons.mp hbefore
          have hends : word.head? = some '(' ∨ EndsCommand (after ++ (piece ++ rest)) := by
            cases hkind : node.isBlock with
            | false => exact .inl (hblock hkind)
            | true => exact .inr (hnode.endsCommand hkind hafter)
          have hheight := node.one_le_height
          refine ⟨c, before ++ (word ++ (after ++ (piece ++ rest))), after ++ (piece ++ rest),
            by simp, hc, ?_, ?_⟩
          · rw [Blanks.dropWhile_append hblanks (hpredicate.stops_isBlank hcall _)]
            exact scan_command_of_layout hpredicate hcall hends (by omega)
          · rw [hafter.dropWhile_append (hnode.stops_isBlank hwell)]
            exact hcomplete hnode hwell hopen hframes

theorem scan_otherwise_of_layout {node : Node} {left right : List Char} (hleft : Blanks left)
    (hright : Blanks right) (hstops : Stops isBlank (piece ++ rest))
    (h : statement.scan frames (piece ++ rest) = .success node rest) :
    (attempt otherwise).scan (frames + 2) (left ++ "else".toList ++ right ++ piece ++ rest) =
      .success (some node) rest := by
  have htext : left ++ "else".toList ++ right ++ piece ++ rest =
      left ++ ("else".toList ++ (right ++ (piece ++ rest))) := by
    simp only [List.append_assoc]
  rw [htext]
  refine scan_attempt_eq_some_iff.mpr ⟨frames + 1, rfl, scan_otherwise_eq_success_iff.mpr
    ⟨frames, right ++ (piece ++ rest), rfl, ?_, ?_⟩⟩
  · exact hleft.dropWhile_append (stops_cons_iff.mpr (by decide))
  · rw [hright.dropWhile_append hstops]
    exact h

theorem scan_conditional_of_layout {predicate : Command} {branch node : Node}
    {guard tail : List Char} (hcomplete : Complete most frames)
    (h : GuardLayout most predicate branch guard) (hcall : predicate.wellFormed = true)
    (hbranch : StatementLayout most branch piece tail) (hwell : branch.wellFormed = true)
    (hopen : branch.isOpen = true → ¬ "else".toList <+: tail.dropWhile isBlank)
    (hframes : 5 * branch.height + most + 5 ≤ frames)
    (hnode : (∃ other, (attempt otherwise).scan frames tail = .success (some other) rest ∧
        node = .ifElse predicate branch other) ∨
      (attempt otherwise).scan frames tail = .success none rest ∧
        node = .ifThen predicate branch) :
    statement.scan (frames + 3) ("if".toList ++ guard ++ piece ++ tail) = .success node rest := by
  -- All frames but three are left for the first branch, and two less for what follows it.
  obtain ⟨c, after, mid, htext, hc, hpredicate, hstatement⟩ :=
    scan_of_guardLayout hcomplete h hcall hbranch hwell hopen hframes
  refine scan_statement_eq_success_iff.mpr ⟨frames + 1, rfl, .inr ⟨?_, .inl ?_⟩⟩
  · exact scan_block_mismatched (by simp) frames
  · refine scan_conditional_eq_success_iff.mpr
      ⟨frames, c, after, predicate, mid, branch, tail, rfl, ?_, hc, hpredicate, hstatement, hnode⟩
    rw [← htext]
    simp

theorem scan_loop_of_layout {predicate : Command} {body : Node} {guard : List Char}
    (hcomplete : Complete most frames) (h : GuardLayout most predicate body guard)
    (hcall : predicate.wellFormed = true) (hbody : StatementLayout most body piece rest)
    (hwell : body.wellFormed = true)
    (hopen : body.isOpen = true → ¬ "else".toList <+: rest.dropWhile isBlank)
    (hframes : 5 * body.height + most + 5 ≤ frames) :
    statement.scan (frames + 3) ("while".toList ++ guard ++ piece ++ rest) =
      .success (.loop predicate body) rest := by
  obtain ⟨c, after, mid, htext, hc, hpredicate, hstatement⟩ :=
    scan_of_guardLayout hcomplete h hcall hbody hwell hopen hframes
  refine scan_statement_eq_success_iff.mpr ⟨frames + 1, rfl, .inr ⟨?_, .inr ⟨?_, .inl ?_⟩⟩⟩
  · exact scan_block_mismatched (by simp) frames
  · exact scan_conditional_mismatched (by simp [isPathChar]) frames
  · refine scan_loop_eq_success_iff.mpr
      ⟨frames, c, after, predicate, mid, body, rfl, ?_, hc, hpredicate, hstatement, rfl⟩
    rw [← htext]
    simp

theorem complete (most frames : Nat) : Complete most frames := by
  -- A statement inside another one is read with three or five frames less.
  induction frames using Nat.strongRecOn with
  | ind frames ih =>
      intro node piece rest h hwell hopen hframes
      have hheight := node.one_le_height
      obtain ⟨n, rfl⟩ : ∃ n, frames = n + 5 := ⟨frames - 5, by omega⟩
      cases h with
      | comment hend => exact scan_comment_of_layout hend (by simpa [Node.wellFormed] using hwell) _
      | command hcall hkeyword hblanks =>
          rw [Node.wellFormed] at hwell
          exact scan_commandLine_of_layout hcall hwell hkeyword hblanks (by omega)
      | block hblanks hstatements =>
          rw [Node.wellFormed] at hwell
          rw [Node.height] at hframes
          exact scan_block_of_layout (ih n (by omega)) hblanks hstatements hwell (by omega)
      | ifThen hguard hbranch =>
          rw [Node.wellFormed, Bool.and_eq_true] at hwell
          rw [Node.height] at hframes
          have helse := hopen rfl
          refine scan_conditional_of_layout (ih (n + 2) (by omega)) hguard hwell.1 hbranch hwell.2
            (fun _ => helse) (by omega) (.inr ⟨?_, rfl⟩)
          exact scan_attempt_eq_none_iff.mpr ⟨n + 1, rfl, scan_otherwise_mismatched helse n, rfl⟩
      | @ifElse predicate branch otherwise guard piece left right last _
          hguard hbranch hleft hright hotherwise =>
          simp only [Node.wellFormed, Bool.and_eq_true, Bool.not_eq_true'] at hwell
          obtain ⟨⟨⟨hcall, hwellBranch⟩, hclosed⟩, hwellOtherwise⟩ := hwell
          rw [Node.height] at hframes
          rw [Node.isOpen] at hopen
          have htext : "if".toList ++ guard ++ piece ++ left ++ "else".toList ++ right ++ last ++
              rest = "if".toList ++ guard ++ piece ++
                (left ++ "else".toList ++ right ++ last ++ rest) := by
            simp only [List.append_assoc]
          -- The first branch is closed, so it leaves the second one alone.
          have hlast := ih n (by omega) hotherwise hwellOtherwise hopen (by omega)
          rw [htext]
          refine scan_conditional_of_layout (ih (n + 2) (by omega)) hguard hcall hbranch
            hwellBranch (fun h => by rw [hclosed] at h; cases h) (by omega) (.inl ⟨_, ?_, rfl⟩)
          exact scan_otherwise_of_layout hleft hright (hotherwise.stops_isBlank hwellOtherwise)
            hlast
      | loop hguard hbody =>
          rw [Node.wellFormed, Bool.and_eq_true] at hwell
          rw [Node.height] at hframes
          rw [Node.isOpen] at hopen
          exact scan_loop_of_layout (ih (n + 2) (by omega)) hguard hwell.1 hbody hwell.2 hopen
            (by omega)

end Grammar.Production

open Production in
theorem readText_of_layout {most frames : Nat} {nodes : List Node} {text : List Char}
    (h : ScriptLayout most nodes text) (hnodes : Node.wellFormedAll nodes = true)
    (hframes : 5 * Node.heightAll nodes + most + 8 ≤ frames) :
    readText frames text = .ok nodes := by
  cases h with
  | @script blanks piece hblanks h =>
      obtain ⟨n, rfl⟩ : ∃ n, frames = n + 3 := ⟨frames - 3, by omega⟩
      have hskip := hblanks.dropWhile_append (h.not_else_prefix hnodes (.inl rfl)).1
      rw [List.append_nil] at hskip
      have hrounds := repeats_of_layout (complete most n) h hnodes (.inl rfl) (by omega)
      rw [List.append_nil] at hrounds
      refine readText_eq_ok_iff.mpr ⟨[], scan_script_eq_success_iff.mpr
        ⟨n + 2, [], rfl, ?_, rfl, rfl⟩⟩
      rw [hskip]
      exact scan_statements_eq_success_iff.mpr ⟨n + 1, rfl, hrounds⟩

/-- Whatever layout well-formed statements have, and however many frames there
are, nothing else is read. -/
theorem readText_of_layout_or_tooDeep {most : Nat} {nodes : List Node} {text : List Char}
    (h : ScriptLayout most nodes text) (hnodes : Node.wellFormedAll nodes = true)
    (frames : Nat) : readText frames text = .ok nodes ∨ readText frames text = .error .tooDeep := by
  have hfull := readText_of_layout h hnodes (Nat.le_add_left _ frames)
  obtain ⟨rest, hscan⟩ := readText_eq_ok_iff.mp hfull
  rcases Production.scan_approximates_of_le (Nat.le_add_right frames _) .script text with
    hdeep | heq
  · right
    rw [readText, hdeep]
  · left
    exact readText_eq_ok_iff.mpr ⟨rest, heq.trans hscan⟩

/-- Reading undoes every layout: a script of well-formed statements is read as
these statements or is nested too deep, and it is not too deep as long as five
frames for each statement around another one and one frame for each pair of
parentheses are within the limit. -/
theorem parse_of_layout {source : Source} {most : Nat} {nodes : List Node} {text : List Char}
    (hchars : source.chars = .ok text) (hlayout : ScriptLayout most nodes text)
    (hnodes : Node.wellFormedAll nodes = true) (frames : Nat) :
    (source.parse frames = .ok nodes ∨ source.parse frames = .error .tooDeep) ∧
      (5 * Node.heightAll nodes + most + 8 ≤ frames → source.parse frames = .ok nodes) := by
  have hparse : source.parse frames = readText frames text := by
    rw [Source.parse, hchars]
    rfl
  rw [hparse]
  exact ⟨readText_of_layout_or_tooDeep hlayout hnodes frames, readText_of_layout hlayout hnodes⟩

/-- A command with the name of a keyword, a quoted and a bare argument, and no
blanks around the keyword of the second branch. -/
theorem parse_packed_conditional :
    ScriptLayout 1
      [.ifElse ⟨"a", ["b;", "\"c"]⟩ (.command ⟨"if", []⟩) (.block [.comment "d"])]
      "\tif (a \"b;\" \\\"c)(if);else\x7b#d\r\n \x7d".toList ∧
    (Source.text "\tif (a \"b;\" \\\"c)(if);else\x7b#d\r\n \x7d").parse nestingLimit =
      .ok [.ifElse ⟨"a", ["b;", "\"c"]⟩ (.command ⟨"if", []⟩) (.block [.comment "d"])] := by
  have hnil : Blanks [] := by simp [Blanks]
  have hspace : Blanks [' '] := by simp [Blanks, isBlank]
  have htab : Blanks ['\t'] := by simp [Blanks, isBlank]
  have hargs : ArgumentsLayout ["b;", "\"c"] " \"b;\" \\\"c".toList :=
    .cons hspace (by simp) (.quoted (by decide))
      (.cons hspace (by simp) (.bare (by decide) (by simp [BareWord, isBarrier, isBlank])) .nil)
  have hpredicate : GuardLayout 1 ⟨"a", ["b;", "\"c"]⟩ (.command ⟨"if", []⟩)
      " (a \"b;\" \\\"c)".toList :=
    .guard hspace (by simp) (.parentheses hnil (.plain hargs) hnil) (fun _ => rfl) hnil
  have hbranch : StatementLayout 1 (.command ⟨"if", []⟩) "(if);".toList
      "else\x7b#d\r\n \x7d".toList :=
    .command (.parentheses hnil (.plain .nil) hnil) (fun _ => rfl) hnil
  have hotherwise : StatementLayout 1 (.block [.comment "d"]) "\x7b#d\r\n \x7d".toList [] :=
    .block hnil (.cons (.comment .returnFeed) hspace .nil)
  have hlayout : ScriptLayout 1
      [.ifElse ⟨"a", ["b;", "\"c"]⟩ (.command ⟨"if", []⟩) (.block [.comment "d"])]
      "\tif (a \"b;\" \\\"c)(if);else\x7b#d\r\n \x7d".toList :=
    .script htab
      (.cons (.ifElse hpredicate hbranch hnil hnil hotherwise) hnil .nil)
  exact ⟨hlayout, (parse_of_layout rfl hlayout (by decide) nestingLimit).2 (by decide)⟩

end StatusShell
