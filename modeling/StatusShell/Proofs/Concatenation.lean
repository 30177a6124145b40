import StatusShell.Proofs.LayoutReading
import StatusShell.Proofs.Locality

namespace StatusShell.Grammar

variable {text rest : List Char}

namespace Scan

theorem quotedTail_extend {frames : Nat} {taken : List Char} {value : String}
    (h : quotedTail frames taken text = .success value rest) (more : List Char) :
    quotedTail frames taken (text ++ more) = .success value (rest ++ more) := by
  obtain ⟨spelling, word, rfl, hspells, -⟩ := spells_of_quotedTail h
  have hlocal := (local_quotedTail hspells frames taken).1 more
  rw [hlocal, h]
  rfl

theorem bareTail_extend {frames : Nat} {taken : List Char} {value : String}
    (h : bareTail frames taken text = .success value rest) (hrest : rest ≠ [])
    (more : List Char) :
    bareTail frames taken (text ++ more) = .success value (rest ++ more) := by
  fun_induction bareTail frames taken text with
  | case1 => cases h
  | case2 =>
      cases h
      exact absurd rfl hrest
  | case3 => cases h
  | case4 taken c after hc htaken =>
      cases h
      rw [List.cons_append, bareTail_cons, if_pos hc, if_neg htaken]
  | case5 => cases h
  | case6 taken hframes after _ ih =>
      obtain ⟨n, rfl⟩ := Nat.exists_eq_succ_of_ne_zero hframes
      rw [List.cons_append, List.cons_append, bareTail_escaped]
      exact ih h
  | case7 taken hframes after hquote _ ih =>
      obtain ⟨n, rfl⟩ := Nat.exists_eq_succ_of_ne_zero hframes
      obtain ⟨spelling, _, hafter, -⟩ := spells_of_bareTail h
      have hne : after ≠ [] := by
        rw [hafter]
        exact List.append_ne_nil_of_right_ne_nil spelling hrest
      rw [List.cons_append, bareTail_backslash]
      · exact ih h
      · rw [List.head?_append_of_ne_nil after hne]
        exact head?_ne_of_forall_ne hquote
  | case8 taken c after hc hbackslash ih =>
      rw [List.cons_append, bareTail_plain _ _ _ hbackslash (by simpa using hc)]
      exact ih h

theorem not_mismatched_bareTail {frames : Nat} {taken : List Char} (htaken : taken ≠ [])
    (text : List Char) : ¬ (bareTail frames taken text).Mismatched := by
  fun_induction bareTail frames taken text with
  | case1 taken hempty => exact absurd (List.isEmpty_iff.mp hempty) htaken
  | case3 taken c after hc hempty => exact absurd (List.isEmpty_iff.mp hempty) htaken
  | case2 | case4 | case5 =>
      rintro ⟨_, _, h⟩
      cases h
  | case6 taken hframes after _ ih => exact ih (List.cons_ne_nil _ _)
  | case7 taken hframes after hquote _ ih => exact ih (List.cons_ne_nil _ _)
  | case8 taken c after hc hbackslash ih => exact ih (List.cons_ne_nil _ _)

theorem stops_of_bareTail_mismatched {frames : Nat}
    (h : (bareTail frames [] text).Mismatched) : Stops (!endsBare ·) text := by
  rcases text with _ | ⟨c, text⟩
  · exact nofun
  rw [stops_cons_iff, Bool.not_eq_false']
  by_contra hc
  rw [bareTail_cons, if_neg hc] at h
  split at h
  · split at h
    · obtain ⟨_, _, h⟩ := h
      cases h
    · split at h <;> exact not_mismatched_bareTail (List.cons_ne_nil _ _) _ h
  · exact not_mismatched_bareTail (List.cons_ne_nil _ _) _ h

end Scan

namespace Production

open Scan

variable {frames : Nat}

theorem scan_argument_extend {value : String}
    (h : argument.scan frames text = .success value rest) (hrest : rest ≠ [])
    (more : List Char) : argument.scan frames (text ++ more) = .success value (rest ++ more) := by
  obtain ⟨piece, htext, -⟩ := word_of_scan h
  have hne : text ≠ [] := by
    rw [htext]
    exact List.append_ne_nil_of_right_ne_nil piece hrest
  rcases frames with _ | frames
  · cases h
  rw [scan_argument_apply] at h ⊢
  rw [List.head?_append_of_ne_nil text hne]
  rcases frames with _ | frames
  · simp only [scan_zero, ite_self] at h
    cases h
  split at h
  · next hquote =>
      obtain ⟨after, rfl⟩ := List.head?_eq_some_iff.mp hquote
      rw [if_pos hquote, List.cons_append, scan_quoted_apply]
      rw [scan_quoted_apply] at h
      exact quotedTail_extend h more
  · next hquote =>
      rw [if_neg hquote]
      exact bareTail_extend h hrest more

theorem scan_spacedArgument_extend {value : String}
    (h : spacedArgument.scan frames text = .success value rest) (hrest : rest ≠ [])
    (more : List Char) :
    spacedArgument.scan frames (text ++ more) = .success value (rest ++ more) := by
  obtain ⟨n, c, after, rfl, rfl, hc, hvalue⟩ := scan_spacedArgument_eq_success_iff.mp h
  obtain ⟨piece, hafter, -⟩ := word_of_scan hvalue
  have hne : after.dropWhile isBlank ≠ [] := by
    rw [hafter]
    exact List.append_ne_nil_of_right_ne_nil piece hrest
  refine scan_spacedArgument_eq_success_iff.mpr ⟨n, c, after ++ more, rfl, rfl, hc, ?_⟩
  rw [dropWhile_append_of_ne_nil hne]
  exact scan_argument_extend hvalue hrest more

theorem scan_argument_mismatched_extend {c : Char} {after : List Char} (hc : c ≠ '"')
    (h : (argument.scan frames (c :: after)).Mismatched) (more : List Char) :
    (argument.scan frames (c :: after ++ more)).Mismatched := by
  have hquote : ∀ after : List Char, (c :: after).head? ≠ some '"' := by simpa using hc
  rcases frames with _ | _ | frames
  · obtain ⟨_, _, h⟩ := h
    cases h
  · rw [scan_argument_apply, if_neg (hquote _)] at h
    obtain ⟨_, _, h⟩ := h
    cases h
  · rw [scan_argument_apply, if_neg (hquote _), scan_bare] at h
    rw [List.cons_append, scan_argument_apply, if_neg (hquote _), scan_bare]
    have hstops := stops_cons_iff.mp (stops_of_bareTail_mismatched h)
    exact bareTail_mismatched frames (stops_cons_iff.mpr hstops)

theorem scan_spacedArgument_mismatched_extend {c : Char} {after : List Char}
    (h : (spacedArgument.scan frames text).Mismatched)
    (htext : text.dropWhile isBlank = c :: after) (hc : c ≠ '"') (more : List Char) :
    (spacedArgument.scan frames (text ++ more)).Mismatched := by
  rcases frames with _ | frames
  · obtain ⟨_, _, h⟩ := h
    cases h
  rcases text with _ | ⟨d, text⟩
  · cases htext
  rw [scan_spacedArgument, bind_mismatched_iff] at h ⊢
  rcases h with hblanks | ⟨_, mid, hblanks, hargument⟩
  · left
    have hd := blanks_mismatched_iff.mp hblanks d text rfl
    apply blanks_mismatched_iff.mpr
    intro _ _ heq
    cases heq
    exact hd
  · right
    obtain ⟨_, _, heq, hd, rfl⟩ := blanks_eq_success_iff.mp hblanks
    cases heq
    rw [List.dropWhile_cons_of_pos hd] at htext
    rw [htext] at hargument
    refine ⟨(), c :: after ++ more, ?_, scan_argument_mismatched_extend hc hargument more⟩
    apply blanks_eq_success_iff.mpr
    refine ⟨d, text ++ more, rfl, hd, ?_⟩
    rw [dropWhile_append_of_ne_nil (by simp [htext]), htext]

theorem repeats_spacedArgument_extend {args : List String} {c : Char} {after : List Char}
    (h : Repeats ((attempt spacedArgument).scan frames) text args rest)
    (hrest : rest.dropWhile isBlank = c :: after) (hc : c ≠ '"') (more : List Char) :
    Repeats ((attempt spacedArgument).scan frames) (text ++ more) args (rest ++ more) := by
  induction h with
  | done hstep =>
      obtain ⟨n, rfl, hmismatch, rfl⟩ := scan_attempt_eq_none_iff.mp hstep
      apply Repeats.done
      exact scan_attempt_eq_none_iff.mpr
        ⟨n, rfl, scan_spacedArgument_mismatched_extend hmismatch hrest hc more, rfl⟩
  | @more text mid rest value values hstep hvalues ih =>
      obtain ⟨n, rfl, hvalue⟩ := scan_attempt_eq_some_iff.mp hstep
      obtain ⟨piece, hmid, -⟩ := arguments_of_repeats hvalues
      have hne : mid ≠ [] := by
        rintro rfl
        obtain ⟨-, rfl⟩ := List.nil_eq_append_iff.mp hmid
        cases hrest
      refine .more (scan_attempt_eq_some_iff.mpr ⟨n, rfl, ?_⟩) (ih hrest)
      exact scan_spacedArgument_extend hvalue hne more

theorem scan_command_extend {call : Command} {c : Char} {after : List Char}
    (h : command.scan frames text = .success call rest)
    (hrest : rest.dropWhile isBlank = c :: after) (hc : c ≠ '"') (more : List Char) :
    command.scan frames (text ++ more) = .success call (rest ++ more) := by
  induction frames generalizing text rest c after with
  | zero => cases h
  | succ frames ih =>
      obtain ⟨_, heq, ⟨inner, mid, rfl, hcall, hmid⟩ | ⟨mid, hname, hargs⟩⟩ :=
        scan_command_eq_success_iff.mp h
      · cases heq
        have hne : inner.dropWhile isBlank ≠ [] := by
          intro hnil
          obtain ⟨piece, hpiece, -⟩ := sound frames command hcall
          rw [hnil] at hpiece
          obtain ⟨-, rfl⟩ := List.nil_eq_append_iff.mp hpiece
          cases hmid
        refine scan_command_eq_success_iff.mpr
          ⟨frames, rfl, .inl ⟨inner ++ more, mid ++ more, rfl, ?_, ?_⟩⟩
        · rw [dropWhile_append_of_ne_nil hne]
          exact ih hcall hmid (by decide)
        · rw [dropWhile_append_of_ne_nil (by simp [hmid]), hmid]
          rfl
      · cases heq
        obtain ⟨piece, hpiece, -⟩ := arguments_of_repeats hargs
        obtain ⟨n, rfl, hne, hpath, rfl, hstops⟩ := scan_path_eq_success_iff.mp hname
        refine scan_command_eq_success_iff.mpr ⟨n + 1, rfl, .inr ⟨mid ++ more, ?_, ?_⟩⟩
        · refine scan_path_eq_success_iff.mpr ⟨n, rfl, hne, hpath, List.append_assoc .., ?_⟩
          have hmid : mid ≠ [] := by
            rintro rfl
            obtain ⟨-, rfl⟩ := List.nil_eq_append_iff.mp hpiece
            cases hrest
          rwa [Stops, List.head?_append_of_ne_nil mid hmid]
        · exact repeats_spacedArgument_extend hargs hrest hc more

theorem scan_commandLine_extend {node : Node}
    (h : commandLine.scan frames text = .success node rest) (more : List Char) :
    commandLine.scan frames (text ++ more) = .success node (rest ++ more) := by
  obtain ⟨n, call, mid, rfl, hcall, hmid, rfl⟩ := scan_commandLine_eq_success_iff.mp h
  refine scan_commandLine_eq_success_iff.mpr ⟨n, call, mid ++ more, rfl, ?_, ?_, rfl⟩
  · exact scan_command_extend hcall hmid (by decide) more
  · rw [dropWhile_append_of_ne_nil (by simp [hmid]), hmid]
    rfl

/-- What is left of a text when a second script follows it on a new line.  A
comment that ended with the text takes the line feed with it. -/
def Joined (second rest joined : List Char) : Prop :=
  joined = rest ++ '\n' :: second ∨ rest = [] ∧ joined = second

/-- Where reading goes on if a second script follows, blanks having been
skipped. -/
def onward (second text : List Char) : List Char :=
  if text = [] then second.dropWhile isBlank else text ++ '\n' :: second

theorem onward_of_ne_nil {second : List Char} (h : text ≠ []) :
    onward second text = text ++ '\n' :: second :=
  if_neg h

theorem Joined.dropWhile {second joined : List Char} (h : Joined second rest joined) :
    joined.dropWhile isBlank = onward second (rest.dropWhile isBlank) := by
  rcases h with rfl | ⟨rfl, rfl⟩
  · by_cases hrest : rest.dropWhile isBlank = []
    · rw [List.dropWhile_append, hrest, onward, if_pos rfl, if_pos List.isEmpty_nil]
      exact List.dropWhile_cons_of_pos (by decide)
    · rw [dropWhile_append_of_ne_nil hrest, onward_of_ne_nil hrest]
  · rfl

theorem Joined.eq_append {second joined : List Char} (h : Joined second rest joined)
    (hrest : rest ≠ []) : joined = rest ++ '\n' :: second := by
  rcases h with rfl | ⟨rfl, -⟩
  · rfl
  · exact absurd rfl hrest

/-- Where no second branch could be read, none can be read now. -/
def ElseKept (text text' : List Char) : Prop :=
  ∀ frames, (otherwise.scan frames text).Mismatched → (otherwise.scan frames text').Mismatched

/-- With the given number of frames, every statement is read again if a second
script follows, unless that gives it a second branch. -/
def Carried (second : List Char) (frames : Nat) : Prop :=
  ∀ {text rest : List Char} {node : Node}, statement.scan frames text = .success node rest →
    text.getLast? ≠ some '\r' →
    (∀ joined, Joined second rest joined → ElseKept rest joined) →
    ∃ joined, Joined second rest joined ∧
      statement.scan frames (text ++ '\n' :: second) = .success node joined

theorem suffix_of_scan {kind : Kind} {production : Production kind} {value : kind.Value}
    (h : production.scan frames text = .success value rest) : rest <:+ text := by
  obtain ⟨piece, rfl, -⟩ := sound frames production h
  exact List.suffix_append piece rest

theorem getLast?_ne_of_suffix {c : Char} (h : rest <:+ text) (htext : text.getLast? ≠ some c) :
    rest.getLast? ≠ some c := by
  obtain ⟨piece, rfl⟩ := h
  intro hrest
  apply htext
  rw [List.getLast?_append, hrest]
  rfl

theorem exists_cons_of_scan_command {call : Command}
    (h : command.scan frames text = .success call rest) :
    ∃ c after, text = c :: after ∧ c ≠ '"' := by
  obtain ⟨_, rfl, ⟨_, _, rfl, _⟩ | ⟨mid, hname, _⟩⟩ := scan_command_eq_success_iff.mp h
  · exact ⟨_, _, rfl, by decide⟩
  · obtain ⟨_, _, hne, hpath, rfl, _⟩ := scan_path_eq_success_iff.mp hname
    obtain ⟨c, name, hcons⟩ := List.exists_cons_of_ne_nil hne
    rw [hcons] at hpath ⊢
    have hc := hpath c List.mem_cons_self
    exact ⟨c, name ++ mid, rfl, (isPathChar_ne hc).2.2⟩

theorem exists_cons_of_scan_statement {node : Node}
    (h : statement.scan frames text = .success node rest) :
    ∃ c after, text = c :: after ∧ c ≠ '"' := by
  obtain ⟨n, rfl, hblock | ⟨_, hconditional | ⟨_, hloop | ⟨_, hcomment | ⟨_, hline⟩⟩⟩⟩⟩ :=
    scan_statement_eq_success_iff.mp h
  · obtain ⟨_, after, _, _, _, rfl, _⟩ := scan_block_eq_success_iff.mp hblock
    exact ⟨_, _, rfl, by decide⟩
  · obtain ⟨_, _, _, _, _, _, _, _, rfl, _⟩ := scan_conditional_eq_success_iff.mp hconditional
    exact ⟨_, _, rfl, by decide⟩
  · obtain ⟨_, _, _, _, _, _, _, rfl, _⟩ := scan_loop_eq_success_iff.mp hloop
    exact ⟨_, _, rfl, by decide⟩
  · obtain ⟨_, _, _, _, rfl, _⟩ := scan_comment_eq_success_iff.mp hcomment
    exact ⟨_, _, rfl, by decide⟩
  · obtain ⟨_, _, _, _, hcall, _⟩ := scan_commandLine_eq_success_iff.mp hline
    exact exists_cons_of_scan_command hcall

theorem scan_commandLine_of_else {node : Node}
    (h : statement.scan frames text = .success node rest) (helse : "else".toList <+: text) :
    ∃ n, commandLine.scan n text = .success node rest := by
  obtain ⟨after, rfl⟩ := helse
  obtain ⟨n, rfl, hblock | ⟨_, hconditional | ⟨_, hloop | ⟨_, hcomment | ⟨_, hline⟩⟩⟩⟩⟩ :=
    scan_statement_eq_success_iff.mp h
  · obtain ⟨_, _, _, _, _, heq, _⟩ := scan_block_eq_success_iff.mp hblock
    cases heq
  · obtain ⟨_, _, _, _, _, _, _, _, heq, _⟩ := scan_conditional_eq_success_iff.mp hconditional
    cases heq
  · obtain ⟨_, _, _, _, _, _, _, heq, _⟩ := scan_loop_eq_success_iff.mp hloop
    cases heq
  · obtain ⟨_, _, _, _, heq, _⟩ := scan_comment_eq_success_iff.mp hcomment
    cases heq
  · exact ⟨n, hline⟩

theorem takeWhile_ne_of_head?_ne {charClass : Char → Bool} {c : Char} (h : text.head? ≠ some c)
    (word : List Char) : text.takeWhile charClass ≠ c :: word := by
  intro hword
  apply h
  rw [← List.takeWhile_append_dropWhile (p := charClass) (l := text), hword]
  rfl

theorem scan_conditional_mismatched_of_head (h : text.head? ≠ some 'i') (frames : Nat) :
    (conditional.scan (frames + 1) text).Mismatched :=
  scan_conditional_mismatched (takeWhile_ne_of_head?_ne h ['f']) frames

theorem scan_loop_mismatched_of_head (h : text.head? ≠ some 'w') (frames : Nat) :
    (loop.scan (frames + 1) text).Mismatched :=
  scan_loop_mismatched (takeWhile_ne_of_head?_ne h ['h', 'i', 'l', 'e']) frames

theorem exists_scan_statement_mismatched_of_repeats {nodes : List Node}
    (h : Repeats (statementRound frames) text nodes rest) :
    ∃ n, frames = n + 1 ∧ (statement.scan n rest).Mismatched := by
  induction h with
  | done hstep =>
      obtain ⟨n, hn, hmismatch, rfl⟩ := statementRound_eq_none_iff.mp hstep
      exact ⟨n, hn, hmismatch⟩
  | more _ _ ih => exact ih

theorem scan_commandLine_of_repeats_else {nodes : List Node}
    (h : Repeats (statementRound frames) text nodes rest) (hrest : EndsStatements rest)
    (helse : "else".toList <+: text) :
    ∃ n node after, commandLine.scan n text = .success node after := by
  rcases h with hstep | ⟨hstep, -⟩
  · obtain ⟨_, _, _, rfl⟩ := statementRound_eq_none_iff.mp hstep
    rcases hrest with rfl | ⟨_, rfl⟩
    · exact absurd helse (by decide)
    · exact absurd (List.cons_prefix_cons.mp helse).1 (by decide)
  · obtain ⟨_, after, _, hnode, _⟩ := statementRound_eq_some_iff.mp hstep
    obtain ⟨n, hline⟩ := scan_commandLine_of_else hnode helse
    exact ⟨n, _, after, hline⟩

theorem scan_statement_mismatched_closeBrace
    (h : (statement.scan frames ('}' :: text)).Mismatched) (text' : List Char) :
    (statement.scan frames ('}' :: text')).Mismatched := by
  rcases frames with _ | _ | _ | _ | _ | frames
  iterate 5
    obtain ⟨_, _, h⟩ := h
    cases h
  exact scan_statement_mismatched_of_endsStatements (.inr ⟨text', rfl⟩) frames

section

variable {second : List Char}

theorem not_else_append (h : ¬ "else".toList <+: text) :
    ¬ "else".toList <+: text ++ '\n' :: second := by
  intro hbegins
  rw [List.append_cons] at hbegins
  have hmem : '\n' ∈ text ++ ['\n'] := List.mem_append_right text (List.mem_singleton_self _)
  rcases List.prefix_concat_iff.mp (isPrefix_of_isPrefix_append hmem (by decide) hbegins) with
    heq | htext
  · rw [← heq] at hmem
    exact absurd hmem (by decide)
  · exact h htext

theorem not_else_onward (h : ¬ "else".toList <+: text)
    (hsecond : ¬ "else".toList <+: second.dropWhile isBlank) :
    ¬ "else".toList <+: onward second text := by
  rw [onward]
  split
  · exact hsecond
  · exact not_else_append h

theorem elseKept_of_repeats (hsecond : ¬ "else".toList <+: second.dropWhile isBlank)
    {mid : List Char} {nodes : List Node}
    (h : Repeats (statementRound frames) (mid.dropWhile isBlank) nodes rest)
    (hrest : EndsStatements rest) {joined : List Char} (hjoined : Joined second mid joined) :
    ElseKept mid joined := by
  -- What begins with `else` here already was a command line, of which all is known.
  intro m hmismatch
  rcases m with _ | m
  · obtain ⟨_, _, hmismatch⟩ := hmismatch
    cases hmismatch
  by_cases helse : "else".toList <+: mid.dropWhile isBlank
  · obtain ⟨n, node, after, hline⟩ := scan_commandLine_of_repeats_else h hrest helse
    rcases commandTail_of_scan_commandLine hline with hparen | ⟨line, hafter, hline⟩
    · obtain ⟨_, heq⟩ := helse
      rw [← heq] at hparen
      cases hparen
    · obtain ⟨blanks, hblanks, hmid⟩ := exists_blanks_append mid
      have htail := hline.blanks_append hblanks
      rw [hafter, ← List.append_assoc] at hmid
      obtain rfl := hjoined.eq_append (hmid ▸ List.append_ne_nil_of_left_ne_nil htail.ne_nil after)
      rw [hmid] at hmismatch ⊢
      rw [List.append_assoc]
      exact decided_otherwise htail (m + 1) after _ hmismatch
  · apply scan_otherwise_mismatched
    rw [hjoined.dropWhile]
    exact not_else_onward helse hsecond

theorem repeats_joined (hsecond : ¬ "else".toList <+: second.dropWhile isBlank)
    (h : ∀ n < frames, Carried second n) {nodes more : List Node} {last : List Char}
    (hnodes : Repeats (statementRound frames) text nodes rest) (hrest : EndsStatements rest)
    (hlast : text.getLast? ≠ some '\r')
    (hmore : Repeats (statementRound frames) (onward second rest) more last) :
    Repeats (statementRound frames) (onward second text) (nodes ++ more) last := by
  induction hnodes with
  | done hstep =>
      obtain ⟨_, _, _, rfl⟩ := statementRound_eq_none_iff.mp hstep
      exact hmore
  | more hstep hnodes ih =>
      obtain ⟨n, mid, rfl, hnode, rfl⟩ := statementRound_eq_some_iff.mp hstep
      obtain ⟨joined, hjoined, hscan⟩ := h n (Nat.lt_succ_self n) hnode hlast
        fun _ => elseKept_of_repeats hsecond hnodes hrest
      obtain ⟨_, _, rfl, _⟩ := exists_cons_of_scan_statement hnode
      have hsuffix := (List.dropWhile_suffix isBlank).trans (suffix_of_scan hnode)
      refine .more ?_ (ih hrest (getLast?_ne_of_suffix hsuffix hlast) hmore)
      rw [onward_of_ne_nil (List.cons_ne_nil _ _)]
      exact statementRound_eq_some_iff.mpr ⟨n, joined, rfl, hscan, hjoined.dropWhile⟩

theorem scan_block_joined (hsecond : ¬ "else".toList <+: second.dropWhile isBlank)
    (h : ∀ n < frames, Carried second n) {node : Node}
    (hscan : block.scan frames text = .success node rest) (hlast : text.getLast? ≠ some '\r') :
    block.scan frames (text ++ '\n' :: second) = .success node (rest ++ '\n' :: second) := by
  obtain ⟨_, after, nodes, mid, rfl, rfl, hnodes, hmid, rfl⟩ :=
    scan_block_eq_success_iff.mp hscan
  obtain ⟨n, rfl, hrounds⟩ := scan_statements_eq_success_iff.mp hnodes
  rw [dropWhile_of_stops (stops_isBlank_of_repeats hrounds (stops_dropWhile _ _))] at hmid
  subst hmid
  have hsuffix := suffix_of_scan hnodes
  have hne : after.dropWhile isBlank ≠ [] := hsuffix.ne_nil (List.cons_ne_nil _ _)
  have hdone : Repeats (statementRound n) (onward second ('}' :: rest)) []
      ('}' :: (rest ++ '\n' :: second)) := by
    obtain ⟨k, rfl, hmismatch⟩ := exists_scan_statement_mismatched_of_repeats hrounds
    rw [onward_of_ne_nil (List.cons_ne_nil _ _)]
    apply Repeats.done
    exact statementRound_eq_none_iff.mpr
      ⟨k, rfl, scan_statement_mismatched_closeBrace hmismatch _, rfl⟩
  have hafter := (List.dropWhile_suffix isBlank).trans (List.suffix_cons '{' after)
  have hjoined := repeats_joined hsecond (fun k hk => h k (by omega)) hrounds
    (.inr ⟨rest, rfl⟩) (getLast?_ne_of_suffix hafter hlast) hdone
  rw [List.append_nil, onward_of_ne_nil hne] at hjoined
  refine scan_block_eq_success_iff.mpr ⟨n + 1, after ++ '\n' :: second, nodes,
    '}' :: (rest ++ '\n' :: second), rfl, rfl, ?_, ?_, rfl⟩
  · rw [dropWhile_append_of_ne_nil hne]
    exact scan_statements_eq_success_iff.mpr ⟨n, rfl, hjoined⟩
  · exact List.dropWhile_cons_of_neg (by decide)

theorem suffix_of_scan_predicate {after mid : List Char} {predicate : Command}
    (h : command.scan frames (after.dropWhile isBlank) = .success predicate mid) :
    mid.dropWhile isBlank <:+ after := by
  have hmid := (suffix_of_scan h).trans (List.dropWhile_suffix isBlank)
  exact (List.dropWhile_suffix isBlank).trans hmid

theorem scan_predicate_extend {after mid : List Char} {predicate : Command} {node : Node}
    (hpredicate : command.scan frames (after.dropWhile isBlank) = .success predicate mid)
    (hnode : statement.scan frames (mid.dropWhile isBlank) = .success node rest)
    (more : List Char) :
    command.scan frames ((after ++ more).dropWhile isBlank) = .success predicate (mid ++ more) ∧
      (mid ++ more).dropWhile isBlank = mid.dropWhile isBlank ++ more := by
  -- A statement stands behind the predicate, so no double quote does.
  obtain ⟨c, _, hmid, hc⟩ := exists_cons_of_scan_statement hnode
  obtain ⟨_, _, hafter, _⟩ := exists_cons_of_scan_command hpredicate
  constructor
  · rw [dropWhile_append_of_ne_nil (by simp [hafter])]
    exact scan_command_extend hpredicate hmid hc more
  · exact dropWhile_append_of_ne_nil (by simp [hmid]) more

section

variable (h : ∀ n < frames, Carried second n) {node : Node}
  (hlast : text.getLast? ≠ some '\r')
  (helse : ∀ joined, Joined second rest joined → ElseKept rest joined)

include h hlast helse

theorem scan_otherwise_joined (hscan : otherwise.scan frames text = .success node rest) :
    ∃ joined, Joined second rest joined ∧
      otherwise.scan frames (text ++ '\n' :: second) = .success node joined := by
  obtain ⟨n, after, rfl, htext, hnode⟩ := scan_otherwise_eq_success_iff.mp hscan
  have hsuffix : after.dropWhile isBlank <:+ text := by
    have hword : after <:+ text.dropWhile isBlank := htext ▸ List.suffix_append "else".toList after
    exact ((List.dropWhile_suffix isBlank).trans hword).trans (List.dropWhile_suffix isBlank)
  obtain ⟨joined, hjoined, hnode'⟩ :=
    h n (Nat.lt_succ_self n) hnode (getLast?_ne_of_suffix hsuffix hlast) helse
  obtain ⟨_, _, hafter, _⟩ := exists_cons_of_scan_statement hnode
  refine ⟨joined, hjoined, scan_otherwise_eq_success_iff.mpr
    ⟨n, after ++ '\n' :: second, rfl, ?_, ?_⟩⟩
  · rw [dropWhile_append_of_ne_nil (by simp [htext]), htext]
    rfl
  · rw [dropWhile_append_of_ne_nil (by simp [hafter])]
    exact hnode'

theorem scan_conditional_joined (hscan : conditional.scan frames text = .success node rest) :
    ∃ joined, Joined second rest joined ∧
      conditional.scan frames (text ++ '\n' :: second) = .success node joined := by
  obtain ⟨n, c, after, predicate, mid, branch, tail, rfl, rfl, hc, hpredicate, hbranch, hother⟩ :=
    scan_conditional_eq_success_iff.mp hscan
  obtain ⟨hpredicate', hmid⟩ := scan_predicate_extend hpredicate hbranch ('\n' :: second)
  have hsuffix : mid.dropWhile isBlank <:+ 'i' :: 'f' :: c :: after :=
    (suffix_of_scan_predicate hpredicate).trans (List.suffix_append ['i', 'f', c] after)
  have hcarried := h n (Nat.lt_succ_self n) hbranch (getLast?_ne_of_suffix hsuffix hlast)
  rcases hother with ⟨other, hattempt, rfl⟩ | ⟨hattempt, rfl⟩
  · obtain ⟨k, rfl, hother⟩ := scan_attempt_eq_some_iff.mp hattempt
    obtain ⟨_, _, _, htail, _⟩ := scan_otherwise_eq_success_iff.mp hother
    -- The second branch is already there, so none can be added to what is inside the first.
    obtain ⟨joined, hjoined, hbranch'⟩ := hcarried fun _ _ _ hmismatch =>
      absurd hother (noElse_of_mismatched hmismatch _ _ _)
    obtain rfl := hjoined.eq_append (by rintro rfl; cases htail)
    have htail := (suffix_of_scan hbranch).trans hsuffix
    obtain ⟨joined, hjoined, hother'⟩ := scan_otherwise_joined
      (fun m hm => h m (by omega)) (getLast?_ne_of_suffix htail hlast) helse hother
    refine ⟨joined, hjoined, scan_conditional_eq_success_iff.mpr
      ⟨k + 1, c, after ++ '\n' :: second, predicate, mid ++ '\n' :: second, branch, _,
        rfl, rfl, hc, hpredicate', hmid ▸ hbranch', .inl ⟨other, ?_, rfl⟩⟩⟩
    exact scan_attempt_eq_some_iff.mpr ⟨k, rfl, hother'⟩
  · obtain ⟨k, rfl, hmismatch, rfl⟩ := scan_attempt_eq_none_iff.mp hattempt
    obtain ⟨joined, hjoined, hbranch'⟩ := hcarried helse
    refine ⟨joined, hjoined, scan_conditional_eq_success_iff.mpr
      ⟨k + 1, c, after ++ '\n' :: second, predicate, mid ++ '\n' :: second, branch, joined,
        rfl, rfl, hc, hpredicate', hmid ▸ hbranch', .inr ⟨?_, rfl⟩⟩⟩
    exact scan_attempt_eq_none_iff.mpr ⟨k, rfl, helse joined hjoined k hmismatch, rfl⟩

theorem scan_loop_joined (hscan : loop.scan frames text = .success node rest) :
    ∃ joined, Joined second rest joined ∧
      loop.scan frames (text ++ '\n' :: second) = .success node joined := by
  obtain ⟨n, c, after, predicate, mid, body, rfl, rfl, hc, hpredicate, hbody, rfl⟩ :=
    scan_loop_eq_success_iff.mp hscan
  obtain ⟨hpredicate', hmid⟩ := scan_predicate_extend hpredicate hbody ('\n' :: second)
  have hsuffix : mid.dropWhile isBlank <:+ 'w' :: 'h' :: 'i' :: 'l' :: 'e' :: c :: after :=
    (suffix_of_scan_predicate hpredicate).trans
      (List.suffix_append ['w', 'h', 'i', 'l', 'e', c] after)
  obtain ⟨joined, hjoined, hbody'⟩ :=
    h n (Nat.lt_succ_self n) hbody (getLast?_ne_of_suffix hsuffix hlast) helse
  exact ⟨joined, hjoined, scan_loop_eq_success_iff.mpr
    ⟨n, c, after ++ '\n' :: second, predicate, mid ++ '\n' :: second, body,
      rfl, rfl, hc, hpredicate', hmid ▸ hbody', rfl⟩⟩

end

theorem scan_comment_joined {node : Node} (hscan : comment.scan frames text = .success node rest)
    (hlast : text.getLast? ≠ some '\r') :
    ∃ joined, Joined second rest joined ∧
      comment.scan frames (text ++ '\n' :: second) = .success node joined := by
  obtain ⟨n, value, ending, rfl, rfl, hvalue, hend, rfl⟩ := scan_comment_eq_success_iff.mp hscan
  cases hend with
  | feed hline =>
      refine ⟨rest ++ '\n' :: second, .inl rfl, scan_comment_eq_success_iff.mpr
        ⟨n, value, ['\n'], rfl, ?_, hvalue, .feed hline, rfl⟩⟩
      rw [List.cons_append, List.append_assoc]
  | returnFeed =>
      refine ⟨rest ++ '\n' :: second, .inl rfl, scan_comment_eq_success_iff.mpr
        ⟨n, value, ['\r', '\n'], rfl, ?_, hvalue, .returnFeed, rfl⟩⟩
      rw [List.cons_append, List.append_assoc]
  | endOfText =>
      -- The comment ended with the text; now it ends with the line feed of the seam.
      rw [List.append_nil, List.append_nil] at hlast ⊢
      have hline := getLast?_ne_of_suffix (List.suffix_cons '#' value.toList) hlast
      refine ⟨second, .inr ⟨rfl, rfl⟩, scan_comment_eq_success_iff.mpr
        ⟨n, value, ['\n'], rfl, ?_, hvalue, .feed hline, rfl⟩⟩
      rw [List.cons_append, List.append_assoc]
      rfl

theorem scan_statement_of_commandLine {node : Node}
    (hblock : (block.scan frames text).Mismatched)
    (hconditional : (conditional.scan frames text).Mismatched)
    (hloop : (loop.scan frames text).Mismatched)
    (hcomment : (comment.scan frames text).Mismatched)
    (hline : commandLine.scan frames text = .success node rest) (more : List Char) :
    statement.scan (frames + 2) (text ++ more) = .success node (rest ++ more) := by
  have hline' := scan_commandLine_extend hline more
  rcases commandTail_of_scan_commandLine hline with hparen | ⟨line, rfl, htail⟩
  · obtain ⟨n, _, _, rfl, _⟩ := scan_commandLine_eq_success_iff.mp hline
    obtain ⟨after, rfl⟩ := List.head?_eq_some_iff.mp hparen
    exact scan_statement_eq_success_iff.mpr ⟨n + 1, rfl, .inr
      ⟨scan_block_mismatched (by simp) n, .inr
        ⟨scan_conditional_mismatched_of_head (by simp) n, .inr
          ⟨scan_loop_mismatched_of_head (by simp) n, .inr
            ⟨scan_comment_mismatched (by simp) n, hline'⟩⟩⟩⟩⟩
  · have hless : ∀ n < frames, ∀ text, CommandTail text → Decided (statement.scan n) text :=
      fun n _ _ => decided_statement n
    rw [List.append_assoc] at hline' ⊢
    exact scan_statement_eq_success_iff.mpr ⟨frames, rfl, .inr
      ⟨decided_block htail frames _ _ hblock, .inr
        ⟨decided_conditional hless htail _ _ hconditional, .inr
          ⟨decided_loop hless htail _ _ hloop, .inr
            ⟨decided_comment htail frames _ _ hcomment, hline'⟩⟩⟩⟩⟩

theorem carried (hsecond : ¬ "else".toList <+: second.dropWhile isBlank) (frames : Nat) :
    Carried second frames := by
  induction frames using Nat.strong_induction_on with
  | h frames ih =>
      intro text rest node hscan hlast helse
      obtain ⟨n, rfl, hblock | ⟨hblock, hconditional | ⟨hconditional, hloop | ⟨hloop,
        hcomment | ⟨hcomment, hline⟩⟩⟩⟩⟩ := scan_statement_eq_success_iff.mp hscan
      all_goals have hless : ∀ k < n, Carried second k := fun k hk => ih k (by omega)
      · exact ⟨_, .inl rfl, scan_statement_eq_success_iff.mpr
          ⟨n, rfl, .inl (scan_block_joined hsecond hless hblock hlast)⟩⟩
      · obtain ⟨joined, hjoined, hconditional'⟩ :=
          scan_conditional_joined hless hlast helse hconditional
        obtain ⟨k, _, _, _, _, _, _, rfl, rfl, _⟩ :=
          scan_conditional_eq_success_iff.mp hconditional
        exact ⟨joined, hjoined, scan_statement_eq_success_iff.mpr ⟨k + 1, rfl, .inr
          ⟨scan_block_mismatched (by simp) k, .inl hconditional'⟩⟩⟩
      · obtain ⟨joined, hjoined, hloop'⟩ := scan_loop_joined hless hlast helse hloop
        obtain ⟨k, _, _, _, _, _, rfl, rfl, _⟩ := scan_loop_eq_success_iff.mp hloop
        exact ⟨joined, hjoined, scan_statement_eq_success_iff.mpr ⟨k + 1, rfl, .inr
          ⟨scan_block_mismatched (by simp) k, .inr
            ⟨scan_conditional_mismatched_of_head (by simp) k, .inl hloop'⟩⟩⟩⟩
      · obtain ⟨joined, hjoined, hcomment'⟩ := scan_comment_joined hcomment hlast
        obtain ⟨k, _, _, rfl, rfl, _⟩ := scan_comment_eq_success_iff.mp hcomment
        exact ⟨joined, hjoined, scan_statement_eq_success_iff.mpr ⟨k + 1, rfl, .inr
          ⟨scan_block_mismatched (by simp) k, .inr
            ⟨scan_conditional_mismatched_of_head (by simp) k, .inr
              ⟨scan_loop_mismatched_of_head (by simp) k, .inl hcomment'⟩⟩⟩⟩⟩
      · exact ⟨_, .inl rfl,
          scan_statement_of_commandLine hblock hconditional hloop hcomment hline _⟩

end

end Production

end Grammar

open Grammar Scan Production

variable {frames : Nat}

theorem readText_eq_ok_iff_repeats {text : List Char} {nodes : List Node} :
    readText frames text = .ok nodes ↔
      ∃ n, frames = n + 2 ∧ Repeats (statementRound n) (text.dropWhile isBlank) nodes [] := by
  rw [readText_eq_ok_iff]
  constructor
  · rintro ⟨_, hscript⟩
    obtain ⟨_, mid, rfl, hstatements, hmid, rfl⟩ := scan_script_eq_success_iff.mp hscript
    obtain ⟨n, rfl, hnodes⟩ := scan_statements_eq_success_iff.mp hstatements
    rw [dropWhile_of_stops (stops_isBlank_of_repeats hnodes (stops_dropWhile _ _))] at hmid
    exact ⟨n, rfl, hmid ▸ hnodes⟩
  · rintro ⟨n, rfl, hnodes⟩
    exact ⟨[], scan_script_eq_success_iff.mpr
      ⟨n + 1, [], rfl, scan_statements_eq_success_iff.mpr ⟨n, rfl, hnodes⟩, rfl, rfl⟩⟩

theorem readText_append_line {first second : List Char} {nodes more : List Node}
    (hfirst : readText frames first = .ok nodes) (hmore : readText frames second = .ok more)
    (hlast : first.getLast? ≠ some '\r')
    (hsecond : ¬ "else".toList <+: second.dropWhile isBlank) :
    readText frames (first ++ '\n' :: second) = .ok (nodes ++ more) := by
  obtain ⟨n, rfl, hnodes⟩ := readText_eq_ok_iff_repeats.mp hfirst
  obtain ⟨_, hn, hmore⟩ := readText_eq_ok_iff_repeats.mp hmore
  cases hn
  have hseam : Joined second first (first ++ '\n' :: second) := .inl rfl
  have hlast' := getLast?_ne_of_suffix (List.dropWhile_suffix isBlank) hlast
  refine readText_eq_ok_iff_repeats.mpr ⟨n, rfl, ?_⟩
  rw [hseam.dropWhile]
  exact repeats_joined hsecond (fun k _ => carried hsecond k) hnodes (.inl rfl) hlast' hmore

theorem Source.parse_text_of_length_le {content : String} (h : content.length ≤ sizeLimit)
    (frames : Nat) : (Source.text content).parse frames = readText frames content.toList := by
  have hchars : (Source.text content).chars = .ok content.toList := if_pos h
  rw [Source.parse, hchars]
  rfl

/-- Reading one script behind another, on a new line, gives the statements of
both.  The first must not end in a carriage return, which would become part of the
line end, and the second must not begin like a second branch. -/
theorem Source.parse_text_append_line {frames : Nat} {first second : String}
    {nodes more : List Node} (hfirst : (Source.text first).parse frames = .ok nodes)
    (hmore : (Source.text second).parse frames = .ok more)
    (hlast : first.toList.getLast? ≠ some '\r')
    (hsecond : ¬ "else".toList <+: second.toList.dropWhile isBlank)
    (hlength : first.length + second.length + 1 ≤ sizeLimit) :
    (Source.text (first ++ "\n" ++ second)).parse frames = .ok (nodes ++ more) := by
  have hjoined : (first ++ "\n" ++ second).toList = first.toList ++ '\n' :: second.toList := by
    rw [String.toList_append, String.toList_append, List.append_assoc]
    rfl
  have hlength' : (first ++ "\n" ++ second).length ≤ sizeLimit := by
    rw [← String.length_toList, hjoined, List.length_append, List.length_cons,
      String.length_toList, String.length_toList]
    omega
  rw [parse_text_of_length_le (by omega)] at hfirst hmore
  rw [parse_text_of_length_le hlength', hjoined]
  exact readText_append_line hfirst hmore hlast hsecond

/-- An `else` that was a command stays one, and the unfinished comment of the last
conditional ends at the seam. -/
theorem Source.parse_text_append_line_open_comment :
    (Source.text "if (a) b;\nelse; if (c) # d").parse nestingLimit =
        .ok [.ifThen ⟨"a", []⟩ (.command ⟨"b", []⟩), .command ⟨"else", []⟩,
          .ifThen ⟨"c", []⟩ (.comment " d")] ∧
      (Source.text "\te f;").parse nestingLimit = .ok [.command ⟨"e", ["f"]⟩] ∧
      (Source.text ("if (a) b;\nelse; if (c) # d" ++ "\n" ++ "\te f;")).parse nestingLimit =
        .ok [.ifThen ⟨"a", []⟩ (.command ⟨"b", []⟩), .command ⟨"else", []⟩,
          .ifThen ⟨"c", []⟩ (.comment " d"), .command ⟨"e", ["f"]⟩] := by
  refine ⟨?hfirst, ?hmore, parse_text_append_line ?hfirst ?hmore ?_ ?_ ?_⟩
  all_goals decide +kernel

end StatusShell
