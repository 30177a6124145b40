import StatusShell.Proofs.Concatenation
import StatusShell.Proofs.Frames
import StatusShell.Proofs.Positions

namespace StatusShell

/-- A conditional with a second branch or without one. -/
def Node.conditional (predicate : Command) (branch : Node) : (otherwise : Option Node) → Node
  | none => .ifThen predicate branch
  | some other => .ifElse predicate branch other

namespace Grammar

variable {α : Type} {line more text rest : List Char}

theorem CommandTail.not_closeParen : ¬ CommandTail (')' :: line) := by
  intro h
  cases h with
  | blank hc _ => exact absurd hc (by decide)
  | plain hc _ _ => exact absurd hc (by decide)

theorem Scan.Within.of_success {scan : Scan α} (h : Within CommandTail scan)
    (hline : CommandTail line) {value : α} (hscan : scan (line ++ more) = .success value rest) :
    ∃ left, CommandTail left ∧ rest = left ++ more := by
  obtain ⟨hlocal, hleft⟩ := h line hline
  rw [hlocal more] at hscan
  cases hreply : scan line with
  | success found left =>
      rw [hreply] at hscan
      cases hscan
      exact ⟨left, hleft _ _ hreply, rfl⟩
  | mismatch expected left =>
      rw [hreply] at hscan
      cases hscan
  | tooDeep =>
      rw [hreply] at hscan
      cases hscan

namespace Production

open Scan

variable {frames : Nat}

theorem path_of_scan_command (hline : CommandTail line) {call : Command}
    (h : command.scan frames (line ++ more) = .success call rest) :
    ∃ n words, frames = n + 1 ∧ path.scan n (line ++ more) = .success call.name words ∧
      Repeats ((attempt spacedArgument).scan n) words call.args rest := by
  obtain ⟨n, rfl, ⟨after, mid, hopen, hinner, hclose⟩ | ⟨words, hname, hargs⟩⟩ :=
    scan_command_eq_success_iff.mp h
  · exfalso
    obtain ⟨c, line, rfl⟩ := List.exists_cons_of_ne_nil hline.ne_nil
    rw [List.cons_append] at hopen
    obtain ⟨rfl, rfl⟩ := List.cons.inj hopen
    have hafter := hline.of_cons (by decide) (by decide) (by decide)
    rw [hafter.dropWhile_append fun _ => isBlank_ne] at hinner
    obtain ⟨left, hleft, rfl⟩ :=
      (within_command n).of_success (hafter.dropWhile fun _ => isBlank_ne) hinner
    rw [hleft.dropWhile_append fun _ => isBlank_ne] at hclose
    have htail : CommandTail (left.dropWhile isBlank) := hleft.dropWhile fun _ => isBlank_ne
    have hhead : (left.dropWhile isBlank).head? = some ')' := by
      rw [← htail.head?_append more, hclose]
      rfl
    obtain ⟨tail, hcons⟩ := List.head?_eq_some_iff.mp hhead
    rw [hcons] at htail
    exact CommandTail.not_closeParen htail
  · exact ⟨n, words, rfl, hname, hargs⟩

theorem not_stops_of_scan_path {name : String} (h : path.scan frames text = .success name rest) :
    ¬ Stops isPathChar text := by
  obtain ⟨_, _, hne, hname, rfl, _⟩ := scan_path_eq_success_iff.mp h
  obtain ⟨c, word, hword⟩ := List.exists_cons_of_ne_nil hne
  rw [hword] at hname ⊢
  intro hstops
  exact absurd (hname c List.mem_cons_self) (by simp [stops_cons_iff.mp hstops])

theorem scan_statement_ne_success (hline : CommandTail line) (hstops : Stops isPathChar line)
    (hcomment : line.head? ≠ some '#') (more : List Char) (frames : Nat) (node : Node)
    (rest : List Char) : statement.scan frames (line ++ more) ≠ .success node rest := by
  intro h
  have hhead : ∀ {c after}, line ++ more = c :: after → line.head? = some c := by
    intro c after heq
    rw [← hline.head?_append more, heq]
    rfl
  obtain ⟨n, rfl, hblock | ⟨_, hconditional | ⟨_, hloop | ⟨_, hmark | ⟨_, hcall⟩⟩⟩⟩⟩ :=
    scan_statement_eq_success_iff.mp h
  · obtain ⟨_, after, _, _, _, heq, _⟩ := scan_block_eq_success_iff.mp hblock
    obtain ⟨tail, rfl⟩ := List.head?_eq_some_iff.mp (hhead heq)
    exact CommandTail.not_openBrace hline
  · obtain ⟨_, _, _, _, _, _, _, _, heq, _⟩ := scan_conditional_eq_success_iff.mp hconditional
    exact absurd (hstops _ (hhead heq)) (by decide)
  · obtain ⟨_, _, _, _, _, _, _, heq, _⟩ := scan_loop_eq_success_iff.mp hloop
    exact absurd (hstops _ (hhead heq)) (by decide)
  · obtain ⟨_, _, _, _, heq, _⟩ := scan_comment_eq_success_iff.mp hmark
    exact hcomment (hhead heq)
  · obtain ⟨_, call, mid, _, hcall, _⟩ := scan_commandLine_eq_success_iff.mp hcall
    obtain ⟨_, _, _, hname, _⟩ := path_of_scan_command hline hcall
    apply not_stops_of_scan_path hname
    intro c hc
    rw [hline.head?_append more] at hc
    exact hstops c hc

theorem repeats_spacedArgument_unique {args args' : List String} {rest' : List Char}
    (h : Repeats ((attempt spacedArgument).scan frames) text args rest)
    (h' : Repeats ((attempt spacedArgument).scan frames) text args' rest') :
    args = args' ∧ rest = rest' := by
  rw [← many_eq_success_iff (spacedArgument_progresses frames)] at h h'
  rw [h] at h'
  cases h'
  exact ⟨rfl, rfl⟩

theorem repeats_of_stops {args : List String} (hstops : Stops isBlank text)
    (h : Repeats ((attempt spacedArgument).scan frames) text args rest) :
    args = [] ∧ rest = text := by
  cases h with
  | done hstep =>
      obtain ⟨_, _, _, heq⟩ := scan_attempt_eq_none_iff.mp hstep
      exact ⟨rfl, heq.symm⟩
  | more hstep _ =>
      obtain ⟨_, _, hvalue⟩ := scan_attempt_eq_some_iff.mp hstep
      obtain ⟨_, c, after, _, rfl, hc, _⟩ := scan_spacedArgument_eq_success_iff.mp hvalue
      rw [stops_cons_iff.mp hstops] at hc
      cases hc

theorem exists_append_of_path {name words spelling next : List Char}
    (hname : ∀ c ∈ name, isPathChar c = true) (hnext : Stops (!endsBare ·) next)
    (h : name ++ words = spelling ++ next) :
    ∃ left, spelling = name ++ left ∧ words = left ++ next := by
  rcases List.append_eq_append_iff.mp h with ⟨left, hspelling, hwords⟩ | ⟨extra, rfl, rfl⟩
  · exact ⟨left, hspelling, hwords⟩
  · cases extra with
    | nil => exact ⟨[], by simp, rfl⟩
    | cons c extra =>
        have hpath := hname c (by simp)
        have hends : endsBare c = true := by simpa using stops_cons_iff.mp hnext
        rw [endsBare_eq, Bool.or_eq_true, decide_eq_true_eq] at hends
        rcases hends with hbarrier | rfl
        · rw [isPathChar_eq_false_of_isBarrier hbarrier] at hpath
          cases hpath
        · exact absurd hpath (by decide)

/-- Behind its blanks, the first argument begins with a path and directly behind that the
mark of a comment.  It is a bare word then, as it does not begin with a quote. -/
def MeetsComment (piece : List Char) (run : String) (comment : List Char) : Prop :=
  run.toList ≠ [] ∧ (∀ c ∈ run.toList, isPathChar c = true) ∧
    piece.dropWhile isBlank = run.toList ++ '#' :: comment

theorem isBlank_eq_false_of_mem_escaped {word : List Char} (hword : BareWord word) {c : Char}
    (h : c ∈ escaped word) : isBlank c = false := by
  obtain ⟨d, hd, hc⟩ := List.mem_flatMap.mp h
  have hbarrier := hword d hd
  simp only [isBarrier, Bool.or_eq_false_iff] at hbarrier
  by_cases hquote : d = '"'
  · rw [if_pos hquote] at hc
    rcases List.mem_pair.mp hc with rfl | rfl <;> decide
  · rw [if_neg hquote] at hc
    obtain rfl := List.mem_singleton.mp hc
    exact hbarrier.1.1.1

theorem commandTail_of_arguments {piece blanks : List Char} {args : List String}
    (hargs : Arguments piece args (blanks ++ ';' :: rest)) (hblanks : Blanks blanks) :
    CommandTail (piece ++ (blanks ++ [';'])) := by
  have hargs : Arguments piece args (blanks ++ [';'] ++ rest) := by
    rw [List.append_assoc]
    exact hargs
  exact CommandTail.arguments_append hargs (CommandTail.blanks_append hblanks .stop)

theorem exists_blank_of_arguments {piece : List Char} {args : List String}
    (h : Arguments piece args rest) (hne : piece ≠ []) :
    ∃ c more, piece = c :: more ∧ isBlank c = true := by
  cases h with
  | nil => exact absurd rfl hne
  | cons hvalue _ =>
      cases hvalue with
      | @spacedArgument blanks _ _ _ hblanks hsome _ =>
          obtain ⟨c, blanks, rfl⟩ := List.exists_cons_of_ne_nil hsome
          exact ⟨c, _, rfl, hblanks c List.mem_cons_self⟩

theorem arguments_atBarrier {piece : List Char} {args : List String}
    (h : Arguments piece args rest) (hrest : AtBarrier rest) : AtBarrier (piece ++ rest) := by
  by_cases hpiece : piece = []
  · rw [hpiece]
    exact hrest
  · obtain ⟨c, more, rfl, hc⟩ := exists_blank_of_arguments h hpiece
    exact ⟨c, more ++ rest, rfl, by simp [isBarrier, hc]⟩

theorem arguments_of_many (frames : Nat) {piece : List Char} {args : List String}
    (h : many ((attempt spacedArgument).scan frames) (piece ++ rest) = .success args rest) :
    Arguments piece args rest := by
  obtain ⟨read, hread, hargs⟩ :=
    arguments_of_repeats ((many_eq_success_iff (spacedArgument_progresses frames)).mp h)
  rwa [List.append_cancel_right hread]

theorem scan_statement_behind_arguments {piece blanks mid : List Char} {args values : List String}
    (hargs : Arguments piece args (blanks ++ ';' :: rest)) (hblanks : Blanks blanks)
    (h : Repeats ((attempt spacedArgument).scan (frames + 5)) (piece ++ (blanks ++ ';' :: rest))
      values mid) (n : Nat) (node : Node) (tail : List Char) :
    statement.scan n (mid.dropWhile isBlank) ≠ .success node tail := by
  have hends : EndsCommand (blanks ++ ';' :: rest) := ⟨blanks, ';', rest, rfl, hblanks, .inl rfl⟩
  obtain ⟨_, rfl⟩ := repeats_spacedArgument_unique h
    (repeats_of_arguments hargs (scan_spacedArgument_mismatched hends (frames + 1)))
  rw [hblanks.dropWhile_append (stops_cons_iff.mpr (by decide))]
  exact scan_statement_ne_success .stop (stops_cons_iff.mpr (by decide)) (by decide) rest n node
    tail

theorem exists_mark_of_scan {word more blanks mid tail : List Char} {value : String}
    {values : List String} {predicate : Command} {body : Node} {n : Nat}
    (hword : Word .argument word value (more ++ (blanks ++ ';' :: rest)))
    (hvalues : Arguments more values (blanks ++ ';' :: rest)) (hblanks : Blanks blanks)
    (hline : CommandTail (word ++ (more ++ (blanks ++ [';']))))
    (hpredicate : command.scan (frames + 6) (word ++ (more ++ (blanks ++ ';' :: rest))) =
      .success predicate mid)
    (hbody : statement.scan n (mid.dropWhile isBlank) = .success body tail) :
    ∃ left, predicate.name.toList ≠ [] ∧ (∀ c ∈ predicate.name.toList, isPathChar c = true) ∧
      word = predicate.name.toList ++ '#' :: left := by
  -- What a statement could begin with behind the path is a comment and nothing else.
  have htext : ∀ word, word ++ (more ++ (blanks ++ ';' :: rest)) =
      word ++ (more ++ (blanks ++ [';'])) ++ rest := by
    simp
  rw [htext] at hpredicate
  obtain ⟨k, words, hk, hname, hrepeats⟩ := path_of_scan_command hline hpredicate
  obtain rfl : k = frames + 5 := Nat.succ.inj hk.symm
  rw [← htext] at hname
  have hbegins := not_stops_of_scan_path hname
  obtain ⟨_, _, hne, hpath, heq, hstops⟩ := scan_path_eq_success_iff.mp hname
  cases hword with
  | quotedArgument hquoted =>
      cases hquoted
      exact absurd (stops_cons_iff.mpr (by decide)) hbegins
  | bareArgument hbare =>
      cases hbare with
      | bare _ hbare hspells hrest =>
          obtain ⟨left, rfl, rfl⟩ := exists_append_of_path hpath hrest heq.symm
          cases left with
          | nil =>
              -- The path is the whole argument, and the predicate has all the others.
              exact absurd hbody (scan_statement_behind_arguments hvalues hblanks hrepeats _ _ _)
          | cons c left =>
              -- The predicate ends within the argument, and has none itself.
              obtain ⟨hspelling, _⟩ := spells_iff.mp hspells
              have hblank : Stops isBlank (c :: left ++ (more ++ (blanks ++ ';' :: rest))) := by
                refine stops_cons_iff.mpr (isBlank_eq_false_of_mem_escaped hbare ?_)
                rw [← hspelling]
                simp
              obtain ⟨_, rfl⟩ := repeats_of_stops hblank hrepeats
              rw [dropWhile_of_stops hblank, htext] at hbody
              have hleft : CommandTail (c :: left ++ (more ++ (blanks ++ [';']))) := by
                rw [List.append_assoc] at hline
                exact hline.of_append fun d hd => isPathChar_ne (hpath d hd)
              have hstop : Stops isPathChar (c :: left ++ (more ++ (blanks ++ [';']))) :=
                stops_cons_iff.mpr (stops_cons_iff.mp hstops)
              obtain rfl : c = '#' := by
                by_contra hmark
                exact scan_statement_ne_success hleft hstop (by simpa using hmark) rest n body tail
                  hbody
              exact ⟨left, hne, hpath, rfl⟩

theorem meetsComment_of_scan {piece blanks mid tail : List Char} {args : List String}
    {predicate : Command} {body : Node} {n : Nat}
    (hargs : Arguments piece args (blanks ++ ';' :: rest)) (hblanks : Blanks blanks)
    (hpredicate : command.scan (frames + 6) ((piece ++ (blanks ++ ';' :: rest)).dropWhile isBlank) =
      .success predicate mid)
    (hbody : statement.scan n (mid.dropWhile isBlank) = .success body tail) :
    ∃ run comment, MeetsComment piece run comment := by
  have hline := commandTail_of_arguments hargs hblanks
  cases hargs with
  | nil =>
      rw [List.nil_append, hblanks.dropWhile_append (stops_cons_iff.mpr (by decide))] at hpredicate
      obtain ⟨_, _, _, hname, _⟩ := path_of_scan_command .stop hpredicate
      exact absurd (stops_cons_iff.mpr (by decide)) (not_stops_of_scan_path hname)
  | @cons _ more _ value values hvalue hvalues =>
      cases hvalue with
      | @spacedArgument before word _ _ hbefore _ hword =>
          have hskip := hbefore.dropWhile_append hword.argument_stops_isBlank
          rw [List.append_assoc before, List.append_assoc] at hline hpredicate
          rw [List.append_assoc word, hskip] at hpredicate
          rw [List.append_assoc word] at hline
          have hline := hline.of_append fun c hc => isBlank_ne (hbefore c hc)
          obtain ⟨left, hne, hpath, rfl⟩ :=
            exists_mark_of_scan hword hvalues hblanks hline hpredicate hbody
          refine ⟨predicate.name, left ++ more, hne, hpath, ?_⟩
          obtain ⟨c, name, hcons⟩ := List.exists_cons_of_ne_nil hne
          rw [hcons] at hpath ⊢
          have hstops : Stops isBlank (c :: name ++ '#' :: left ++ more) :=
            stops_cons_iff.mpr (isBlank_eq_false_of_isPathChar (hpath c List.mem_cons_self))
          rw [List.append_assoc before, hbefore.dropWhile_append hstops]
          simp

section

variable {keyword : String} {piece blanks : List Char} {args : List String}
  (hkeyword : keyword = "if" ∨ keyword = "while")
  (hargs : Arguments piece args (blanks ++ ';' :: rest)) (hblanks : Blanks blanks)
include hkeyword hargs hblanks

theorem meetsComment_of_scan_conditional {node : Node} {tail : List Char}
    (h : conditional.scan (frames + 7) (keyword.toList ++ (piece ++ (blanks ++ ';' :: rest))) =
      .success node tail) : ∃ run comment, MeetsComment piece run comment := by
  obtain ⟨n, c, after, predicate, mid, branch, behind, hn, htext, hc, hpredicate, hbranch, _⟩ :=
    scan_conditional_eq_success_iff.mp h
  obtain rfl : n = frames + 6 := Nat.succ.inj hn.symm
  rcases hkeyword with rfl | rfl
  · have hafter : piece ++ (blanks ++ ';' :: rest) = c :: after := by simpa using htext
    rw [← List.dropWhile_cons_of_pos hc, ← hafter] at hpredicate
    exact meetsComment_of_scan hargs hblanks hpredicate hbranch
  · simp at htext

theorem meetsComment_of_scan_loop {node : Node} {tail : List Char}
    (h : loop.scan (frames + 7) (keyword.toList ++ (piece ++ (blanks ++ ';' :: rest))) =
      .success node tail) : ∃ run comment, MeetsComment piece run comment := by
  obtain ⟨n, c, after, predicate, mid, body, hn, htext, hc, hpredicate, hbody, _⟩ :=
    scan_loop_eq_success_iff.mp h
  obtain rfl : n = frames + 6 := Nat.succ.inj hn.symm
  rcases hkeyword with rfl | rfl
  · simp at htext
  · have hafter : piece ++ (blanks ++ ';' :: rest) = c :: after := by simpa using htext
    rw [← List.dropWhile_cons_of_pos hc, ← hafter] at hpredicate
    exact meetsComment_of_scan hargs hblanks hpredicate hbody

theorem scan_commandLine_of_keyword :
    commandLine.scan (frames + 7) (keyword.toList ++ (piece ++ (blanks ++ ';' :: rest))) =
      .success (.command ⟨keyword, args⟩) rest := by
  have hends : EndsCommand (blanks ++ ';' :: rest) := ⟨blanks, ';', rest, rfl, hblanks, .inl rfl⟩
  have hskip : (blanks ++ ';' :: rest).dropWhile isBlank = ';' :: rest :=
    hblanks.dropWhile_append (stops_cons_iff.mpr (by decide))
  have hpath : keyword.toList ≠ [] ∧ keyword.toList.all isPathChar = true := by
    rcases hkeyword with rfl | rfl <;> decide
  refine scan_commandLine_eq_success_iff.mpr ⟨frames + 6, _, _, rfl, ?_, hskip, rfl⟩
  refine scan_command_eq_success_iff.mpr ⟨frames + 5, rfl, .inr ⟨_, ?_, repeats_of_arguments hargs
    (scan_spacedArgument_mismatched hends (frames + 1))⟩⟩
  exact scan_path_eq_success_iff.mpr ⟨frames + 4, rfl, hpath.1, List.all_eq_true.mp hpath.2, rfl,
    (arguments_atBarrier hargs hends.atBarrier).stops_isPathChar⟩

theorem scan_statement_of_keyword (hplain : ∀ run comment, ¬ MeetsComment piece run comment)
    (hframes : 5 * (keyword.toList ++ (piece ++ (blanks ++ ';' :: rest))).length + 5 ≤ frames) :
    statement.scan frames (keyword.toList ++ (piece ++ (blanks ++ ';' :: rest))) =
      .success (.command ⟨keyword, args⟩) rest := by
  obtain ⟨n, rfl⟩ : ∃ n, frames = n + 9 := by
    rcases hkeyword with rfl | rfl
    all_goals
      simp only [List.length_append, List.length_cons] at hframes
      exact ⟨frames - 9, by omega⟩
  have hhead : ∀ mark, mark ≠ 'i' → mark ≠ 'w' →
      (keyword.toList ++ (piece ++ (blanks ++ ';' :: rest))).head? ≠ some mark := by
    intro mark hi hw
    rcases hkeyword with rfl | rfl
    · simpa using hi.symm
    · simpa using hw.symm
  have hconditional : (conditional.scan (n + 7)
      (keyword.toList ++ (piece ++ (blanks ++ ';' :: rest)))).Mismatched := by
    refine (suffices_all (n + 7) conditional (by rw [framesFor]; omega)).resolve_left ?_
    rintro ⟨node, tail, h, _⟩
    obtain ⟨run, comment, hmeets⟩ := meetsComment_of_scan_conditional hkeyword hargs hblanks h
    exact hplain run comment hmeets
  have hloop : (loop.scan (n + 7)
      (keyword.toList ++ (piece ++ (blanks ++ ';' :: rest)))).Mismatched := by
    refine (suffices_all (n + 7) loop (by rw [framesFor]; omega)).resolve_left ?_
    rintro ⟨node, tail, h, _⟩
    obtain ⟨run, comment, hmeets⟩ := meetsComment_of_scan_loop hkeyword hargs hblanks h
    exact hplain run comment hmeets
  exact scan_statement_eq_success_iff.mpr ⟨n + 7, rfl,
    .inr ⟨scan_block_mismatched (hhead _ (by decide) (by decide)) _, .inr ⟨hconditional,
      .inr ⟨hloop, .inr ⟨scan_comment_mismatched (hhead _ (by decide) (by decide)) _,
        scan_commandLine_of_keyword hkeyword hargs hblanks⟩⟩⟩⟩⟩

end

theorem scan_command_of_mark {run : String} (hne : run.toList ≠ [])
    (hrun : ∀ c ∈ run.toList, isPathChar c = true) (frames : Nat) (after : List Char) :
    command.scan (frames + 3) (run.toList ++ '#' :: after) = .success ⟨run, []⟩ ('#' :: after) := by
  have hmark : (spacedArgument.scan (frames + 1) ('#' :: after)).Mismatched := by
    rw [scan_spacedArgument]
    refine bind_mismatched_iff.mpr (.inl (blanks_mismatched_iff.mpr ?_))
    intro c tail heq
    rw [← (List.cons.inj heq).1]
    decide
  refine scan_command_eq_success_iff.mpr ⟨frames + 2, rfl, .inr ⟨'#' :: after, ?_, ?_⟩⟩
  · exact scan_path_eq_success_iff.mpr
      ⟨frames + 1, rfl, hne, hrun, rfl, stops_cons_iff.mpr (by decide)⟩
  · exact .done (scan_attempt_eq_none_iff.mpr ⟨frames + 1, rfl, hmark, rfl⟩)

section

variable {run : String} {c : Char} {after ending tail : List Char} {remark : String}
  (hne : run.toList ≠ []) (hrun : ∀ c ∈ run.toList, isPathChar c = true) (hc : isBlank c = true)
  (hafter : after.dropWhile isBlank = run.toList ++ '#' :: (remark.toList ++ ending ++ tail))
  (hremark : '\n' ∉ remark.toList) (hend : LineEnd remark.toList ending tail)
include hne hrun hc hafter hremark hend

theorem scan_conditional_of_mark {found : Option Node}
    (hfound : (attempt otherwise).scan (frames + 3) tail = .success found rest) :
    conditional.scan (frames + 4) ('i' :: 'f' :: c :: after) =
      .success (Node.conditional ⟨run, []⟩ (.comment remark) found) rest := by
  refine scan_conditional_eq_success_iff.mpr ⟨frames + 3, c, after, ⟨run, []⟩,
    '#' :: (remark.toList ++ ending ++ tail), .comment remark, tail, rfl, rfl, hc, ?_, ?_, ?_⟩
  · rw [hafter]
    exact scan_command_of_mark hne hrun frames _
  · exact scan_comment_of_layout hend hremark frames
  · cases found with
    | none => exact .inr ⟨hfound, rfl⟩
    | some other => exact .inl ⟨other, hfound, rfl⟩

theorem scan_loop_of_mark :
    loop.scan (frames + 4) ('w' :: 'h' :: 'i' :: 'l' :: 'e' :: c :: after) =
      .success (.loop ⟨run, []⟩ (.comment remark)) tail := by
  refine scan_loop_eq_success_iff.mpr ⟨frames + 3, c, after, ⟨run, []⟩,
    '#' :: (remark.toList ++ ending ++ tail), .comment remark, rfl, rfl, hc, ?_, ?_, rfl⟩
  · rw [hafter]
    exact scan_command_of_mark hne hrun frames _
  · exact scan_comment_of_layout hend hremark frames

end

theorem scan_statement_of_meetsComment {piece blanks comment : List Char} {args : List String}
    {run : String} (hargs : Arguments piece args (blanks ++ ';' :: rest))
    (hmeets : MeetsComment piece run comment)
    (hframes : 5 * (piece ++ (blanks ++ ';' :: rest)).length + 30 ≤ frames) :
    ∃ remark ending tail,
      comment ++ (blanks ++ ';' :: rest) = remark.toList ++ ending ++ tail ∧
      '\n' ∉ remark.toList ∧ LineEnd remark.toList ending tail ∧
      (∃ other last, statement.scan frames ("if".toList ++ (piece ++ (blanks ++ ';' :: rest))) =
          .success (Node.conditional ⟨run, []⟩ (.comment remark) other) last ∧
        (other = none → last = tail)) ∧
      statement.scan frames ("while".toList ++ (piece ++ (blanks ++ ';' :: rest))) =
        .success (.loop ⟨run, []⟩ (.comment remark)) tail := by
  obtain ⟨hne, hrun, hpiece⟩ := hmeets
  obtain ⟨line, ending, tail, -, htail, hline, hend⟩ :=
    commentLine_spec [] (comment ++ (blanks ++ ';' :: rest))
  have hskip : (piece ++ (blanks ++ ';' :: rest)).dropWhile isBlank =
      run.toList ++ '#' :: (comment ++ (blanks ++ ';' :: rest)) := by
    rw [dropWhile_append_of_ne_nil (by simp [hpiece]), hpiece]
    simp
  obtain ⟨c, more, rfl, hc⟩ := exists_blank_of_arguments hargs (by rintro rfl; simp at hpiece)
  rw [List.cons_append] at hskip hframes ⊢
  have hafter : (more ++ (blanks ++ ';' :: rest)).dropWhile isBlank =
      run.toList ++ '#' :: ((String.ofList line).toList ++ ending ++ tail) := by
    rw [← List.dropWhile_cons_of_pos hc, hskip, htail, String.toList_ofList]
  have hlength : tail.length ≤ (c :: (more ++ (blanks ++ ';' :: rest))).length := by
    have hsuffix := (List.dropWhile_suffix isBlank (l := c :: (more ++ (blanks ++ ';' :: rest))))
    rw [hskip, htail] at hsuffix
    have hle := hsuffix.length_le
    simp only [List.length_append, List.length_cons] at hle ⊢
    omega
  obtain ⟨n, rfl⟩ : ∃ n, frames = n + 6 := ⟨frames - 6, by omega⟩
  have hends : Ends ((attempt otherwise).scan (n + 3)) tail 0 :=
    suffices_all (n + 3) (attempt otherwise) (by simp only [framesFor]; omega)
  obtain ⟨found, last, hfound, _⟩ := answers_of_ends_attempt hends
  rw [← String.toList_ofList (l := line)] at hline hend
  refine ⟨String.ofList line, ending, tail, ?_, hline, hend, ⟨found, last, ?_, ?_⟩, ?_⟩
  · rw [htail, String.toList_ofList]
  · refine scan_statement_eq_success_iff.mpr ⟨n + 4, rfl, .inr ⟨?_, .inl ?_⟩⟩
    · exact scan_block_mismatched (by simp) _
    · exact scan_conditional_of_mark hne hrun hc hafter hline hend hfound
  · rintro rfl
    obtain ⟨_, _, _, hlast⟩ := scan_attempt_eq_none_iff.mp hfound
    exact hlast.symm
  · refine scan_statement_eq_success_iff.mpr ⟨n + 4, rfl, .inr ⟨?_, .inr ⟨?_, .inl ?_⟩⟩⟩
    · exact scan_block_mismatched (by simp) _
    · exact scan_conditional_mismatched_of_head (by simp) _
    · exact scan_loop_of_mark hne hrun hc hafter hline hend

end Production

open Cursor

/-- Behind any text and before any other, a command line that is named like a keyword is read
as that command, up to its semicolon.  Only where its first argument is a bare word that
begins with a path and the mark of a comment, the path is read as a predicate and the
comment as the branch or the body. -/
theorem readWithin_keyword_line {keyword : String} (hkeyword : keyword = "if" ∨ keyword = "while")
    {before piece blanks rest : List Char} {args : List String}
    (hargs : Arguments piece args (blanks ++ ';' :: rest)) (hblanks : Blanks blanks)
    {frames : Nat} {text : List Char}
    (htext : text = keyword.toList ++ (piece ++ (blanks ++ ';' :: rest)))
    (hlimit : (readWithin frames .statement (behind before text)).1 ≠ .error .tooDeep) :
    ((∀ run comment, ¬ Production.MeetsComment piece run comment) →
      readWithin frames .statement (behind before text) =
        (.ok (.command ⟨keyword, args⟩),
          behind (before ++ keyword.toList ++ piece ++ blanks ++ [';']) rest)) ∧
    ∀ run comment, Production.MeetsComment piece run comment →
      ∃ remark ending tail,
        comment ++ (blanks ++ ';' :: rest) = remark.toList ++ ending ++ tail ∧
        '\n' ∉ remark.toList ∧ LineEnd remark.toList ending tail ∧
        (keyword = "if" → ∃ other read last, text = read ++ last ∧
          readWithin frames .statement (behind before text) =
            (.ok (Node.conditional ⟨run, []⟩ (.comment remark) other),
              behind (before ++ read) last) ∧
          (other = none → last = tail)) ∧
        (keyword = "while" → ∃ read, text = read ++ tail ∧
          readWithin frames .statement (behind before text) =
            (.ok (.loop ⟨run, []⟩ (.comment remark)), behind (before ++ read) tail)) := by
  subst htext
  constructor
  · intro hplain
    obtain ⟨read, hread, hreading⟩ := readWithin_of_scan
      (Production.scan_statement_of_keyword hkeyword hargs hblanks hplain (Nat.le_refl _)) hlimit
    obtain rfl : read = keyword.toList ++ piece ++ blanks ++ [';'] := by
      apply List.append_cancel_right
      rw [← hread]
      simp
    rw [hreading]
    simp only [List.append_assoc]
  · intro run comment hmeets
    obtain ⟨remark, ending, tail, hline, hremark, hend, ⟨other, last, hif, hlast⟩, hwhile⟩ :=
      Production.scan_statement_of_meetsComment hargs hmeets (Nat.le_refl _)
    refine ⟨remark, ending, tail, hline, hremark, hend, ?_, ?_⟩
    · rintro rfl
      obtain ⟨read, hread, hreading⟩ := readWithin_of_scan hif hlimit
      exact ⟨other, read, last, hread, hreading, hlast⟩
    · rintro rfl
      exact readWithin_of_scan hwhile hlimit

/-- A command with an open parenthesis and a quoted closing one, and a loop whose body is a
comment up to the end of the line. -/
theorem readWithin_keyword_line_behind_command :
    let before := "x;\n".toList
    let text := "if".toList ++ (" (a \"b;)\"".toList ++ (" ".toList ++ ';' :: "e".toList))
    let text' := "while".toList ++ (" a#b c".toList ++ ([] ++ ';' :: "\nd;".toList))
    readWithin 40 .statement (behind before text) =
      (.ok (.command ⟨"if", ["(a", "b;)"]⟩),
        behind (before ++ "if".toList ++ " (a \"b;)\"".toList ++ " ".toList ++ [';']) ['e']) ∧
    ∃ remark ending tail read,
      "b c".toList ++ ([] ++ ';' :: "\nd;".toList) = remark.toList ++ ending ++ tail ∧
      '\n' ∉ remark.toList ∧
      readWithin 40 .statement (behind before text') =
        (.ok (.loop ⟨"a", []⟩ (.comment remark)), behind (before ++ read) tail) := by
  intro before text text'
  have hargs : Arguments " (a \"b;)\"".toList ["(a", "b;)"] (" ".toList ++ ';' :: "e".toList) :=
    Production.arguments_of_many 9 (by decide +kernel)
  have hargs' : Arguments " a#b c".toList ["a#b", "c"] ([] ++ ';' :: "\nd;".toList) :=
    Production.arguments_of_many 9 (by decide +kernel)
  have hlimit : (readWithin 40 .statement (behind before text)).1 ≠ .error .tooDeep := by
    decide +kernel
  have hlimit' : (readWithin 40 .statement (behind before text')).1 ≠ .error .tooDeep := by
    decide +kernel
  constructor
  · apply (readWithin_keyword_line (.inl rfl) hargs (by simp [Blanks, isBlank]) rfl hlimit).1
    rintro run comment ⟨hne, hrun, hpiece⟩
    obtain ⟨c, word, hword⟩ := List.exists_cons_of_ne_nil hne
    rw [hword] at hrun hpiece
    obtain rfl : '(' = c := (List.cons.inj hpiece).1
    exact absurd (hrun '(' List.mem_cons_self) (by decide)
  · have hmeets : Production.MeetsComment " a#b c".toList "a" "b c".toList :=
      ⟨by decide, by simp [isPathChar], by decide⟩
    obtain ⟨remark, ending, tail, hline, hremark, _, _, hloop⟩ :=
      (readWithin_keyword_line (.inr rfl) hargs' (by simp [Blanks]) rfl hlimit').2 "a" _ hmeets
    obtain ⟨read, _, hreading⟩ := hloop rfl
    exact ⟨remark, ending, tail, read, hline, hremark, hreading⟩

end Grammar

end StatusShell
