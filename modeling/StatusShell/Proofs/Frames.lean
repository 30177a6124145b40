import StatusShell.Proofs.Derivation

/-!
Reading ends on every text.  The productions descend by at most five frames for
each character that was read before, whichever alternatives fail on the way, so
a number of frames that is linear in the length of the text is always enough.
Loops end because every round but the last reads something.
-/

namespace StatusShell.Grammar

namespace Scan

variable {α β : Type} {text : List Char} {least : Nat}

/-- The scanner ends on the text without giving up.  Where it succeeds, it has
read at least the given number of characters. -/
def Ends (scan : Scan α) (text : List Char) (least : Nat) : Prop :=
  (∃ value rest, scan text = .success value rest ∧ rest.length + least ≤ text.length) ∨
    (scan text).Mismatched

theorem Ends.mono {scan : Scan α} {fewer : Nat} (h : Ends scan text least)
    (hle : fewer ≤ least) : Ends scan text fewer := by
  rcases h with ⟨value, rest, hsuccess, hrest⟩ | hmismatch
  · exact .inl ⟨value, rest, hsuccess, by omega⟩
  · exact .inr hmismatch

theorem Ends.of_eq {scan scan' : Scan α} {after : List Char} (heq : scan text = scan' after)
    (hlength : after.length ≤ text.length) (h : Ends scan' after 0) : Ends scan text 0 := by
  rw [Ends, heq]
  rcases h with ⟨value, rest, hsuccess, hrest⟩ | hmismatch
  · exact .inl ⟨value, rest, hsuccess, by omega⟩
  · exact .inr hmismatch

theorem Ends.bind {scan : Scan α} {next : α → Scan β} {read : Nat} (h : Ends scan text read)
    (hnext : ∀ value rest, rest.length + read ≤ text.length → Ends (next value) rest 0) :
    Ends (scan >>= next) text 0 := by
  rcases h with ⟨value, mid, hsuccess, hmid⟩ | hmismatch
  · rcases hnext value mid hmid with ⟨value', rest, hsuccess', hrest⟩ | hmismatch'
    · left
      exact ⟨value', rest, bind_eq_success_iff.mpr ⟨value, mid, hsuccess, hsuccess'⟩, by omega⟩
    · right
      exact bind_mismatched_iff.mpr (.inr ⟨value, mid, hsuccess, hmismatch'⟩)
  · right
    exact bind_mismatched_iff.mpr (.inl hmismatch)

theorem bind_of_success {scan : Scan α} {value : α} {rest : List Char}
    (h : scan text = .success value rest) (next : α → Scan β) :
    (scan >>= next) text = next value rest := by
  rw [bind_apply, h]

theorem bind_of_tooDeep {scan : Scan α} (h : scan text = .tooDeep) (next : α → Scan β) :
    (scan >>= next) text = .tooDeep := by
  rw [bind_apply, h]

theorem ends_pure (value : α) : Ends (pure value : Scan α) text 0 :=
  .inl ⟨value, text, rfl, Nat.le_refl _⟩

theorem ends_mismatch (expected : Expectation) : Ends (mismatch expected : Scan α) text least :=
  .inr ⟨expected, text, rfl⟩

theorem ends_expect (literal : String) :
    Ends (Reader.expect literal : Scan Unit) text literal.toList.length := by
  by_cases h : literal.toList <+: text
  · obtain ⟨rest, rfl⟩ := h
    left
    refine ⟨(), rest, expect_eq_success_iff.mpr rfl, ?_⟩
    rw [List.length_append]
    omega
  · exact .inr (expect_mismatched_iff.mpr h)

theorem Ends.accept_bind {literal : String} {next : Bool → Scan β}
    (htrue : ∀ rest, text = literal.toList ++ rest → Ends (next true) rest 0)
    (hfalse : Ends (next false) text 0) : Ends (accept literal >>= next) text 0 := by
  by_cases h : literal.toList <+: text
  · obtain ⟨rest, hrest⟩ := h
    have haccept : accept literal text = .success true rest :=
      accept_eq_true_iff.mpr hrest.symm
    refine Ends.of_eq (bind_of_success haccept next) ?_ (htrue rest hrest.symm)
    rw [← hrest, List.length_append]
    omega
  · have haccept : accept literal text = .success false text :=
      accept_eq_false_iff.mpr ⟨h, rfl⟩
    exact Ends.of_eq (bind_of_success haccept next) (Nat.le_refl _) hfalse

theorem ends_skipBlanks : Ends skipBlanks text 0 :=
  .inl ⟨(), _, rfl, (List.dropWhile_suffix isBlank).length_le⟩

theorem ends_blanks : Ends blanks text 1 := by
  cases text with
  | nil => exact .inr ⟨_, _, rfl⟩
  | cons c text =>
      rw [Ends, blanks]
      split
      · left
        exact ⟨(), _, rfl, Nat.succ_le_succ (List.dropWhile_suffix isBlank).length_le⟩
      · exact .inr ⟨_, _, rfl⟩

theorem ends_path : Ends path text 1 := by
  cases h : path text with
  | success name rest =>
      obtain ⟨hne, _, rfl, _⟩ := path_eq_success_iff.mp h
      have hpos := List.length_pos_iff.mpr hne
      left
      refine ⟨name, rest, h, ?_⟩
      rw [List.length_append]
      omega
  | mismatch expected rest => exact .inr ⟨expected, rest, h⟩
  | tooDeep =>
      rw [path] at h
      split at h <;> cases h

theorem ends_commentText : Ends commentText text 0 := by
  left
  refine ⟨_, _, rfl, ?_⟩
  obtain ⟨ending, htext, _⟩ := commentText_eq_success_iff.mp (rfl : commentText text = _)
  have hlength := congrArg List.length htext
  simp only [List.length_append] at hlength
  omega

theorem ends_quotedTail (frames : Nat) (taken : List Char) :
    Ends (quotedTail (frames + 1) taken) text 0 := by
  fun_induction quotedTail (frames + 1) taken text with
  | case1 taken => exact .inr ⟨_, _, rfl⟩
  | case2 taken rest => exact .inl ⟨_, rest, quotedTail_quote _ _ _, Nat.le_succ _⟩
  | case3 taken rest hframes => cases hframes
  | case4 taken _ rest _ ih =>
      exact Ends.of_eq (quotedTail_escaped _ _ _) (by simp; omega) ih
  | case5 taken _ rest hquote _ ih =>
      have hhead := head?_ne_of_forall_ne hquote
      exact Ends.of_eq (quotedTail_backslash _ _ hhead) (Nat.le_succ _) ih
  | case6 taken c rest hquote hbackslash ih =>
      exact Ends.of_eq (quotedTail_plain _ _ _ hbackslash hquote) (Nat.le_succ _) ih

theorem ends_bareTail (frames : Nat) (taken : List Char) :
    Ends (bareTail (frames + 1) taken) text 0 := by
  fun_induction bareTail (frames + 1) taken text with
  | case1 taken htaken => exact .inr ⟨_, _, by rw [bareTail_nil, if_pos htaken]⟩
  | case2 taken htaken => exact .inl ⟨_, _, by rw [bareTail_nil, if_neg htaken], Nat.le_refl _⟩
  | case3 taken c rest hc htaken =>
      have hmismatch : bareTail (frames + 1) taken (c :: rest) =
          .mismatch .argument (c :: rest) := by
        rw [bareTail_cons, if_pos hc, if_pos htaken]
      exact .inr ⟨_, _, hmismatch⟩
  | case4 taken c rest hc htaken =>
      have hstop : Stops (!endsBare ·) (c :: rest) := by
        simp [stops_cons_iff, hc]
      exact .inl ⟨_, _, bareTail_stop _ (by simpa using htaken) hstop, Nat.le_refl _⟩
  | case5 taken rest hframes => cases hframes
  | case6 taken _ rest _ ih =>
      exact Ends.of_eq (bareTail_escaped _ _ _) (by simp; omega) ih
  | case7 taken _ rest hquote _ ih =>
      have hhead := head?_ne_of_forall_ne hquote
      exact Ends.of_eq (bareTail_backslash _ _ hhead) (Nat.le_succ _) ih
  | case8 taken c rest hc hbackslash ih =>
      exact Ends.of_eq (bareTail_plain _ _ _ hbackslash (by simpa using hc)) (Nat.le_succ _) ih

theorem ends_firstOf {expected : Expectation} {alternatives : List (Scan (Option α))}
    (h : ∀ alternative ∈ alternatives, ∀ mid, mid.length ≤ text.length → Ends alternative mid 0) :
    Ends (Reader.firstOf expected alternatives) text 0 := by
  induction alternatives generalizing text with
  | nil => exact ends_mismatch expected
  | cons alternative alternatives ih =>
      rw [firstOf_cons_eq]
      have hfirst := h alternative (List.mem_cons_self ..) text (Nat.le_refl _)
      refine hfirst.bind fun found mid hmid => ?_
      cases found with
      | some value => exact ends_pure value
      | none =>
          apply ih
          intro other hother after hafter
          exact h other (List.mem_cons_of_mem _ hother) after (by omega)

/-- The step yields something or nothing at the text, and finds no mismatch. -/
def Answers (step : Scan (Option α)) (text : List Char) : Prop :=
  ∃ found rest, step text = .success found rest ∧ rest.length ≤ text.length

theorem exists_repeats {step : Scan (Option α)} (hprogress : Progresses step)
    (h : ∀ mid, mid.length ≤ text.length → Answers step mid) :
    ∃ values rest, Repeats step text values rest ∧
      values.length + rest.length ≤ text.length := by
  induction hlength : text.length using Nat.strongRecOn generalizing text with
  | ind length ih =>
      obtain ⟨found, mid, hstep, hmid⟩ := h text (Nat.le_refl _)
      cases found with
      | none => exact ⟨[], mid, .done hstep, by simpa [hlength] using hmid⟩
      | some value =>
          have hless := hprogress text value mid hstep
          obtain ⟨values, rest, hrest, hvalues⟩ := ih mid.length (by omega)
            (fun after hafter => h after (by omega)) rfl
          refine ⟨value :: values, rest, .more hstep hrest, ?_⟩
          rw [List.length_cons]
          omega

theorem Ends.attempt {scan : Scan α} (h : Ends scan text least) : Answers (attempt scan) text := by
  rcases h with ⟨value, rest, hsuccess, hrest⟩ | hmismatch
  · exact ⟨some value, rest, attempt_eq_some_iff.mpr hsuccess, by omega⟩
  · exact ⟨none, text, attempt_eq_none_iff.mpr ⟨hmismatch, rfl⟩, Nat.le_refl _⟩

theorem ends_many {step : Scan (Option α)} (hprogress : Progresses step)
    (h : ∀ mid, mid.length ≤ text.length → Answers step mid) : Ends (many step) text 0 := by
  obtain ⟨values, rest, hrepeats, hrest⟩ := exists_repeats hprogress h
  exact .inl ⟨values, rest, (many_eq_success_iff hprogress).mpr hrepeats, by omega⟩

end Scan

namespace Production

open Scan

/-- As many frames as reading the production from a text of the given length can
take. -/
def framesFor (length : Nat) : {kind : Kind} → Production kind → Nat
  | _, .script => 5 * length + 8
  | _, .statements => 5 * length + 7
  | _, .statement => 5 * length + 5
  | _, .block => 5 * length + 3
  | _, .conditional => 5 * length + 3
  | _, .otherwise => 5 * length + 1
  | _, .loop => 5 * length + 3
  | _, .comment => 1
  | _, .commandLine => 5 * length + 3
  | _, .command => 5 * length + 2
  | _, .path => 1
  | _, .spacedArgument => 4
  | _, .argument => 3
  | _, .quoted => 2
  | _, .bare => 2
  | _, .escape => 1
  | _, .attempt production => framesFor length production + 1

/-- The given number of frames is enough wherever it should be. -/
def Suffices (frames : Nat) : Prop :=
  ∀ {kind : Kind} (production : Production kind) {text : List Char},
    production.framesFor text.length ≤ frames → Ends (production.scan frames) text 0

variable {frames : Nat} {text : List Char}

theorem answers_of_ends_attempt {kind : Kind} {production : Production kind}
    (h : Ends ((attempt production).scan frames) text 0) :
    Answers ((attempt production).scan frames) text := by
  rcases h with hsuccess | ⟨expected, rest, hmismatch⟩
  · exact hsuccess
  · cases frames with
    | zero => cases hmismatch
    | succ n =>
        rw [scan_attempt, Scan.attempt] at hmismatch
        split at hmismatch <;> cases hmismatch

theorem answers_statementRound (h : Ends ((attempt statement).scan frames) text 0) :
    Answers (statementRound frames) text := by
  obtain ⟨found, mid, hfound, hmid⟩ := answers_of_ends_attempt h
  cases found with
  | none =>
      refine ⟨none, mid, ?_, hmid⟩
      rw [statementRound, bind_apply, hfound]
      rfl
  | some node =>
      have hblanks := (List.dropWhile_suffix isBlank (l := mid)).length_le
      refine ⟨some node, mid.dropWhile isBlank, ?_, by omega⟩
      rw [statementRound, bind_apply, hfound]
      rfl

section

variable (h : Suffices frames)
include h

theorem ends_scan_script (hframes : 5 * text.length + 8 ≤ frames + 1) :
    Ends (script.scan (frames + 1)) text 0 := by
  rw [scan_script]
  refine ends_skipBlanks.bind fun _ after hafter => ?_
  have hstatements : Ends (statements.scan frames) after 0 := by
    apply h
    change 5 * after.length + 7 ≤ frames
    omega
  refine hstatements.bind fun nodes mid _ => ?_
  refine ends_skipBlanks.bind fun _ last _ => ?_
  have hend : Ends atEnd last 0 := .inl ⟨_, _, rfl, Nat.le_refl _⟩
  refine hend.bind fun ended rest _ => ?_
  cases ended with
  | true => exact ends_pure nodes
  | false => exact ends_mismatch _

theorem ends_scan_statements (hframes : 5 * text.length + 7 ≤ frames + 1) :
    Ends (statements.scan (frames + 1)) text 0 := by
  rw [scan_statements]
  apply ends_many (statementRound_progresses fun n _ => sound n)
  intro mid hmid
  apply answers_statementRound
  apply h
  change 5 * mid.length + 5 + 1 ≤ frames
  omega

theorem ends_scan_statement (hframes : 5 * text.length + 5 ≤ frames + 1) :
    Ends (statement.scan (frames + 1)) text 0 := by
  rw [scan_statement]
  apply ends_firstOf
  intro alternative halternative mid hmid
  simp only [List.mem_cons, List.not_mem_nil, or_false] at halternative
  rcases halternative with rfl | rfl | rfl | rfl | rfl
  all_goals
    apply h
    simp only [framesFor]
    omega

theorem ends_scan_block (hframes : 5 * text.length + 3 ≤ frames + 1) :
    Ends (block.scan (frames + 1)) text 0 := by
  rw [scan_block]
  refine (ends_expect openBrace).bind fun _ after hafter => ?_
  have hopen : openBrace.toList.length = 1 := rfl
  refine ends_skipBlanks.bind fun _ inner hinner => ?_
  have hstatements : Ends (statements.scan frames) inner 0 := by
    apply h
    change 5 * inner.length + 7 ≤ frames
    omega
  refine hstatements.bind fun nodes mid _ => ?_
  refine ends_skipBlanks.bind fun _ last _ => ?_
  refine (ends_expect closeBrace).bind fun _ rest _ => ?_
  exact ends_pure _

theorem ends_guarded {β : Type} {keyword : String} {next : Command → Node → Scan β}
    (hframes : 5 * text.length + 3 ≤ frames + 1)
    (hnext : ∀ predicate node rest, rest.length < text.length →
      Ends (next predicate node) rest 0) :
    Ends (do
      Reader.expect keyword
      blanks
      let predicate ← command.scan frames
      skipBlanks
      let node ← statement.scan frames
      next predicate node : Scan β) text 0 := by
  refine (ends_expect keyword).bind fun _ after hafter => ?_
  refine ends_blanks.bind fun _ start hstart => ?_
  have hcommand : Ends (command.scan frames) start 0 := by
    apply h
    change 5 * start.length + 2 ≤ frames
    omega
  refine hcommand.bind fun predicate mid hmid => ?_
  refine ends_skipBlanks.bind fun _ inner hinner => ?_
  have hstatement : Ends (statement.scan frames) inner 0 := by
    apply h
    change 5 * inner.length + 5 ≤ frames
    omega
  refine hstatement.bind fun node rest hrest => ?_
  exact hnext predicate node rest (by omega)

theorem ends_scan_conditional (hframes : 5 * text.length + 3 ≤ frames + 1) :
    Ends (conditional.scan (frames + 1)) text 0 := by
  rw [scan_conditional]
  refine ends_guarded h hframes fun predicate branch tail htail => ?_
  have hotherwise : Ends ((attempt otherwise).scan frames) tail 0 := by
    apply h
    change 5 * tail.length + 1 + 1 ≤ frames
    omega
  refine hotherwise.bind fun other rest _ => ?_
  cases other with
  | some other => exact ends_pure _
  | none => exact ends_pure _

theorem ends_scan_loop (hframes : 5 * text.length + 3 ≤ frames + 1) :
    Ends (loop.scan (frames + 1)) text 0 := by
  rw [scan_loop]
  exact ends_guarded h hframes fun predicate body rest _ => ends_pure _

theorem ends_scan_otherwise (hframes : 5 * text.length + 1 ≤ frames + 1) :
    Ends (otherwise.scan (frames + 1)) text 0 := by
  rw [scan_otherwise]
  refine ends_skipBlanks.bind fun _ start hstart => ?_
  refine (ends_expect "else").bind fun _ after hafter => ?_
  have helse : "else".toList.length = 4 := rfl
  refine ends_skipBlanks.bind fun _ inner hinner => ?_
  apply h
  change 5 * inner.length + 5 ≤ frames
  omega

theorem ends_scan_commandLine (hframes : 5 * text.length + 3 ≤ frames + 1) :
    Ends (commandLine.scan (frames + 1)) text 0 := by
  rw [scan_commandLine]
  have hcommand : Ends (command.scan frames) text 0 := by
    apply h
    change 5 * text.length + 2 ≤ frames
    omega
  refine hcommand.bind fun call mid _ => ?_
  refine ends_skipBlanks.bind fun _ last _ => ?_
  refine (ends_expect ";").bind fun _ rest _ => ?_
  exact ends_pure _

theorem ends_scan_command (hframes : 5 * text.length + 2 ≤ frames + 1) :
    Ends (command.scan (frames + 1)) text 0 := by
  rw [scan_command]
  apply Ends.accept_bind
  · intro after hafter
    have hlength := congrArg List.length hafter
    have hopen : "(".toList.length = 1 := rfl
    rw [List.length_append] at hlength
    refine ends_skipBlanks.bind fun _ inner hinner => ?_
    have hcommand : Ends (command.scan frames) inner 0 := by
      apply h
      change 5 * inner.length + 2 ≤ frames
      omega
    refine hcommand.bind fun call mid _ => ?_
    refine ends_skipBlanks.bind fun _ last _ => ?_
    refine (ends_expect ")").bind fun _ rest _ => ?_
    exact ends_pure _
  · -- A name takes at least one character, which pays for the frames of the arguments.
    have hpath : Ends (path.scan frames) text 1 := by
      obtain ⟨n, rfl⟩ : ∃ n, frames = n + 1 := ⟨frames - 1, by omega⟩
      rw [scan_path]
      exact ends_path
    refine hpath.bind fun name mid hmid => ?_
    have hargs : Ends (many ((attempt spacedArgument).scan frames)) mid 0 := by
      apply ends_many (spacedArgument_progresses frames)
      intro after _
      apply answers_of_ends_attempt
      apply h
      change 4 + 1 ≤ frames
      omega
    refine hargs.bind fun args rest _ => ?_
    exact ends_pure _

theorem ends_scan_spacedArgument (hframes : 4 ≤ frames + 1) :
    Ends (spacedArgument.scan (frames + 1)) text 0 := by
  rw [scan_spacedArgument]
  refine ends_blanks.bind fun _ rest _ => ?_
  apply h
  change 3 ≤ frames
  omega

theorem ends_scan_argument (hframes : 3 ≤ frames + 1) :
    Ends (argument.scan (frames + 1)) text 0 := by
  rw [Ends, scan_argument_apply]
  split
  · exact h quoted (Nat.le_of_succ_le_succ hframes)
  · exact h bare (Nat.le_of_succ_le_succ hframes)

end

theorem ends_scan_quoted (hframes : 2 ≤ frames + 1) : Ends (quoted.scan (frames + 1)) text 0 := by
  obtain ⟨n, rfl⟩ : ∃ n, frames = n + 1 := ⟨frames - 1, by omega⟩
  rw [scan_quoted]
  refine (ends_expect "\"").bind fun _ rest _ => ?_
  exact ends_quotedTail n []

theorem ends_scan_bare (hframes : 2 ≤ frames + 1) : Ends (bare.scan (frames + 1)) text 0 := by
  obtain ⟨n, rfl⟩ : ∃ n, frames = n + 1 := ⟨frames - 1, by omega⟩
  rw [scan_bare]
  exact ends_bareTail n []

theorem ends_scan_escape : Ends (escape.scan (frames + 1)) text 0 := by
  rw [scan_escape]
  refine (ends_expect "\\").bind fun _ after _ => ?_
  apply Ends.accept_bind
  · intro rest _
    exact ends_pure _
  · exact ends_pure _

theorem ends_scan_comment : Ends (comment.scan (frames + 1)) text 0 := by
  rw [scan_comment]
  refine (ends_expect "#").bind fun _ after _ => ?_
  refine ends_commentText.bind fun line rest _ => ?_
  exact ends_pure _

/-- Every number of frames is enough wherever it should be. -/
theorem suffices_all (frames : Nat) : Suffices frames := by
  induction frames with
  | zero =>
      intro kind production text hframes
      cases production <;> simp [framesFor] at hframes
  | succ frames ih =>
      intro kind production text hframes
      cases production with
      | script => exact ends_scan_script ih hframes
      | statements => exact ends_scan_statements ih hframes
      | statement => exact ends_scan_statement ih hframes
      | block => exact ends_scan_block ih hframes
      | conditional => exact ends_scan_conditional ih hframes
      | otherwise => exact ends_scan_otherwise ih hframes
      | loop => exact ends_scan_loop ih hframes
      | comment => exact ends_scan_comment
      | commandLine => exact ends_scan_commandLine ih hframes
      | command => exact ends_scan_command ih hframes
      | path => exact ends_path.mono (Nat.zero_le _)
      | spacedArgument => exact ends_scan_spacedArgument ih hframes
      | argument => exact ends_scan_argument ih hframes
      | quoted => exact ends_scan_quoted hframes
      | bare => exact ends_scan_bare hframes
      | escape => exact ends_scan_escape
      | attempt production =>
          have hends := ih production (Nat.le_of_succ_le_succ hframes)
          exact .inl hends.attempt

theorem exists_repeats_statementRound (hframes : 5 * text.length + 6 ≤ frames) :
    ∃ nodes rest, Repeats (statementRound frames) text nodes rest ∧
      nodes.length + rest.length ≤ text.length := by
  apply exists_repeats (statementRound_progresses fun n _ => sound n)
  intro mid hmid
  apply answers_statementRound
  apply suffices_all
  change 5 * mid.length + 5 + 1 ≤ frames
  omega

theorem exists_repeats_spacedArgument (hframes : 5 ≤ frames) :
    ∃ args rest, Repeats ((attempt spacedArgument).scan frames) text args rest ∧
      args.length + rest.length ≤ text.length := by
  apply exists_repeats (spacedArgument_progresses frames)
  intro mid _
  apply answers_of_ends_attempt
  exact suffices_all frames _ hframes

theorem scan_statements_tooDeep (h : statement.scan frames text = .tooDeep) :
    statements.scan (frames + 2) text = .tooDeep := by
  have hround : statementRound (frames + 1) text = .tooDeep := by
    rw [statementRound, bind_apply, scan_attempt, Scan.attempt, h]
  rw [scan_statements, many, collect.eq_def, hround]

theorem skipBlanks_braces (length : Nat) :
    skipBlanks (List.replicate length '{') = .success () (List.replicate length '{') := by
  have hstops : Stops isBlank (List.replicate length '{') := by
    cases length <;> simp [Stops, List.replicate_succ, isBlank]
  exact skipBlanks_eq_success_iff.mpr (dropWhile_of_stops hstops)

theorem scan_statement_braces (length : Nat) :
    statement.scan (5 * length + 4) (List.replicate length '{') = .tooDeep := by
  -- Every open brace takes five frames, although no statement follows.
  induction length with
  | zero => rfl
  | succ length ih =>
      have hopen : (Reader.expect openBrace : Scan Unit) (List.replicate (length + 1) '{') =
          .success () (List.replicate length '{') :=
        expect_eq_success_iff.mpr rfl
      have hblock : block.scan (5 * length + 7) (List.replicate (length + 1) '{') =
          .tooDeep := by
        rw [scan_block, bind_of_success hopen, bind_of_success (skipBlanks_braces length),
          bind_of_tooDeep (scan_statements_tooDeep ih)]
      have hattempt : (attempt block).scan (5 * length + 8) (List.replicate (length + 1) '{') =
          .tooDeep := by
        rw [scan_attempt, Scan.attempt, hblock]
      change statement.scan (5 * length + 8 + 1) (List.replicate (length + 1) '{') = .tooDeep
      rw [scan_statement, firstOf_cons_eq, bind_of_tooDeep hattempt]

end Production

open Scan Production

theorem readText_of_frames {text : List Char} {frames : Nat}
    (h : 5 * text.length + 8 ≤ frames) :
    (∃ nodes, readText frames text = .ok nodes) ∨
      ∃ expected, readText frames text = .error (.malformed expected) := by
  rw [readText]
  rcases suffices_all frames script h with ⟨nodes, rest, hscan, _⟩ | ⟨expected, rest, hscan⟩
  · left
    exact ⟨nodes, by rw [hscan]⟩
  · right
    exact ⟨expected, by rw [hscan]⟩

theorem readText_braces (length : Nat) :
    readText (5 * length + 7) (List.replicate length '{') = .error .tooDeep := by
  rw [readText, scan_script, bind_of_success (skipBlanks_braces length),
    bind_of_tooDeep (scan_statements_tooDeep (scan_statement_braces length))]

/-- Reading ends on every text.  With five frames for each character and eight
more, a text is read or found malformed, and the limit is not exceeded; no
smaller number is enough, since open braces take all of them.  Every production
ends wherever it is read, its loops included: a loop over statements or
arguments takes at most as many rounds as there are characters before the round
that yields nothing. -/
theorem reading_ends :
    (∀ (text : List Char) (frames : Nat), 5 * text.length + 8 ≤ frames →
      (∃ nodes, readText frames text = .ok nodes) ∨
        ∃ expected, readText frames text = .error (.malformed expected)) ∧
    (∀ {kind : Kind} (production : Production kind) (text : List Char) (frames : Nat),
      production.framesFor text.length ≤ frames → Ends (production.scan frames) text 0) ∧
    (∀ (text : List Char) (frames : Nat), 5 * text.length + 6 ≤ frames →
      ∃ nodes rest, Repeats (statementRound frames) text nodes rest ∧
        nodes.length + rest.length ≤ text.length) ∧
    (∀ (text : List Char) (frames : Nat), 5 ≤ frames →
      ∃ args rest, Repeats ((attempt spacedArgument).scan frames) text args rest ∧
        args.length + rest.length ≤ text.length) ∧
    (∀ length, readText (5 * length + 7) (List.replicate length '{') = .error .tooDeep) := by
  refine ⟨?_, ?_, ?_, ?_, readText_braces⟩
  · intro text frames h
    exact readText_of_frames h
  · intro kind production text frames h
    exact suffices_all frames production h
  · intro text frames h
    exact exists_repeats_statementRound h
  · intro text frames h
    exact exists_repeats_spacedArgument h

/-- A block that is never closed, with a loop that turns out to be none and a
string that does not end. -/
theorem reading_ends_unclosed :
    ((∃ nodes, readText 73 "\x7bwhile a\"\\\"b;".toList = .ok nodes) ∨
      ∃ expected, readText 73 "\x7bwhile a\"\\\"b;".toList = .error (.malformed expected)) ∧
    Ends (quoted.scan 2) "\"\\\"b;".toList 0 ∧
    (∃ nodes rest, Repeats (statementRound 21) "#\n#".toList nodes rest ∧
      nodes.length + rest.length ≤ 3) ∧
    (∃ args rest, Repeats ((attempt spacedArgument).scan 5) " a \"b".toList args rest ∧
      args.length + rest.length ≤ 5) := by
  obtain ⟨htext, hproduction, hstatements, hargs, _⟩ := reading_ends
  refine ⟨htext _ _ (by decide), hproduction quoted _ _ (by decide), hstatements _ _ (by decide),
    hargs _ _ (by decide)⟩

end StatusShell.Grammar
