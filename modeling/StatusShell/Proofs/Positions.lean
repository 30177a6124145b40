import StatusShell.Proofs.CursorLimit

namespace StatusShell.Grammar

/-- A relation between the readings of two readers that all steps of theirs respect. -/
structure Reader.Simulation (m n : Type → Type) [Reader m] [Reader n] where
  Like {α : Type} : m α → n α → Prop
  pure {α : Type} (value : α) : Like (Pure.pure value) (Pure.pure value)
  bind {α β : Type} {reading : m α} {reading' : n α} {next : α → m β} {next' : α → n β} :
    Like reading reading' → (∀ value, Like (next value) (next' value)) →
      Like (reading >>= next) (reading' >>= next')
  mismatch {α : Type} (expected : Expectation) :
    Like (Reader.mismatch expected : m α) (Reader.mismatch expected)
  tooDeep {α : Type} : Like (Reader.tooDeep : m α) Reader.tooDeep
  tooDeep_bind {α β : Type} (next : α → m β) (next' : α → n β) :
    Like (Reader.tooDeep >>= next) (Reader.tooDeep >>= next')
  attempt {α : Type} {reading : m α} {reading' : n α} :
    Like reading reading' → Like (Reader.attempt reading) (Reader.attempt reading')
  many {α : Type} {step : m (Option α)} {step' : n (Option α)} :
    Like step step' → Like (Reader.many step) (Reader.many step')
  -- No production looks for the empty text, which stands everywhere or not beyond the end.
  accept (literal : String) :
    literal ≠ "" → Like (Reader.accept literal) (Reader.accept literal)
  ahead (literal : String) : literal ≠ "" → Like (Reader.ahead literal) (Reader.ahead literal)
  atEnd : Like Reader.atEnd Reader.atEnd
  skipBlanks : Like Reader.skipBlanks Reader.skipBlanks
  blanks : Like Reader.blanks Reader.blanks
  path : Like Reader.path Reader.path
  commentText : Like Reader.commentText Reader.commentText
  quotedTail (frames : Nat) : Like (Reader.quotedTail frames) (Reader.quotedTail frames)
  bareTail (frames : Nat) : Like (Reader.bareTail frames) (Reader.bareTail frames)
  /-- A command with a path for its name. -/
  command {args : m (List String)} {args' : n (List String)} : Like args args' →
    Like (do Reader.command (← Reader.path) (← args)) (do Reader.command (← Reader.path) (← args'))

section

variable {m n : Type → Type} [Reader m] [Reader n] (simulation : Reader.Simulation m n)

namespace Reader.Simulation

theorem expect (literal : String) (hliteral : literal ≠ "") :
    simulation.Like (Reader.expect literal) (Reader.expect literal) := by
  rw [Reader.expect, Reader.expect]
  refine simulation.bind (simulation.accept literal hliteral) fun stands => ?_
  cases stands with
  | true => exact simulation.pure ()
  | false => exact simulation.mismatch _

theorem firstOf {α : Type} {expected : Expectation} {alternatives : List (m (Option α))}
    {alternatives' : List (n (Option α))}
    (h : List.Forall₂ simulation.Like alternatives alternatives') :
    simulation.Like (Reader.firstOf expected alternatives)
      (Reader.firstOf expected alternatives') := by
  induction h with
  | nil => exact simulation.mismatch expected
  | cons hfirst _ ih =>
      rw [Reader.firstOf, Reader.firstOf]
      refine simulation.bind hfirst fun value => ?_
      cases value with
      | none => exact ih
      | some value => exact simulation.pure value

end Reader.Simulation

theorem Production.read_like (frames : Nat) {kind : Kind} (production : Production kind) :
    simulation.Like (production.read frames) (production.read frames) := by
  induction frames generalizing kind with
  | zero =>
      rw [read, read]
      exact simulation.tooDeep
  | succ frames ih =>
      cases production with
      | script =>
          rw [read, read]
          refine simulation.bind simulation.skipBlanks fun _ => ?_
          refine simulation.bind (ih statements) fun nodes => ?_
          refine simulation.bind simulation.skipBlanks fun _ => ?_
          refine simulation.bind simulation.atEnd fun ended => ?_
          cases ended with
          | true => exact simulation.pure nodes
          | false => exact simulation.mismatch _
      | statements =>
          rw [read, read]
          apply simulation.many
          refine simulation.bind (ih (attempt statement)) fun found => ?_
          cases found with
          | none => exact simulation.pure none
          | some found => exact simulation.bind simulation.skipBlanks fun _ => simulation.pure _
      | statement =>
          rw [read, read]
          apply simulation.firstOf
          exact .cons (ih _) (.cons (ih _) (.cons (ih _) (.cons (ih _) (.cons (ih _) .nil))))
      | block =>
          rw [read, read]
          refine simulation.bind (simulation.expect openBrace (by decide)) fun _ => ?_
          refine simulation.bind simulation.skipBlanks fun _ => ?_
          refine simulation.bind (ih statements) fun nodes => ?_
          refine simulation.bind simulation.skipBlanks fun _ => ?_
          refine simulation.bind (simulation.expect closeBrace (by decide)) fun _ => ?_
          exact simulation.pure _
      | conditional =>
          rw [read, read]
          refine simulation.bind (simulation.expect "if" (by decide)) fun _ => ?_
          refine simulation.bind simulation.blanks fun _ => ?_
          refine simulation.bind (ih command) fun predicate => ?_
          refine simulation.bind simulation.skipBlanks fun _ => ?_
          refine simulation.bind (ih statement) fun branch => ?_
          refine simulation.bind (ih (attempt otherwise)) fun other => ?_
          cases other with
          | none => exact simulation.pure _
          | some other => exact simulation.pure _
      | otherwise =>
          rw [read, read]
          refine simulation.bind simulation.skipBlanks fun _ => ?_
          refine simulation.bind (simulation.expect "else" (by decide)) fun _ => ?_
          refine simulation.bind simulation.skipBlanks fun _ => ?_
          exact ih statement
      | loop =>
          rw [read, read]
          refine simulation.bind (simulation.expect "while" (by decide)) fun _ => ?_
          refine simulation.bind simulation.blanks fun _ => ?_
          refine simulation.bind (ih command) fun predicate => ?_
          refine simulation.bind simulation.skipBlanks fun _ => ?_
          refine simulation.bind (ih statement) fun body => ?_
          exact simulation.pure _
      | comment =>
          rw [read, read]
          refine simulation.bind (simulation.expect "#" (by decide)) fun _ => ?_
          exact simulation.bind simulation.commentText fun text => simulation.pure _
      | commandLine =>
          rw [read, read]
          refine simulation.bind (ih command) fun call => ?_
          refine simulation.bind simulation.skipBlanks fun _ => ?_
          exact simulation.bind (simulation.expect ";" (by decide)) fun _ => simulation.pure _
      | command =>
          rw [read, read]
          refine simulation.bind (simulation.accept "(" (by decide)) fun opened => ?_
          cases opened with
          | true =>
              refine simulation.bind simulation.skipBlanks fun _ => ?_
              refine simulation.bind (ih command) fun call => ?_
              refine simulation.bind simulation.skipBlanks fun _ => ?_
              exact simulation.bind (simulation.expect ")" (by decide)) fun _ => simulation.pure _
          | false =>
              cases frames with
              | zero => exact simulation.tooDeep_bind _ _
              | succ frames =>
                  exact simulation.command (simulation.many (ih (attempt spacedArgument)))
      | path =>
          rw [read, read]
          exact simulation.path
      | spacedArgument =>
          rw [read, read]
          exact simulation.bind simulation.blanks fun _ => ih argument
      | argument =>
          rw [read, read]
          refine simulation.bind (simulation.ahead "\"" (by decide)) fun isQuoted => ?_
          cases isQuoted with
          | true => exact ih quoted
          | false => exact ih bare
      | quoted =>
          rw [read, read]
          refine simulation.bind (simulation.expect "\"" (by decide)) fun _ => ?_
          exact simulation.quotedTail frames
      | bare =>
          rw [read, read]
          exact simulation.bareTail frames
      | escape =>
          rw [read, read, Reader.escape, Reader.escape]
          refine simulation.bind (simulation.expect "\\" (by decide)) fun _ => ?_
          refine simulation.bind (simulation.accept "\"" (by decide)) fun isQuote => ?_
          cases isQuote with
          | true => exact simulation.pure _
          | false => exact simulation.pure _
      | attempt production =>
          rw [read, read]
          exact simulation.attempt (ih production)

end

/-- The reply leaves the last part of the text, also if it is a mismatch. -/
def Reply.Leaves {α : Type} (text : List Char) : Reply α → Prop
  | .success _ rest => rest <:+ text
  | .mismatch _ rest => rest <:+ text
  | .tooDeep => True

theorem Reply.Leaves.mono {α : Type} {text whole : List Char} {reply : Reply α}
    (h : reply.Leaves text) (hsuffix : text <:+ whole) : reply.Leaves whole := by
  cases reply with
  | success value rest => exact List.IsSuffix.trans h hsuffix
  | mismatch expected rest => exact List.IsSuffix.trans h hsuffix
  | tooDeep => trivial

namespace Scan

theorem leaves_blanks (text : List Char) : (blanks text).Leaves text := by
  rw [blanks.eq_def]
  split
  · exact List.suffix_refl _
  · next c rest =>
      split
      · exact (List.dropWhile_suffix _).trans (List.suffix_cons c rest)
      · exact List.suffix_refl _

theorem leaves_path (text : List Char) : (path text).Leaves text := by
  rw [path]
  split
  · exact List.suffix_refl _
  · exact List.dropWhile_suffix _

theorem leaves_quotedTail (frames : Nat) (taken text : List Char) :
    (quotedTail frames taken text).Leaves text := by
  fun_induction quotedTail frames taken text with
  | case1 taken => exact List.suffix_refl _
  | case2 taken rest => exact List.suffix_cons _ rest
  | case3 => trivial
  | case4 taken _ rest _ ih => exact ih.mono ((List.suffix_cons _ _).trans (List.suffix_cons _ _))
  | case5 taken _ rest _ _ ih => exact ih.mono (List.suffix_cons _ _)
  | case6 taken c rest _ _ ih => exact ih.mono (List.suffix_cons _ _)

theorem leaves_bareTail (frames : Nat) (taken text : List Char) :
    (bareTail frames taken text).Leaves text := by
  fun_induction bareTail frames taken text with
  | case1 | case2 | case3 | case4 => exact List.suffix_refl _
  | case5 => trivial
  | case6 taken _ rest _ ih => exact ih.mono ((List.suffix_cons _ _).trans (List.suffix_cons _ _))
  | case7 taken _ rest _ _ ih => exact ih.mono (List.suffix_cons _ _)
  | case8 taken c rest _ _ ih => exact ih.mono (List.suffix_cons _ _)

end Scan

namespace Cursor

variable {α β : Type}

/-- The cursor behind the first of two parts of a text. -/
def behind (before after : List Char) : Cursor := ⟨before ++ after, before.length⟩

theorem place_natCast (cursor : Cursor) (pos : Nat) : cursor.place pos = pos := by
  rw [place, if_pos (Int.natCast_nonneg pos), Int.toNat_natCast]

theorem tail_behind (before after : List Char) :
    (behind before after).tail before.length = after := by
  rw [tail, place_natCast]
  exact List.drop_left

theorem ahead_behind (before after : List Char) : (behind before after).ahead = after := by
  have hpos : 0 ≤ (behind before after).pos := Int.natCast_nonneg before.length
  rw [ahead, if_pos hpos]
  exact tail_behind before after

theorem leave_behind (before read rest : List Char) :
    (behind before (read ++ rest)).leave rest = behind (before ++ read) rest := by
  simp [leave, ahead_behind]
  simp [behind]

/-- What a scanner replies to a text, and what a step does behind the text before it. -/
inductive Alike (before text : List Char) : Reply α → Except Snag α × Cursor → Prop where
  | success {value : α} {read rest : List Char} (h : text = read ++ rest) :
      Alike before text (.success value rest) (.ok value, behind (before ++ read) rest)
  | mismatch {expected : Expectation} {read rest : List Char} (h : text = read ++ rest) :
      Alike before text (.mismatch expected rest)
        (.error (.mismatch expected), behind (before ++ read) rest)
  | tooDeep {moved : Cursor} : Alike before text .tooDeep (.error .tooDeep, moved)

/-- The step reads behind any text as the scanner does. -/
def Follows (step : Step α) (scan : Scan α) : Prop :=
  ∀ before text, Alike before text (scan text) (step (behind before text))

theorem alike_stay (before text : List Char) (value : α) :
    Alike before text (.success value text) (.ok value, behind before text) := by
  have h : Alike before text (.success value text) (.ok value, behind (before ++ []) text) :=
    .success rfl
  rwa [List.append_nil] at h

theorem follows_mismatch (expected : Expectation) :
    Follows (fail (.mismatch expected) : Step α) (Scan.mismatch expected) := by
  intro before text
  have h : Alike before text (.mismatch expected text : Reply α)
      (.error (.mismatch expected), behind (before ++ []) text) := .mismatch rfl
  rwa [List.append_nil] at h

theorem Alike.further {before text read rest : List Char} {reply : Reply α}
    {result : Except Snag α × Cursor} (h : Alike (before ++ read) rest reply result)
    (htext : text = read ++ rest) : Alike before text reply result := by
  cases h with
  | @success value more rest h =>
      rw [List.append_assoc]
      exact .success (by rw [htext, h, List.append_assoc])
  | @mismatch expected more rest h =>
      rw [List.append_assoc]
      exact .mismatch (by rw [htext, h, List.append_assoc])
  | tooDeep => exact .tooDeep

theorem Follows.bind {step : Step α} {scan : Scan α} {next : α → Step β} {next' : α → Scan β}
    (h : Follows step scan) (hnext : ∀ value, Follows (next value) (next' value)) :
    Follows (step >>= next) (scan >>= next') := by
  intro before text
  have hfirst := h before text
  rw [bind_apply, Scan.bind_apply]
  generalize scan text = reply, step (behind before text) = result at hfirst
  cases hfirst with
  | @success value read rest htext => exact (hnext value (before ++ read) rest).further htext
  | mismatch htext => exact .mismatch htext
  | tooDeep => exact .tooDeep

theorem Follows.attempt {step : Step α} {scan : Scan α} (h : Follows step scan) :
    Follows (attempt step) (Scan.attempt scan) := by
  intro before text
  have hstep := h before text
  rw [Cursor.attempt, Scan.attempt]
  generalize scan text = reply, step (behind before text) = result at hstep
  cases hstep with
  | success htext => exact .success htext
  | mismatch htext => exact alike_stay before text none
  | tooDeep => exact .tooDeep

theorem Follows.collect {step : Step (Option α)} {scan : Scan (Option α)} (h : Follows step scan)
    (bound : List Char) (found : List α) :
    Follows (collect step bound.length found) (Scan.collect scan bound found) := by
  induction bound generalizing found with
  | nil =>
      intro before text
      have hstep := h before text
      rw [Cursor.collect, Scan.collect, bind_apply]
      generalize scan text = reply, step (behind before text) = result at hstep
      cases hstep with
      | @success value read rest htext =>
          cases value with
          | none => exact .success htext
          | some value => exact .success htext
      | mismatch htext => exact .mismatch htext
      | tooDeep => exact .tooDeep
  | cons c bound ih =>
      intro before text
      have hstep := h before text
      rw [List.length_cons, Cursor.collect, Scan.collect, bind_apply]
      generalize scan text = reply, step (behind before text) = result at hstep
      cases hstep with
      | @success value read rest htext =>
          cases value with
          | none => exact .success htext
          | some value => exact (ih (value :: found) (before ++ read) rest).further htext
      | mismatch htext => exact .mismatch htext
      | tooDeep => exact .tooDeep

theorem Follows.many {step : Step (Option α)} {scan : Scan (Option α)} (h : Follows step scan) :
    Follows (many step) (Scan.many scan) := by
  intro before text
  have hbound : ((behind before text).text.length - (behind before text).pos).toNat =
      text.length := by
    simp only [behind, List.length_append]
    omega
  rw [Cursor.many, hbound]
  exact h.collect text [] before text

theorem follows_follow {scan : Scan α} (h : ∀ text, (scan text).Leaves text) :
    Follows (follow scan) scan := by
  intro before text
  have hleaves := h text
  have hpos : 0 ≤ (behind before text).pos + (behind before text).text.length :=
    Int.add_nonneg (Int.natCast_nonneg _) (Int.natCast_nonneg _)
  rw [follow, if_pos hpos, ahead_behind]
  cases hreply : scan text with
  | success value rest =>
      rw [hreply] at hleaves
      obtain ⟨read, rfl⟩ := hleaves
      simp only [leave_behind]
      exact .success rfl
  | mismatch expected rest =>
      rw [hreply] at hleaves
      obtain ⟨read, rfl⟩ := hleaves
      simp only [leave_behind]
      exact .mismatch rfl
  | tooDeep => exact .tooDeep

theorem check_behind (literal : String) (before text : List Char) :
    check literal (behind before text) =
      (.ok (literal.toList.isPrefixOf? text).isSome, behind before text) := by
  have hpos : (behind before text).pos ≤ (behind before text).text.length := by
    simp only [behind, List.length_append]
    omega
  rw [check, decide_eq_true hpos, Bool.true_and, List.isSome_isPrefixOf?_eq_isPrefixOf]
  exact congrArg (fun tail => (Except.ok (literal.toList.isPrefixOf tail), _))
    (tail_behind before text)

theorem follows_check (literal : String) : Follows (check literal) (Scan.ahead literal) := by
  intro before text
  rw [check_behind]
  exact alike_stay before text _

theorem accept_of_begins (literal : String) (before rest : List Char) :
    accept literal (behind before (literal.toList ++ rest)) =
      (.ok true, behind (before ++ literal.toList) rest) := by
  have hafter : literal.toList.isPrefixOf? (literal.toList ++ rest) = some rest :=
    List.isPrefixOf?_eq_some_iff_append_eq.mpr rfl
  have hmoved : behind (before ++ literal.toList) rest =
      { behind before (literal.toList ++ rest) with
        pos := (behind before (literal.toList ++ rest)).pos + literal.length } := by
    simp [behind, String.length_toList]
  rw [accept, bind_apply, check_behind, hafter, hmoved]
  rfl

theorem accept_of_not_begins {literal : String} {text : List Char}
    (h : ¬ literal.toList <+: text) (before : List Char) :
    accept literal (behind before text) = (.ok false, behind before text) := by
  rw [accept, bind_apply, check_behind, Scan.isPrefixOf?_eq_none_iff.mpr h]
  rfl

theorem follows_accept (literal : String) : Follows (accept literal) (Scan.accept literal) := by
  intro before text
  by_cases h : literal.toList <+: text
  · obtain ⟨rest, rfl⟩ := h
    rw [accept_of_begins, Scan.accept_eq_true_iff.mpr rfl]
    exact .success rfl
  · rw [accept_of_not_begins h, Scan.accept_eq_false_iff.mpr ⟨h, rfl⟩]
    exact alike_stay before text false

theorem follows_isAtEnd : Follows isAtEnd Scan.atEnd := by
  intro before text
  have hend : decide (((behind before text).text.length : Int) ≤ (behind before text).pos) =
      text.isEmpty := by
    cases text with
    | nil => simp [behind]
    | cons c text =>
        rw [List.isEmpty_cons, decide_eq_false_iff_not]
        simp only [behind, List.length_append, List.length_cons]
        omega
  rw [isAtEnd, hend]
  exact alike_stay before text _

theorem since_behind (before read rest : List Char) :
    since before.length (behind (before ++ read) rest) =
      (.ok (String.ofList read), behind (before ++ read) rest) := by
  have htail : (behind (before ++ read) rest).tail before.length = read ++ rest := by
    rw [tail, place_natCast, behind, List.append_assoc, List.drop_left]
  have hplace : (behind (before ++ read) rest).place (behind (before ++ read) rest).pos =
      before.length + read.length := by
    rw [← List.length_append]
    exact place_natCast _ _
  rw [since, slice, htail, hplace, place_natCast, Nat.add_sub_cancel_left, List.take_left]

theorem follows_path : Follows path Scan.path := by
  intro before text
  have hpath := follows_follow Scan.leaves_path before text
  show Alike before text _ ((do let _ ← follow Scan.path; since before.length : Step String)
    (behind before text))
  rw [bind_apply]
  generalize hreply : Scan.path text = reply, follow Scan.path (behind before text) = result
    at hpath
  cases hpath with
  | @success name read rest htext =>
      obtain ⟨_, _, hname, _⟩ := Scan.path_eq_success_iff.mp hreply
      obtain rfl : name.toList = read := List.append_cancel_right (hname.symm.trans htext)
      show Alike before text _ (since before.length (behind (before ++ name.toList) rest))
      rw [since_behind, String.ofList_toList]
      exact .success htext
  | mismatch htext => exact .mismatch htext
  | tooDeep => exact .tooDeep

theorem seekLineEnd_behind {text line rest : List Char} (h : Scan.commentLine [] text = (line, rest))
    (before after : List Char) (htext : text = line ++ after) :
    seekLineEnd (behind before text) = (.ok (), behind (before ++ line) after) := by
  have hend : (behind before text).lineEnd = (before ++ line).length := by
    have hpos : 0 ≤ (behind before text).pos := Int.natCast_nonneg before.length
    have htail : (behind before text).tail (behind before text).pos = text :=
      tail_behind before text
    rw [lineEnd, htail, h, if_pos hpos, List.length_append]
    exact (Int.natCast_add _ _).symm
  rw [seekLineEnd, hend, htext, behind, ← List.append_assoc]
  rfl

/-- Read the line end of a comment, if there is one. -/
def closeLine (value : String) : Step String := do
  unless ← accept "\n" do
    let _ ← accept "\r\n"
  pure value

theorem closeLine_behind {line ending rest : List Char} (h : LineEnd line ending rest)
    (value : String) (before : List Char) :
    closeLine value (behind before (ending ++ rest)) =
      (.ok value, behind (before ++ ending) rest) := by
  rw [closeLine, bind_apply]
  cases h with
  | feed =>
      have haccept : accept "\n" (behind before (['\n'] ++ rest)) = _ :=
        accept_of_begins "\n" before rest
      rw [haccept]
      rfl
  | returnFeed =>
      have haccept : accept "\r\n" (behind before (['\r', '\n'] ++ rest)) = _ :=
        accept_of_begins "\r\n" before rest
      rw [accept_of_not_begins (by simp)]
      show (accept "\r\n" >>= fun _ => pure value) (behind before (['\r', '\n'] ++ rest)) = _
      rw [bind_apply, haccept]
      rfl
  | endOfText =>
      rw [List.append_nil, List.append_nil, accept_of_not_begins (by simp)]
      show (accept "\r\n" >>= fun _ => pure value) (behind before []) = _
      rw [bind_apply, accept_of_not_begins (by simp)]
      rfl

theorem follows_commentText : Follows commentText Scan.commentText := by
  intro before text
  obtain ⟨line, ending, rest, hline, htext, -, hend⟩ := Scan.commentLine_spec [] text
  rw [List.append_assoc] at htext
  have hreply : Scan.commentText text = .success (String.ofList line) rest := by
    rw [Scan.commentText, hline]
    rfl
  have hsteps : commentText (behind before text) =
      (.ok (String.ofList line), behind (before ++ line ++ ending) rest) := by
    show (seekLineEnd >>= fun _ => since before.length >>= closeLine) (behind before text) = _
    rw [bind_apply, seekLineEnd_behind hline before (ending ++ rest) htext]
    show (since before.length >>= closeLine) (behind (before ++ line) (ending ++ rest)) = _
    rw [bind_apply, since_behind]
    exact closeLine_behind hend (String.ofList line) (before ++ line)
  rw [hreply, hsteps, List.append_assoc]
  exact .success (by rw [htext, List.append_assoc])

theorem follows_command {args : Step (List String)} {args' : Scan (List String)}
    (h : Follows args args') :
    Follows (do command (← path) (← args)) (do return ⟨← Scan.path, ← args'⟩) := by
  intro before text
  have hpath := follows_path before text
  show Alike before text ((Scan.path >>= fun name => args' >>= fun args => pure ⟨name, args⟩) text)
    ((path >>= fun name => args >>= fun args => command name args) (behind before text))
  rw [bind_apply, Scan.bind_apply]
  generalize hreply : Scan.path text = reply, path (behind before text) = result at hpath
  cases hpath with
  | @success name read rest htext =>
      obtain ⟨hne, _⟩ := Scan.path_eq_success_iff.mp hreply
      have hname : name ≠ "" := by
        rintro rfl
        exact hne rfl
      have hnext : Follows (args >>= fun args => command name args)
          (args' >>= fun args => pure ⟨name, args⟩) := by
        refine h.bind fun args => ?_
        rw [command, Command.make, if_neg hname]
        exact fun before text => alike_stay before text _
      exact (hnext (before ++ read) rest).further htext
  | mismatch htext => exact .mismatch htext
  | tooDeep => exact .tooDeep

/-- Cursors follow scanners. -/
def simulation : Reader.Simulation Step Scan where
  Like := Follows
  pure value := fun before text => alike_stay before text value
  bind := Follows.bind
  mismatch := follows_mismatch
  tooDeep := fun _ _ => .tooDeep
  tooDeep_bind _ _ := fun _ _ => .tooDeep
  attempt := Follows.attempt
  many := Follows.many
  accept literal _ := follows_accept literal
  ahead literal _ := follows_check literal
  atEnd := follows_isAtEnd
  skipBlanks := follows_follow fun _ => List.dropWhile_suffix _
  blanks := follows_follow Scan.leaves_blanks
  path := follows_path
  commentText := follows_commentText
  quotedTail frames := follows_follow (Scan.leaves_quotedTail frames [])
  bareTail frames := follows_follow (Scan.leaves_bareTail frames [])
  command := follows_command

theorem follows_readWithin (frames : Nat) {kind : Kind} (production : Production kind) :
    Follows (readWithin frames production) (production.scan frames) :=
  production.read_like simulation frames

theorem readWithin_of_scan {most frames : Nat} {kind : Kind} {production : Production kind}
    {text rest : List Char} {value : kind.Value} (h : production.scan most text = .success value rest)
    {before : List Char}
    (hlimit : (readWithin frames production (behind before text)).1 ≠ .error .tooDeep) :
    ∃ read, text = read ++ rest ∧
      readWithin frames production (behind before text) = (.ok value, behind (before ++ read) rest) := by
  have halike := follows_readWithin frames production before text
  have hscan : production.scan frames text = .success value rest := by
    rcases Nat.le_total frames most with hle | hle
    · rcases Production.scan_approximates_of_le hle production text with hdeep | heq
      · rw [hdeep] at halike
        generalize readWithin frames production (behind before text) = result at halike hlimit
        cases halike
        exact absurd rfl hlimit
      · rw [heq, h]
    · rcases Production.scan_approximates_of_le hle production text with hdeep | heq
      · rw [hdeep] at h
        cases h
      · rw [← heq, h]
  rw [hscan] at halike
  generalize readWithin frames production (behind before text) = result at halike
  cases halike with
  | @success _ read _ htext => exact ⟨read, htext, rfl⟩

theorem extract_eq_of_drop_eq {text piece : List Char} {start stop : Nat} (hle : start ≤ stop)
    (hstop : stop ≤ text.length) (h : text.drop start = piece ++ text.drop stop) :
    text.extract start stop = piece := by
  have hlength := congrArg List.length h
  rw [List.length_append, List.length_drop, List.length_drop] at hlength
  have hread : stop - start = piece.length := by omega
  rw [List.extract_eq_take_drop, h, hread, List.take_left]

theorem drop_eq_extract_append {start stop : Nat} (hle : start ≤ stop) (text : List Char) :
    text.drop start = text.extract start stop ++ text.drop stop := by
  have hdrop : text.drop stop = (text.drop start).drop (stop - start) := by
    rw [List.drop_drop, Nat.add_sub_cancel' hle]
  rw [List.extract_eq_take_drop, hdrop, List.take_append_drop]

theorem readWithin_append {frames : Nat} {kind : Kind} {production : Production kind}
    {piece after : List Char} {value : kind.Value}
    (h : production.scan frames (piece ++ after) = .success value after) (before : List Char) :
    readWithin frames production ⟨before ++ piece ++ after, before.length⟩ =
      (.ok value, ⟨before ++ piece ++ after, (before.length + piece.length : Nat)⟩) := by
  have halike := follows_readWithin frames production before (piece ++ after)
  rw [h, behind, ← List.append_assoc] at halike
  generalize readWithin frames production ⟨before ++ piece ++ after, before.length⟩ = result
    at halike
  cases halike with
  | @success _ read _ htext =>
      obtain rfl := List.append_cancel_right htext
      rw [behind, List.length_append]

section

variable {text : List Char} {start : Nat} (hstart : start ≤ text.length)
include hstart

theorem eq_behind : (⟨text, start⟩ : Cursor) = behind (text.take start) (text.drop start) := by
  rw [behind, List.take_append_drop, List.length_take_of_le hstart]

theorem behind_eq {read rest : List Char} (h : text.drop start = read ++ rest) :
    behind (text.take start ++ read) rest = ⟨text, (start + read.length : Nat)⟩ := by
  rw [behind, List.append_assoc, ← h, List.take_append_drop, List.length_append,
    List.length_take_of_le hstart]

theorem readWithin_cases (frames : Nat) {kind : Kind} (production : Production kind) :
    (∃ value stopped, readWithin frames production ⟨text, start⟩ = (.ok value, stopped)) ∨
      (∃ expected stopped,
        readWithin frames production ⟨text, start⟩ = (.error (.mismatch expected), stopped)) ∨
      (readWithin frames production ⟨text, start⟩).1 = .error .tooDeep := by
  have halike := follows_readWithin frames production (text.take start) (text.drop start)
  rw [← eq_behind hstart] at halike
  generalize production.scan frames (text.drop start) = reply,
    readWithin frames production ⟨text, start⟩ = result at halike
  cases halike with
  | success htext => exact .inl ⟨_, _, rfl⟩
  | mismatch htext => exact .inr (.inl ⟨_, _, rfl⟩)
  | tooDeep => exact .inr (.inr rfl)

/-- A production is read from one position to another as it is scanned from the one text to
the other. -/
theorem readWithin_eq_ok_iff {frames : Nat} {kind : Kind} {production : Production kind}
    {value : kind.Value} {stopped : Cursor} :
    readWithin frames production ⟨text, start⟩ = (.ok value, stopped) ↔
      ∃ stop : Nat, stopped = ⟨text, stop⟩ ∧ start ≤ stop ∧ stop ≤ text.length ∧
        production.scan frames (text.drop start) = .success value (text.drop stop) := by
  have halike := follows_readWithin frames production (text.take start) (text.drop start)
  rw [← eq_behind hstart] at halike
  constructor
  · intro h
    rw [h] at halike
    generalize production.scan frames (text.drop start) = reply at halike
    cases halike with
    | @success _ read rest htext =>
        have hdrop : text.drop (start + read.length) = rest := by
          rw [← List.drop_drop, htext, List.drop_left]
        have hlength := congrArg List.length htext
        rw [List.length_drop, List.length_append] at hlength
        refine ⟨start + read.length, behind_eq hstart htext, by omega, by omega, ?_⟩
        rw [hdrop]
  · rintro ⟨stop, rfl, hle, hstop, hscan⟩
    rw [hscan] at halike
    generalize readWithin frames production ⟨text, start⟩ = result at halike
    cases halike with
    | @success _ read _ htext =>
        have hlength := congrArg List.length htext
        rw [List.length_append, List.length_drop, List.length_drop] at hlength
        rw [behind_eq hstart htext]
        have hread : start + read.length = stop := by omega
        rw [hread]

theorem readWithin_tooDeep_iff {frames : Nat} {kind : Kind} {production : Production kind} :
    (readWithin frames production ⟨text, start⟩).1 = .error .tooDeep ↔
      production.scan frames (text.drop start) = .tooDeep := by
  have halike := follows_readWithin frames production (text.take start) (text.drop start)
  rw [← eq_behind hstart] at halike
  generalize production.scan frames (text.drop start) = reply,
    readWithin frames production ⟨text, start⟩ = result at halike
  cases halike with
  | success htext => simp
  | mismatch htext => simp
  | tooDeep => simp

end

section

variable {cursor : Cursor} (hbeyond : cursor.text.length < cursor.pos)
include hbeyond

theorem tail_beyond : cursor.tail cursor.pos = [] := by
  have hplace : cursor.text.length ≤ cursor.place cursor.pos := by
    rw [place, if_pos (by omega)]
    omega
  rw [tail, List.drop_eq_nil_of_le hplace]

theorem ahead_beyond : cursor.ahead = [] := by
  rw [ahead, if_pos (by omega), tail_beyond hbeyond]

theorem leave_beyond : cursor.leave [] = cursor := by
  simp [leave, ahead_beyond hbeyond]

theorem check_beyond (literal : String) : check literal cursor = (.ok false, cursor) := by
  rw [check, decide_eq_false (Int.not_le.mpr hbeyond), Bool.false_and]

theorem accept_beyond (literal : String) : accept literal cursor = (.ok false, cursor) := by
  rw [accept, bind_apply, check_beyond hbeyond]
  rfl

theorem follow_beyond {scan : Scan α} {expected : Expectation}
    (h : scan [] = .mismatch expected []) :
    follow scan cursor = (.error (.mismatch expected), cursor) := by
  rw [follow, if_pos (by omega), ahead_beyond hbeyond, h]
  simp only [leave_beyond hbeyond]

theorem path_beyond : path cursor = (.error (.mismatch .path), cursor) := by
  have hfollow : follow Scan.path cursor = (.error (.mismatch .path), cursor) :=
    follow_beyond hbeyond rfl
  show (follow Scan.path >>= fun _ => since cursor.pos) cursor = _
  rw [bind_apply, hfollow]

end

end Cursor

end StatusShell.Grammar
