import StatusShell.Proofs.Concatenation
import StatusShell.Proofs.Positions

namespace StatusShell.Grammar

namespace Cursor

variable {α β : Type}

/-- What a scanner replies to the empty text, and what a step does without moving. -/
inductive Stays (cursor : Cursor) : Reply α → Except Snag α × Cursor → Prop where
  | success {value : α} : Stays cursor (.success value []) (.ok value, cursor)
  | mismatch {expected : Expectation} :
      Stays cursor (.mismatch expected []) (.error (.mismatch expected), cursor)
  | tooDeep : Stays cursor .tooDeep (.error .tooDeep, cursor)

/-- Beyond the end of a text, the step does what the scanner does at the end of one. -/
def Idles (step : Step α) (scan : Scan α) : Prop :=
  ∀ cursor : Cursor, cursor.text.length < cursor.pos → Stays cursor (scan []) (step cursor)

theorem Idles.bind {step : Step α} {scan : Scan α} {next : α → Step β} {next' : α → Scan β}
    (h : Idles step scan) (hnext : ∀ value, Idles (next value) (next' value)) :
    Idles (step >>= next) (scan >>= next') := by
  intro cursor hbeyond
  have hfirst := h cursor hbeyond
  rw [bind_apply, Scan.bind_apply]
  generalize scan [] = reply, step cursor = result at hfirst
  cases hfirst with
  | @success value => exact hnext value cursor hbeyond
  | mismatch => exact .mismatch
  | tooDeep => exact .tooDeep

theorem Idles.attempt {step : Step α} {scan : Scan α} (h : Idles step scan) :
    Idles (attempt step) (Scan.attempt scan) := by
  intro cursor hbeyond
  have hstep := h cursor hbeyond
  rw [Cursor.attempt, Scan.attempt]
  generalize scan [] = reply, step cursor = result at hstep
  cases hstep with
  | success => exact .success
  | mismatch => exact .success
  | tooDeep => exact .tooDeep

theorem Idles.many {step : Step (Option α)} {scan : Scan (Option α)} (h : Idles step scan) :
    Idles (many step) (Scan.many scan) := by
  intro cursor hbeyond
  have hstep := h cursor hbeyond
  -- Neither side has anything left to count its rounds by, so there is one.
  have hbound : (cursor.text.length - cursor.pos).toNat = 0 := by omega
  rw [Cursor.many, hbound, Cursor.collect, bind_apply, Scan.many, Scan.collect]
  generalize scan [] = reply, step cursor = result at hstep
  cases hstep with
  | @success value =>
      cases value with
      | none => exact .success
      | some value => exact .success
  | mismatch => exact .mismatch
  | tooDeep => exact .tooDeep

theorem idles_follow {scan : Scan α} (h : (scan []).Leaves []) : Idles (follow scan) scan := by
  intro cursor hbeyond
  rw [follow, if_pos (by omega), ahead_beyond hbeyond]
  generalize scan [] = reply at h
  cases reply with
  | success value rest =>
      obtain rfl : rest = [] := List.suffix_nil.mp h
      simp only [leave_beyond hbeyond]
      exact .success
  | mismatch expected rest =>
      obtain rfl : rest = [] := List.suffix_nil.mp h
      simp only [leave_beyond hbeyond]
      exact .mismatch
  | tooDeep => exact .tooDeep

theorem isPrefixOf?_nil {literal : String} (h : literal ≠ "") :
    literal.toList.isPrefixOf? [] = none := by
  rw [Scan.isPrefixOf?_eq_none_iff, List.prefix_nil]
  exact fun hnil => h (String.toList_eq_nil_iff.mp hnil)

theorem idles_check (literal : String) (h : literal ≠ "") :
    Idles (check literal) (Scan.ahead literal) := by
  intro cursor hbeyond
  rw [check_beyond hbeyond, Scan.ahead, isPrefixOf?_nil h]
  exact .success

theorem idles_accept (literal : String) (h : literal ≠ "") :
    Idles (accept literal) (Scan.accept literal) := by
  intro cursor hbeyond
  rw [accept_beyond hbeyond, Scan.accept, isPrefixOf?_nil h]
  exact .success

theorem idles_isAtEnd : Idles isAtEnd Scan.atEnd := by
  intro cursor hbeyond
  rw [isAtEnd, decide_eq_true (Int.le_of_lt hbeyond)]
  exact .success

theorem idles_commentText : Idles commentText Scan.commentText := by
  intro cursor hbeyond
  have hend : cursor.lineEnd = cursor.pos := by
    rw [lineEnd, tail_beyond hbeyond, if_pos (by omega)]
    exact Int.add_zero _
  have hseek : seekLineEnd cursor = (.ok (), cursor) := by
    rw [seekLineEnd, hend]
  have hsince : since cursor.pos cursor = (.ok "", cursor) := by
    rw [since, slice, tail_beyond hbeyond, List.take_nil]
  have hclose : closeLine "" cursor = (.ok "", cursor) := by
    rw [closeLine, bind_apply, accept_beyond hbeyond]
    show (accept "\r\n" >>= fun _ => pure "") cursor = _
    rw [bind_apply, accept_beyond hbeyond]
    rfl
  have hsteps : commentText cursor = (.ok "", cursor) := by
    show (seekLineEnd >>= fun _ => since cursor.pos >>= closeLine) cursor = _
    rw [bind_apply, hseek]
    show (since cursor.pos >>= closeLine) cursor = _
    rw [bind_apply, hsince]
    exact hclose
  rw [hsteps]
  exact .success

theorem idles_command {args : Step (List String)} {args' : Scan (List String)} :
    Idles (do command (← path) (← args)) (do return ⟨← Scan.path, ← args'⟩) := by
  intro cursor hbeyond
  show Stays cursor _ ((path >>= fun name => args >>= fun args => command name args) cursor)
  -- There is no name, so the arguments do not matter.
  rw [bind_apply, path_beyond hbeyond]
  exact .mismatch

/-- Cursors beyond the end follow scanners at the end. -/
def idling : Reader.Simulation Step Scan where
  Like := Idles
  pure _ := fun _ _ => .success
  bind := Idles.bind
  mismatch _ := fun _ _ => .mismatch
  tooDeep := fun _ _ => .tooDeep
  tooDeep_bind _ _ := fun _ _ => .tooDeep
  attempt := Idles.attempt
  many := Idles.many
  accept := idles_accept
  ahead := idles_check
  atEnd := idles_isAtEnd
  skipBlanks := idles_follow (List.suffix_refl _)
  blanks := idles_follow (Scan.leaves_blanks [])
  path := by
    intro cursor hbeyond
    show Stays cursor _ (path cursor)
    rw [path_beyond hbeyond]
    exact .mismatch
  commentText := idles_commentText
  quotedTail frames := idles_follow (Scan.leaves_quotedTail frames [] [])
  bareTail frames := idles_follow (Scan.leaves_bareTail frames [] [])
  command _ := idles_command

theorem idles_readWithin (frames : Nat) {kind : Kind} (production : Production kind) :
    Idles (readWithin frames production) (production.scan frames) :=
  production.read_like idling frames

/-- What a scanner replies to the text from a position on, and what is read there. -/
inductive Reads (text : List Char) (start : Nat) : Reply α → Except Snag α × Cursor → Prop where
  | success {value : α} {read rest : List Char} (h : text.drop start = read ++ rest) :
      Reads text start (.success value rest) (.ok value, ⟨text, (start + read.length : Nat)⟩)
  | mismatch {expected : Expectation} {read rest : List Char} (h : text.drop start = read ++ rest) :
      Reads text start (.mismatch expected rest)
        (.error (.mismatch expected), ⟨text, (start + read.length : Nat)⟩)
  | tooDeep {moved : Cursor} : Reads text start .tooDeep (.error .tooDeep, moved)

theorem reads_readWithin (frames : Nat) {kind : Kind} (production : Production kind)
    (text : List Char) (start : Nat) :
    Reads text start (production.scan frames (text.drop start))
      (readWithin frames production ⟨text, start⟩) := by
  by_cases hstart : start ≤ text.length
  · have halike := follows_readWithin frames production (text.take start) (text.drop start)
    rw [← eq_behind hstart] at halike
    generalize production.scan frames (text.drop start) = reply,
      readWithin frames production ⟨text, start⟩ = result at halike
    cases halike with
    | success h =>
        rw [behind_eq hstart h]
        exact .success h
    | mismatch h =>
        rw [behind_eq hstart h]
        exact .mismatch h
    | tooDeep => exact .tooDeep
  · have hdrop : text.drop start = [] := List.drop_eq_nil_of_le (by omega)
    have hnone : text.drop start = [] ++ [] := hdrop
    have hfar : ((text.length : Nat) : Int) < start := by omega
    have hstays := idles_readWithin frames production ⟨text, start⟩ hfar
    rw [hdrop]
    generalize production.scan frames [] = reply,
      readWithin frames production ⟨text, start⟩ = result at hstays
    cases hstays with
    | success => exact .success hnone
    | mismatch => exact .mismatch hnone
    | tooDeep => exact .tooDeep

theorem add_length_le_max {text read rest : List Char} {start : Nat}
    (h : text.drop start = read ++ rest) : start + read.length ≤ max start text.length := by
  have hlength := congrArg List.length h
  rw [List.length_drop, List.length_append] at hlength
  omega

theorem firstOf_attempt_mismatch {expected expected' : Expectation} {steps : List (Step α)}
    {cursor moved : Cursor}
    (h : Reader.firstOf expected (steps.map attempt) cursor =
      (.error (.mismatch expected'), moved)) :
    expected' = expected ∧ moved = cursor := by
  induction steps with
  | nil =>
      cases h
      exact ⟨rfl, rfl⟩
  | cons step steps ih =>
      rw [List.map_cons, Reader.firstOf, bind_apply, attempt] at h
      generalize step cursor = result at h
      rcases result with ⟨snag | value, stopped⟩
      · cases snag with
        | mismatch _ => exact ih h
        | _ => cases h
      · cases h

theorem readWithin_statement_mismatch {frames : Nat} {expected : Expectation}
    {cursor moved : Cursor}
    (h : readWithin frames .statement cursor = (.error (.mismatch expected), moved)) :
    expected = .statement ∧ moved = cursor := by
  rcases frames with _ | _ | frames
  · cases h
  · cases h
  · rw [readWithin_statement] at h
    exact firstOf_attempt_mismatch h

end Cursor

/-- The production is not read from nothing. -/
def Production.consumes : {kind : Kind} → Production kind → Bool
  | _, .script => false
  | _, .statements => false
  | _, .attempt _ => false
  | _, _ => true

theorem Derives.ne_nil {kind : Kind} {production : Production kind} {piece rest : List Char}
    {value : kind.Value} (h : Derives production piece value rest)
    (hconsumes : production.consumes = true) : piece ≠ [] := by
  cases h with
  | word h => exact h.ne_nil
  | command hname _ => exact List.append_ne_nil_of_left_ne_nil hname.ne_nil _
  | blockStatement h => exact (Derives.blockStatement h).statement_ne_nil
  | conditionalStatement h => exact (Derives.conditionalStatement h).statement_ne_nil
  | loopStatement h => exact (Derives.loopStatement h).statement_ne_nil
  | commentStatement h => exact (Derives.commentStatement h).statement_ne_nil
  | commandStatement h => exact (Derives.commandStatement h).statement_ne_nil
  | noStatements | moreStatements | script | attempted | nothing => cases hconsumes
  | parentheses | commandLine | comment | block | ifThen | ifElse | otherwise | loop => simp

namespace Production

open Scan

variable {frames : Nat} {text rest : List Char}

theorem ne_nil_of_scan {kind : Kind} {production : Production kind} {read : List Char}
    {value : kind.Value} (h : production.scan frames (read ++ rest) = .success value rest)
    (hconsumes : production.consumes = true) : read ≠ [] := by
  obtain ⟨piece, hpiece, hderives⟩ := sound frames production h
  obtain rfl := List.append_cancel_right hpiece
  exact hderives.ne_nil hconsumes

theorem not_mismatched_collect {α : Type} {step : Scan (Option α)}
    (h : ∀ text, ¬ (step text).Mismatched) (bound : List Char) (found : List α)
    (text : List Char) : ¬ (collect step bound found text).Mismatched := by
  induction bound generalizing found text with
  | nil =>
      have hstep := h text
      rw [collect]
      generalize step text = reply at hstep
      rcases reply with ⟨_ | value, rest⟩ | _ | _
      · simp [Reply.Mismatched]
      · simp [Reply.Mismatched]
      · exact absurd ⟨_, _, rfl⟩ hstep
      · simp [Reply.Mismatched]
  | cons c bound ih =>
      have hstep := h text
      rw [collect]
      generalize step text = reply at hstep
      rcases reply with ⟨_ | value, rest⟩ | _ | _
      · simp [Reply.Mismatched]
      · exact ih (value :: found) rest
      · exact absurd ⟨_, _, rfl⟩ hstep
      · simp [Reply.Mismatched]

theorem not_mismatched_statements (frames : Nat) (text : List Char) :
    ¬ (statements.scan frames text).Mismatched := by
  rcases frames with _ | frames
  · rintro ⟨_, _, h⟩
    cases h
  · rw [scan_statements]
    refine not_mismatched_collect (fun text h => ?_) text [] text
    rcases bind_mismatched_iff.mp h with h | ⟨found, mid, -, h⟩
    · exact not_mismatched_attempt statement frames text h
    · obtain ⟨_, _, h⟩ := h
      cases found <;> cases h

end Production

namespace Cursor

open Production

variable {frames start : Nat} {text : List Char}

theorem exists_readWithin_stop {kind : Kind} {production : Production kind}
    (h : (readWithin frames production ⟨text, start⟩).1 ≠ .error .tooDeep) :
    ∃ stop : Nat, start ≤ stop ∧ stop ≤ max start text.length ∧
      ((∃ value, readWithin frames production ⟨text, start⟩ = (.ok value, ⟨text, stop⟩) ∧
          (production.consumes = true → start < stop)) ∨
        ∃ expected, readWithin frames production ⟨text, start⟩ =
          (.error (.mismatch expected), ⟨text, stop⟩)) := by
  have hreads := reads_readWithin frames production text start
  generalize hscan : production.scan frames (text.drop start) = reply,
    readWithin frames production ⟨text, start⟩ = result at hreads h
  cases hreads with
  | @success value read rest htext =>
      refine ⟨start + read.length, Nat.le_add_right _ _, add_length_le_max htext, .inl ?_⟩
      refine ⟨value, rfl, fun hconsumes => ?_⟩
      rw [htext] at hscan
      have hread := List.length_pos_iff.mpr (ne_nil_of_scan hscan hconsumes)
      omega
  | @mismatch expected read rest htext =>
      exact ⟨start + read.length, Nat.le_add_right _ _, add_length_le_max htext,
        .inr ⟨expected, rfl⟩⟩
  | tooDeep => exact absurd rfl h

theorem readWithin_mismatch_of_scan {kind : Kind} {production : Production kind}
    (h : (production.scan frames (text.drop start)).Mismatched) :
    ∃ expected stopped,
      readWithin frames production ⟨text, start⟩ = (.error (.mismatch expected), stopped) := by
  obtain ⟨expected, rest, hscan⟩ := h
  have hreads := reads_readWithin frames production text start
  rw [hscan] at hreads
  generalize readWithin frames production ⟨text, start⟩ = result at hreads
  cases hreads with
  | mismatch => exact ⟨expected, _, rfl⟩

theorem exists_readWithin_statements
    (h : (readWithin frames .statements ⟨text, start⟩).1 ≠ .error .tooDeep) :
    ∃ nodes, ∃ stop : Nat,
      readWithin frames .statements ⟨text, start⟩ = (.ok nodes, ⟨text, stop⟩) ∧
        readWithin frames .statement ⟨text, stop⟩ =
          (.error (.mismatch .statement), ⟨text, stop⟩) := by
  have hreads := reads_readWithin frames .statements text start
  have hnever := not_mismatched_statements frames (text.drop start)
  generalize hscan : statements.scan frames (text.drop start) = reply,
    readWithin frames .statements ⟨text, start⟩ = result at hreads h hnever
  cases hreads with
  | @success nodes read rest htext =>
      refine ⟨nodes, start + read.length, rfl, ?_⟩
      have hrest : text.drop (start + read.length) = rest := by
        rw [← List.drop_drop, htext, List.drop_left]
      obtain ⟨n, rfl, hrepeats⟩ := scan_statements_eq_success_iff.mp hscan
      obtain ⟨m, rfl, hmismatch⟩ := exists_scan_statement_mismatched_of_repeats hrepeats
      rw [← hrest] at hmismatch
      obtain ⟨expected, stopped, hstatement⟩ := readWithin_mismatch_of_scan hmismatch
      obtain ⟨rfl, rfl⟩ := readWithin_statement_mismatch hstatement
      -- The list tries a statement two frames below its own limit.
      have hwithin : (readWithin m .statement ⟨text, (start + read.length : Nat)⟩).1 ≠
          .error .tooDeep := by
        rw [hstatement]
        simp
      exact (readWithin_eq_of_le (Nat.le_add_right m 2) hwithin).trans hstatement
  | mismatch => exact absurd ⟨_, _, rfl⟩ hnever
  | tooDeep => exact absurd rfl h

end Cursor

open Cursor

/-- Where readings stop, from any position on, be it beyond the end.  Within the limit, a
reading stops neither before its start nor behind the end of the text, and it gets ahead unless
it may read nothing.  An attempt that fails is back at its start.  A list of statements never
fails and stops where no statement follows. -/
theorem readWithin_stops (frames : Nat) (text : List Char) (start : Nat) :
    (∀ {kind : Kind} (production : Production kind),
      (readWithin frames production ⟨text, start⟩).1 ≠ .error .tooDeep →
        ∃ stop : Nat, start ≤ stop ∧ stop ≤ max start text.length ∧
          ((∃ value, readWithin frames production ⟨text, start⟩ = (.ok value, ⟨text, stop⟩) ∧
              (production.consumes = true → start < stop)) ∨
            ∃ expected, readWithin frames production ⟨text, start⟩ =
              (.error (.mismatch expected), ⟨text, stop⟩))) ∧
    (∀ {kind : Kind} (production : Production kind) (expected : Expectation) (stopped : Cursor),
      readWithin frames production ⟨text, start⟩ = (.error (.mismatch expected), stopped) →
        readWithin (frames + 1) (.attempt production) ⟨text, start⟩ =
          (.ok none, ⟨text, start⟩)) ∧
    ((readWithin frames .statements ⟨text, start⟩).1 ≠ .error .tooDeep →
      ∃ nodes, ∃ stop : Nat,
        readWithin frames .statements ⟨text, start⟩ = (.ok nodes, ⟨text, stop⟩) ∧
          readWithin frames .statement ⟨text, stop⟩ =
            (.error (.mismatch .statement), ⟨text, stop⟩)) := by
  refine ⟨?_, ?_, ?_⟩
  · intro kind production h
    exact exists_readWithin_stop h
  · intro kind production expected stopped h
    rw [readWithin_attempt]
    exact attempt_eq_none_iff.mpr ⟨⟨expected, stopped, h⟩, rfl⟩
  · exact exists_readWithin_statements

/-- The command after the comment lacks its end, and is left for later. -/
theorem readWithin_stops_behind_comment :
    readWithin 12 .statements ⟨"#a\np \"q".toList, 0⟩ =
        (.ok [.comment "a"], ⟨"#a\np \"q".toList, 3⟩) ∧
      readWithin 12 .statement ⟨"#a\np \"q".toList, 3⟩ =
        (.error (.mismatch .statement), ⟨"#a\np \"q".toList, 3⟩) ∧
      (∃ expected, readWithin 12 .commandLine ⟨"#a\np \"q".toList, 3⟩ =
        (.error (.mismatch expected), ⟨"#a\np \"q".toList, 5⟩)) ∧
      readWithin 13 (.attempt .commandLine) ⟨"#a\np \"q".toList, 3⟩ =
        (.ok none, ⟨"#a\np \"q".toList, 3⟩) ∧
      (readWithin 12 .commandLine ⟨"#a\np \"q".toList, 9⟩).2 = ⟨"#a\np \"q".toList, 9⟩ := by
  have hstatements : readWithin 12 .statements ⟨"#a\np \"q".toList, (0 : Nat)⟩ =
      (.ok [.comment "a"], ⟨"#a\np \"q".toList, (3 : Nat)⟩) := by
    decide +kernel
  have hline : readWithin 12 .commandLine ⟨"#a\np \"q".toList, (3 : Nat)⟩ =
      (.error (.mismatch (.literal ";")), ⟨"#a\np \"q".toList, (5 : Nat)⟩) := by
    decide +kernel
  have hbeyond : (readWithin 12 .commandLine ⟨"#a\np \"q".toList, (9 : Nat)⟩).1 ≠
      .error .tooDeep := by
    decide +kernel
  refine ⟨hstatements, ?_, ⟨_, hline⟩, ?_, ?_⟩
  · have hwithin : (readWithin 12 .statements ⟨"#a\np \"q".toList, (0 : Nat)⟩).1 ≠
        .error .tooDeep := by
      rw [hstatements]
      simp
    obtain ⟨nodes, stop, hread, hstop⟩ := (readWithin_stops 12 _ 0).2.2 hwithin
    obtain ⟨-, hmoved⟩ := Prod.mk.inj (hstatements.symm.trans hread)
    have hpos : ((3 : Nat) : Int) = stop := congrArg Cursor.pos hmoved
    obtain rfl : 3 = stop := Int.ofNat.inj hpos
    exact hstop
  · exact (readWithin_stops 12 _ 3).2.1 .commandLine _ _ hline
  · obtain ⟨stop, hstart, hstop, hread⟩ := (readWithin_stops 12 _ 9).1 .commandLine hbeyond
    have hlength : "#a\np \"q".toList.length = 7 := by decide
    obtain rfl : stop = 9 := by omega
    rcases hread with ⟨value, hread, -⟩ | ⟨expected, hread⟩
    · exact congrArg Prod.snd hread
    · exact congrArg Prod.snd hread

end StatusShell.Grammar
