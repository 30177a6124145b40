import StatusShell.Proofs.Positions

namespace StatusShell.Grammar

namespace Cursor

variable {α β : Type}

/-- The cursor at a position that is counted from behind a first part of the text. -/
def past (before text : List Char) (start : Nat) : Cursor :=
  ⟨before ++ text, (before.length + start : Nat)⟩

/-- What is done behind more text, and what is done without it: the answer is the same, and
so is how far the cursor is from where the text begins. -/
inductive Carried (before text : List Char) :
    Except Snag α × Cursor → Except Snag α × Cursor → Prop where
  | intro (answer : Except Snag α) (stop : Nat) :
      Carried before text (answer, past before text stop) (answer, ⟨text, stop⟩)

/-- The first step does behind any text what the second one does without it. -/
def Carries (step step' : Step α) : Prop :=
  ∀ before text (start : Nat),
    Carried before text (step (past before text start)) (step' ⟨text, start⟩)

theorem carries_pure (value : α) : Carries (pure value) (pure value) :=
  fun _ _ start => .intro (.ok value) start

theorem carries_fail (snag : Snag) : Carries (fail snag : Step α) (fail snag) :=
  fun _ _ start => .intro (.error snag) start

section

variable {before text : List Char} {start : Nat}

theorem Carried.bind {step step' : Step α} {next next' : α → Step β}
    (h : Carried before text (step (past before text start)) (step' ⟨text, start⟩))
    (hnext : ∀ value (stop : Nat),
      Carried before text (next value (past before text stop)) (next' value ⟨text, stop⟩)) :
    Carried before text ((step >>= next) (past before text start))
      ((step' >>= next') ⟨text, start⟩) := by
  rw [bind_apply, bind_apply]
  generalize step (past before text start) = result, step' ⟨text, start⟩ = result' at h
  obtain ⟨snag | value, stop⟩ := h
  · exact .intro (.error snag) stop
  · exact hnext value stop

theorem Carried.exists_eq {result result' : Except Snag α × Cursor}
    (h : Carried before text result result') :
    ∃ answer, ∃ stop : Nat,
      result' = (answer, ⟨text, stop⟩) ∧ result = (answer, past before text stop) := by
  obtain ⟨answer, stop⟩ := h
  exact ⟨answer, stop, rfl, rfl⟩

theorem past_take_drop (h : start ≤ text.length) (stop : Nat) :
    past (text.take start) (text.drop start) stop = ⟨text, (start + stop : Nat)⟩ := by
  rw [past, List.take_append_drop, List.length_take_of_le h]

theorem tail_past (stop : Nat) :
    (past before text stop).tail (before.length + start : Nat) =
      (⟨text, stop⟩ : Cursor).tail start := by
  rw [tail, tail, place_natCast, place_natCast]
  exact List.drop_length_add_append start

theorem past_add (length : Nat) :
    (⟨before ++ text, ((before.length + start : Nat) : Int) + length⟩ : Cursor) =
      past before text (start + length) := by
  rw [past, ← Nat.add_assoc]
  rfl

theorem ahead_past : (past before text start).ahead = (⟨text, start⟩ : Cursor).ahead := by
  have hpos : 0 ≤ (past before text start).pos := Int.natCast_nonneg _
  have hpos' : 0 ≤ (⟨text, start⟩ : Cursor).pos := Int.natCast_nonneg _
  rw [ahead, if_pos hpos, ahead, if_pos hpos']
  exact tail_past start

theorem carried_leave (answer : Except Snag α) (rest : List Char) :
    Carried before text (answer, (past before text start).leave rest)
      (answer, (⟨text, start⟩ : Cursor).leave rest) := by
  rw [leave, leave, ahead_past]
  generalize (⟨text, start⟩ : Cursor).ahead.length - rest.length = length
  show Carried before text
    (answer, ⟨before ++ text, ((before.length + start : Nat) : Int) + length⟩)
    (answer, ⟨text, (start : Int) + length⟩)
  rw [past_add]
  exact .intro answer (start + length)

end

theorem Carries.bind {step step' : Step α} {next next' : α → Step β} (h : Carries step step')
    (hnext : ∀ value, Carries (next value) (next' value)) :
    Carries (step >>= next) (step' >>= next') :=
  fun before text start => (h before text start).bind fun value => hnext value before text

theorem Carries.attempt {step step' : Step α} (h : Carries step step') :
    Carries (attempt step) (attempt step') := by
  intro before text start
  have hstep := h before text start
  rw [Cursor.attempt, Cursor.attempt]
  generalize step (past before text start) = result, step' ⟨text, start⟩ = result' at hstep
  obtain ⟨snag | value, stop⟩ := hstep
  · cases snag with
    | mismatch expected => exact .intro (.ok none) start
    | _ => exact .intro (.error _) stop
  · exact .intro (.ok (some value)) stop

theorem Carries.collect {step step' : Step (Option α)} (h : Carries step step') (bound : Nat)
    (found : List α) : Carries (collect step bound found) (collect step' bound found) := by
  induction bound generalizing found with
  | zero =>
      rw [Cursor.collect, Cursor.collect]
      refine h.bind fun value => ?_
      cases value with
      | none => exact carries_pure _
      | some value => exact carries_pure _
  | succ bound ih =>
      rw [Cursor.collect, Cursor.collect]
      refine h.bind fun value => ?_
      cases value with
      | none => exact carries_pure _
      | some value => exact ih (value :: found)

theorem Carries.many {step step' : Step (Option α)} (h : Carries step step') :
    Carries (many step) (many step') := by
  intro before text start
  have hbound : ((past before text start).text.length - (past before text start).pos).toNat =
      (text.length - (start : Int)).toNat := by
    simp only [past, List.length_append]
    omega
  rw [Cursor.many, Cursor.many, hbound]
  exact h.collect _ [] before text start

theorem carries_follow (scan : Scan α) : Carries (follow scan) (follow scan) := by
  intro before text start
  have hpos : 0 ≤ (past before text start).pos + (past before text start).text.length :=
    Int.add_nonneg (Int.natCast_nonneg _) (Int.natCast_nonneg _)
  have hpos' : 0 ≤ (⟨text, start⟩ : Cursor).pos + text.length :=
    Int.add_nonneg (Int.natCast_nonneg _) (Int.natCast_nonneg _)
  rw [follow, if_pos hpos, follow, if_pos hpos', ahead_past]
  cases scan (⟨text, start⟩ : Cursor).ahead with
  | success value rest => exact carried_leave (.ok value) rest
  | mismatch expected rest => exact carried_leave (.error (.mismatch expected)) rest
  | tooDeep => exact .intro (.error .tooDeep) start

theorem carries_isAtEnd : Carries isAtEnd isAtEnd := by
  intro before text start
  have hend : decide (((past before text start).text.length : Int) ≤ (past before text start).pos) =
      decide ((text.length : Int) ≤ start) := by
    rw [decide_eq_decide]
    simp only [past, List.length_append]
    omega
  rw [isAtEnd, hend]
  exact .intro _ start

theorem carries_check (literal : String) : Carries (check literal) (check literal) := by
  intro before text start
  have hpos : decide ((past before text start).pos ≤ (past before text start).text.length) =
      decide ((start : Int) ≤ text.length) := by
    rw [decide_eq_decide]
    simp only [past, List.length_append]
    omega
  have htail : (past before text start).tail (past before text start).pos =
      (⟨text, start⟩ : Cursor).tail start := tail_past start
  rw [check, hpos, htail]
  exact .intro _ start

theorem carries_accept (literal : String) : Carries (accept literal) (accept literal) := by
  intro before text start
  refine (carries_check literal before text start).bind fun stands stop => ?_
  cases stands with
  | false => exact .intro (.ok false) stop
  | true =>
      show Carried before text
        (.ok true, ⟨before ++ text, ((before.length + stop : Nat) : Int) + literal.length⟩)
        (.ok true, ⟨text, (stop : Int) + literal.length⟩)
      rw [past_add]
      exact .intro (.ok true) (stop + literal.length)

theorem carried_since (before text : List Char) (start stop : Nat) :
    Carried before text (since (before.length + start : Nat) (past before text stop))
      (since start ⟨text, stop⟩) := by
  have hplace : (past before text stop).place (past before text stop).pos -
      (past before text stop).place (before.length + start : Nat) = stop - start := by
    rw [place_natCast]
    show Cursor.place _ ((before.length + stop : Nat) : Int) - _ = _
    rw [place_natCast]
    omega
  have hplace' : (⟨text, stop⟩ : Cursor).place stop - (⟨text, stop⟩ : Cursor).place start =
      stop - start := by
    rw [place_natCast, place_natCast]
  rw [since, since, slice, slice, tail_past, hplace, hplace']
  exact .intro _ stop

theorem carries_path : Carries path path :=
  fun before text start =>
    (carries_follow Scan.path before text start).bind fun _ stop =>
      carried_since before text start stop

theorem carries_seekLineEnd : Carries seekLineEnd seekLineEnd := by
  intro before text start
  have hpos : 0 ≤ (past before text start).pos := Int.natCast_nonneg _
  have hpos' : 0 ≤ (⟨text, start⟩ : Cursor).pos := Int.natCast_nonneg _
  have htail : (past before text start).tail (past before text start).pos =
      (⟨text, start⟩ : Cursor).tail start := tail_past start
  rw [seekLineEnd, seekLineEnd, lineEnd, if_pos hpos, lineEnd, if_pos hpos', htail]
  generalize (Scan.commentLine [] ((⟨text, start⟩ : Cursor).tail start)).1.length = length
  show Carried before text
    (.ok (), ⟨before ++ text, ((before.length + start : Nat) : Int) + length⟩)
    (.ok (), ⟨text, (start : Int) + length⟩)
  rw [past_add]
  exact .intro (.ok ()) (start + length)

theorem carries_closeLine (value : String) : Carries (closeLine value) (closeLine value) := by
  refine (carries_accept "\n").bind fun stands => ?_
  cases stands with
  | true => exact carries_pure value
  | false => exact (carries_accept "\r\n").bind fun _ => carries_pure value

theorem carries_commentText : Carries commentText commentText :=
  fun before text start =>
    (carries_seekLineEnd before text start).bind fun _ stop =>
      (carried_since before text start stop).bind fun value =>
        carries_closeLine value before text

theorem carries_command (name : String) (args : List String) :
    Carries (command name args) (command name args) := by
  rw [command]
  cases Command.make name args with
  | ok made => exact carries_pure made
  | error error => exact carries_fail _

/-- Cursors behind more text follow cursors without it. -/
def displacement : Reader.Simulation Step Step where
  Like := Carries
  pure := carries_pure
  bind := Carries.bind
  mismatch _ := carries_fail _
  tooDeep := carries_fail _
  tooDeep_bind _ _ := fun _ _ start => .intro (.error .tooDeep) start
  attempt := Carries.attempt
  many := Carries.many
  accept literal _ := carries_accept literal
  ahead literal _ := carries_check literal
  atEnd := carries_isAtEnd
  skipBlanks := carries_follow Scan.skipBlanks
  blanks := carries_follow Scan.blanks
  path := carries_path
  commentText := carries_commentText
  quotedTail frames := carries_follow (Scan.quotedTail frames [])
  bareTail frames := carries_follow (Scan.bareTail frames [])
  command h := carries_path.bind fun name => h.bind fun args => carries_command name args

theorem carries_readWithin (frames : Nat) {kind : Kind} (production : Production kind) :
    Carries (readWithin frames production) (readWithin frames production) :=
  production.read_like displacement frames

end Cursor

open Cursor

/-- A reading depends on nothing that stands before it.  At a position of a text it yields what
it yields at the start of the text from there on, finds the same mismatch or gives up as well,
and stops further on by exactly that position.  So two texts that go on alike are read alike
where they do, whatever stands before. -/
theorem readWithin_displaced (frames : Nat) {kind : Kind} (production : Production kind) :
    (∀ {text : List Char} {start : Nat}, start ≤ text.length →
      ∃ answer, ∃ read : Nat,
        readWithin frames production ⟨text.drop start, 0⟩ = (answer, ⟨text.drop start, read⟩) ∧
        readWithin frames production ⟨text, start⟩ = (answer, ⟨text, (start + read : Nat)⟩)) ∧
    (∀ before before' after : List Char,
      (readWithin frames production ⟨before ++ after, before.length⟩).1 =
        (readWithin frames production ⟨before' ++ after, before'.length⟩).1) := by
  have hcarries := carries_readWithin frames production
  constructor
  · intro text start hstart
    obtain ⟨answer, read, hahead, hresult⟩ :=
      (hcarries (text.take start) (text.drop start) 0).exists_eq
    rw [past_take_drop hstart, past_take_drop hstart, Nat.add_zero] at hresult
    exact ⟨answer, read, hahead, hresult⟩
  · intro before before' after
    have hanswer : ∀ before : List Char,
        (readWithin frames production ⟨before ++ after, before.length⟩).1 =
          (readWithin frames production ⟨after, 0⟩).1 := by
      intro before
      obtain ⟨answer, read, hahead, hresult⟩ := (hcarries before after 0).exists_eq
      exact (congrArg Prod.fst hresult).trans (congrArg Prod.fst hahead).symm
    rw [hanswer before, hanswer before']

/-- An open quote before the conditional is of no concern to it. -/
theorem readWithin_displaced_behind_quote :
    readWithin 12 .conditional ⟨"if (a) #b\r\n else c;".toList, 0⟩ =
        (.ok (.ifElse ⟨"a", []⟩ (.comment "b") (.command ⟨"c", []⟩)),
          ⟨"if (a) #b\r\n else c;".toList, 19⟩) ∧
      readWithin 12 .conditional ⟨"p \"if (a) #b\r\n else c;".toList, 3⟩ =
        (.ok (.ifElse ⟨"a", []⟩ (.comment "b") (.command ⟨"c", []⟩)),
          ⟨"p \"if (a) #b\r\n else c;".toList, 22⟩) := by
  have hahead : readWithin 12 .conditional ⟨"if (a) #b\r\n else c;".toList, 0⟩ =
      (.ok (.ifElse ⟨"a", []⟩ (.comment "b") (.command ⟨"c", []⟩)),
        ⟨"if (a) #b\r\n else c;".toList, (19 : Nat)⟩) := by
    decide +kernel
  have hstart : 3 ≤ "p \"if (a) #b\r\n else c;".toList.length := by decide
  obtain ⟨answer, read, hread, hresult⟩ := (readWithin_displaced 12 .conditional).1 hstart
  obtain ⟨rfl, hmoved⟩ := Prod.mk.inj (hahead.symm.trans hread)
  have hpos : ((19 : Nat) : Int) = read := congrArg Cursor.pos hmoved
  obtain rfl : 19 = read := Int.ofNat.inj hpos
  exact ⟨hahead, hresult⟩

end StatusShell.Grammar
