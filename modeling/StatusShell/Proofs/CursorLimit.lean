import StatusShell.Grammar.Cursor
import StatusShell.Proofs.Limit

namespace StatusShell.Grammar

namespace Cursor

variable {α β : Type}

/-- The step answers and moves like the other one, or gives up. -/
def Approximates (step full : Step α) : Prop :=
  ∀ cursor, (step cursor).1 = .error .tooDeep ∨ step cursor = full cursor

theorem approximates_refl (step : Step α) : Approximates step step :=
  fun _ => .inr rfl

theorem Approximates.trans {step mid full : Step α} (h : Approximates step mid)
    (h' : Approximates mid full) : Approximates step full := by
  intro cursor
  rcases h cursor with hdeep | heq
  · exact .inl hdeep
  · rw [heq]
    exact h' cursor

theorem tooDeep_approximates (full : Step α) : Approximates (fail .tooDeep) full :=
  fun _ => .inl rfl

theorem bind_apply (step : Step α) (next : α → Step β) (cursor : Cursor) :
    (step >>= next) cursor =
      match step cursor with
      | (.ok value, moved) => next value moved
      | (.error snag, moved) => (.error snag, moved) :=
  rfl

theorem bind_tooDeep {step : Step α} {cursor : Cursor}
    (h : (step cursor).1 = .error .tooDeep) (next : α → Step β) :
    ((step >>= next) cursor).1 = .error .tooDeep := by
  have heq : step cursor = (.error .tooDeep, (step cursor).2) := Prod.ext h rfl
  rw [bind_apply, heq]

theorem Approximates.bind {step full : Step α} {next next' : α → Step β}
    (h : Approximates step full) (hnext : ∀ value, Approximates (next value) (next' value)) :
    Approximates (step >>= next) (full >>= next') := by
  intro cursor
  rcases h cursor with hdeep | heq
  · exact .inl (bind_tooDeep hdeep next)
  · rw [bind_apply, bind_apply, heq]
    rcases full cursor with ⟨_ | value, moved⟩
    · exact .inr rfl
    · exact hnext value moved

theorem attempt_tooDeep {step : Step α} {cursor : Cursor}
    (h : (step cursor).1 = .error .tooDeep) : (attempt step cursor).1 = .error .tooDeep := by
  have heq : step cursor = (.error .tooDeep, (step cursor).2) := Prod.ext h rfl
  rw [attempt, heq]

theorem attempt_eq_none_iff {step : Step α} {cursor moved : Cursor} :
    attempt step cursor = (.ok none, moved) ↔
      (∃ expected stopped, step cursor = (.error (.mismatch expected), stopped)) ∧
        cursor = moved := by
  rw [attempt]
  rcases step cursor with ⟨snag | value, stopped⟩
  · cases snag <;> simp
  · simp

theorem Approximates.attempt {step full : Step α} (h : Approximates step full) :
    Approximates (attempt step) (attempt full) := by
  intro cursor
  rcases h cursor with hdeep | heq
  · exact .inl (attempt_tooDeep hdeep)
  · right
    rw [Cursor.attempt, Cursor.attempt, heq]

theorem Approximates.collect {step full : Step (Option α)} (h : Approximates step full)
    (bound : Nat) (found : List α) :
    Approximates (collect step bound found) (collect full bound found) := by
  induction bound generalizing found with
  | zero =>
      rw [Cursor.collect, Cursor.collect]
      refine h.bind fun value => ?_
      exact approximates_refl _
  | succ bound ih =>
      rw [Cursor.collect, Cursor.collect]
      refine h.bind fun value => ?_
      cases value with
      | none => exact approximates_refl _
      | some value => exact ih (value :: found)

theorem Approximates.many {step full : Step (Option α)} (h : Approximates step full) :
    Approximates (many step) (many full) :=
  fun cursor => h.collect (cursor.text.length - cursor.pos).toNat [] cursor

theorem follow_approximates {scan full : Scan α} (h : Scan.Approximates scan full) :
    Approximates (follow scan) (follow full) := by
  intro cursor
  rw [follow, follow]
  split
  · rcases h cursor.ahead with hdeep | heq
    · rw [hdeep]
      exact .inl rfl
    · rw [heq]
      exact .inr rfl
  · exact .inr rfl

/-- The order of steps. -/
def approximation : Reader.Approximation Step where
  Below := Approximates
  refl := approximates_refl
  trans := Approximates.trans
  tooDeep := tooDeep_approximates
  bind := Approximates.bind
  attempt := Approximates.attempt
  many := Approximates.many
  quotedTail frames := follow_approximates (Scan.quotedTail_approximates frames [])
  bareTail frames := follow_approximates (Scan.bareTail_approximates frames [])

theorem readWithin_eq_of_le {frames frames' : Nat} (hle : frames ≤ frames') {kind : Kind}
    {production : Production kind} {cursor : Cursor}
    (h : (readWithin frames production cursor).1 ≠ .error .tooDeep) :
    readWithin frames' production cursor = readWithin frames production cursor := by
  rcases Production.read_below_of_le approximation hle production cursor with hdeep | heq
  · exact absurd hdeep h
  · exact heq.symm

theorem readText_eq_of_le {frames frames' : Nat} (hle : frames ≤ frames') {text : List Char}
    (h : readText frames text ≠ .error .tooDeep) :
    readText frames' text = readText frames text := by
  rw [readText, readText]
  rcases Production.scan_approximates_of_le hle .script text with hdeep | heq
  · refine absurd ?_ h
    rw [readText, hdeep]
  · rw [heq]

theorem readWithin_attempt (frames : Nat) {kind : Kind} (production : Production kind) :
    readWithin (frames + 1) (.attempt production) = attempt (readWithin frames production) :=
  rfl

theorem mismatch_of_readWithin_attempt {frames frames' : Nat} (hle : frames ≤ frames')
    {kind : Kind} {production : Production kind} {cursor moved : Cursor}
    (h : readWithin frames (.attempt production) cursor = (.ok none, moved)) :
    cursor = moved ∧ ∃ expected stopped,
      readWithin frames' production cursor = (.error (.mismatch expected), stopped) := by
  cases frames with
  | zero => cases h
  | succ frames =>
      rw [readWithin_attempt, attempt_eq_none_iff] at h
      obtain ⟨⟨expected, stopped, hmismatch⟩, hmoved⟩ := h
      have hwithin : (readWithin frames production cursor).1 ≠ .error .tooDeep := by
        simp [hmismatch]
      have hsame := readWithin_eq_of_le (Nat.le_of_succ_le hle) hwithin
      exact ⟨hmoved, expected, stopped, hsame.trans hmismatch⟩

/-- The alternatives of a statement, in the order in which they are tried. -/
def alternatives : List (Production .node) :=
  [.block, .conditional, .loop, .comment, .commandLine]

theorem readWithin_statement (frames : Nat) :
    readWithin (frames + 2) .statement =
      Reader.firstOf .statement ((alternatives.map (readWithin frames)).map attempt) :=
  rfl

theorem firstOf_attempt_tooDeep (expected : Expectation) {before after : List (Step α)}
    {step : Step α} {cursor : Cursor}
    (hbefore : ∀ earlier ∈ before, attempt earlier cursor = (.ok none, cursor))
    (hstep : (step cursor).1 = .error .tooDeep) :
    (Reader.firstOf expected ((before ++ step :: after).map attempt) cursor).1 =
      .error .tooDeep := by
  induction before with
  | nil => exact bind_tooDeep (attempt_tooDeep hstep) _
  | cons earlier before ih =>
      have hearlier := hbefore earlier (List.mem_cons_self ..)
      have hrest := ih fun other hother => hbefore other (List.mem_cons_of_mem _ hother)
      rw [List.cons_append, List.map_cons, Reader.firstOf, bind_apply, hearlier]
      exact hrest

theorem readWithin_statement_tooDeep {frames : Nat} {before after : List (Production .node)}
    {alternative : Production .node} {cursor : Cursor}
    (hsplit : alternatives = before ++ alternative :: after)
    (hbefore : ∀ earlier ∈ before,
      readWithin (frames + 1) (.attempt earlier) cursor = (.ok none, cursor))
    (hdeep : (readWithin frames alternative cursor).1 = .error .tooDeep) :
    (readWithin (frames + 2) .statement cursor).1 = .error .tooDeep := by
  have htried : ∀ earlier ∈ before.map (readWithin frames),
      attempt earlier cursor = (.ok none, cursor) := by
    intro earlier hearlier
    obtain ⟨production, hproduction, rfl⟩ := List.mem_map.mp hearlier
    exact hbefore production hproduction
  rw [readWithin_statement, hsplit, List.map_append, List.map_cons]
  exact firstOf_attempt_tooDeep .statement htried hdeep

end Cursor

open Cursor

/-- The nesting limit changes no reading.  Whatever is read from whichever
position, a reading that does not exceed one limit exceeds no higher one and is
the same there, and so is the reading of a whole text.  An alternative is given
up for another one only at a mismatch, which is a mismatch within every higher
limit too.  Where an alternative of a statement exceeds the limit, so does the
statement. -/
theorem reading_unchanged_by_limit {frames frames' : Nat} (hle : frames ≤ frames') :
    (∀ {kind : Kind} (production : Production kind) (cursor : Cursor),
      (readWithin frames production cursor).1 ≠ .error .tooDeep →
        (readWithin frames' production cursor).1 ≠ .error .tooDeep ∧
          readWithin frames' production cursor = readWithin frames production cursor) ∧
    (∀ text, readText frames text ≠ .error .tooDeep →
      readText frames' text = readText frames text) ∧
    (∀ {kind : Kind} (production : Production kind) (cursor moved : Cursor),
      readWithin frames (.attempt production) cursor = (.ok none, moved) →
        cursor = moved ∧ ∃ expected stopped,
          readWithin frames' production cursor = (.error (.mismatch expected), stopped)) ∧
    (∀ (before after : List (Production .node)) (alternative : Production .node)
      (cursor : Cursor), alternatives = before ++ alternative :: after →
      (∀ earlier ∈ before,
        readWithin (frames + 1) (.attempt earlier) cursor = (.ok none, cursor)) →
      (readWithin frames alternative cursor).1 = .error .tooDeep →
        (readWithin (frames + 2) .statement cursor).1 = .error .tooDeep) := by
  refine ⟨?_, ?_, ?_, ?_⟩
  · intro kind production cursor h
    have hsame := readWithin_eq_of_le hle h
    exact ⟨hsame ▸ h, hsame⟩
  · intro text h
    exact readText_eq_of_le hle h
  · intro kind production cursor moved h
    exact mismatch_of_readWithin_attempt hle h
  · intro before after alternative cursor hsplit hbefore hdeep
    exact readWithin_statement_tooDeep hsplit hbefore hdeep

/-- Eight frames are enough for a command, read from the second character before
the end, and for a comment.  They are not enough for the body of a loop, and
then the loop is not taken for a command. -/
theorem reading_unchanged_by_eight_frames :
    readWithin 1000 .statement ⟨"x a;".toList, -2⟩ =
      (.ok (.command ⟨"a", []⟩), ⟨"x a;".toList, 0⟩) ∧
    readText 1000 "#c".toList = .ok [.comment "c"] ∧
    (∃ expected stopped,
      readWithin 1000 .block ⟨"a;".toList, 0⟩ = (.error (.mismatch expected), stopped)) ∧
    (readWithin 10 .statement ⟨"while a \x7bb;\x7d".toList, 0⟩).1 = .error .tooDeep := by
  have hle : 8 ≤ 1000 := by decide
  obtain ⟨hread, htext, hattempt, hstatement⟩ := reading_unchanged_by_limit hle
  have hcommand : readWithin 8 .statement ⟨"x a;".toList, -2⟩ =
      (.ok (.command ⟨"a", []⟩), ⟨"x a;".toList, 0⟩) := by
    decide +kernel
  have hcomment : readText 8 "#c".toList = .ok [.comment "c"] := by
    decide +kernel
  have hnone : readWithin 8 (.attempt .block) ⟨"a;".toList, 0⟩ =
      (.ok none, ⟨"a;".toList, 0⟩) := by
    decide +kernel
  refine ⟨?_, ?_, ?_, ?_⟩
  · exact (hread .statement _ (by rw [hcommand]; simp)).2.trans hcommand
  · exact (htext _ (by rw [hcomment]; simp)).trans hcomment
  · exact (hattempt .block _ _ hnone).2
  · apply hstatement [.block, .conditional] [.comment, .commandLine] .loop
    · rfl
    · simp only [List.forall_mem_cons]
      decide +kernel
    · decide +kernel

end StatusShell.Grammar
