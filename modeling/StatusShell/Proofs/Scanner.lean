import Mathlib.Data.List.Basic
import StatusShell.Grammar.Word

namespace StatusShell.Grammar

/-- The reply is that something else was expected. -/
def Reply.Mismatched {α : Type} (reply : Reply α) : Prop :=
  ∃ expected rest, reply = .mismatch expected rest

namespace Scan

variable {α β : Type} {text rest : List Char}

theorem pure_eq_success_iff {found value : α} :
    (pure found : Scan α) text = .success value rest ↔ found = value ∧ text = rest := by
  change Reply.success found text = .success value rest ↔ _
  simp

theorem bind_apply (scan : Scan α) (next : α → Scan β) (text : List Char) :
    (scan >>= next) text =
      match scan text with
      | .success value rest => next value rest
      | .mismatch expected rest => .mismatch expected rest
      | .tooDeep => .tooDeep :=
  rfl

theorem bind_eq_success_iff {scan : Scan α} {next : α → Scan β} {value : β} :
    (scan >>= next) text = .success value rest ↔
      ∃ found mid, scan text = .success found mid ∧ next found mid = .success value rest := by
  rw [bind_apply]
  cases scan text with
  | success found mid =>
      constructor
      · intro h
        exact ⟨found, mid, rfl, h⟩
      · rintro ⟨_, _, heq, h⟩
        cases heq
        exact h
  | mismatch expected mid => simp
  | tooDeep => simp

theorem bind_mismatched_iff {scan : Scan α} {next : α → Scan β} :
    ((scan >>= next) text).Mismatched ↔
      (scan text).Mismatched ∨
        ∃ found mid, scan text = .success found mid ∧ (next found mid).Mismatched := by
  rw [bind_apply]
  cases scan text with
  | success found mid =>
      constructor
      · intro h
        exact .inr ⟨found, mid, rfl, h⟩
      · rintro (⟨_, _, heq⟩ | ⟨_, _, heq, h⟩)
        · cases heq
        · cases heq
          exact h
  | mismatch expected mid => simp [Reply.Mismatched]
  | tooDeep => simp [Reply.Mismatched]

theorem attempt_eq_some_iff {scan : Scan α} {value : α} :
    attempt scan text = .success (some value) rest ↔ scan text = .success value rest := by
  rw [attempt]
  cases scan text <;> simp

theorem attempt_eq_none_iff {scan : Scan α} :
    attempt scan text = .success none rest ↔ (scan text).Mismatched ∧ text = rest := by
  rw [attempt]
  cases scan text <;> simp [Reply.Mismatched]

theorem isPrefixOf?_eq_none_iff {word : List Char} :
    word.isPrefixOf? text = none ↔ ¬ word <+: text := by
  rw [← Option.not_isSome_iff_eq_none, List.isSome_isPrefixOf?_eq_isPrefixOf,
    List.isPrefixOf_iff_prefix]

theorem accept_eq_true_iff {literal : String} :
    accept literal text = .success true rest ↔ text = literal.toList ++ rest := by
  rw [eq_comm (a := text), ← List.isPrefixOf?_eq_some_iff_append_eq, accept]
  cases literal.toList.isPrefixOf? text <;> simp

theorem accept_eq_false_iff {literal : String} :
    accept literal text = .success false rest ↔ ¬ literal.toList <+: text ∧ text = rest := by
  rw [← isPrefixOf?_eq_none_iff, accept]
  cases literal.toList.isPrefixOf? text <;> simp

theorem expect_eq (literal : String) :
    (Reader.expect literal : Scan Unit) = (do
      if ← accept literal then pure () else mismatch (.literal literal)) :=
  rfl

theorem expect_apply (literal : String) (text : List Char) :
    (Reader.expect literal : Scan Unit) text =
      match literal.toList.isPrefixOf? text with
      | some rest => .success () rest
      | none => .mismatch (.literal literal) text := by
  rw [expect_eq, bind_apply, accept]
  cases literal.toList.isPrefixOf? text <;> rfl

theorem expect_eq_success_iff {literal : String} {found : Unit} :
    (Reader.expect literal : Scan Unit) text = .success found rest ↔
      text = literal.toList ++ rest := by
  rw [eq_comm (a := text), ← List.isPrefixOf?_eq_some_iff_append_eq, expect_apply]
  cases literal.toList.isPrefixOf? text <;> simp

theorem expect_mismatched_iff {literal : String} :
    ((Reader.expect literal : Scan Unit) text).Mismatched ↔ ¬ literal.toList <+: text := by
  rw [← isPrefixOf?_eq_none_iff, expect_apply]
  cases literal.toList.isPrefixOf? text <;> simp [Reply.Mismatched]

theorem skipBlanks_eq_success_iff {found : Unit} :
    skipBlanks text = .success found rest ↔ text.dropWhile isBlank = rest := by
  simp [skipBlanks]

theorem blanks_eq_success_iff {found : Unit} :
    blanks text = .success found rest ↔
      ∃ c after, text = c :: after ∧ isBlank c = true ∧ after.dropWhile isBlank = rest := by
  cases text with
  | nil => simp [blanks]
  | cons c after =>
      rw [blanks]
      simp only [List.cons.injEq]
      by_cases hc : isBlank c = true
      · rw [if_pos hc]
        constructor
        · intro h
          exact ⟨c, after, ⟨rfl, rfl⟩, hc, by simpa using h⟩
        · rintro ⟨_, _, ⟨rfl, rfl⟩, _, rfl⟩
          rfl
      · rw [if_neg hc]
        constructor
        · simp
        · rintro ⟨_, _, ⟨rfl, rfl⟩, h, _⟩
          exact absurd h hc

theorem blanks_mismatched_iff :
    (blanks text).Mismatched ↔ ∀ c after, text = c :: after → isBlank c = false := by
  cases text with
  | nil => simp [blanks, Reply.Mismatched]
  | cons c after =>
      rw [blanks]
      by_cases hc : isBlank c = true <;> simp [hc, Reply.Mismatched]

theorem firstOf_cons_eq (expected : Expectation) (alternative : Scan (Option α))
    (alternatives : List (Scan (Option α))) :
    (Reader.firstOf expected (alternative :: alternatives) : Scan α) = (do
      match ← alternative with
      | some value => pure value
      | none => Reader.firstOf expected alternatives) :=
  rfl

theorem firstOf_nil_apply (expected : Expectation) :
    (Reader.firstOf expected [] : Scan α) text = .mismatch expected text :=
  rfl

theorem firstOf_attempt_eq_success_iff {expected : Expectation} {scan : Scan α}
    {alternatives : List (Scan (Option α))} {value : α} :
    (Reader.firstOf expected (attempt scan :: alternatives) : Scan α) text = .success value rest ↔
      scan text = .success value rest ∨ (scan text).Mismatched ∧
        (Reader.firstOf expected alternatives : Scan α) text = .success value rest := by
  rw [firstOf_cons_eq, bind_apply, attempt]
  cases scan text with
  | success found mid => simp [pure_eq_success_iff, Reply.Mismatched]
  | mismatch expected mid => simp [Reply.Mismatched]
  | tooDeep => simp [Reply.Mismatched]

theorem firstOf_attempt_mismatched_iff {expected : Expectation} {scan : Scan α}
    {alternatives : List (Scan (Option α))} :
    ((Reader.firstOf expected (attempt scan :: alternatives) : Scan α) text).Mismatched ↔
      (scan text).Mismatched ∧
        ((Reader.firstOf expected alternatives : Scan α) text).Mismatched := by
  rw [firstOf_cons_eq, bind_apply, attempt]
  cases scan text with
  | success found mid => simp [Reply.Mismatched, pure]
  | mismatch expected mid => simp [Reply.Mismatched]
  | tooDeep => simp [Reply.Mismatched]

/-- Whenever the step yields something, it has read something. -/
def Progresses (step : Scan (Option α)) : Prop :=
  ∀ text value rest, step text = .success (some value) rest → rest.length < text.length

/-- The step yields exactly the given values, one after the other, before it
yields nothing. -/
inductive Repeats (step : Scan (Option α)) : List Char → List α → List Char → Prop where
  | done {text rest : List Char} (hstep : step text = .success none rest) :
      Repeats step text [] rest
  | more {text mid rest : List Char} {value : α} {values : List α}
      (hstep : step text = .success (some value) mid) (hrest : Repeats step mid values rest) :
      Repeats step text (value :: values) rest

theorem collect_of_repeats {step : Scan (Option α)} (hprogress : Progresses step)
    {values : List α} (h : Repeats step text values rest) (found : List α) (bound : List Char)
    (hbound : text.length ≤ bound.length) :
    collect step bound found text = .success (found.reverse ++ values) rest := by
  induction h generalizing found bound with
  | done hstep =>
      rw [collect, hstep]
      simp
  | more hstep _ ih =>
      have hless := hprogress _ _ _ hstep
      cases bound with
      | nil => simp at hbound; simp [hbound] at hless
      | cons c bound =>
          rw [collect, hstep]
          simp only [List.length_cons] at hbound
          simpa using ih (_ :: found) bound (by omega)

theorem repeats_of_collect {step : Scan (Option α)} (hprogress : Progresses step)
    {bound : List Char} {found values : List α} (hbound : text.length ≤ bound.length)
    (h : collect step bound found text = .success values rest) :
    ∃ more, values = found.reverse ++ more ∧ Repeats step text more rest := by
  induction bound generalizing found text with
  | nil =>
      have hempty : text.length = 0 := by simpa using hbound
      rw [collect] at h
      split at h
      · next hstep =>
          cases h
          exact ⟨[], by simp, .done hstep⟩
      · next hstep =>
          have hless := hprogress _ _ _ hstep
          omega
      · cases h
      · cases h
  | cons c bound ih =>
      rw [collect] at h
      split at h
      · next hstep =>
          cases h
          exact ⟨[], by simp, .done hstep⟩
      · next value mid hstep =>
          have hless := hprogress _ _ _ hstep
          simp only [List.length_cons] at hbound
          obtain ⟨more, hvalues, hmore⟩ := ih (by omega) h
          exact ⟨value :: more, by simpa using hvalues, .more hstep hmore⟩
      · cases h
      · cases h

theorem many_eq_success_iff {step : Scan (Option α)} (hprogress : Progresses step)
    {values : List α} :
    many step text = .success values rest ↔ Repeats step text values rest := by
  rw [many]
  constructor
  · intro h
    obtain ⟨more, hvalues, hmore⟩ := repeats_of_collect hprogress (Nat.le_refl _) h
    simpa [hvalues] using hmore
  · intro h
    simpa using collect_of_repeats hprogress h [] text (Nat.le_refl _)

end Scan

end StatusShell.Grammar
