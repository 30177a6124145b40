import Mathlib.Data.List.Forall2
import StatusShell.Proofs.Reading

/-!
A reading with fewer frames answers like one with more frames, or gives up.
Giving up is never taken for a mismatch, so it ends the whole reading and leads
to no other alternative.

The argument is the same for every reader that has an order on its readings in
which giving up is below everything and which all ways of putting readings
together respect.
-/

namespace StatusShell.Grammar

/-- An order on the readings of a reader.  A reading is below another one if it
answers like that one or gives up. -/
structure Reader.Approximation (m : Type → Type) [Reader m] where
  Below {α : Type} : m α → m α → Prop
  refl {α : Type} (reading : m α) : Below reading reading
  trans {α : Type} {reading mid full : m α} :
    Below reading mid → Below mid full → Below reading full
  tooDeep {α : Type} (full : m α) : Below Reader.tooDeep full
  bind {α β : Type} {reading full : m α} {next next' : α → m β} :
    Below reading full → (∀ value, Below (next value) (next' value)) →
      Below (reading >>= next) (full >>= next')
  attempt {α : Type} {reading full : m α} :
    Below reading full → Below (Reader.attempt reading) (Reader.attempt full)
  many {α : Type} {step full : m (Option α)} :
    Below step full → Below (Reader.many step) (Reader.many full)
  quotedTail (frames : Nat) :
    Below (Reader.quotedTail frames : m String) (Reader.quotedTail (frames + 1))
  bareTail (frames : Nat) :
    Below (Reader.bareTail frames : m String) (Reader.bareTail (frames + 1))

section

variable {m : Type → Type} [Reader m] (order : Reader.Approximation m)

theorem Reader.Approximation.firstOf {α : Type} {expected : Expectation}
    {alternatives full : List (m (Option α))}
    (h : List.Forall₂ order.Below alternatives full) :
    order.Below (Reader.firstOf expected alternatives) (Reader.firstOf expected full) := by
  induction h with
  | nil => exact order.refl _
  | cons hfirst _ ih =>
      rw [Reader.firstOf, Reader.firstOf]
      refine order.bind hfirst fun value => ?_
      cases value with
      | none => exact ih
      | some value => exact order.refl _

namespace Production

/-- One more frame changes no answer but that of giving up. -/
theorem read_below_succ (frames : Nat) {kind : Kind} (production : Production kind) :
    order.Below (production.read frames) (production.read (frames + 1)) := by
  induction frames generalizing kind with
  | zero =>
      rw [read]
      exact order.tooDeep _
  | succ frames ih =>
      cases production with
      | script =>
          rw [read, read]
          refine order.bind (order.refl _) fun _ => ?_
          refine order.bind (ih statements) fun nodes => ?_
          exact order.refl _
      | statements =>
          rw [read, read]
          apply order.many
          refine order.bind (ih (attempt statement)) fun found => ?_
          exact order.refl _
      | statement =>
          rw [read, read]
          apply order.firstOf
          exact .cons (ih _) (.cons (ih _) (.cons (ih _) (.cons (ih _) (.cons (ih _) .nil))))
      | block =>
          rw [read, read]
          refine order.bind (order.refl _) fun _ => ?_
          refine order.bind (order.refl _) fun _ => ?_
          refine order.bind (ih statements) fun nodes => ?_
          exact order.refl _
      | conditional =>
          rw [read, read]
          refine order.bind (order.refl _) fun _ => ?_
          refine order.bind (order.refl _) fun _ => ?_
          refine order.bind (ih command) fun predicate => ?_
          refine order.bind (order.refl _) fun _ => ?_
          refine order.bind (ih statement) fun branch => ?_
          refine order.bind (ih (attempt otherwise)) fun other => ?_
          exact order.refl _
      | otherwise =>
          rw [read, read]
          refine order.bind (order.refl _) fun _ => ?_
          refine order.bind (order.refl _) fun _ => ?_
          refine order.bind (order.refl _) fun _ => ?_
          exact ih statement
      | loop =>
          rw [read, read]
          refine order.bind (order.refl _) fun _ => ?_
          refine order.bind (order.refl _) fun _ => ?_
          refine order.bind (ih command) fun predicate => ?_
          refine order.bind (order.refl _) fun _ => ?_
          refine order.bind (ih statement) fun body => ?_
          exact order.refl _
      | commandLine =>
          rw [read, read]
          refine order.bind (ih command) fun call => ?_
          exact order.refl _
      | command =>
          rw [read, read]
          refine order.bind (order.refl _) fun opened => ?_
          cases opened with
          | true =>
              refine order.bind (order.refl _) fun _ => ?_
              refine order.bind (ih command) fun call => ?_
              exact order.refl _
          | false =>
              refine order.bind (ih path) fun name => ?_
              refine order.bind (order.many (ih (attempt spacedArgument))) fun args => ?_
              exact order.refl _
      | spacedArgument =>
          rw [read, read]
          refine order.bind (order.refl _) fun _ => ?_
          exact ih argument
      | argument =>
          rw [read, read]
          refine order.bind (order.refl _) fun isQuoted => ?_
          cases isQuoted with
          | true => exact ih quoted
          | false => exact ih bare
      | quoted =>
          rw [read, read]
          refine order.bind (order.refl _) fun _ => ?_
          exact order.quotedTail frames
      | bare =>
          rw [read, read]
          exact order.bareTail frames
      | comment | path | escape =>
          rw [read, read]
          exact order.refl _
      | attempt production =>
          rw [read, read]
          exact order.attempt (ih production)

theorem read_below_of_le {frames frames' : Nat} (h : frames ≤ frames') {kind : Kind}
    (production : Production kind) :
    order.Below (production.read frames) (production.read frames') := by
  induction h with
  | refl => exact order.refl _
  | step _ ih => exact order.trans ih (read_below_succ order _ production)

end Production

end

namespace Scan

variable {α β : Type}

/-- The scanner answers like the other one or gives up. -/
def Approximates (scan full : Scan α) : Prop :=
  ∀ text, scan text = .tooDeep ∨ scan text = full text

theorem approximates_refl (scan : Scan α) : Approximates scan scan :=
  fun _ => .inr rfl

theorem tooDeep_approximates (full : Scan α) : Approximates tooDeep full :=
  fun _ => .inl rfl

theorem Approximates.trans {scan mid full : Scan α} (h : Approximates scan mid)
    (h' : Approximates mid full) : Approximates scan full := by
  intro text
  rcases h text with hdeep | heq
  · exact .inl hdeep
  · rw [heq]
    exact h' text

theorem Approximates.bind {scan full : Scan α} {next next' : α → Scan β}
    (h : Approximates scan full) (hnext : ∀ value, Approximates (next value) (next' value)) :
    Approximates (scan >>= next) (full >>= next') := by
  intro text
  rw [bind_apply, bind_apply]
  rcases h text with hdeep | heq
  · rw [hdeep]
    exact .inl rfl
  · rw [heq]
    cases full text with
    | success value rest => exact hnext value rest
    | mismatch expected rest => exact .inr rfl
    | tooDeep => exact .inl rfl

theorem Approximates.attempt {scan full : Scan α} (h : Approximates scan full) :
    Approximates (attempt scan) (attempt full) := by
  intro text
  rw [Scan.attempt, Scan.attempt]
  rcases h text with hdeep | heq
  · rw [hdeep]
    exact .inl rfl
  · rw [heq]
    exact .inr rfl

theorem Approximates.collect {step full : Scan (Option α)} (h : Approximates step full)
    (bound : List Char) (found : List α) :
    Approximates (collect step bound found) (collect full bound found) := by
  intro text
  induction bound generalizing found text with
  | nil =>
      rw [Scan.collect, Scan.collect]
      rcases h text with hdeep | heq
      · rw [hdeep]
        exact .inl rfl
      · rw [heq]
        exact .inr rfl
  | cons c bound ih =>
      rw [Scan.collect, Scan.collect]
      rcases h text with hdeep | heq
      · rw [hdeep]
        exact .inl rfl
      · rw [heq]
        cases full text with
        | success value rest =>
            cases value with
            | none => exact .inr rfl
            | some value => exact ih (value :: found) rest
        | mismatch expected rest => exact .inr rfl
        | tooDeep => exact .inl rfl

theorem Approximates.many {step full : Scan (Option α)} (h : Approximates step full) :
    Approximates (many step) (many full) :=
  fun text => h.collect text [] text

theorem quotedTail_approximates (frames : Nat) (taken : List Char) :
    Approximates (quotedTail frames taken) (quotedTail (frames + 1) taken) := by
  intro text
  fun_induction quotedTail frames taken text with
  | case1 taken => exact .inr rfl
  | case2 taken rest =>
      rw [quotedTail_quote]
      exact .inr rfl
  | case3 => exact .inl rfl
  | case4 taken _ rest _ ih =>
      rw [quotedTail_escaped]
      exact ih
  | case5 taken _ rest hquote _ ih =>
      rw [quotedTail_backslash _ _ (head?_ne_of_forall_ne hquote)]
      exact ih
  | case6 taken c rest hquote hbackslash ih =>
      rw [quotedTail_plain _ _ _ hbackslash hquote]
      exact ih

theorem bareTail_approximates (frames : Nat) (taken : List Char) :
    Approximates (bareTail frames taken) (bareTail (frames + 1) taken) := by
  intro text
  fun_induction bareTail frames taken text with
  | case1 taken htaken =>
      rw [bareTail_nil, if_pos htaken]
      exact .inr rfl
  | case2 taken htaken =>
      rw [bareTail_nil, if_neg htaken]
      exact .inr rfl
  | case3 taken c rest hc htaken =>
      rw [bareTail_cons, if_pos hc, if_pos htaken]
      exact .inr rfl
  | case4 taken c rest hc htaken =>
      rw [bareTail_cons, if_pos hc, if_neg htaken]
      exact .inr rfl
  | case5 => exact .inl rfl
  | case6 taken _ rest _ ih =>
      rw [bareTail_escaped]
      exact ih
  | case7 taken _ rest hquote _ ih =>
      rw [bareTail_backslash _ _ (head?_ne_of_forall_ne hquote)]
      exact ih
  | case8 taken c rest hc hbackslash ih =>
      rw [bareTail_plain _ _ _ hbackslash (by simpa using hc)]
      exact ih

/-- The order of scanners. -/
def approximation : Reader.Approximation Scan where
  Below := Approximates
  refl := approximates_refl
  trans := Approximates.trans
  tooDeep := tooDeep_approximates
  bind := Approximates.bind
  attempt := Approximates.attempt
  many := Approximates.many
  quotedTail frames := quotedTail_approximates frames []
  bareTail frames := bareTail_approximates frames []

end Scan

theorem Production.scan_approximates_of_le {frames frames' : Nat} (h : frames ≤ frames')
    {kind : Kind} (production : Production kind) :
    Scan.Approximates (production.scan frames) (production.scan frames') :=
  read_below_of_le Scan.approximation h production

end StatusShell.Grammar
