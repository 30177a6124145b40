import StatusShell.Proofs.Layout

/-!
How far a scanner looks.  A text that goes on to the semicolon of a command line
holds all that decides how its words and commands are read, and whether any
statement can be read there at all.  What follows the semicolon makes no
difference.
-/

namespace StatusShell.Grammar

variable {α β : Type} {text rest : List Char}

/-- The reply if more text follows. -/
def Reply.extend (more : List Char) : Reply α → Reply α
  | .success value rest => .success value (rest ++ more)
  | .mismatch expected rest => .mismatch expected (rest ++ more)
  | .tooDeep => .tooDeep

theorem Reply.extend_mismatched_iff {more : List Char} {reply : Reply α} :
    (reply.extend more).Mismatched ↔ reply.Mismatched := by
  cases reply <;> simp [extend, Mismatched]

namespace Scan

/-- The scanner looks no further than the text. -/
def Local (scan : Scan α) (text : List Char) : Prop :=
  ∀ more, scan (text ++ more) = (scan text).extend more

/-- Whether the scanner finds a mismatch does not depend on what follows the
text. -/
def Decided (scan : Scan α) (text : List Char) : Prop :=
  ∀ more more', (scan (text ++ more)).Mismatched → (scan (text ++ more')).Mismatched

theorem Local.decided {scan : Scan α} (h : Local scan text) : Decided scan text := by
  intro more more' hmismatch
  rw [h, Reply.extend_mismatched_iff] at hmismatch ⊢
  exact hmismatch

theorem Local.bind {first : Scan α} {next : α → Scan β} (hfirst : Local first text)
    (hnext : ∀ value rest, first text = .success value rest → Local (next value) rest) :
    Local (first >>= next) text := by
  intro more
  rw [bind_apply, bind_apply, hfirst more]
  rcases hreply : first text with ⟨value, rest⟩ | _ | _
  · exact hnext value rest hreply more
  · rfl
  · rfl

theorem Decided.bind {first : Scan α} {next : α → Scan β} (hfirst : Local first text)
    (hnext : ∀ value rest, first text = .success value rest → Decided (next value) rest) :
    Decided (first >>= next) text := by
  intro more more' hmismatch
  rw [bind_apply, hfirst] at hmismatch ⊢
  rcases hreply : first text with ⟨value, rest⟩ | ⟨expected, rest⟩ | _
  · rw [hreply] at hmismatch
    exact hnext value rest hreply more more' hmismatch
  · exact ⟨expected, rest ++ more', rfl⟩
  · rw [hreply] at hmismatch
    exact hmismatch

theorem Decided.bind_of_forall {first : Scan α} {next : α → Scan β} (hfirst : Decided first text)
    (hnext : ∀ value rest, ¬ (next value rest).Mismatched) : Decided (first >>= next) text := by
  intro more more' hmismatch
  rcases bind_mismatched_iff.mp hmismatch with h | ⟨value, rest, _, h⟩
  · exact bind_mismatched_iff.mpr (.inl (hfirst more more' h))
  · exact absurd h (hnext value rest)

/-- From texts of a class, the scanner looks no further than the text and leaves a
text of the class. -/
def Within (Class : List Char → Prop) (scan : Scan α) : Prop :=
  ∀ text, Class text → Local scan text ∧
    ∀ value rest, scan text = .success value rest → Class rest

section

variable {Class : List Char → Prop}

theorem within_pure (value : α) : Within Class (pure value : Scan α) := by
  intro text htext
  refine ⟨fun _ => rfl, ?_⟩
  rintro _ _ h
  cases h
  exact htext

theorem within_tooDeep : Within Class (tooDeep : Scan α) :=
  fun _ _ => ⟨fun _ => rfl, fun _ _ h => by cases h⟩

theorem Within.bind {first : Scan α} {next : α → Scan β} (hfirst : Within Class first)
    (hnext : ∀ value, Within Class (next value)) : Within Class (first >>= next) := by
  intro text htext
  obtain ⟨hlocal, hleft⟩ := hfirst text htext
  constructor
  · exact hlocal.bind fun value rest h => (hnext value rest (hleft value rest h)).1
  · intro value rest h
    obtain ⟨found, mid, hfound, hvalue⟩ := bind_eq_success_iff.mp h
    exact (hnext found mid (hleft found mid hfound)).2 value rest hvalue

theorem Within.decided_bind {first : Scan α} {next : α → Scan β} (hfirst : Within Class first)
    (htext : Class text) (hnext : ∀ value rest, Class rest → Decided (next value) rest) :
    Decided (first >>= next) text := by
  obtain ⟨hlocal, hleft⟩ := hfirst text htext
  exact .bind hlocal fun value rest h => hnext value rest (hleft value rest h)

theorem Within.attempt {scan : Scan α} (h : Within Class scan) : Within Class (attempt scan) := by
  intro text htext
  obtain ⟨hlocal, hleft⟩ := h text htext
  constructor
  · intro more
    rw [Scan.attempt, Scan.attempt, hlocal more]
    cases scan text <;> rfl
  · rintro (_ | value) rest hvalue
    · obtain ⟨-, rfl⟩ := attempt_eq_none_iff.mp hvalue
      exact htext
    · exact hleft value rest (attempt_eq_some_iff.mp hvalue)

theorem Within.collect {step : Scan (Option α)} (h : Within Class step)
    (hprogress : Progresses step) (bound : List Char) (found : List α) (htext : Class text)
    (hbound : text.length ≤ bound.length) :
    (∀ more bound', (text ++ more).length ≤ List.length bound' →
      collect step bound' found (text ++ more) = (collect step bound found text).extend more) ∧
    ∀ values rest, collect step bound found text = .success values rest → Class rest := by
  induction hlength : text.length using Nat.strongRecOn generalizing text found bound with
  | ind length ih =>
      obtain ⟨hlocal, hleft⟩ := h text htext
      rw [Scan.collect]
      simp only [Scan.collect.eq_def step _ found (_ ++ _), hlocal _]
      rcases hreply : step text with ⟨_ | value, rest⟩ | ⟨expected, rest⟩ | _
      · refine ⟨fun _ _ _ => rfl, ?_⟩
        intro _ _ hvalues
        cases hvalues
        exact hleft none rest hreply
      · have hless := hprogress _ _ _ hreply
        rcases bound with _ | ⟨c, bound⟩
        · rw [List.length_nil] at hbound
          omega
        rw [List.length_cons] at hbound
        obtain ⟨hmore, hlast⟩ := ih rest.length (by omega) bound (value :: found)
          (hleft (some value) rest hreply) (by omega) rfl
        refine ⟨?_, hlast⟩
        intro more bound' hbound'
        rcases bound' with _ | ⟨c', bound'⟩
        · rw [List.length_append, List.length_nil] at hbound'
          omega
        · refine hmore more bound' ?_
          rw [List.length_append, List.length_cons] at hbound'
          rw [List.length_append]
          omega
      · exact ⟨fun _ _ _ => rfl, fun _ _ h => by cases h⟩
      · exact ⟨fun _ _ _ => rfl, fun _ _ h => by cases h⟩

theorem Within.many {step : Scan (Option α)} (h : Within Class step)
    (hprogress : Progresses step) : Within Class (many step) := by
  intro text htext
  obtain ⟨hlocal, hleft⟩ := h.collect hprogress text [] htext (Nat.le_refl _)
  exact ⟨fun more => hlocal more (text ++ more) (Nat.le_refl _), hleft⟩

end

end Scan

/-- What is left of a command line somewhere in it, up to its semicolon.  Quoted
pieces are complete, and outside them no parenthesis is closed and no brace is
opened. -/
inductive CommandTail : List Char → Prop where
  | stop : CommandTail [';']
  | blank {c : Char} {text : List Char} (hc : isBlank c = true) (h : CommandTail text) :
      CommandTail (c :: text)
  | plain {c : Char} {text : List Char} (hc : endsBare c = false) (hbackslash : c ≠ '\\')
      (h : CommandTail text) : CommandTail (c :: text)
  | escape {text : List Char} (h : CommandTail text) : CommandTail ('\\' :: '"' :: text)
  | backslash {text : List Char} (hquote : text.head? ≠ some '"') (h : CommandTail text) :
      CommandTail ('\\' :: text)
  | quoted {spelling word text : List Char} (hspells : Spells spelling word ('"' :: text))
      (h : CommandTail text) : CommandTail ('"' :: (spelling ++ '"' :: text))

/-- None of the characters ends a command line, escapes or quotes. -/
def Inert (word : List Char) : Prop :=
  ∀ c ∈ word, c ≠ ';' ∧ c ≠ '\\' ∧ c ≠ '"'

instance (word : List Char) : Decidable (Inert word) :=
  List.decidableBAll (fun c => c ≠ ';' ∧ c ≠ '\\' ∧ c ≠ '"') word

namespace CommandTail

theorem ne_nil (h : CommandTail text) : text ≠ [] := by
  cases h <;> simp

theorem head?_append (h : CommandTail text) (more : List Char) :
    (text ++ more).head? = text.head? := by
  cases h <;> rfl

theorem semicolon_mem (h : CommandTail text) : ';' ∈ text := by
  induction h with
  | stop => exact List.mem_singleton_self _
  | quoted _ _ ih => simp [ih]
  | _ => simp [*]

theorem of_cons {c : Char} (h : CommandTail (c :: text)) (hsemicolon : c ≠ ';')
    (hbackslash : c ≠ '\\') (hquote : c ≠ '"') : CommandTail text := by
  cases h with
  | blank _ h => exact h
  | plain _ _ h => exact h
  | _ => contradiction

theorem of_append {word : List Char} (h : CommandTail (word ++ text))
    (hword : Inert word) : CommandTail text := by
  induction word with
  | nil => exact h
  | cons c word ih =>
      obtain ⟨⟨hsemicolon, hbackslash, hquote⟩, hword⟩ := List.forall_mem_cons.mp hword
      exact ih (of_cons h hsemicolon hbackslash hquote) hword

theorem not_openBrace : ¬ CommandTail (openBrace.toList ++ text) := by
  intro h
  cases h with
  | blank hc _ => exact absurd hc (by decide)
  | plain hc _ _ => exact absurd hc (by decide)

theorem exists_quoted (h : CommandTail ('"' :: text)) :
    ∃ spelling word rest, text = spelling ++ '"' :: rest ∧ Spells spelling word ('"' :: rest) ∧
      CommandTail rest := by
  cases h with
  | blank hc _ => exact absurd hc (by decide)
  | plain hc _ _ => exact absurd hc (by decide)
  | quoted hspells h => exact ⟨_, _, _, rfl, hspells, h⟩

theorem dropWhile {charClass : Char → Bool}
    (hclass : ∀ c, charClass c = true → c ≠ ';' ∧ c ≠ '\\' ∧ c ≠ '"') (h : CommandTail text) :
    CommandTail (text.dropWhile charClass) := by
  rw [← List.takeWhile_append_dropWhile (p := charClass) (l := text)] at h
  exact of_append h fun c hc => hclass c (List.mem_takeWhile_imp hc)

theorem dropWhile_append {charClass : Char → Bool}
    (hclass : ∀ c, charClass c = true → c ≠ ';' ∧ c ≠ '\\' ∧ c ≠ '"') (h : CommandTail text)
    (more : List Char) :
    (text ++ more).dropWhile charClass = text.dropWhile charClass ++ more :=
  dropWhile_append_of_ne_nil (h.dropWhile hclass).ne_nil more

end CommandTail

theorem isBlank_ne {c : Char} (h : isBlank c = true) : c ≠ ';' ∧ c ≠ '\\' ∧ c ≠ '"' := by
  refine ⟨?_, ?_, ?_⟩ <;> rintro rfl <;> exact absurd h (by decide)

theorem isPathChar_ne {c : Char} (h : isPathChar c = true) : c ≠ ';' ∧ c ≠ '\\' ∧ c ≠ '"' := by
  refine ⟨?_, ?_, ?_⟩ <;> rintro rfl <;> exact absurd h (by decide)

theorem isPrefix_of_isPrefix_append {word more : List Char} {c : Char} (hmem : c ∈ text)
    (hc : c ∉ word) (h : word <+: text ++ more) : word <+: text := by
  rcases List.prefix_or_prefix_of_prefix h (List.prefix_append text more) with hword | htext
  · exact hword
  · exact absurd (htext.subset hmem) hc

namespace Scan

theorem within_skipBlanks : Within CommandTail skipBlanks := by
  intro text htext
  constructor
  · intro more
    rw [skipBlanks, skipBlanks, htext.dropWhile_append fun _ => isBlank_ne]
    rfl
  · intro _ rest h
    obtain rfl := skipBlanks_eq_success_iff.mp h
    exact htext.dropWhile fun _ => isBlank_ne

theorem within_blanks : Within CommandTail blanks := by
  intro text htext
  rcases text with _ | ⟨c, text⟩
  · exact absurd rfl htext.ne_nil
  rw [Local]
  simp only [List.cons_append, blanks]
  split
  · next hc =>
      obtain ⟨hsemicolon, hbackslash, hquote⟩ := isBlank_ne hc
      have htail := htext.of_cons hsemicolon hbackslash hquote
      constructor
      · intro more
        rw [htail.dropWhile_append fun _ => isBlank_ne]
        rfl
      · intro _ rest h
        cases h
        exact htail.dropWhile fun _ => isBlank_ne
  · exact ⟨fun _ => rfl, fun _ _ h => by cases h⟩

theorem within_path : Within CommandTail path := by
  intro text htext
  have hdrop := htext.dropWhile fun _ => isPathChar_ne
  constructor
  · intro more
    have htake : (text ++ more).takeWhile isPathChar = text.takeWhile isPathChar := by
      rw [List.takeWhile_append, if_neg]
      intro hall
      have hsplit := List.takeWhile_append_dropWhile (p := isPathChar) (l := text)
      have hlength := congrArg List.length hsplit
      rw [List.length_append, hall] at hlength
      exact hdrop.ne_nil (List.eq_nil_of_length_eq_zero (Nat.left_eq_add.mp hlength.symm))
    rw [path, path, htake, htext.dropWhile_append fun _ => isPathChar_ne]
    split <;> rfl
  · intro name rest h
    obtain ⟨-, hname, rfl, -⟩ := path_eq_success_iff.mp h
    exact htext.of_append fun c hc => isPathChar_ne (hname c hc)

section

variable {literal : String} (hliteral : Inert literal.toList)
include hliteral

theorem within_accept : Within CommandTail (accept literal) := by
  intro text htext
  constructor
  · intro more
    by_cases hbegins : literal.toList <+: text
    · obtain ⟨rest, rfl⟩ := hbegins
      rw [accept_eq_true_iff.mpr rfl, accept_eq_true_iff.mpr (List.append_assoc ..)]
      rfl
    · have hbegins' : ¬ literal.toList <+: text ++ more := by
        intro h
        have hsemicolon : ';' ∉ literal.toList := fun hmem => (hliteral _ hmem).1 rfl
        exact hbegins (isPrefix_of_isPrefix_append htext.semicolon_mem hsemicolon h)
      rw [accept_eq_false_iff.mpr ⟨hbegins, rfl⟩, accept_eq_false_iff.mpr ⟨hbegins', rfl⟩]
      rfl
  · rintro (_ | _) rest h
    · obtain ⟨-, rfl⟩ := accept_eq_false_iff.mp h
      exact htext
    · obtain rfl := accept_eq_true_iff.mp h
      exact htext.of_append hliteral

theorem within_expect : Within CommandTail (Reader.expect literal : Scan Unit) := by
  rw [expect_eq]
  refine (within_accept hliteral).bind fun found => ?_
  cases found
  · exact fun _ _ => ⟨fun _ => rfl, fun _ _ h => by cases h⟩
  · exact within_pure ()

end

theorem local_expect_semicolon (h : text ≠ []) : Local (Reader.expect ";" : Scan Unit) text := by
  rcases text with _ | ⟨c, text⟩
  · exact absurd rfl h
  · intro more
    rw [List.cons_append, expect_apply, expect_apply]
    by_cases hc : ';' = c
    · subst hc
      rfl
    · simp [List.isPrefixOf?, hc, Reply.extend]

theorem bareTail_zero (taken text : List Char) :
    bareTail 0 taken ('\\' :: text) = .tooDeep := by
  rw [bareTail_cons, endsBare_backslash]
  rfl

theorem quotedTail_zero (taken text : List Char) :
    quotedTail 0 taken ('\\' :: text) = .tooDeep := by
  rw [quotedTail_cons]
  rfl

theorem local_bareTail_of_endsBare {c : Char} (hc : endsBare c = true)
    (htext : CommandTail (c :: text)) (frames : Nat) (taken : List Char) :
    Local (bareTail frames taken) (c :: text) ∧
      ∀ value rest, bareTail frames taken (c :: text) = .success value rest →
        CommandTail rest := by
  rw [Local]
  simp only [List.cons_append, bareTail_cons, if_pos hc]
  split
  · exact ⟨fun _ => rfl, fun _ _ h => by cases h⟩
  · refine ⟨fun _ => rfl, ?_⟩
    intro _ _ h
    cases h
    exact htext

theorem within_bareTail (frames : Nat) (taken : List Char) :
    Within CommandTail (bareTail frames taken) := by
  intro text htext
  induction htext generalizing taken with
  | stop => exact local_bareTail_of_endsBare (by decide) .stop frames taken
  | blank hc h =>
      exact local_bareTail_of_endsBare (by simp [endsBare, hc]) (.blank hc h) frames taken
  | quoted hspells h =>
      exact local_bareTail_of_endsBare (by decide) (.quoted hspells h) frames taken
  | @plain c text hc hbackslash h ih =>
      rw [Local]
      simp only [List.cons_append, bareTail_plain _ _ _ hbackslash hc]
      exact ih (c :: taken)
  | @escape text h ih =>
      rcases frames with _ | frames
      · exact ⟨fun _ => rfl, fun _ _ h => by cases h⟩
      · rw [Local]
        simp only [List.cons_append, bareTail_escaped]
        exact ih ('"' :: taken)
  | @backslash text hquote h ih =>
      rcases frames with _ | frames
      · simp only [Local, List.cons_append, bareTail_zero]
        exact ⟨fun _ => rfl, fun _ _ h => by cases h⟩
      · have hquote' : ∀ more, (text ++ more).head? ≠ some '"' := by
          intro more
          rwa [h.head?_append]
        rw [Local]
        simp only [List.cons_append, bareTail_backslash _ _ hquote,
          bareTail_backslash _ _ (hquote' _)]
        exact ih ('\\' :: taken)

theorem local_quotedTail {spelling word : List Char} (h : Spells spelling word ('"' :: text))
    (frames : Nat) (taken : List Char) :
    Local (quotedTail frames taken) (spelling ++ '"' :: text) ∧
      ∀ value rest, quotedTail frames taken (spelling ++ '"' :: text) = .success value rest →
        rest = text := by
  generalize hnext : '"' :: text = next at h ⊢
  induction h generalizing taken with
  | nil =>
      subst hnext
      simp only [Local, List.nil_append, List.cons_append, quotedTail_quote]
      refine ⟨fun _ => rfl, ?_⟩
      intro _ _ h
      cases h
      rfl
  | quote h ih =>
      rcases frames with _ | frames
      · exact ⟨fun _ => rfl, fun _ _ h => by cases h⟩
      · rw [Local]
        simp only [List.cons_append, quotedTail_escaped]
        exact ih ('"' :: taken) hnext
  | @backslash spelling word next hquote h ih =>
      rcases frames with _ | frames
      · simp only [Local, List.cons_append, quotedTail_zero]
        exact ⟨fun _ => rfl, fun _ _ h => by cases h⟩
      · have hquote' : ∀ more, (spelling ++ next ++ more).head? ≠ some '"' := by
          intro more
          subst hnext
          rw [List.append_assoc, List.cons_append]
          rwa [List.head?_append, List.head?_cons] at hquote ⊢
        rw [Local]
        simp only [List.cons_append, quotedTail_backslash _ _ hquote,
          quotedTail_backslash _ _ (hquote' _)]
        exact ih ('\\' :: taken) hnext
  | @plain c spelling word next hbackslash hquote h ih =>
      rw [Local]
      simp only [List.cons_append, quotedTail_plain _ _ _ hbackslash hquote]
      exact ih (c :: taken) hnext

end Scan

namespace Production

open Scan

theorem scan_quoted_apply (frames : Nat) (text : List Char) :
    quoted.scan (frames + 1) ('"' :: text) = quotedTail frames [] text := by
  rw [scan_quoted, bind_apply, expect_apply]
  rfl

theorem within_argument (frames : Nat) : Within CommandTail (argument.scan frames) := by
  rcases frames with _ | frames
  · rw [scan_zero]
    exact within_tooDeep
  intro text htext
  rw [Local]
  simp only [scan_argument_apply, htext.head?_append]
  rcases frames with _ | frames
  · simp only [scan_zero, ite_self]
    exact within_tooDeep text htext
  split
  · next hhead =>
      obtain ⟨text, rfl⟩ := List.head?_eq_some_iff.mp hhead
      obtain ⟨spelling, word, rest, rfl, hspells, hrest⟩ := htext.exists_quoted
      obtain ⟨hlocal, hleft⟩ := local_quotedTail hspells frames []
      simp only [List.cons_append, scan_quoted_apply]
      refine ⟨hlocal, ?_⟩
      intro value last hvalue
      rw [hleft value last hvalue]
      exact hrest
  · rw [scan_bare]
    exact within_bareTail frames [] text htext

theorem within_spacedArgument (frames : Nat) :
    Within CommandTail (spacedArgument.scan frames) := by
  rcases frames with _ | frames
  · rw [scan_zero]
    exact within_tooDeep
  · rw [scan_spacedArgument]
    exact within_blanks.bind fun _ => within_argument frames

theorem within_attempt_spacedArgument (frames : Nat) :
    Within CommandTail ((attempt spacedArgument).scan frames) := by
  rcases frames with _ | frames
  · rw [scan_zero]
    exact within_tooDeep
  · rw [scan_attempt]
    exact (within_spacedArgument frames).attempt

theorem within_path_scan (frames : Nat) : Within CommandTail (path.scan frames) := by
  rcases frames with _ | frames
  · rw [scan_zero]
    exact within_tooDeep
  · rw [scan_path]
    exact within_path

theorem within_command (frames : Nat) : Within CommandTail (command.scan frames) := by
  induction frames with
  | zero =>
      rw [scan_zero]
      exact within_tooDeep
  | succ frames ih =>
      rw [scan_command]
      refine (within_accept (by decide)).bind fun opened => ?_
      cases opened
      · refine (within_path_scan frames).bind fun name => ?_
        refine ((within_attempt_spacedArgument frames).many
          (spacedArgument_progresses frames)).bind fun args => ?_
        exact within_pure _
      · refine within_skipBlanks.bind fun _ => ih.bind fun call => ?_
        refine within_skipBlanks.bind fun _ => ?_
        refine (within_expect (by decide)).bind fun _ => ?_
        exact within_pure call

theorem not_mismatched_attempt {kind : Kind} (production : Production kind) (frames : Nat)
    (text : List Char) : ¬ ((attempt production).scan frames text).Mismatched := by
  rintro ⟨expected, rest, h⟩
  rcases frames with _ | frames
  · cases h
  · rw [scan_attempt, Scan.attempt] at h
    split at h <;> cases h

theorem decided_zero {kind : Kind} (production : Production kind) (text : List Char) :
    Decided (production.scan 0) text := by
  rintro _ _ ⟨_, _, h⟩
  cases h

theorem decided_block (htext : CommandTail text) (frames : Nat) :
    Decided (block.scan frames) text := by
  rcases frames with _ | frames
  · exact decided_zero block text
  rw [scan_block]
  refine .bind (within_expect (by decide) text htext).1 ?_
  intro _ rest h
  obtain rfl := expect_eq_success_iff.mp h
  exact absurd htext CommandTail.not_openBrace

theorem decided_comment (htext : CommandTail text) (frames : Nat) :
    Decided (comment.scan frames) text := by
  rcases frames with _ | frames
  · exact decided_zero comment text
  rw [scan_comment]
  refine (within_expect (by decide)).decided_bind htext fun _ rest _ => ?_
  rintro _ _ ⟨_, _, h⟩
  cases h

theorem decided_commandLine (htext : CommandTail text) (frames : Nat) :
    Decided (commandLine.scan frames) text := by
  rcases frames with _ | frames
  · exact decided_zero commandLine text
  rw [scan_commandLine]
  refine (within_command frames).decided_bind htext fun call rest hrest => ?_
  refine within_skipBlanks.decided_bind hrest fun _ rest hrest => ?_
  refine .bind_of_forall (local_expect_semicolon hrest.ne_nil).decided ?_
  rintro _ _ ⟨_, _, h⟩
  cases h

section

variable {frames : Nat}
  (h : ∀ n < frames, ∀ text, CommandTail text → Decided (statement.scan n) text)
include h

theorem decided_guarded {keyword : String} {n : Nat} (hn : n < frames)
    (hkeyword : Inert keyword.toList) (htext : CommandTail text)
    {next : Command → Node → Scan Node}
    (hnext : ∀ predicate node rest, ¬ (next predicate node rest).Mismatched) :
    Decided (do
      Reader.expect keyword
      blanks
      let predicate ← command.scan n
      skipBlanks
      let node ← statement.scan n
      next predicate node : Scan Node) text := by
  refine (within_expect hkeyword).decided_bind htext fun _ rest hrest => ?_
  refine within_blanks.decided_bind hrest fun _ rest hrest => ?_
  refine (within_command n).decided_bind hrest fun predicate rest hrest => ?_
  refine within_skipBlanks.decided_bind hrest fun _ rest hrest => ?_
  exact (h n hn rest hrest).bind_of_forall (hnext predicate)

theorem decided_conditional (htext : CommandTail text) :
    Decided (conditional.scan frames) text := by
  rcases frames with _ | frames
  · exact decided_zero conditional text
  rw [scan_conditional]
  refine decided_guarded h (Nat.lt_succ_self frames) (by decide) htext ?_
  intro predicate branch rest hmismatch
  rcases bind_mismatched_iff.mp hmismatch with hother | ⟨found, mid, _, hpure⟩
  · exact not_mismatched_attempt otherwise frames rest hother
  · obtain ⟨_, _, hpure⟩ := hpure
    cases found <;> cases hpure

theorem decided_loop (htext : CommandTail text) : Decided (loop.scan frames) text := by
  rcases frames with _ | frames
  · exact decided_zero loop text
  rw [scan_loop]
  refine decided_guarded h (Nat.lt_succ_self frames) (by decide) htext ?_
  rintro _ _ _ ⟨_, _, hpure⟩
  cases hpure

end

theorem decided_statement (frames : Nat) (htext : CommandTail text) :
    Decided (statement.scan frames) text := by
  induction frames using Nat.strongRecOn generalizing text with
  | ind frames ih =>
      rcases frames with _ | _ | frames
      · exact decided_zero statement text
      · rintro _ _ ⟨_, _, h⟩
        cases h
      · have hless : ∀ n < frames, ∀ text, CommandTail text → Decided (statement.scan n) text :=
          fun n hn _ => ih n (by omega)
        intro more more' hmismatch
        obtain ⟨hblock, hconditional, hloop, hcomment, hline⟩ :=
          scan_statement_mismatched_iff.mp hmismatch
        exact scan_statement_mismatched_iff.mpr
          ⟨decided_block htext frames more more' hblock,
            decided_conditional hless htext more more' hconditional,
            decided_loop hless htext more more' hloop,
            decided_comment htext frames more more' hcomment,
            decided_commandLine htext frames more more' hline⟩

theorem decided_otherwise (htext : CommandTail text) (frames : Nat) :
    Decided (otherwise.scan frames) text := by
  rcases frames with _ | frames
  · exact decided_zero otherwise text
  rw [scan_otherwise]
  refine within_skipBlanks.decided_bind htext fun _ rest hrest => ?_
  refine (within_expect (by decide)).decided_bind hrest fun _ rest hrest => ?_
  exact within_skipBlanks.decided_bind hrest fun _ rest hrest => decided_statement frames hrest

end Production

namespace CommandTail

theorem blanks_append {blanks : List Char} (hblanks : Blanks blanks) (h : CommandTail text) :
    CommandTail (blanks ++ text) := by
  induction blanks with
  | nil => exact h
  | cons c blanks ih =>
      obtain ⟨hc, hblanks⟩ := List.forall_mem_cons.mp hblanks
      exact .blank hc (ih hblanks)

theorem path_append {word : List Char} (hword : ∀ c ∈ word, isPathChar c = true)
    (h : CommandTail text) : CommandTail (word ++ text) := by
  induction word with
  | nil => exact h
  | cons c word ih =>
      obtain ⟨hc, hword⟩ := List.forall_mem_cons.mp hword
      obtain ⟨-, hbackslash, hquote⟩ := isPathChar_ne hc
      refine .plain (endsBare_eq_false ?_ hquote) hbackslash (ih hword)
      rw [Bool.eq_false_iff]
      intro hbarrier
      rw [isPathChar_eq_false_of_isBarrier hbarrier] at hc
      cases hc

theorem bare_append {spelling word more : List Char}
    (hspells : Spells spelling word (text ++ more)) (hword : BareWord word)
    (h : CommandTail text) : CommandTail (spelling ++ text) := by
  generalize hnext : text ++ more = next at hspells
  induction hspells with
  | nil => exact h
  | quote _ ih => exact .escape (ih (List.forall_mem_cons.mp hword).2 hnext)
  | @backslash spelling word next hquote _ ih =>
      refine .backslash ?_ (ih (List.forall_mem_cons.mp hword).2 hnext)
      have hhead : (spelling ++ next).head? = (spelling ++ text).head? := by
        rw [List.head?_append, ← hnext, h.head?_append, ← List.head?_append]
      rwa [hhead] at hquote
  | plain hbackslash hquote _ ih =>
      obtain ⟨hc, hword⟩ := List.forall_mem_cons.mp hword
      exact .plain (endsBare_eq_false hc hquote) hbackslash (ih hword hnext)

theorem quoted_append {spelling word more : List Char}
    (hspells : Spells spelling word ('"' :: (text ++ more))) (h : CommandTail text) :
    CommandTail ('"' :: spelling ++ ['"'] ++ text) := by
  obtain ⟨hspelling, hlast⟩ := spells_iff.mp hspells
  have hspells' : Spells spelling word ('"' :: text) := spells_iff.mpr ⟨hspelling, hlast⟩
  simpa using CommandTail.quoted hspells' h

theorem arguments_append {piece more : List Char} {args : List String}
    (hargs : Arguments piece args (text ++ more)) (h : CommandTail text) :
    CommandTail (piece ++ text) := by
  generalize hrest : text ++ more = rest at hargs
  induction hargs with
  | nil => exact h
  | @cons piece others rest arg args hvalue _ ih =>
      subst hrest
      have htail := ih rfl
      rw [← List.append_assoc] at hvalue
      rw [List.append_assoc]
      cases hvalue with
      | spacedArgument hblanks _ hword =>
          rw [List.append_assoc]
          apply blanks_append hblanks
          cases hword with
          | quotedArgument hword =>
              cases hword with
              | quoted hspells => exact quoted_append hspells htail
          | bareArgument hword =>
              cases hword with
              | bare _ hbare hspells _ => exact bare_append hspells hbare htail

end CommandTail

namespace Production

open Scan

theorem commandTail_of_scan_commandLine {frames : Nat} {node : Node}
    (h : commandLine.scan frames text = .success node rest) :
    text.head? = some '(' ∨ ∃ line, text = line ++ rest ∧ CommandTail line := by
  obtain ⟨n, call, mid, rfl, hcall, hmid, rfl⟩ := scan_commandLine_eq_success_iff.mp h
  obtain ⟨m, rfl, ⟨after, _, rfl, _⟩ | ⟨words, hname, hargs⟩⟩ :=
    scan_command_eq_success_iff.mp hcall
  · exact .inl rfl
  · right
    obtain ⟨piece, rfl, hpiece⟩ := arguments_of_repeats hargs
    obtain ⟨_, _, _, hpath, rfl, _⟩ := scan_path_eq_success_iff.mp hname
    obtain ⟨blanks, hblanks, hmid'⟩ := exists_blanks_append mid
    have hmid : mid = blanks ++ [';'] ++ rest := by rw [hmid', hmid, List.append_assoc]; rfl
    rw [hmid] at hpiece
    refine ⟨call.name.toList ++ (piece ++ (blanks ++ [';'])), ?_, ?_⟩
    · rw [hmid]
      simp only [List.append_assoc]
    · exact .path_append hpath (.arguments_append hpiece (.blanks_append hblanks .stop))

end Production

end StatusShell.Grammar
