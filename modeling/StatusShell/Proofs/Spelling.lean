import StatusShell.Proofs.Frames
import StatusShell.Proofs.Positions
import StatusShell.Proofs.Shape

namespace StatusShell.Grammar

open Cursor

variable {text : List Char} {start stop frames : Nat} {value : String} {cursor stopped : Cursor}

/-- Between the positions the text spells the value as a quoted word. -/
structure QuotedAt (text : List Char) (start stop : Nat) (value : String) : Prop where
  within : stop ≤ text.length
  spelled : text.extract start stop = '"' :: escaped value.toList ++ ['"']
  quotable : value.toList.getLast? ≠ some '\\'

/-- Between the positions the text spells the value as a bare word, which does not go on. -/
structure BareAt (text : List Char) (start stop : Nat) (value : String) : Prop where
  within : stop ≤ text.length
  spelled : text.extract start stop = escaped value.toList
  nonempty : value.toList ≠ []
  bare : ∀ c ∈ value.toList, isBarrier c = false
  ends : ∀ c ∈ text[stop]?, endsBare c = true ∧ (value.toList.getLast? = some '\\' → c ≠ '"')

/-- The values that the production is read as, from one position to another, are exactly those
that are spelled between them.  Where none is spelled there is a mismatch.  Only a limit of
less than two frames can make it give up. -/
structure ReadsExactly (production : Production .text)
    (SpelledAt : List Char → Nat → Nat → String → Prop) : Prop where
  eq_ok_iff (frames : Nat) (text : List Char) (start : Nat) (value : String) (stopped : Cursor) :
    (readWithin frames production ⟨text, start⟩).1 ≠ .error .tooDeep →
      (readWithin frames production ⟨text, start⟩ = (.ok value, stopped) ↔
        ∃ stop : Nat, stopped = ⟨text, stop⟩ ∧ SpelledAt text start stop value)
  mismatch_iff (frames : Nat) (text : List Char) (start : Nat) :
    (readWithin frames production ⟨text, start⟩).1 ≠ .error .tooDeep →
      ((∃ expected stopped,
        readWithin frames production ⟨text, start⟩ = (.error (.mismatch expected), stopped)) ↔
        ∀ stop value, ¬ SpelledAt text start stop value)
  not_tooDeep (frames : Nat) (text : List Char) (start : Nat) :
    2 ≤ frames → (readWithin frames production ⟨text, start⟩).1 ≠ .error .tooDeep

theorem quotedAt_iff : QuotedAt text start stop value ↔
    stop ≤ text.length ∧ Word .quoted (text.extract start stop) value (text.drop stop) := by
  rw [Word.quoted_iff]
  exact ⟨fun h => ⟨h.within, h.spelled, h.quotable⟩, fun ⟨hstop, hspelled, hlast⟩ =>
    ⟨hstop, hspelled, hlast⟩⟩

theorem bareAt_iff : BareAt text start stop value ↔
    stop ≤ text.length ∧ Word .bare (text.extract start stop) value (text.drop stop) := by
  rw [Word.bare_iff, List.head?_drop]
  exact ⟨fun h => ⟨h.within, h.spelled, h.nonempty, h.bare, h.ends⟩,
    fun ⟨hstop, hspelled, hne, hbare, hends⟩ => ⟨hstop, hspelled, hne, hbare, hends⟩⟩

section

variable {production : Production .text}
  (hword : ∀ {piece value rest}, Word production piece value rest → ∀ frames,
    production.scan (frames + 2) (piece ++ rest) = .success value rest)
  (hframes : ∀ length, production.framesFor length = 2)
  (hbeyond : ∀ frames (cursor : Cursor), cursor.text.length < cursor.pos →
    ∃ expected, readWithin (frames + 2) production cursor = (.error (.mismatch expected), cursor))

include hframes hbeyond in
theorem readWithin_ends_of_two_frames (frames : Nat) (text : List Char) (start : Nat) :
    (∃ value stopped, readWithin (frames + 2) production ⟨text, start⟩ = (.ok value, stopped)) ∨
      ∃ expected stopped, readWithin (frames + 2) production ⟨text, start⟩ =
        (.error (.mismatch expected), stopped) := by
  by_cases hstart : start ≤ text.length
  · rcases readWithin_cases hstart (frames + 2) production with hok | hmismatch | hdeep
    · exact .inl hok
    · exact .inr hmismatch
    · have hends : Scan.Ends (production.scan (frames + 2)) (text.drop start) 0 :=
        Production.suffices_all _ production (by rw [hframes]; exact Nat.le_add_left 2 frames)
      rw [Scan.Ends, (readWithin_tooDeep_iff hstart).mp hdeep] at hends
      simp [Reply.Mismatched] at hends
  · have hfar : ((text.length : Nat) : Int) < start := by omega
    obtain ⟨expected, hmismatch⟩ := hbeyond frames ⟨text, start⟩ hfar
    exact .inr ⟨expected, _, hmismatch⟩

include hword hbeyond in
theorem readWithin_eq_ok_iff_word :
    readWithin (frames + 2) production ⟨text, start⟩ = (.ok value, stopped) ↔
      ∃ stop : Nat, stopped = ⟨text, stop⟩ ∧ stop ≤ text.length ∧
        Word production (text.extract start stop) value (text.drop stop) := by
  by_cases hstart : start ≤ text.length
  · rw [readWithin_eq_ok_iff hstart]
    refine exists_congr fun stop => and_congr_right fun _ => ?_
    constructor
    · rintro ⟨hle, hstop, hscan⟩
      obtain ⟨piece, hpiece, hspelled⟩ := Production.word_of_scan hscan
      rw [extract_eq_of_drop_eq hle hstop hpiece]
      exact ⟨hstop, hspelled⟩
    · rintro ⟨hstop, hspelled⟩
      have hle : start ≤ stop := by
        by_contra hlt
        exact hspelled.ne_nil (by simp [List.extract_eq_take_drop]; omega)
      refine ⟨hle, hstop, ?_⟩
      rw [drop_eq_extract_append hle]
      exact hword hspelled frames
  · have hfar : ((text.length : Nat) : Int) < start := by omega
    obtain ⟨expected, hmismatch⟩ := hbeyond frames ⟨text, start⟩ hfar
    rw [hmismatch]
    constructor
    · rintro ⟨⟩
    · rintro ⟨stop, -, hstop, hspelled⟩
      have hnil : text.extract start stop = [] := by
        rw [List.extract_eq_take_drop, List.drop_eq_nil_of_le (by omega), List.take_nil]
      exact absurd hnil hspelled.ne_nil

include hword hframes hbeyond in
theorem readsExactly_of_word {SpelledAt : List Char → Nat → Nat → String → Prop}
    (hspelled : ∀ {text start stop value}, SpelledAt text start stop value ↔
      stop ≤ text.length ∧ Word production (text.extract start stop) value (text.drop stop)) :
    ReadsExactly production SpelledAt where
  eq_ok_iff frames text start value stopped hlimit := by
    simp only [hspelled]
    rw [← readWithin_eq_of_le (Nat.le_add_right frames 2) hlimit]
    exact readWithin_eq_ok_iff_word hword hbeyond
  mismatch_iff frames text start hlimit := by
    rw [← readWithin_eq_of_le (Nat.le_add_right frames 2) hlimit]
    constructor
    · rintro ⟨expected, stopped, hmismatch⟩ stop value h
      have hread : readWithin (frames + 2) production ⟨text, start⟩ = (.ok value, ⟨text, stop⟩) :=
        (readWithin_eq_ok_iff_word hword hbeyond).mpr ⟨stop, rfl, hspelled.mp h⟩
      rw [hmismatch] at hread
      cases hread
    · intro hnone
      rcases readWithin_ends_of_two_frames hframes hbeyond frames text start with
        ⟨value, stopped, hread⟩ | hmismatch
      · obtain ⟨stop, -, h⟩ := (readWithin_eq_ok_iff_word hword hbeyond).mp hread
        exact absurd (hspelled.mpr h) (hnone stop value)
      · exact hmismatch
  not_tooDeep frames text start htwo := by
    obtain ⟨more, rfl⟩ := Nat.exists_eq_add_of_le' htwo
    rcases readWithin_ends_of_two_frames hframes hbeyond more text start with
      ⟨value, stopped, hread⟩ | ⟨expected, stopped, hread⟩ <;> simp [hread]

end

theorem readsExactly_quoted : ReadsExactly .quoted QuotedAt := by
  refine readsExactly_of_word Production.scan_quoted_of_word (fun _ => rfl) ?_ quotedAt_iff
  intro frames cursor hbeyond
  have haccept : (Reader.accept "\"" : Step Bool) cursor = (.ok false, cursor) :=
    accept_beyond hbeyond "\""
  refine ⟨.literal "\"", ?_⟩
  rw [readWithin, Production.read, Reader.expect]
  simp only [bind_apply, haccept]
  rfl

theorem readsExactly_bare : ReadsExactly .bare BareAt := by
  refine readsExactly_of_word Production.scan_bare_of_word (fun _ => rfl) ?_ bareAt_iff
  intro frames cursor hbeyond
  exact ⟨.argument, follow_beyond hbeyond rfl⟩

theorem exists_scan_of_follow {α : Type} {scan : Scan α} {value : α}
    (h : follow scan cursor = (.ok value, stopped)) :
    ∃ rest, scan cursor.ahead = .success value rest := by
  rw [follow] at h
  split at h
  · split at h
    · next rest hscan =>
        cases h
        exact ⟨rest, hscan⟩
    · cases h
    · cases h
  · cases h

theorem isWritable_of_readWithin_quoted
    (h : readWithin frames .quoted cursor = (.ok value, stopped)) : isWritable value = true := by
  cases frames with
  | zero => cases h
  | succ frames =>
      rw [readWithin, Production.read, bind_apply] at h
      split at h
      · obtain ⟨rest, hscan⟩ := exists_scan_of_follow h
        obtain ⟨spelling, word, -, hspells, rfl⟩ := Scan.spells_of_quotedTail hscan
        rw [isWritable_iff]
        left
        intro hlast
        exact (spells_iff.mp hspells).2 (by simpa using hlast) rfl
      · cases h

theorem isWritable_of_readWithin_bare
    (h : readWithin frames .bare cursor = (.ok value, stopped)) : isWritable value = true := by
  cases frames with
  | zero => cases h
  | succ frames =>
      obtain ⟨rest, hscan⟩ := exists_scan_of_follow h
      obtain ⟨spelling, word, -, -, hbare, rfl, -, -⟩ := Scan.spells_of_bareTail hscan
      rw [isWritable_iff]
      exact .inr (by simpa using hbare)

theorem isWritable_of_readWithin
    (h : readWithin frames .argument cursor = (.ok value, stopped)) : isWritable value = true := by
  cases frames with
  | zero => cases h
  | succ frames =>
      rw [readWithin, Production.read, bind_apply] at h
      split at h
      · next quoted moved _ =>
        cases quoted with
        | true => exact isWritable_of_readWithin_quoted h
        | false => exact isWritable_of_readWithin_bare h
      · cases h

theorem not_and_isBarrier_iff :
    ¬ (value.toList.getLast? = some '\\' ∧ ∃ c ∈ value.toList, isBarrier c = true) ↔
      isWritable value = true := by
  rw [isWritable_iff, BareWord, not_and_or]
  simp

theorem exists_word_of_isWritable (h : isWritable value = true) :
    ∃ piece, Word .argument piece value [] := by
  by_cases hlast : value.toList.getLast? = some '\\'
  · refine ⟨_, .bareArgument (Word.bare_iff.mpr ⟨rfl, ?_, ?_, by simp⟩)⟩
    · intro hnil
      simp [hnil] at hlast
    · exact (isWritable_iff.mp h).resolve_left (not_not_intro hlast)
  · exact ⟨_, .quotedArgument (Word.quoted_iff.mpr ⟨rfl, hlast⟩)⟩

theorem ReadsExactly.spelledAt {production : Production .text}
    {SpelledAt : List Char → Nat → Nat → String → Prop} (hreads : ReadsExactly production SpelledAt)
    (h : readWithin frames production ⟨text, start⟩ = (.ok value, ⟨text, stop⟩)) :
    SpelledAt text start stop value := by
  have hlimit : (readWithin frames production ⟨text, start⟩).1 ≠ .error .tooDeep := by simp [h]
  obtain ⟨stop', hstop, hspelled⟩ := (hreads.eq_ok_iff frames text start value _ hlimit).mp h
  have hpos : (stop : Int) = stop' := congrArg Cursor.pos hstop
  obtain rfl : stop = stop' := by omega
  exact hspelled

/-- Spelling is an exact code.  Quoted and bare words are read exactly where they are spelled.
Hence two quoted words of one value are spelled alike, and so are two bare ones; every value
that does not end in a backslash is read from its quoted spelling, whatever stands around it;
and the values of arguments are those that do not end in a backslash or hold no barrier. -/
theorem spelling_exact :
    ReadsExactly .quoted QuotedAt ∧ ReadsExactly .bare BareAt ∧
    (∀ production, production = .quoted ∨ production = .bare →
      ∀ (value : String) (frames frames' : Nat) (text text' : List Char)
        (start start' stop stop' : Nat),
      readWithin frames production ⟨text, start⟩ = (.ok value, ⟨text, stop⟩) →
      readWithin frames' production ⟨text', start'⟩ = (.ok value, ⟨text', stop'⟩) →
      text.extract start stop = text'.extract start' stop') ∧
    (∀ value : String, value.toList.getLast? ≠ some '\\' → ∀ before after : List Char,
      let piece := '"' :: escaped value.toList ++ ['"']
      let text := before ++ piece ++ after
      let stopped : Cursor := ⟨text, (before.length + piece.length : Nat)⟩
      ∀ frames, readWithin (frames + 2) .quoted ⟨text, before.length⟩ = (.ok value, stopped) ∧
        readWithin (frames + 3) .argument ⟨text, before.length⟩ = (.ok value, stopped)) ∧
    (∀ value : String,
      (∃ frames cursor stopped, readWithin frames .argument cursor = (.ok value, stopped)) ↔
        ¬ (value.toList.getLast? = some '\\' ∧ ∃ c ∈ value.toList, isBarrier c = true)) := by
  refine ⟨readsExactly_quoted, readsExactly_bare, ?_, ?_, ?_⟩
  · rintro production (rfl | rfl) value frames frames' text text' start start' stop stop' h h'
    · rw [(readsExactly_quoted.spelledAt h).spelled, (readsExactly_quoted.spelledAt h').spelled]
    · rw [(readsExactly_bare.spelledAt h).spelled, (readsExactly_bare.spelledAt h').spelled]
  · intro value hlast before after piece text stopped frames
    have hword : Word .quoted piece value after := Word.quoted_iff.mpr ⟨rfl, hlast⟩
    exact ⟨readWithin_append (Production.scan_quoted_of_word hword frames) before,
      readWithin_append (Production.scan_argument_of_word (.quotedArgument hword) frames) before⟩
  · intro value
    rw [not_and_isBarrier_iff]
    constructor
    · rintro ⟨frames, cursor, stopped, h⟩
      exact isWritable_of_readWithin h
    · intro h
      obtain ⟨piece, hword⟩ := exists_word_of_isWritable h
      exact ⟨_, _, _, readWithin_append (Production.scan_argument_of_word hword 0) []⟩

/-- The second of two backslashes escapes the quote behind it, and the last one of a bare word
stands for itself.  No argument ends in a backslash and has a blank in it. -/
theorem spelling_exact_backslashes :
    (readWithin 2 .quoted ⟨"z\"a\\\\\"b\"!".toList, 1⟩).1 = .ok "a\\\"b" ∧
      readWithin 2 .bare ⟨"a\\\\ \"".toList, 0⟩ = (.ok "a\\\\", ⟨"a\\\\ \"".toList, 3⟩) ∧
      ∀ frames cursor stopped, readWithin frames .argument cursor ≠ (.ok "a \\", stopped) := by
  obtain ⟨-, hbare, -, hquotable, hvalues⟩ := spelling_exact
  refine ⟨?_, ?_, ?_⟩
  · have hread := (hquotable "a\\\"b" (by decide) ['z'] ['!'] 0).1
    exact congrArg Prod.fst hread
  · refine (hbare.eq_ok_iff 2 _ 0 _ _ (hbare.not_tooDeep 2 _ 0 (by decide))).mpr ⟨3, rfl, ?_⟩
    exact ⟨by decide, by decide, by decide, by simp [isBarrier, isBlank],
      by simp [endsBare, isBlank]⟩
  · intro frames cursor stopped hread
    exact (hvalues "a \\").mp ⟨frames, cursor, stopped, hread⟩
      ⟨by decide, ' ', by decide, by decide⟩

end StatusShell.Grammar
