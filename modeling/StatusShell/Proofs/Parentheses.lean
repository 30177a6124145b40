import StatusShell.Proofs.LayoutReading
import StatusShell.Proofs.Positions

namespace StatusShell.Grammar

variable {text piece rest opening closing : List Char} {frames pairs : Nat} {call : Command}

theorem Word.argumentLayout {value : String} (h : Word .argument piece value rest) :
    ArgumentLayout value piece := by
  cases h with
  | quotedArgument hquoted =>
      obtain ⟨rfl, hlast⟩ := Word.quoted_iff.mp hquoted
      exact .quoted hlast
  | bareArgument hbare =>
      obtain ⟨rfl, hne, hbare, _⟩ := Word.bare_iff.mp hbare
      exact .bare hne hbare

theorem Arguments.layout {values : List String} (h : Arguments piece values rest) :
    ArgumentsLayout values piece := by
  induction h with
  | nil => exact .nil
  | cons hvalue _ ih =>
      cases hvalue with
      | spacedArgument hblanks hne hvalue => exact .cons hblanks hne hvalue.argumentLayout ih

theorem Production.commandLayout_of_scan (h : command.scan frames text = .success call rest) :
    ∃ piece, text = piece ++ rest ∧ CommandLayout frames call piece := by
  induction frames generalizing text rest with
  | zero => cases h
  | succ frames ih =>
      obtain ⟨_, heq, ⟨after, mid, rfl, hinner, hclose⟩ | ⟨mid, hname, hargs⟩⟩ :=
        scan_command_eq_success_iff.mp h
      · cases heq
        obtain ⟨piece, hpiece, hlayout⟩ := ih hinner
        obtain ⟨before, hbefore, hafter⟩ := exists_blanks_append after
        obtain ⟨behind, hbehind, hmid⟩ := exists_blanks_append mid
        refine ⟨'(' :: before ++ piece ++ behind ++ [')'], ?_,
          .parentheses hbefore hlayout hbehind⟩
        rw [hafter, hpiece, hmid, hclose]
        simp
      · obtain ⟨_, _, _, _, rfl, _⟩ := scan_path_eq_success_iff.mp hname
        obtain ⟨piece, rfl, hpiece⟩ := arguments_of_repeats hargs
        exact ⟨call.name.toList ++ piece, by simp, .plain hpiece.layout⟩

/-- The piece of text in so many pairs of parentheses, with blanks inside each of them. -/
def wrapped (opening closing : List Char) (pairs : Nat) (piece : List Char) : List Char :=
  (List.replicate pairs ('(' :: opening)).flatten ++ piece ++
    (List.replicate pairs (closing ++ [')'])).flatten

theorem wrapped_succ :
    wrapped opening closing (pairs + 1) piece =
      '(' :: opening ++ wrapped opening closing pairs piece ++ closing ++ [')'] := by
  have hlast : (List.replicate (pairs + 1) (closing ++ [')'])).flatten =
      (List.replicate pairs (closing ++ [')'])).flatten ++ (closing ++ [')']) := by
    rw [List.replicate_succ', List.flatten_append, List.flatten_singleton]
  rw [wrapped, hlast, List.replicate_succ, List.flatten_cons, wrapped]
  simp only [List.append_assoc]

theorem CommandLayout.wrapped (h : CommandLayout frames call piece) (hopening : Blanks opening)
    (hclosing : Blanks closing) (pairs : Nat) :
    CommandLayout (frames + pairs) call (wrapped opening closing pairs piece) := by
  induction pairs with
  | zero => simpa [Grammar.wrapped] using h
  | succ pairs ih =>
      rw [wrapped_succ]
      exact .parentheses hopening ih hclosing

namespace Cursor

theorem readWithin_command_beyond {cursor : Cursor} (hbeyond : cursor.text.length < cursor.pos)
    (frames : Nat) (call : Command) (stopped : Cursor) :
    readWithin frames .command cursor ≠ (.ok call, stopped) := by
  have haccept : (Reader.accept "(" : Step Bool) cursor = (.ok false, cursor) :=
    accept_beyond hbeyond "("
  have hpath : (Reader.path : Step String) cursor = (.error (.mismatch .path), cursor) :=
    path_beyond hbeyond
  intro h
  rcases frames with _ | _ | frames
  · cases h
  · rw [readWithin, Production.read, bind_apply, haccept] at h
    cases h
  · rw [readWithin, Production.read, bind_apply, haccept] at h
    change ((Reader.path : Step String) >>= _) cursor = _ at h
    rw [bind_apply, hpath] at h
    cases h

end Cursor

open Cursor

/-- Parentheses around a command are no part of it.  Where a command is read from one
position to another, the same command is read from the first one with any number of pairs of
parentheses put around that piece of the text, up to the last of them, whatever follows.  The
limit must not be lower than this takes; a frame more for each pair, and six more, are always
enough. -/
theorem readWithin_command_wrapped {start : Nat} {stopped : Cursor}
    (h : readWithin frames .command ⟨text, start⟩ = (.ok call, stopped))
    (hopening : Blanks opening) (hclosing : Blanks closing) (hpairs : 0 < pairs) :
    ∃ stop : Nat, stopped = ⟨text, stop⟩ ∧ start ≤ stop ∧ stop ≤ text.length ∧
      ∀ (after : List Char) (frames' : Nat),
        let piece := wrapped opening closing pairs (text.extract start stop)
        let cursor : Cursor := ⟨text.take start ++ piece ++ after, start⟩
        ((readWithin frames' .command cursor).1 ≠ .error .tooDeep →
          readWithin frames' .command cursor =
            (.ok call, ⟨cursor.text, (start + piece.length : Nat)⟩)) ∧
        (frames + pairs + 6 ≤ frames' →
          (readWithin frames' .command cursor).1 ≠ .error .tooDeep) := by
  have hstart : start ≤ text.length := by
    by_contra hbeyond
    have hbeyond : ((text.length : Nat) : Int) < start := by omega
    exact readWithin_command_beyond hbeyond frames call stopped h
  obtain ⟨stop, rfl, hle, hstop, hscan⟩ := (readWithin_eq_ok_iff hstart).mp h
  obtain ⟨piece, hpiece, hlayout⟩ := Production.commandLayout_of_scan hscan
  have hextract := extract_eq_of_drop_eq hle hstop hpiece
  refine ⟨stop, rfl, hle, hstop, ?_⟩
  rw [hextract]
  intro after frames' whole cursor
  have hcall := Production.command_wellFormed_of_scan hscan
  have hhead : whole.head? = some '(' := by
    obtain ⟨more, rfl⟩ := Nat.exists_eq_add_one.mpr hpairs
    rw [show whole = _ from wrapped_succ]
    rfl
  have hread : ∀ most, frames + pairs + 6 ≤ most →
      readWithin most .command cursor =
        (.ok call, ⟨cursor.text, (start + whole.length : Nat)⟩) := by
    intro most hmost
    have hscan : Production.command.scan most (whole ++ after) = .success call after :=
      Production.scan_command_of_layout (hlayout.wrapped hopening hclosing pairs) hcall (.inl hhead)
        hmost
    have happend := readWithin_append hscan (text.take start)
    rwa [List.length_take_of_le hstart] at happend
  constructor
  · intro hlimit
    rw [← readWithin_eq_of_le (Nat.le_add_right frames' (frames + pairs + 6)) hlimit]
    exact hread _ (Nat.le_add_left ..)
  · intro hmost
    rw [hread frames' hmost]
    simp

/-- Before, the command ended at an open quote, and its last argument ends in a backslash. -/
theorem readWithin_command_wrapped_open_quote :
    readWithin 7 .command ⟨"z;p a\\ \"b".toList, 2⟩ =
        (.ok ⟨"p", ["a\\"]⟩, ⟨"z;p a\\ \"b".toList, 6⟩) ∧
      readWithin 20 .command ⟨"z;((p a\\\n)\n) \"b".toList, 2⟩ =
        (.ok ⟨"p", ["a\\"]⟩, ⟨"z;((p a\\\n)\n) \"b".toList, 12⟩) := by
  have h : readWithin 7 .command ⟨"z;p a\\ \"b".toList, (2 : Nat)⟩ =
      (.ok ⟨"p", ["a\\"]⟩, ⟨"z;p a\\ \"b".toList, 6⟩) := by
    decide +kernel
  have hopening : Blanks [] := by simp [Blanks]
  have hclosing : Blanks ['\n'] := by simp [Blanks, isBlank]
  have hpairs : 0 < 2 := by decide
  obtain ⟨stop, hstop, -, -, hwrapped⟩ := readWithin_command_wrapped h hopening hclosing hpairs
  have hpos : (6 : Int) = stop := congrArg Cursor.pos hstop
  obtain rfl : 6 = stop := by omega
  exact ⟨h, (hwrapped " \"b".toList 20).1 (by decide +kernel)⟩

end StatusShell.Grammar
