import Mathlib.Data.List.TakeWhile
import StatusShell.Grammar.Production
import StatusShell.Proofs.Scanner

namespace StatusShell.Grammar

/-- A run of blanks, possibly empty. -/
def Blanks (text : List Char) : Prop :=
  ∀ c ∈ text, isBlank c = true

/-- The text does not go on with a character of the given class. -/
def Stops (charClass : Char → Bool) (rest : List Char) : Prop :=
  ∀ c ∈ rest.head?, charClass c = false

theorem stops_cons_iff {charClass : Char → Bool} {c : Char} {rest : List Char} :
    Stops charClass (c :: rest) ↔ charClass c = false := by
  simp [Stops]

theorem stops_dropWhile (charClass : Char → Bool) (text : List Char) :
    Stops charClass (text.dropWhile charClass) := by
  intro c hc
  have hhead := List.head?_dropWhile_not charClass text
  rw [Option.mem_def.mp hc] at hhead
  exact hhead

theorem dropWhile_of_stops {charClass : Char → Bool} {rest : List Char}
    (h : Stops charClass rest) : rest.dropWhile charClass = rest := by
  cases rest with
  | nil => rfl
  | cons c rest => simp [stops_cons_iff.mp h]

theorem dropWhile_append_of_ne_nil {charClass : Char → Bool} {text : List Char}
    (h : text.dropWhile charClass ≠ []) (more : List Char) :
    (text ++ more).dropWhile charClass = text.dropWhile charClass ++ more := by
  rw [List.dropWhile_append, if_neg (by simpa using h)]

theorem takeWhile_of_stops {charClass : Char → Bool} {rest : List Char}
    (h : Stops charClass rest) : rest.takeWhile charClass = [] := by
  cases rest with
  | nil => rfl
  | cons c rest => simp [stops_cons_iff.mp h]

theorem head?_ne_of_forall_ne {c : Char} {rest : List Char}
    (h : ∀ more, rest = c :: more → False) : rest.head? ≠ some c := by
  intro hhead
  obtain ⟨more, hmore⟩ := List.head?_eq_some_iff.mp hhead
  exact h more hmore

theorem Blanks.dropWhile_append {blanks rest : List Char} (hblanks : Blanks blanks)
    (hrest : Stops isBlank rest) : (blanks ++ rest).dropWhile isBlank = rest := by
  rw [List.dropWhile_append_of_pos hblanks, dropWhile_of_stops hrest]

theorem exists_blanks_append (text : List Char) :
    ∃ blanks, Blanks blanks ∧ text = blanks ++ text.dropWhile isBlank := by
  refine ⟨text.takeWhile isBlank, ?_, List.takeWhile_append_dropWhile.symm⟩
  intro c hc
  exact List.mem_takeWhile_imp hc

namespace Scan

variable {text rest : List Char}

theorem path_eq_success_iff {name : String} :
    path text = .success name rest ↔
      name.toList ≠ [] ∧ (∀ c ∈ name.toList, isPathChar c = true) ∧
        text = name.toList ++ rest ∧ Stops isPathChar rest := by
  rw [path]
  constructor
  · intro h
    split at h
    · cases h
    · next c word hword =>
        cases h
        rw [String.toList_ofList]
        refine ⟨by simp, ?_, ?_, stops_dropWhile _ _⟩
        · intro d hd
          exact List.mem_takeWhile_imp (hword ▸ hd)
        · rw [← hword, List.takeWhile_append_dropWhile]
  · rintro ⟨hne, hname, rfl, hrest⟩
    rw [List.takeWhile_append_of_pos hname, takeWhile_of_stops hrest,
      List.dropWhile_append_of_pos hname, dropWhile_of_stops hrest, List.append_nil]
    split
    · next hnil => exact absurd hnil hne
    · next c word hword => rw [← hword, String.ofList_toList]

theorem path_mismatched_of_stops (h : Stops isPathChar text) : (path text).Mismatched := by
  rw [path, takeWhile_of_stops h]
  exact ⟨_, _, rfl⟩

end Scan

/-- How the line of a comment ends: with a line feed that no carriage return
stands before, with a carriage return and a line feed, or with the text. -/
inductive LineEnd (line : List Char) : (ending rest : List Char) → Prop where
  | feed {rest : List Char} (hline : line.getLast? ≠ some '\r') : LineEnd line ['\n'] rest
  | returnFeed {rest : List Char} : LineEnd line ['\r', '\n'] rest
  | endOfText : LineEnd line [] []

namespace Scan

theorem commentLine_spec (taken text : List Char) :
    ∃ line ending rest, commentLine taken text = (taken.reverse ++ line, rest) ∧
      text = line ++ ending ++ rest ∧ '\n' ∉ line ∧ LineEnd line ending rest := by
  fun_induction commentLine taken text with
  | case1 taken => exact ⟨[], [], [], by simp, rfl, by simp, .endOfText⟩
  | case2 taken rest => exact ⟨[], ['\n'], rest, by simp, rfl, by simp, .feed (by simp)⟩
  | case3 taken rest => exact ⟨[], ['\r', '\n'], rest, by simp, rfl, by simp, .returnFeed⟩
  | case4 taken c text hfeed hreturn ih =>
      obtain ⟨line, ending, rest, htaken, htext, hline, hend⟩ := ih
      have hc : '\n' ≠ c := by
        rintro rfl
        exact hfeed rfl
      refine ⟨c :: line, ending, rest, by simpa using htaken, by simp [htext], ?_, ?_⟩
      · simp [hc, hline]
      · cases hend with
        | feed hlast =>
            refine .feed ?_
            cases line with
            | nil =>
                intro heq
                obtain rfl : c = '\r' := by simpa using heq
                exact hreturn rest rfl htext
            | cons d line => simpa using hlast
        | returnFeed => exact .returnFeed
        | endOfText => exact .endOfText

theorem commentLine_append {line ending rest : List Char} (taken : List Char)
    (hline : '\n' ∉ line) (hend : LineEnd line ending rest) :
    commentLine taken (line ++ ending ++ rest) = (taken.reverse ++ line, rest) := by
  induction line generalizing taken with
  | nil =>
      cases hend with
      | feed => simp [commentLine]
      | returnFeed => simp [commentLine]
      | endOfText => simp [commentLine]
  | cons c line ih =>
      simp only [List.mem_cons, not_or] at hline
      have hreturn : ∀ after, c = '\r' → line ++ ending ++ rest = '\n' :: after → False := by
        rintro after rfl heq
        cases line with
        | nil =>
            cases hend with
            | feed hlast => exact hlast rfl
            | returnFeed => simp at heq
            | endOfText => simp at heq
        | cons d line =>
            obtain rfl : d = '\n' := by simpa using (List.cons.inj heq).1
            simp at hline
      have hend' : LineEnd line ending rest := by
        cases hend with
        | feed hlast =>
            refine .feed ?_
            cases line with
            | nil => simp
            | cons d line => simpa using hlast
        | returnFeed => exact .returnFeed
        | endOfText => exact .endOfText
      rw [List.cons_append, List.cons_append,
        commentLine.eq_4 _ _ _ (fun h => hline.1 h.symm) hreturn, ih _ hline.2 hend']
      simp

theorem commentText_eq_success_iff {text rest : List Char} {value : String} :
    commentText text = .success value rest ↔
      ∃ ending, text = value.toList ++ ending ++ rest ∧ '\n' ∉ value.toList ∧
        LineEnd value.toList ending rest := by
  rw [commentText]
  constructor
  · intro h
    obtain ⟨line, ending, rest', hspec, htext, hline, hend⟩ := commentLine_spec [] text
    rw [hspec] at h
    cases h
    rw [List.reverse_nil, List.nil_append, String.toList_ofList]
    exact ⟨ending, htext, hline, hend⟩
  · rintro ⟨ending, rfl, hline, hend⟩
    rw [commentLine_append [] hline hend]
    simp

end Scan

/-- The backslash rule: a backslash stands for the double quote behind it, if
there is one, and for itself otherwise.  A double quote is spelled in no other
way. -/
inductive Spells : (spelling word next : List Char) → Prop where
  | nil {next : List Char} : Spells [] [] next
  | quote {spelling word next : List Char} (h : Spells spelling word next) :
      Spells ('\\' :: '"' :: spelling) ('"' :: word) next
  | backslash {spelling word next : List Char} (hquote : (spelling ++ next).head? ≠ some '"')
      (h : Spells spelling word next) : Spells ('\\' :: spelling) ('\\' :: word) next
  | plain {c : Char} {spelling word next : List Char} (hbackslash : c ≠ '\\') (hquote : c ≠ '"')
      (h : Spells spelling word next) : Spells (c :: spelling) (c :: word) next

namespace Scan

section

variable (frames : Nat) (taken rest : List Char)

theorem quotedTail_cons (c : Char) :
    quotedTail frames taken (c :: rest) =
      if c = '"' then .success (String.ofList taken.reverse) rest
      else if c = '\\' then
        if frames = 0 then .tooDeep
        else
          match rest with
          | '"' :: rest => quotedTail frames ('"' :: taken) rest
          | rest => quotedTail frames ('\\' :: taken) rest
      else quotedTail frames (c :: taken) rest :=
  quotedTail.eq_def frames taken (c :: rest)

theorem quotedTail_quote :
    quotedTail frames taken ('"' :: rest) = .success (String.ofList taken.reverse) rest :=
  quotedTail_cons frames taken rest '"'

theorem quotedTail_escaped :
    quotedTail (frames + 1) taken ('\\' :: '"' :: rest) =
      quotedTail (frames + 1) ('"' :: taken) rest := by
  rw [quotedTail_cons]
  simp

theorem quotedTail_backslash {rest : List Char} (hquote : rest.head? ≠ some '"') :
    quotedTail (frames + 1) taken ('\\' :: rest) =
      quotedTail (frames + 1) ('\\' :: taken) rest := by
  rw [quotedTail_cons, if_neg (by decide), if_pos rfl, if_neg (Nat.succ_ne_zero frames)]
  split
  · exact absurd rfl hquote
  · rfl

theorem quotedTail_plain {c : Char} (hbackslash : c ≠ '\\') (hquote : c ≠ '"') :
    quotedTail frames taken (c :: rest) = quotedTail frames (c :: taken) rest := by
  rw [quotedTail_cons, if_neg hquote, if_neg hbackslash]

theorem bareTail_nil :
    bareTail frames taken [] =
      if taken.isEmpty then .mismatch .argument []
      else .success (String.ofList taken.reverse) [] :=
  rfl

theorem bareTail_cons (c : Char) :
    bareTail frames taken (c :: rest) =
      if endsBare c then
        if taken.isEmpty then .mismatch .argument (c :: rest)
        else .success (String.ofList taken.reverse) (c :: rest)
      else if c = '\\' then
        if frames = 0 then .tooDeep
        else
          match rest with
          | '"' :: rest => bareTail frames ('"' :: taken) rest
          | rest => bareTail frames ('\\' :: taken) rest
      else bareTail frames (c :: taken) rest :=
  bareTail.eq_def frames taken (c :: rest)

theorem endsBare_backslash : endsBare '\\' = false := by
  decide

theorem bareTail_escaped :
    bareTail (frames + 1) taken ('\\' :: '"' :: rest) =
      bareTail (frames + 1) ('"' :: taken) rest := by
  rw [bareTail_cons, endsBare_backslash]
  simp

theorem bareTail_backslash {rest : List Char} (hquote : rest.head? ≠ some '"') :
    bareTail (frames + 1) taken ('\\' :: rest) =
      bareTail (frames + 1) ('\\' :: taken) rest := by
  rw [bareTail_cons, endsBare_backslash, if_neg Bool.false_ne_true, if_pos rfl,
    if_neg (Nat.succ_ne_zero frames)]
  split
  · exact absurd rfl hquote
  · rfl

theorem bareTail_plain {c : Char} (hbackslash : c ≠ '\\') (hc : endsBare c = false) :
    bareTail frames taken (c :: rest) = bareTail frames (c :: taken) rest := by
  rw [bareTail_cons, hc, if_neg Bool.false_ne_true, if_neg hbackslash]

theorem bareTail_stop {taken rest : List Char} (htaken : taken ≠ [])
    (hrest : Stops (!endsBare ·) rest) :
    bareTail frames taken rest = .success (String.ofList taken.reverse) rest := by
  cases rest with
  | nil => simp [bareTail_nil, htaken]
  | cons c rest =>
      have hc : endsBare c = true := by simpa using stops_cons_iff.mp hrest
      simp [bareTail_cons, hc, htaken]

theorem bareTail_mismatched {rest : List Char} (hrest : Stops (!endsBare ·) rest) :
    (bareTail frames [] rest).Mismatched := by
  cases rest with
  | nil => exact ⟨_, _, rfl⟩
  | cons c rest =>
      have hc : endsBare c = true := by simpa using stops_cons_iff.mp hrest
      rw [bareTail_cons, if_pos hc]
      exact ⟨_, _, rfl⟩

end

theorem spells_of_quotedTail {frames : Nat} {taken text rest : List Char} {value : String}
    (h : quotedTail frames taken text = .success value rest) :
    ∃ spelling word, text = spelling ++ '"' :: rest ∧ Spells spelling word ('"' :: rest) ∧
      value = String.ofList (taken.reverse ++ word) := by
  fun_induction quotedTail frames taken text with
  | case1 => cases h
  | case2 taken after =>
      cases h
      exact ⟨[], [], rfl, .nil, by simp⟩
  | case3 => cases h
  | case4 taken hframes after _ ih =>
      obtain ⟨spelling, word, rfl, hspells, hvalue⟩ := ih h
      exact ⟨'\\' :: '"' :: spelling, '"' :: word, rfl, .quote hspells, by simpa using hvalue⟩
  | case5 taken hframes after hquote _ ih =>
      obtain ⟨spelling, word, rfl, hspells, hvalue⟩ := ih h
      exact ⟨'\\' :: spelling, '\\' :: word, rfl,
        .backslash (head?_ne_of_forall_ne hquote) hspells, by simpa using hvalue⟩
  | case6 taken c after hquote hbackslash ih =>
      obtain ⟨spelling, word, rfl, hspells, hvalue⟩ := ih h
      exact ⟨c :: spelling, c :: word, rfl, .plain hbackslash hquote hspells,
        by simpa using hvalue⟩

theorem quotedTail_append {spelling word next : List Char} (h : Spells spelling word next)
    (frames : Nat) (taken : List Char) :
    quotedTail (frames + 1) taken (spelling ++ next) =
      quotedTail (frames + 1) (word.reverse ++ taken) next := by
  induction h generalizing taken with
  | nil => rfl
  | quote h ih =>
      rw [List.cons_append, List.cons_append, quotedTail_escaped, ih]
      simp
  | backslash hquote h ih =>
      rw [List.cons_append, quotedTail_backslash _ _ hquote, ih]
      simp
  | plain hbackslash hquote h ih =>
      rw [List.cons_append, quotedTail_plain _ _ _ hbackslash hquote, ih]
      simp

end Scan

/-- The characters that no bare argument holds.  Double quotes end a bare
argument too, but they can be escaped. -/
def isBarrier (c : Char) : Bool :=
  isBlank c || c = ';' || c = '{' || c = ')'

theorem endsBare_eq (c : Char) : endsBare c = (isBarrier c || c = '"') := by
  rw [endsBare, isBarrier]
  ac_rfl

theorem isBarrier_eq_false {c : Char} (h : endsBare c = false) : isBarrier c = false := by
  rw [endsBare_eq, Bool.or_eq_false_iff] at h
  exact h.1

theorem endsBare_eq_false {c : Char} (h : isBarrier c = false) (hquote : c ≠ '"') :
    endsBare c = false := by
  rw [endsBare_eq, h, Bool.false_or, decide_eq_false_iff_not]
  exact hquote

/-- The word can be written bare. -/
def BareWord (word : List Char) : Prop :=
  ∀ c ∈ word, isBarrier c = false

namespace Scan

theorem spells_of_bareTail {frames : Nat} {taken text rest : List Char} {value : String}
    (h : bareTail frames taken text = .success value rest) :
    ∃ spelling word, text = spelling ++ rest ∧ Spells spelling word rest ∧ BareWord word ∧
      value = String.ofList (taken.reverse ++ word) ∧ taken.reverse ++ word ≠ [] ∧
      Stops (!endsBare ·) rest := by
  fun_induction bareTail frames taken text with
  | case1 => cases h
  | case2 taken htaken =>
      cases h
      exact ⟨[], [], rfl, .nil, by simp [BareWord], by simp, by simpa using htaken, by simp [Stops]⟩
  | case3 => cases h
  | case4 taken c after hc htaken =>
      cases h
      exact ⟨[], [], rfl, .nil, by simp [BareWord], by simp, by simpa using htaken,
        stops_cons_iff.mpr (by simpa using hc)⟩
  | case5 => cases h
  | case6 taken hframes after _ ih =>
      obtain ⟨spelling, word, rfl, hspells, hbare, hvalue, hne, hrest⟩ := ih h
      exact ⟨'\\' :: '"' :: spelling, '"' :: word, rfl, .quote hspells,
        List.forall_mem_cons.mpr ⟨by decide, hbare⟩, by simpa using hvalue, by simp, hrest⟩
  | case7 taken hframes after hquote hc ih =>
      obtain ⟨spelling, word, rfl, hspells, hbare, hvalue, hne, hrest⟩ := ih h
      exact ⟨'\\' :: spelling, '\\' :: word, rfl,
        .backslash (head?_ne_of_forall_ne hquote) hspells,
        List.forall_mem_cons.mpr ⟨by decide, hbare⟩, by simpa using hvalue, by simp, hrest⟩
  | case8 taken c after hc hbackslash ih =>
      obtain ⟨spelling, word, rfl, hspells, hbare, hvalue, hne, hrest⟩ := ih h
      have hc : endsBare c = false := by simpa using hc
      refine ⟨c :: spelling, c :: word, rfl, .plain hbackslash ?_ hspells,
        List.forall_mem_cons.mpr ⟨isBarrier_eq_false hc, hbare⟩, by simpa using hvalue, by simp,
        hrest⟩
      rintro rfl
      exact absurd hc (by decide)

theorem bareTail_append {spelling word next : List Char} (h : Spells spelling word next)
    (hbare : BareWord word) (frames : Nat) (taken : List Char) :
    bareTail (frames + 1) taken (spelling ++ next) =
      bareTail (frames + 1) (word.reverse ++ taken) next := by
  induction h generalizing taken with
  | nil => rfl
  | quote h ih =>
      obtain ⟨_, hbare⟩ := List.forall_mem_cons.mp hbare
      rw [List.cons_append, List.cons_append, bareTail_escaped, ih hbare]
      simp
  | backslash hquote h ih =>
      obtain ⟨_, hbare⟩ := List.forall_mem_cons.mp hbare
      rw [List.cons_append, bareTail_backslash _ _ hquote, ih hbare]
      simp
  | plain hbackslash hquote h ih =>
      obtain ⟨hc, hbare⟩ := List.forall_mem_cons.mp hbare
      rw [List.cons_append, bareTail_plain _ _ _ hbackslash (endsBare_eq_false hc hquote),
        ih hbare]
      simp

end Scan

/-- A word with a backslash put before each of its double quotes. -/
def escaped (word : List Char) : List Char :=
  word.flatMap fun c => if c = '"' then ['\\', '"'] else [c]

theorem escaped_cons (c : Char) (word : List Char) :
    escaped (c :: word) = (if c = '"' then ['\\', '"'] else [c]) ++ escaped word := by
  rw [escaped, List.flatMap_cons, ← escaped]

theorem head?_escaped_cons_ne (c : Char) (word next : List Char) :
    (escaped (c :: word) ++ next).head? ≠ some '"' := by
  rw [escaped_cons]
  by_cases hc : c = '"' <;> simp [hc]

theorem spells_iff {spelling word next : List Char} :
    Spells spelling word next ↔
      spelling = escaped word ∧ (word.getLast? = some '\\' → next.head? ≠ some '"') := by
  have hskip : ∀ {c : Char} {word : List Char}, c ≠ '\\' → (c :: word).getLast? = some '\\' →
      word.getLast? = some '\\' := by
    intro c word hc hlast
    cases word with
    | nil => exact absurd (by simpa using hlast) hc
    | cons d word => simpa using hlast
  constructor
  · intro h
    induction h with
    | nil => simp [escaped]
    | quote h ih =>
        obtain ⟨rfl, hlast⟩ := ih
        exact ⟨by simp [escaped_cons], fun h => hlast (hskip (by decide) h)⟩
    | @backslash _ word next hquote h ih =>
        obtain ⟨rfl, hlast⟩ := ih
        refine ⟨by simp [escaped_cons], ?_⟩
        cases word with
        | nil => exact fun _ => hquote
        | cons d word => simpa using hlast
    | plain hbackslash hquote h ih =>
        obtain ⟨rfl, hlast⟩ := ih
        exact ⟨by simp [escaped_cons, hquote], fun h => hlast (hskip hbackslash h)⟩
  · rintro ⟨rfl, hlast⟩
    induction word with
    | nil => exact .nil
    | cons c word ih =>
        have hrest : word.getLast? = some '\\' → next.head? ≠ some '"' := by
          intro h
          exact hlast (by rw [List.getLast?_cons, h, Option.getD_some])
        rw [escaped_cons]
        by_cases hquote : c = '"'
        · subst hquote
          exact .quote (ih hrest)
        by_cases hbackslash : c = '\\'
        · subst hbackslash
          refine .backslash ?_ (ih hrest)
          cases word with
          | nil => exact hlast rfl
          | cons d word => exact head?_escaped_cons_ne d word next
        · rw [if_neg hquote]
          exact .plain hbackslash hquote (ih hrest)

/-- The words of the grammar: the piece of text spells the value, and the rest
follows it.  Paths and bare arguments go on as long as they can. -/
inductive Word : Production .text → (piece : List Char) → (value : String) →
    (rest : List Char) → Prop where
  | path {name : String} {rest : List Char} (hne : name.toList ≠ [])
      (hname : ∀ c ∈ name.toList, isPathChar c = true) (hrest : Stops isPathChar rest) :
      Word .path name.toList name rest
  | escapedQuote {rest : List Char} : Word .escape ['\\', '"'] "\"" rest
  | backslash {rest : List Char} (hrest : rest.head? ≠ some '"') :
      Word .escape ['\\'] "\\" rest
  | quoted {spelling rest : List Char} {value : String}
      (hspells : Spells spelling value.toList ('"' :: rest)) :
      Word .quoted ('"' :: spelling ++ ['"']) value rest
  | bare {spelling rest : List Char} {value : String} (hne : value.toList ≠ [])
      (hbare : BareWord value.toList) (hspells : Spells spelling value.toList rest)
      (hrest : Stops (!endsBare ·) rest) : Word .bare spelling value rest
  | quotedArgument {piece rest : List Char} {value : String} (h : Word .quoted piece value rest) :
      Word .argument piece value rest
  | bareArgument {piece rest : List Char} {value : String} (h : Word .bare piece value rest) :
      Word .argument piece value rest
  | spacedArgument {blanks piece rest : List Char} {value : String} (hblanks : Blanks blanks)
      (hne : blanks ≠ []) (h : Word .argument piece value rest) :
      Word .spacedArgument (blanks ++ piece) value rest

/-- Blanks and an argument, any number of times. -/
inductive Arguments : (piece : List Char) → (values : List String) → (rest : List Char) → Prop where
  | nil {rest : List Char} : Arguments [] [] rest
  | cons {piece more rest : List Char} {value : String} {values : List String}
      (hvalue : Word .spacedArgument piece value (more ++ rest))
      (hvalues : Arguments more values rest) : Arguments (piece ++ more) (value :: values) rest

theorem Word.ne_nil {production : Production .text} {piece rest : List Char} {value : String}
    (h : Word production piece value rest) : piece ≠ [] := by
  induction h with
  | path hne _ _ => exact hne
  | escapedQuote => simp
  | backslash _ => simp
  | quoted _ => simp
  | bare hne _ hspells _ =>
      obtain ⟨rfl, _⟩ := spells_iff.mp hspells
      obtain ⟨c, word, hword⟩ := List.exists_cons_of_ne_nil hne
      rw [hword, escaped_cons]
      split <;> simp
  | quotedArgument _ ih => exact ih
  | bareArgument _ ih => exact ih
  | spacedArgument _ hne _ _ => simp [hne]

theorem Word.quoted_iff {piece rest : List Char} {value : String} :
    Word .quoted piece value rest ↔
      piece = '"' :: escaped value.toList ++ ['"'] ∧ value.toList.getLast? ≠ some '\\' := by
  constructor
  · rintro ⟨⟩
    next hspells =>
      obtain ⟨rfl, hlast⟩ := spells_iff.mp hspells
      exact ⟨rfl, fun h => hlast h rfl⟩
  · rintro ⟨rfl, hlast⟩
    exact .quoted (spells_iff.mpr ⟨rfl, fun h => absurd h hlast⟩)

theorem Word.bare_iff {piece rest : List Char} {value : String} :
    Word .bare piece value rest ↔
      piece = escaped value.toList ∧ value.toList ≠ [] ∧ BareWord value.toList ∧
        ∀ c ∈ rest.head?, endsBare c = true ∧ (value.toList.getLast? = some '\\' → c ≠ '"') := by
  constructor
  · rintro ⟨⟩
    next hne hbare hrest hspells =>
      obtain ⟨rfl, hlast⟩ := spells_iff.mp hspells
      refine ⟨rfl, hne, hbare, fun c hc => ⟨by simpa using hrest c hc, ?_⟩⟩
      rintro hends rfl
      exact hlast hends hc
  · rintro ⟨rfl, hne, hbare, hrest⟩
    refine .bare hne hbare (spells_iff.mpr ⟨rfl, ?_⟩) fun c hc => by simpa using (hrest c hc).1
    intro hends hquote
    exact (hrest '"' hquote).2 hends rfl

theorem Word.head?_bare_ne_quote {piece rest : List Char} {value : String}
    (h : Word .bare piece value rest) : (piece ++ rest).head? ≠ some '"' := by
  cases h with
  | bare hne hbare hspells hrest =>
      obtain ⟨rfl, _⟩ := spells_iff.mp hspells
      cases hvalue : value.toList with
      | nil => exact absurd hvalue hne
      | cons c word => exact head?_escaped_cons_ne c word rest

theorem stops_isBlank_escaped {word rest : List Char} (hne : word ≠ []) (hbare : BareWord word) :
    Stops isBlank (escaped word ++ rest) := by
  cases word with
  | nil => exact absurd rfl hne
  | cons c word =>
      obtain ⟨hc, _⟩ := List.forall_mem_cons.mp hbare
      rw [escaped_cons]
      by_cases hquote : c = '"'
      · simp only [hquote, if_true, List.cons_append]
        exact stops_cons_iff.mpr (by decide)
      · simp only [hquote, if_false, List.cons_append]
        refine stops_cons_iff.mpr ?_
        simp only [isBarrier, Bool.or_eq_false_iff] at hc
        exact hc.1.1.1

theorem Word.argument_stops_isBlank {piece rest : List Char} {value : String}
    (h : Word .argument piece value rest) : Stops isBlank (piece ++ rest) := by
  cases h with
  | quotedArgument h =>
      cases h
      exact stops_cons_iff.mpr (by decide)
  | bareArgument h =>
      cases h with
      | bare hne hbare hspells hrest =>
          obtain ⟨rfl, _⟩ := spells_iff.mp hspells
          exact stops_isBlank_escaped hne hbare

end StatusShell.Grammar
