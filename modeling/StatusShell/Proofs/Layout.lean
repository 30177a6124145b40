import StatusShell.Proofs.Lexis
import StatusShell.Proofs.Shape

/-!
All the ways to write a list of statements down: with any blanks where blanks
mean nothing, any parentheses around commands, either spelling of an argument
that has two, and any line end behind a comment.  A few choices are not free,
because something else would be read: see `Command.isKeyword` and
`Node.isBlock`.
-/

namespace StatusShell

open Grammar

/-- At the start of a statement the bare name would be taken for a keyword. -/
def Command.isKeyword (call : Command) : Bool :=
  call.name = "if" || call.name = "while" || "else".toList.isPrefixOf call.name.toList

/-- The statement is a block.  Before any other statement, a bare predicate
would go on. -/
def Node.isBlock : Node → Bool
  | .block _ => true
  | _ => false

namespace Grammar

/-- An argument, quoted or bare. -/
inductive ArgumentLayout (arg : String) : (piece : List Char) → Prop where
  | quoted (hlast : arg.toList.getLast? ≠ some '\\') :
      ArgumentLayout arg ('"' :: escaped arg.toList ++ ['"'])
  | bare (hne : arg.toList ≠ []) (hbare : BareWord arg.toList) :
      ArgumentLayout arg (escaped arg.toList)

/-- Arguments, with blanks before each of them. -/
inductive ArgumentsLayout : (args : List String) → (piece : List Char) → Prop where
  | nil : ArgumentsLayout [] []
  | cons {arg : String} {args : List String} {blanks piece more : List Char}
      (hblanks : Blanks blanks) (hne : blanks ≠ []) (harg : ArgumentLayout arg piece)
      (hargs : ArgumentsLayout args more) : ArgumentsLayout (arg :: args) (blanks ++ piece ++ more)

/-- A command, in parentheses or not, but in no more than `most` pairs of
them. -/
inductive CommandLayout : (most : Nat) → Command → (piece : List Char) → Prop where
  | plain {most : Nat} {name : String} {args : List String} {piece : List Char}
      (hargs : ArgumentsLayout args piece) : CommandLayout most ⟨name, args⟩ (name.toList ++ piece)
  | parentheses {most : Nat} {call : Command} {before piece after : List Char}
      (hbefore : Blanks before) (hcall : CommandLayout most call piece) (hafter : Blanks after) :
      CommandLayout (most + 1) call ('(' :: before ++ piece ++ after ++ [')'])

/-- The predicate of a conditional or of a loop, with the blanks around it,
where the node follows it. -/
inductive GuardLayout (most : Nat) (predicate : Command) (node : Node) :
    (piece : List Char) → Prop where
  | guard {before piece after : List Char} (hbefore : Blanks before) (hne : before ≠ [])
      (hpredicate : CommandLayout most predicate piece)
      (hblock : node.isBlock = false → piece.head? = some '(') (hafter : Blanks after) :
      GuardLayout most predicate node (before ++ piece ++ after)

mutual

/-- A statement, where the rest follows it.  The rest matters only to a comment
that has no line end: nothing may follow it. -/
inductive StatementLayout (most : Nat) : Node → (piece rest : List Char) → Prop where
  | comment {text : String} {ending rest : List Char} (hend : LineEnd text.toList ending rest) :
      StatementLayout most (.comment text) ('#' :: text.toList ++ ending) rest
  | command {call : Command} {piece blanks rest : List Char} (hcall : CommandLayout most call piece)
      (hkeyword : call.isKeyword = true → piece.head? = some '(') (hblanks : Blanks blanks) :
      StatementLayout most (.command call) (piece ++ blanks ++ [';']) rest
  | block {statements : List Node} {blanks piece rest : List Char} (hblanks : Blanks blanks)
      (hstatements : StatementsLayout most statements piece ('}' :: rest)) :
      StatementLayout most (.block statements) ('{' :: blanks ++ piece ++ ['}']) rest
  | ifThen {predicate : Command} {branch : Node} {guard piece rest : List Char}
      (hguard : GuardLayout most predicate branch guard)
      (hbranch : StatementLayout most branch piece rest) :
      StatementLayout most (.ifThen predicate branch) ("if".toList ++ guard ++ piece) rest
  | ifElse {predicate : Command} {branch otherwise : Node}
      {guard piece left right last rest : List Char}
      (hguard : GuardLayout most predicate branch guard)
      (hbranch : StatementLayout most branch piece (left ++ "else".toList ++ right ++ last ++ rest))
      (hleft : Blanks left) (hright : Blanks right)
      (hotherwise : StatementLayout most otherwise last rest) :
      StatementLayout most (.ifElse predicate branch otherwise)
        ("if".toList ++ guard ++ piece ++ left ++ "else".toList ++ right ++ last) rest
  | loop {predicate : Command} {body : Node} {guard piece rest : List Char}
      (hguard : GuardLayout most predicate body guard)
      (hbody : StatementLayout most body piece rest) :
      StatementLayout most (.loop predicate body) ("while".toList ++ guard ++ piece) rest

/-- Statements, with blanks behind each of them. -/
inductive StatementsLayout (most : Nat) : List Node → (piece rest : List Char) → Prop where
  | nil {rest : List Char} : StatementsLayout most [] [] rest
  | cons {statement : Node} {statements : List Node} {piece blanks more rest : List Char}
      (hstatement : StatementLayout most statement piece (blanks ++ more ++ rest))
      (hblanks : Blanks blanks) (hstatements : StatementsLayout most statements more rest) :
      StatementsLayout most (statement :: statements) (piece ++ blanks ++ more) rest

end

/-- A whole script: blanks, and statements to the end of the text. -/
inductive ScriptLayout (most : Nat) : List Node → (text : List Char) → Prop where
  | script {statements : List Node} {blanks piece : List Char} (hblanks : Blanks blanks)
      (hstatements : StatementsLayout most statements piece []) :
      ScriptLayout most statements (blanks ++ piece)

/-- The text goes on with a character that no bare argument holds. -/
def AtBarrier (text : List Char) : Prop :=
  ∃ c after, text = c :: after ∧ isBarrier c = true

theorem isPathChar_eq_false_of_isBarrier {c : Char} (h : isBarrier c = true) :
    isPathChar c = false := by
  simp only [isBarrier, isBlank, Bool.or_eq_true, decide_eq_true_eq] at h
  rcases h with (((((rfl | rfl) | rfl) | rfl) | rfl) | rfl) | rfl <;> decide

theorem AtBarrier.stops_isPathChar {text : List Char} (h : AtBarrier text) :
    Stops isPathChar text := by
  obtain ⟨c, after, rfl, hc⟩ := h
  exact stops_cons_iff.mpr (isPathChar_eq_false_of_isBarrier hc)

theorem AtBarrier.stops_bare {text : List Char} (h : AtBarrier text) :
    Stops (!endsBare ·) text := by
  obtain ⟨c, after, rfl, hc⟩ := h
  exact stops_cons_iff.mpr (by simp [endsBare_eq, hc])

theorem AtBarrier.head?_ne_quote {text : List Char} (h : AtBarrier text) :
    text.head? ≠ some '"' := by
  obtain ⟨c, after, rfl, hc⟩ := h
  rintro hquote
  obtain rfl : c = '"' := by simpa using hquote
  exact absurd hc (by decide)

theorem Blanks.atBarrier_append {blanks rest : List Char} (hblanks : Blanks blanks)
    (hrest : AtBarrier rest) : AtBarrier (blanks ++ rest) := by
  cases blanks with
  | nil => exact hrest
  | cons c blanks =>
      refine ⟨c, blanks ++ rest, rfl, ?_⟩
      simp [isBarrier, hblanks c (by simp)]

theorem ArgumentLayout.word {arg : String} {piece rest : List Char}
    (h : ArgumentLayout arg piece) (hrest : AtBarrier rest) : Word .argument piece arg rest := by
  cases h with
  | quoted hlast =>
      refine .quotedArgument (.quoted (spells_iff.mpr ⟨rfl, ?_⟩))
      intro h
      exact absurd h hlast
  | bare hne hbare =>
      refine .bareArgument (.bare hne hbare (spells_iff.mpr ⟨rfl, ?_⟩) hrest.stops_bare)
      intro _
      exact hrest.head?_ne_quote

theorem ArgumentsLayout.atBarrier_append {args : List String} {piece rest : List Char}
    (h : ArgumentsLayout args piece) (hrest : AtBarrier rest) : AtBarrier (piece ++ rest) := by
  cases h with
  | nil => exact hrest
  | @cons _ _ blanks piece more hblanks hne harg hargs =>
      cases blanks with
      | nil => exact absurd rfl hne
      | cons c blanks =>
          refine ⟨c, blanks ++ piece ++ more ++ rest, rfl, ?_⟩
          simp [isBarrier, hblanks c (by simp)]

theorem ArgumentsLayout.arguments {args : List String} {piece rest : List Char}
    (h : ArgumentsLayout args piece) (hrest : AtBarrier rest) : Arguments piece args rest := by
  induction h with
  | nil => exact .nil
  | cons hblanks hne harg hargs ih =>
      exact .cons (.spacedArgument hblanks hne (harg.word (hargs.atBarrier_append hrest))) ih

/-- Here the arguments of a command end, possibly behind blanks. -/
def EndsCommand (rest : List Char) : Prop :=
  ∃ blanks mark after, rest = blanks ++ mark :: after ∧ Blanks blanks ∧
    (mark = ';' ∨ mark = ')' ∨ mark = '{')

theorem EndsCommand.atBarrier {rest : List Char} (h : EndsCommand rest) : AtBarrier rest := by
  obtain ⟨blanks, mark, after, rfl, hblanks, hmark⟩ := h
  refine hblanks.atBarrier_append ⟨mark, after, rfl, ?_⟩
  rcases hmark with rfl | rfl | rfl <;> decide

theorem isBlank_eq_false_of_isPathChar {c : Char} (h : isPathChar c = true) :
    isBlank c = false := by
  rw [Bool.eq_false_iff]
  intro hblank
  have hbarrier : isBarrier c = true := by simp [isBarrier, hblank]
  rw [isPathChar_eq_false_of_isBarrier hbarrier] at h
  cases h

theorem exists_cons_of_wellFormed {call : Command} (h : call.wellFormed = true)
    (rest : List Char) :
    ∃ c after, call.name.toList ++ rest = c :: after ∧ isPathChar c = true := by
  obtain ⟨hne, hname, _⟩ := wellFormed_iff.mp h
  cases hword : call.name.toList with
  | nil => exact absurd hword hne
  | cons c word => exact ⟨c, word ++ rest, rfl, hname c (by simp [hword])⟩

theorem head?_ne_paren_of_wellFormed {call : Command} (h : call.wellFormed = true)
    (rest : List Char) : (call.name.toList ++ rest).head? ≠ some '(' := by
  obtain ⟨c, after, heq, hc⟩ := exists_cons_of_wellFormed h rest
  rw [heq]
  intro hparen
  obtain rfl : c = '(' := by simpa using hparen
  exact absurd hc (by decide)

theorem isKeyword_iff {call : Command} :
    call.isKeyword = true ↔
      call.name.toList = "if".toList ∨ call.name.toList = "while".toList ∨
        "else".toList <+: call.name.toList := by
  simp only [Command.isKeyword, Bool.or_eq_true, decide_eq_true_eq, List.isPrefixOf_iff_prefix,
    String.toList_inj, or_assoc]

namespace CommandLayout

variable {most : Nat} {call : Command} {piece rest : List Char}

theorem exists_cons (h : CommandLayout most call piece) (hcall : call.wellFormed = true)
    (rest : List Char) :
    ∃ c after, piece ++ rest = c :: after ∧ (c = '(' ∨ isPathChar c = true) := by
  cases h with
  | @plain _ name args piece hargs =>
      obtain ⟨c, after, heq, hc⟩ := exists_cons_of_wellFormed hcall (piece ++ rest)
      exact ⟨c, after, by rw [List.append_assoc, heq], .inr hc⟩
  | parentheses => exact ⟨'(', _, rfl, .inl rfl⟩

theorem stops_isBlank (h : CommandLayout most call piece) (hcall : call.wellFormed = true)
    (rest : List Char) : Stops isBlank (piece ++ rest) := by
  obtain ⟨c, after, heq, hc⟩ := h.exists_cons hcall rest
  rw [heq, stops_cons_iff]
  rcases hc with rfl | hc
  · decide
  · exact isBlank_eq_false_of_isPathChar hc

theorem head?_append_ne (h : CommandLayout most call piece) (hcall : call.wellFormed = true)
    (rest : List Char) {mark : Char} (hmark : mark ≠ '(') (hpath : isPathChar mark = false) :
    (piece ++ rest).head? ≠ some mark := by
  obtain ⟨c, after, heq, hc⟩ := h.exists_cons hcall rest
  rw [heq]
  intro hhead
  obtain rfl : c = mark := by simpa using hhead
  rcases hc with rfl | hc
  · exact hmark rfl
  · rw [hpath] at hc
    cases hc

theorem takeWhile_isPathChar (h : CommandLayout most call piece)
    (hcall : call.wellFormed = true) (hrest : AtBarrier rest) :
    (piece ++ rest).takeWhile isPathChar =
      if piece.head? = some '(' then [] else call.name.toList := by
  cases h with
  | @plain _ name args piece hargs =>
      obtain ⟨_, hname, _⟩ := wellFormed_iff.mp hcall
      have hstops := (hargs.atBarrier_append hrest).stops_isPathChar
      rw [List.append_assoc, List.takeWhile_append_of_pos hname, takeWhile_of_stops hstops,
        List.append_nil, if_neg]
      exact head?_ne_paren_of_wellFormed hcall piece
  | parentheses => rfl

theorem takeWhile_isPathChar_ne (h : CommandLayout most call piece)
    (hcall : call.wellFormed = true) (hkeyword : call.isKeyword = true → piece.head? = some '(')
    (hrest : AtBarrier rest) :
    (piece ++ rest).takeWhile isPathChar ≠ "if".toList ∧
      (piece ++ rest).takeWhile isPathChar ≠ "while".toList ∧
      ¬ "else".toList <+: piece ++ rest := by
  have helse : "else".toList <+: piece ++ rest →
      "else".toList <+: (piece ++ rest).takeWhile isPathChar := by
    rintro ⟨after, hafter⟩
    have hkeyword : "else".toList.all isPathChar = true := by decide
    rw [← hafter, List.takeWhile_append_of_pos (List.all_eq_true.mp hkeyword)]
    exact List.prefix_append _ _
  rw [h.takeWhile_isPathChar hcall hrest] at helse ⊢
  by_cases hparen : piece.head? = some '('
  · rw [if_pos hparen] at helse ⊢
    exact ⟨by decide, by decide, fun hprefix => absurd (helse hprefix) (by decide)⟩
  · rw [if_neg hparen] at helse ⊢
    have hfree := mt isKeyword_iff.mpr (mt hkeyword hparen)
    rw [not_or, not_or] at hfree
    exact ⟨hfree.1, hfree.2.1, mt helse hfree.2.2⟩

end CommandLayout

namespace StatementLayout

variable {most : Nat} {node : Node} {piece rest : List Char}

theorem stops_isBlank (h : StatementLayout most node piece rest)
    (hnode : node.wellFormed = true) : Stops isBlank (piece ++ rest) := by
  cases h with
  | comment | block | ifThen | ifElse | loop => exact stops_cons_iff.mpr (by decide)
  | @command call piece blanks _ hcall _ _ =>
      rw [Node.wellFormed] at hnode
      rw [List.append_assoc, List.append_assoc]
      exact hcall.stops_isBlank hnode _

theorem not_else_prefix (h : StatementLayout most node piece rest)
    (hnode : node.wellFormed = true) : ¬ "else".toList <+: piece ++ rest := by
  cases h with
  | comment | block | ifThen | ifElse | loop =>
      rintro ⟨after, hafter⟩
      cases hafter
  | @command call piece blanks _ hcall hkeyword hblanks =>
      rw [Node.wellFormed] at hnode
      rw [List.append_assoc, List.append_assoc]
      have hbarrier : AtBarrier (blanks ++ ([';'] ++ rest)) :=
        hblanks.atBarrier_append ⟨';', rest, rfl, by decide⟩
      exact (hcall.takeWhile_isPathChar_ne hnode hkeyword hbarrier).2.2

theorem endsCommand (h : StatementLayout most node piece rest) (hnode : node.isBlock = true)
    {blanks : List Char} (hblanks : Blanks blanks) : EndsCommand (blanks ++ (piece ++ rest)) := by
  cases h with
  | block => exact ⟨blanks, '{', _, rfl, hblanks, .inr (.inr rfl)⟩
  | _ => cases hnode

end StatementLayout

/-- Here a list of statements ends. -/
def EndsStatements (rest : List Char) : Prop :=
  rest = [] ∨ ∃ after, rest = '}' :: after

theorem StatementsLayout.not_else_prefix {most : Nat} {nodes : List Node}
    {piece rest : List Char} (h : StatementsLayout most nodes piece rest)
    (hnodes : Node.wellFormedAll nodes = true) (hrest : EndsStatements rest) :
    Stops isBlank (piece ++ rest) ∧ ¬ "else".toList <+: piece ++ rest := by
  cases h with
  | nil =>
      rcases hrest with rfl | ⟨after, rfl⟩
      · exact ⟨by simp [Stops], by simp⟩
      · refine ⟨stops_cons_iff.mpr (by decide), ?_⟩
        rintro ⟨after, hafter⟩
        cases hafter
  | @cons node nodes piece blanks more _ hnode hblanks hmore =>
      rw [Node.wellFormedAll, Bool.and_eq_true] at hnodes
      have htext : piece ++ blanks ++ more ++ rest = piece ++ (blanks ++ more ++ rest) := by simp
      rw [htext]
      exact ⟨hnode.stops_isBlank hnodes.1, hnode.not_else_prefix hnodes.1⟩

end Grammar

end StatusShell
