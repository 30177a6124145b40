import StatusShell.Proofs.Listings
import StatusShell.Proofs.Shape

namespace StatusShell

open Grammar

namespace Text

theorem escape_not_mem_hexDigits (width n : Nat) : '\x1b' ∉ hexDigits width n := by
  have hdigit : ∀ d < 16, Nat.digitChar d ≠ '\x1b' := by decide
  induction width with
  | zero => exact List.not_mem_nil
  | succ width ih =>
      rw [hexDigits_succ, List.mem_cons, not_or]
      exact ⟨(hdigit _ (Nat.mod_lt _ (by decide))).symm, ih⟩

theorem escape_not_mem_shownChar {mark : Char} (hmark : mark ≠ '\x1b') (c : Char) :
    '\x1b' ∉ shownChar mark c := by
  -- Only the mark, the backslash and printable characters are shown as they are.
  rw [shownChar]
  split_ifs with hmarked htab hfeed hreturn hprintable
  · have hc : c ≠ '\x1b' := by
      rcases hmarked with rfl | rfl
      · exact hmark
      · decide
    simp [hc.symm]
  · decide
  · decide
  · decide
  · have hc : c ≠ '\x1b' := by
      rintro rfl
      exact absurd hprintable (by decide)
    simp [hc.symm]
  all_goals simp [escape_not_mem_hexDigits]

theorem escape_not_mem_quotedChars (text : List Char) : '\x1b' ∉ quotedChars text := by
  have hmark : quoteMark text ≠ '\x1b' := by
    rcases quoteMark_eq_or text with hsingle | hdouble
    · rw [hsingle]
      decide
    · rw [hdouble]
      decide
  rw [quotedChars]
  simp [hmark.symm, escape_not_mem_shownChar hmark]

end Text

open Text

theorem Command.escape_not_mem_shown {call : Command} (hname : call.HasPathName) :
    '\x1b' ∉ call.shown := by
  have hpath : '\x1b' ∉ call.name.toList := fun h => absurd (hname _ h) (by decide)
  rw [shown, List.mem_append, not_or]
  refine ⟨hpath, ?_⟩
  simp [escape_not_mem_quotedChars]

theorem Entry.escape_not_mem_line {entry : Entry} (hname : entry.label.HasPathName) :
    '\x1b' ∉ entry.line := by
  rcases entry with ⟨depth, label⟩
  have hkeyword : ∀ kind : LineKind, '\x1b' ∉ kind.keyword := by
    intro kind
    cases kind <;> decide
  rw [line, Node.indented, List.mem_append, List.mem_append, not_or, not_or]
  refine ⟨?_, hkeyword _, ?_⟩
  · exact fun h => absurd (List.eq_of_mem_replicate h) (by decide)
  · rcases label with text | call | _ | predicate | _ | predicate
    · exact escape_not_mem_quotedChars _
    · exact Command.escape_not_mem_shown hname
    · exact List.not_mem_nil
    · exact Command.escape_not_mem_shown hname
    · exact List.not_mem_nil
    · exact Command.escape_not_mem_shown hname

theorem escape_not_mem_listing {nodes : List Node}
    (hnames : ∀ call ∈ Node.allCommands nodes, call.HasPathName) :
    '\x1b' ∉ (listing nodes).toList := by
  intro h
  rw [listing_eq_ofList, String.toList_ofList, List.mem_flatMap] at h
  obtain ⟨entry, hentry, h⟩ := h
  rcases List.mem_append.mp h with h | h
  · have hname := Node.hasPathName_of_mem_entriesAll 0 nodes hnames entry hentry
    exact Entry.escape_not_mem_line hname h
  · exact absurd (List.mem_singleton.mp h) (by decide)

namespace Node

mutual

theorem wellFormed_of_mem_commands : (node : Node) → node.wellFormed = true →
    ∀ call ∈ node.commands, call.wellFormed = true
  | .comment _, _ => by simp [commands]
  | .command call, h => by
      rw [wellFormed] at h
      simpa [commands] using h
  | .block statements, h => wellFormed_of_mem_allCommands statements h
  | .ifThen predicate branch, h => by
      simp only [wellFormed, Bool.and_eq_true] at h
      exact List.forall_mem_cons.mpr ⟨h.1, wellFormed_of_mem_commands branch h.2⟩
  | .ifElse predicate branch otherwise, h => by
      simp only [wellFormed, Bool.and_eq_true] at h
      exact List.forall_mem_cons.mpr ⟨h.1.1.1, List.forall_mem_append.mpr
        ⟨wellFormed_of_mem_commands branch h.1.1.2, wellFormed_of_mem_commands otherwise h.2⟩⟩
  | .loop predicate body, h => by
      simp only [wellFormed, Bool.and_eq_true] at h
      exact List.forall_mem_cons.mpr ⟨h.1, wellFormed_of_mem_commands body h.2⟩
  | .stray _, h => by cases h

theorem wellFormed_of_mem_allCommands : (statements : List Node) →
    wellFormedAll statements = true →
    ∀ call ∈ allCommands statements, call.wellFormed = true
  | [], _ => by simp [allCommands]
  | statement :: statements, h => by
      simp only [wellFormedAll, Bool.and_eq_true] at h
      exact List.forall_mem_append.mpr ⟨wellFormed_of_mem_commands statement h.1,
        wellFormed_of_mem_allCommands statements h.2⟩

end

end Node

theorem Source.escape_not_mem_listing {frames : Nat} {source : Source} {statements : List Node}
    (h : source.parse frames = .ok statements) : '\x1b' ∉ (listing statements).toList := by
  obtain ⟨text, htext⟩ := exists_readText_of_parse h
  apply StatusShell.escape_not_mem_listing
  intro call hcall
  have hcommand := Node.wellFormed_of_mem_allCommands statements (wellFormedAll_of_readText htext)
  exact (wellFormed_iff.mp (hcommand call hcall)).2.1

end StatusShell
