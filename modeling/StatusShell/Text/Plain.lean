namespace StatusShell.Text

/-- The characters that may stand between the opening of a control sequence and
the letter that ends it. -/
def isParameter (c : Char) : Bool :=
  c = ';' || c = '?' || c.isDigit

/-- The length of the control sequence that a text starts with, if it starts
with one: an escape character, a bracket, parameters, and a letter of the basic
alphabet. -/
def controlLength? : List Char → Option Nat
  | '\x1b' :: '[' :: rest =>
      match rest.dropWhile isParameter with
      | [] => none
      | c :: _ => if c.isAlpha then some ((rest.takeWhile isParameter).length + 3) else none
  | _ => none

/-- Leave out the next `skip` characters, and after them all control
sequences. -/
def dropControls : (skip : Nat) → List Char → List Char
  | _, [] => []
  | skip + 1, _ :: rest => dropControls skip rest
  | 0, c :: rest =>
      match controlLength? (c :: rest) with
      | some length => dropControls (length - 1) rest
      | none => c :: dropControls 0 rest

/-- A text as it is written to an output that is no terminal. -/
def plain (text : String) : String :=
  String.ofList (dropControls 0 text.toList)

theorem dropControls_eq_self {text : List Char} (h : '\x1b' ∉ text) :
    dropControls 0 text = text := by
  induction text with
  | nil => rfl
  | cons c rest ih =>
      simp only [List.mem_cons, not_or] at h
      have hnone : controlLength? (c :: rest) = none := by
        unfold controlLength?
        split
        · next heq => exact absurd (List.cons.inj heq).1.symm h.1
        · rfl
      rw [dropControls, hnone, ih h.2]

theorem plain_eq_self {text : String} (h : '\x1b' ∉ text.toList) : plain text = text := by
  rw [plain, dropControls_eq_self h, String.ofList_toList]

end StatusShell.Text
