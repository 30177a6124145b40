import Mathlib.Algebra.Group.Nat.Defs
import Mathlib.Tactic.SplitIfs
import StatusShell.Text.Quote

namespace StatusShell.Text

variable {α : Type}

/-- A way of writing things down that tells what was written, and where it ends,
whatever is written behind it. -/
def Delimited (Valid : α → Prop) (written : α → List Char) : Prop :=
  ∀ (a b : α) (rest rest' : List Char), Valid a → Valid b →
    written a ++ rest = written b ++ rest' → a = b ∧ rest = rest'

theorem Delimited.flatMap {Valid : α → Prop} {written : α → List Char}
    (h : Delimited Valid written) {xs ys : List α} {rest rest' : List Char}
    (hxs : ∀ x ∈ xs, Valid x) (hys : ∀ y ∈ ys, Valid y) (hrest : ∀ a, ¬ written a <+: rest)
    (hrest' : ∀ a, ¬ written a <+: rest')
    (heq : xs.flatMap written ++ rest = ys.flatMap written ++ rest') :
    xs = ys ∧ rest = rest' := by
  induction xs generalizing ys with
  | nil =>
      rcases ys with _ | ⟨y, ys⟩
      · exact ⟨rfl, heq⟩
      · rw [List.flatMap_cons, List.append_assoc] at heq
        exact absurd ⟨_, heq.symm⟩ (hrest y)
  | cons x xs ih =>
      rcases ys with _ | ⟨y, ys⟩
      · rw [List.flatMap_cons, List.append_assoc] at heq
        exact absurd ⟨_, heq⟩ (hrest' x)
      · rw [List.flatMap_cons, List.flatMap_cons, List.append_assoc, List.append_assoc] at heq
        obtain ⟨hx, hxs'⟩ := List.forall_mem_cons.mp hxs
        obtain ⟨hy, hys'⟩ := List.forall_mem_cons.mp hys
        obtain ⟨hhead, htail⟩ := h x y _ _ hx hy heq
        obtain ⟨htails, hends⟩ := ih hxs' hys' htail
        exact ⟨by rw [hhead, htails], hends⟩

/-- The value of a hexadecimal digit. -/
def digitValue (digit : Char) : Nat :=
  if digit.isDigit then digit.toNat - '0'.toNat else digit.toNat - 'a'.toNat + 10

theorem digitValue_digitChar : ∀ n < 16, digitValue (Nat.digitChar n) = n := by
  decide

/-- The number that hexadecimal digits spell behind a number already read. -/
def hexValue (value : Nat) (digits : List Char) : Nat :=
  digits.foldl (fun value digit => value * 16 + digitValue digit) value

theorem hexDigits_succ (width n : Nat) :
    hexDigits (width + 1) n = Nat.digitChar (n / 16 ^ width % 16) :: hexDigits width n :=
  rfl

theorem length_hexDigits (width n : Nat) : (hexDigits width n).length = width := by
  induction width with
  | zero => rfl
  | succ width ih => rw [hexDigits_succ, List.length_cons, ih]

theorem hexValue_hexDigits (value width n : Nat) :
    hexValue value (hexDigits width n) = value * 16 ^ width + n % 16 ^ width := by
  induction width generalizing value with
  | zero =>
      rw [Nat.pow_zero, Nat.mul_one, Nat.mod_one]
      rfl
  | succ width ih =>
      have hdigit : n / 16 ^ width % 16 < 16 := Nat.mod_lt _ (by decide)
      calc hexValue value (hexDigits (width + 1) n)
          = hexValue (value * 16 + n / 16 ^ width % 16) (hexDigits width n) := by
            rw [hexDigits_succ, hexValue, List.foldl_cons, digitValue_digitChar _ hdigit, hexValue]
        _ = value * 16 * 16 ^ width +
              (n % 16 ^ width + 16 ^ width * (n / 16 ^ width % 16)) := by
            rw [ih, Nat.add_mul, Nat.mul_comm (n / 16 ^ width % 16)]
            omega
        _ = value * 16 ^ (width + 1) + n % 16 ^ (width + 1) := by
            rw [← Nat.mod_mul, Nat.pow_succ, Nat.mul_assoc, Nat.mul_comm 16]

/-- Read back the first character that is shown in a quoted text. -/
def readShown : List Char → Option (Char × List Char)
  | '\\' :: 't' :: rest => some ('\t', rest)
  | '\\' :: 'n' :: rest => some ('\n', rest)
  | '\\' :: 'r' :: rest => some ('\r', rest)
  | '\\' :: 'x' :: rest => some (Char.ofNat (hexValue 0 (rest.take 2)), rest.drop 2)
  | '\\' :: 'u' :: rest => some (Char.ofNat (hexValue 0 (rest.take 4)), rest.drop 4)
  | '\\' :: 'U' :: rest => some (Char.ofNat (hexValue 0 (rest.take 8)), rest.drop 8)
  | '\\' :: c :: rest => some (c, rest)
  | c :: rest => some (c, rest)
  | [] => none

theorem readShown_of_ne {c : Char} (h : c ≠ '\\') (rest : List Char) :
    readShown (c :: rest) = some (c, rest) := by
  rw [readShown.eq_def]
  split <;> simp_all

theorem ofNat_hexValue_take (width : Nat) {c : Char} (h : c.toNat < 16 ^ width)
    (rest : List Char) :
    Char.ofNat (hexValue 0 ((hexDigits width c.toNat ++ rest).take width)) = c ∧
      (hexDigits width c.toNat ++ rest).drop width = rest := by
  have hlength := length_hexDigits width c.toNat
  constructor
  · rw [List.take_left' hlength, hexValue_hexDigits, Nat.zero_mul, Nat.zero_add,
      Nat.mod_eq_of_lt h, Char.ofNat_toNat]
  · exact List.drop_left' hlength

section

variable {mark : Char}

theorem readShown_shownChar (hmark : mark = '\'' ∨ mark = '"') (c : Char) (rest : List Char) :
    readShown (shownChar mark c ++ rest) = some (c, rest) := by
  rw [shownChar]
  split_ifs with hescaped htab hfeed hreturn hprintable htwo hfour
  · rcases hescaped with rfl | rfl
    · rcases hmark with rfl | rfl <;> rfl
    · rfl
  · rw [htab]
    rfl
  · rw [hfeed]
    rfl
  · rw [hreturn]
    rfl
  · exact readShown_of_ne (not_or.mp hescaped).2 rest
  · obtain ⟨hvalue, hrest⟩ := ofNat_hexValue_take 2 htwo rest
    rw [List.cons_append, List.cons_append, readShown, hvalue, hrest]
  · obtain ⟨hvalue, hrest⟩ := ofNat_hexValue_take 4 hfour rest
    rw [List.cons_append, List.cons_append, readShown, hvalue, hrest]
  · obtain ⟨hvalue, hrest⟩ := ofNat_hexValue_take 8 c.val.toNat_lt rest
    rw [List.cons_append, List.cons_append, readShown, hvalue, hrest]

theorem not_shownChar_isPrefix (hmark : mark = '\'' ∨ mark = '"') (c : Char) (rest : List Char) :
    ¬ shownChar mark c <+: mark :: rest := by
  have hbackslash : '\\' ≠ mark := by rcases hmark with rfl | rfl <;> decide
  rw [shownChar]
  split_ifs with hescaped <;> rw [List.cons_prefix_cons] <;> rintro ⟨hfirst, -⟩
  all_goals first
    | exact hbackslash hfirst
    | exact hescaped (.inl hfirst)

theorem shownChar_delimited (hmark : mark = '\'' ∨ mark = '"') :
    Delimited (fun _ => True) (shownChar mark) := by
  intro c d rest rest' _ _ heq
  have hread := readShown_shownChar hmark c rest
  rw [heq, readShown_shownChar hmark d rest'] at hread
  cases hread
  exact ⟨rfl, rfl⟩

end

theorem quoteMark_eq_or (text : List Char) : quoteMark text = '\'' ∨ quoteMark text = '"' := by
  rw [quoteMark]
  split
  · exact .inr rfl
  · exact .inl rfl

theorem quotedChars_delimited : Delimited (fun _ => True) quotedChars := by
  intro text text' rest rest' _ _ heq
  simp only [quotedChars, List.cons_append, List.append_assoc, List.nil_append] at heq
  obtain ⟨hmark, heq⟩ := List.cons.inj heq
  rw [← hmark] at heq
  have hmark := quoteMark_eq_or text
  obtain ⟨rfl, hrest⟩ := (shownChar_delimited hmark).flatMap (fun _ _ => trivial)
    (fun _ _ => trivial) (fun c => not_shownChar_isPrefix hmark c rest)
    (fun c => not_shownChar_isPrefix hmark c rest') heq
  exact ⟨rfl, (List.cons.inj hrest).2⟩

end StatusShell.Text
