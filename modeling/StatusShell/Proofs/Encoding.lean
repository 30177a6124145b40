import Mathlib.Data.List.Forall2
import StatusShell.Source

namespace StatusShell

namespace Utf8

/-- The bytes of a scalar value: a leading byte that shows their number, and six
bits in each of the others. -/
def encodeScalar (value : Nat) : List Nat :=
  if value < 0x80 then [value]
  else if value < 0x800 then [0xC0 + value / 0x40, 0x80 + value % 0x40]
  else if value < 0x10000 then
    [0xE0 + value / 0x1000, 0x80 + value / 0x40 % 0x40, 0x80 + value % 0x40]
  else
    [0xF0 + value / 0x40000, 0x80 + value / 0x1000 % 0x40, 0x80 + value / 0x40 % 0x40,
      0x80 + value % 0x40]

def encode (text : List Char) : List Nat :=
  text.flatMap fun c => encodeScalar c.toNat

/-- The values of the bytes. -/
def values (content : ByteArray) : List Nat :=
  content.data.toList.map UInt8.toNat

/-- The bytes are the encoding of the text. -/
def Encodes (content : ByteArray) (text : String) : Prop :=
  values content = encode text.toList

instance (content : ByteArray) (text : String) : Decidable (Encodes content text) :=
  inferInstanceAs (Decidable (_ = _))

/-- What is due inside the encoding of a character: so many bytes, the next of
them between the given bounds. -/
structure Due where
  count : Nat
  low : Nat
  high : Nat
  deriving DecidableEq, Repr

/-- The bytes due behind a leading byte.  The bounds on the next one leave out the
encodings that are longer than need be, the surrogates, and the values that are too
large. -/
def lead (byte : Nat) : Option Due :=
  if byte < 0x80 then some ⟨0, 0x80, 0xBF⟩
  else if byte < 0xC2 then none
  else if byte < 0xE0 then some ⟨1, 0x80, 0xBF⟩
  else if byte < 0xF0 then
    some ⟨2, if byte = 0xE0 then 0xA0 else 0x80, if byte = 0xED then 0x9F else 0xBF⟩
  else if byte < 0xF5 then
    some ⟨3, if byte = 0xF0 then 0x90 else 0x80, if byte = 0xF4 then 0x8F else 0xBF⟩
  else none

/-- The bytes complete a character of which some bytes are due, and go on with whole
characters up to their end. -/
def accepts (due : Due) : List Nat → Bool
  | [] => due.count = 0
  | byte :: bytes =>
      if due.count = 0 then
        match lead byte with
        | some due => accepts due bytes
        | none => false
      else
        due.low ≤ byte && byte ≤ due.high && accepts ⟨due.count - 1, 0x80, 0xBF⟩ bytes

/-- The bytes are whole characters from first to last. -/
def wellFormed (bytes : List Nat) : Bool :=
  accepts ⟨0, 0x80, 0xBF⟩ bytes

theorem wellFormed_cons (byte : Nat) (bytes : List Nat) :
    wellFormed (byte :: bytes) = true ↔ ∃ due, lead byte = some due ∧ accepts due bytes = true := by
  rw [wellFormed, accepts, if_pos rfl]
  rcases lead byte with _ | due
  · simp
  · simp

theorem accepts_succ {count low high : Nat} {bytes : List Nat} :
    accepts ⟨count + 1, low, high⟩ bytes = true ↔
      ∃ byte rest, bytes = byte :: rest ∧ low ≤ byte ∧ byte ≤ high ∧
        accepts ⟨count, 0x80, 0xBF⟩ rest = true := by
  rcases bytes with _ | ⟨byte, rest⟩
  · simp [accepts]
  · simp [accepts, and_assoc]

theorem lead_eq_some_iff {byte : Nat} {due : Due} :
    lead byte = some due ↔
      byte < 0x80 ∧ due = ⟨0, 0x80, 0xBF⟩ ∨
      0xC2 ≤ byte ∧ byte < 0xE0 ∧ due = ⟨1, 0x80, 0xBF⟩ ∨
      0xE0 ≤ byte ∧ byte < 0xF0 ∧
        due = ⟨2, if byte = 0xE0 then 0xA0 else 0x80, if byte = 0xED then 0x9F else 0xBF⟩ ∨
      0xF0 ≤ byte ∧ byte < 0xF5 ∧
        due = ⟨3, if byte = 0xF0 then 0x90 else 0x80, if byte = 0xF4 then 0x8F else 0xBF⟩ := by
  rw [lead]
  constructor
  · intro h
    split at h
    · next hone => exact .inl ⟨hone, (Option.some.inj h).symm⟩
    split at h
    · cases h
    split at h
    · next hlow hhigh => exact .inr (.inl ⟨by omega, hhigh, (Option.some.inj h).symm⟩)
    split at h
    · next hlow hhigh =>
        exact .inr (.inr (.inl ⟨by omega, hhigh, (Option.some.inj h).symm⟩))
    split at h
    · next hlow hhigh =>
        exact .inr (.inr (.inr ⟨by omega, hhigh, (Option.some.inj h).symm⟩))
    · cases h
  · rintro (⟨h, rfl⟩ | ⟨h, h', rfl⟩ | ⟨h, h', rfl⟩ | ⟨h, h', rfl⟩)
    · rw [if_pos h]
    · rw [if_neg (by omega), if_neg (by omega), if_pos h']
    · rw [if_neg (by omega), if_neg (by omega), if_neg (by omega), if_pos h']
    · rw [if_neg (by omega), if_neg (by omega), if_neg (by omega), if_neg (by omega), if_pos h']

theorem exists_char (value : Nat) (h : value < 0x110000)
    (h' : value < 0xD800 ∨ 0xDFFF < value) :
    ∃ c : Char, c.toNat = value := by
  have hvalid : value.isValidChar := by
    rcases h' with h' | h'
    · exact .inl h'
    · exact .inr ⟨h', h⟩
  exact ⟨.ofNatAux value hvalid, rfl⟩

theorem encodeScalar_two {a b : Nat} (hb : b < 0x40) (hlow : 0x80 ≤ a * 0x40 + b)
    (hhigh : a * 0x40 + b < 0x800) : encodeScalar (a * 0x40 + b) = [0xC0 + a, 0x80 + b] := by
  rw [encodeScalar, if_neg (by omega), if_pos hhigh]
  congr 3 <;> omega

theorem encodeScalar_three {a b c : Nat} (hb : b < 0x40) (hc : c < 0x40)
    (hlow : 0x800 ≤ a * 0x1000 + b * 0x40 + c) (hhigh : a * 0x1000 + b * 0x40 + c < 0x10000) :
    encodeScalar (a * 0x1000 + b * 0x40 + c) = [0xE0 + a, 0x80 + b, 0x80 + c] := by
  rw [encodeScalar, if_neg (by omega), if_neg (by omega), if_pos hhigh]
  congr 3 <;> omega

theorem encodeScalar_four {a b c d : Nat} (hb : b < 0x40) (hc : c < 0x40) (hd : d < 0x40)
    (hlow : 0x10000 ≤ a * 0x40000 + b * 0x1000 + c * 0x40 + d) :
    encodeScalar (a * 0x40000 + b * 0x1000 + c * 0x40 + d) =
      [0xF0 + a, 0x80 + b, 0x80 + c, 0x80 + d] := by
  rw [encodeScalar, if_neg (by omega), if_neg (by omega), if_neg (by omega)]
  congr 4 <;> omega

theorem exists_char_of_wellFormed_cons {byte : Nat} {bytes : List Nat}
    (h : wellFormed (byte :: bytes) = true) :
    ∃ (c : Char) (rest : List Nat), byte :: bytes = encodeScalar c.toNat ++ rest ∧
      wellFormed rest = true := by
  obtain ⟨due, hlead, hdue⟩ := (wellFormed_cons byte bytes).mp h
  rcases lead_eq_some_iff.mp hlead with
    ⟨hbyte, rfl⟩ | ⟨hlow, hhigh, rfl⟩ | ⟨hlow, hhigh, rfl⟩ | ⟨hlow, hhigh, rfl⟩
  · obtain ⟨c, hc⟩ := exists_char byte (by omega) (by omega)
    refine ⟨c, bytes, ?_, hdue⟩
    rw [hc, encodeScalar, if_pos hbyte, List.singleton_append]
  · obtain ⟨second, rest, rfl, hsecond, hsecond', hrest⟩ := accepts_succ.mp hdue
    obtain ⟨a, rfl⟩ := Nat.exists_eq_add_of_le (show 0xC0 ≤ byte by omega)
    obtain ⟨b, rfl⟩ := Nat.exists_eq_add_of_le hsecond
    obtain ⟨c, hc⟩ := exists_char (a * 0x40 + b) (by omega) (by omega)
    refine ⟨c, rest, ?_, hrest⟩
    rw [hc, encodeScalar_two (by omega) (by omega) (by omega), List.cons_append,
      List.singleton_append]
  · obtain ⟨second, _, rfl, hsecond, hsecond', hdue'⟩ := accepts_succ.mp hdue
    obtain ⟨third, rest, rfl, hthird, hthird', hrest⟩ := accepts_succ.mp hdue'
    obtain ⟨a, rfl⟩ := Nat.exists_eq_add_of_le hlow
    obtain ⟨b, rfl⟩ := Nat.exists_eq_add_of_le (show 0x80 ≤ second by split at hsecond <;> omega)
    obtain ⟨c, rfl⟩ := Nat.exists_eq_add_of_le hthird
    -- not too short for three bytes, and no surrogate
    have hfit : 0x800 ≤ a * 0x1000 + b * 0x40 + c := by split at hsecond <;> omega
    have hscalar : a * 0x1000 + b * 0x40 + c < 0xD800 ∨ 0xDFFF < a * 0x1000 + b * 0x40 + c := by
      split at hsecond' <;> omega
    have hb : b < 0x40 := by split at hsecond' <;> omega
    obtain ⟨found, hfound⟩ := exists_char _ (by omega) hscalar
    refine ⟨found, rest, ?_, hrest⟩
    rw [hfound, encodeScalar_three hb (by omega) hfit (by omega)]
    rfl
  · obtain ⟨second, _, rfl, hsecond, hsecond', hdue'⟩ := accepts_succ.mp hdue
    obtain ⟨third, _, rfl, hthird, hthird', hdue''⟩ := accepts_succ.mp hdue'
    obtain ⟨fourth, rest, rfl, hfourth, hfourth', hrest⟩ := accepts_succ.mp hdue''
    obtain ⟨a, rfl⟩ := Nat.exists_eq_add_of_le hlow
    obtain ⟨b, rfl⟩ := Nat.exists_eq_add_of_le (show 0x80 ≤ second by split at hsecond <;> omega)
    obtain ⟨c, rfl⟩ := Nat.exists_eq_add_of_le hthird
    obtain ⟨d, rfl⟩ := Nat.exists_eq_add_of_le hfourth
    have hfit : 0x10000 ≤ a * 0x40000 + b * 0x1000 + c * 0x40 + d := by
      split at hsecond <;> omega
    have hscalar : a * 0x40000 + b * 0x1000 + c * 0x40 + d < 0x110000 := by
      split at hsecond' <;> omega
    have hb : b < 0x40 := by split at hsecond' <;> omega
    obtain ⟨found, hfound⟩ := exists_char _ hscalar (by omega)
    refine ⟨found, rest, ?_, hrest⟩
    rw [hfound, encodeScalar_four hb (by omega) (by omega) hfit]
    rfl

theorem char_scalar (c : Char) :
    c.toNat < 0x110000 ∧ (c.toNat < 0xD800 ∨ 0xDFFF < c.toNat) := by
  rcases c.valid with h | h
  · exact ⟨Nat.lt_trans h (by decide), .inl h⟩
  · exact ⟨h.2, .inr h.1⟩

theorem wellFormed_encodeScalar_append (c : Char) {rest : List Nat}
    (h : wellFormed rest = true) : wellFormed (encodeScalar c.toNat ++ rest) = true := by
  obtain ⟨hbound, hscalar⟩ := char_scalar c
  rw [encodeScalar]
  split
  · next hone =>
      exact (wellFormed_cons _ _).mpr ⟨_, lead_eq_some_iff.mpr (.inl ⟨hone, rfl⟩), h⟩
  split
  · apply (wellFormed_cons _ _).mpr
    refine ⟨_, lead_eq_some_iff.mpr (.inr (.inl ⟨by omega, by omega, rfl⟩)), ?_⟩
    exact accepts_succ.mpr ⟨_, _, rfl, by omega, by omega, h⟩
  split
  · apply (wellFormed_cons _ _).mpr
    refine ⟨_, lead_eq_some_iff.mpr (.inr (.inr (.inl ⟨by omega, by omega, rfl⟩))), ?_⟩
    refine accepts_succ.mpr ⟨_, _, rfl, by split <;> omega, by split <;> omega, ?_⟩
    exact accepts_succ.mpr ⟨_, _, rfl, by omega, by omega, h⟩
  · apply (wellFormed_cons _ _).mpr
    refine ⟨_, lead_eq_some_iff.mpr (.inr (.inr (.inr ⟨by omega, by omega, rfl⟩))), ?_⟩
    refine accepts_succ.mpr ⟨_, _, rfl, by split <;> omega, by split <;> omega, ?_⟩
    refine accepts_succ.mpr ⟨_, _, rfl, by omega, by omega, ?_⟩
    exact accepts_succ.mpr ⟨_, _, rfl, by omega, by omega, h⟩

theorem length_encodeScalar_pos (value : Nat) : 0 < (encodeScalar value).length := by
  rw [encodeScalar]
  repeat' split
  all_goals exact Nat.succ_pos _

/-- The recogniser accepts the encodings of texts and nothing else. -/
theorem wellFormed_iff {bytes : List Nat} :
    wellFormed bytes = true ↔ ∃ text, bytes = encode text := by
  constructor
  · intro h
    induction hlength : bytes.length using Nat.strongRecOn generalizing bytes with
    | _ length ih =>
        rcases bytes with _ | ⟨byte, bytes⟩
        · exact ⟨[], rfl⟩
        obtain ⟨c, rest, heq, hrest⟩ := exists_char_of_wellFormed_cons h
        have hshorter : rest.length < length := by
          have hpos := length_encodeScalar_pos c.toNat
          rw [← hlength, heq, List.length_append]
          omega
        obtain ⟨text, rfl⟩ := ih rest.length hshorter hrest rfl
        exact ⟨c :: text, heq⟩
  · rintro ⟨text, rfl⟩
    induction text with
    | nil => rfl
    | cons c text ih => exact wellFormed_encodeScalar_append c ih

theorem length_le_length_encode (text : List Char) : text.length ≤ (encode text).length := by
  induction text with
  | nil => exact Nat.zero_le _
  | cons c text ih =>
      have hpos := length_encodeScalar_pos c.toNat
      rw [encode, List.flatMap_cons, List.length_cons, List.length_append]
      change text.length + 1 ≤ _ + (encode text).length
      omega

theorem values_utf8EncodeChar (c : Char) :
    (String.utf8EncodeChar c).map UInt8.toNat = encodeScalar c.toNat := by
  obtain ⟨hbound, -⟩ := char_scalar c
  rw [String.utf8EncodeChar, encodeScalar]
  simp only [Char.toNat_val]
  repeat' split
  all_goals try omega
  all_goals simp [UInt8.toNat_ofNat']
  all_goals omega

theorem values_toByteArray (text : String) : values text.toByteArray = encode text.toList := by
  obtain ⟨chars, rfl⟩ := text.exists_eq_ofList
  rw [String.toByteArray_ofList, String.toList_ofList, values, List.utf8Encode,
    List.toList_data_toByteArray, List.map_flatMap, encode]
  simp only [values_utf8EncodeChar]

theorem encodes_iff {content : ByteArray} {text : String} :
    Encodes content text ↔ content = text.toByteArray := by
  rw [Encodes, ← values_toByteArray]
  constructor
  · intro h
    have hbytes := (List.map_inj_right fun _ _ => UInt8.toNat_inj.mp).mp h
    exact ByteArray.ext (Array.toList_inj.mp hbytes)
  · rintro rfl
    rfl

theorem length_le_size {content : ByteArray} {text : String} (h : Encodes content text) :
    text.length ≤ content.size := by
  have hlength : text.toList.length ≤ (values content).length := by
    rw [h]
    exact length_le_length_encode text.toList
  rw [values, List.length_map, String.length_toList] at hlength
  exact hlength

theorem fromUTF8?_eq_some_iff {content : ByteArray} {text : String} :
    String.fromUTF8? content = some text ↔ Encodes content text := by
  rw [encodes_iff, String.fromUTF8?]
  by_cases hvalid : content.IsValidUTF8
  · rw [dif_pos hvalid, Option.some.injEq, ← String.toByteArray_inj]
    rfl
  · rw [dif_neg hvalid]
    constructor
    · intro h
      cases h
    · rintro rfl
      exact absurd text.isValidUTF8 hvalid

end Utf8

open Utf8

namespace Source

theorem chars_bytes_of_encodes {content : ByteArray} {text : String}
    (hsize : content.size ≤ sizeLimit) (h : Encodes content text) :
    (Source.bytes content).chars = (Source.text text).chars := by
  rw [chars, chars, if_pos hsize, if_pos (Nat.le_trans (length_le_size h) hsize),
    fromUTF8?_eq_some_iff.mpr h]

theorem chars_bytes_of_not_encodes {content : ByteArray} (hsize : content.size ≤ sizeLimit)
    (h : ∀ text, ¬ Encodes content text) :
    (Source.bytes content).chars = .error .undecodable := by
  have hnone : String.fromUTF8? content = none := by
    apply Option.eq_none_iff_forall_not_mem.mpr
    intro text htext
    exact h text (fromUTF8?_eq_some_iff.mp htext)
  rw [chars, if_pos hsize, hnone]

/-- Bytes are read as the text that they encode, and rejected if they encode none.
They encode a text exactly if the recogniser accepts them, and then one text only. -/
theorem parse_bytes (frames : Nat) (content : ByteArray) (hsize : content.size ≤ sizeLimit) :
    (∀ text, Encodes content text →
      (Source.bytes content).parse frames = (Source.text text).parse frames) ∧
    ((∀ text, ¬ Encodes content text) →
      (Source.bytes content).parse frames = .error .undecodable) ∧
    ((∃ text, Encodes content text) ↔ wellFormed (values content) = true) ∧
    (∀ text text', Encodes content text → Encodes content text' → text = text') := by
  refine ⟨?_, ?_, ?_, ?_⟩
  · intro text h
    rw [parse, parse, chars_bytes_of_encodes hsize h]
  · intro h
    rw [parse, chars_bytes_of_not_encodes hsize h]
    rfl
  · rw [wellFormed_iff]
    constructor
    · rintro ⟨text, h⟩
      exact ⟨text.toList, h⟩
    · rintro ⟨text, h⟩
      exact ⟨String.ofList text, by rw [Encodes, String.toList_ofList, h]⟩
  · intro text text' h h'
    rw [encodes_iff] at h h'
    exact String.toByteArray_inj.mp (h.symm.trans h')

/-- Characters of every length, and then a surrogate in the same place. -/
theorem parse_bytes_surrogate :
    let content : ByteArray := ⟨#[0x23, 0xC2, 0x80, 0xE0, 0xA0, 0x80, 0xF0, 0x90, 0x80, 0x80]⟩
    let surrogate : ByteArray := ⟨#[0x23, 0xC2, 0x80, 0xED, 0xA0, 0x80, 0xF0, 0x90, 0x80, 0x80]⟩
    (Source.bytes content).parse nestingLimit = .ok [.comment "\u0080\u0800𐀀"] ∧
      (Source.bytes surrogate).parse nestingLimit = .error .undecodable := by
  intro content surrogate
  obtain ⟨hread, -⟩ := parse_bytes nestingLimit content (by decide)
  obtain ⟨-, hrejected, hencoded, -⟩ := parse_bytes nestingLimit surrogate (by decide)
  constructor
  · rw [hread "#\u0080\u0800𐀀" (by decide +kernel)]
    decide +kernel
  · apply hrejected
    intro text h
    have hwell := hencoded.mp ⟨text, h⟩
    revert hwell
    decide

end Source

end StatusShell
