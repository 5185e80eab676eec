import PpcLab.Library.Utf8

/-!
# Reading UTF-8

The strict decoder.  A sequence of bytes is read as a text exactly when it is
the encoding of the text.  A byte in ASCII stands for a character wherever it
occurs, so an encoded text can be taken apart at it.
-/

namespace PpcLab

/-- A character of a given length at the beginning of the bytes. -/
def characterAt (bytes : List Byte) (length : Nat) :
    Option (CodePoint × List Byte) :=
  let character := characterOf (bytes.take length)
  if utf8Character character = some (bytes.take length) then
    some (character, bytes.drop length)
  else none

def firstCharacter (bytes : List Byte) : Option (CodePoint × List Byte) :=
  [1, 2, 3, 4].findSome? (characterAt bytes)

def decodeFrom : (fuel : Nat) → List Byte → Option Str
  | _, [] => some []
  | 0, _ :: _ => none
  | fuel + 1, byte :: bytes => do
      let (character, rest) ← firstCharacter (byte :: bytes)
      let text ← decodeFrom fuel rest
      return character :: text

/-- `decode("utf-8")` -/
def decodeUtf8 (bytes : List Byte) : Option Str :=
  decodeFrom bytes.length bytes

private theorem firstCharacter_eq_some {bytes rest : List Byte}
    {character : CodePoint}
    (found : firstCharacter bytes = some (character, rest)) :
    ∃ encoded, utf8Character character = some encoded ∧
      encoded ++ rest = bytes := by
  obtain ⟨length, _, here⟩ := List.exists_of_findSome?_eq_some found
  unfold characterAt at here
  dsimp only at here
  split at here
  · rename_i encoded
    cases here
    exact ⟨_, encoded, List.take_append_drop length bytes⟩
  · cases here

private theorem firstCharacter_append {character : CodePoint}
    {encoded : List Byte} (encodes : utf8Character character = some encoded)
    (rest : List Byte) :
    firstCharacter (encoded ++ rest) = some (character, rest) := by
  obtain ⟨bits, length⟩ := characterOf_utf8Character encodes
  have there : characterAt (encoded ++ rest) encoded.length =
      some (character, rest) := by
    rw [characterAt, List.take_left, List.drop_left, bits, if_pos encodes]
  have some : (firstCharacter (encoded ++ rest)).isSome := by
    rw [firstCharacter, List.isSome_findSome?]
    exact List.any_eq_true.mpr ⟨_, length, by rw [there]; rfl⟩
  obtain ⟨⟨other, otherRest⟩, found⟩ := Option.isSome_iff_exists.mp some
  obtain ⟨bytes, otherEncodes, whole⟩ := firstCharacter_eq_some found
  obtain ⟨rfl, rfl⟩ := utf8Character_append otherEncodes encodes whole
  exact found

private theorem utf8_of_decodeFrom {fuel : Nat} {bytes : List Byte} {text : Str}
    (read : decodeFrom fuel bytes = some text) : utf8 text = some bytes := by
  induction fuel generalizing bytes text with
  | zero =>
      cases bytes with
      | nil =>
          cases read
          rfl
      | cons byte bytes => cases read
  | succ fuel induction =>
      cases bytes with
      | nil =>
          cases read
          rfl
      | cons byte bytes =>
          obtain ⟨⟨character, rest⟩, first, read⟩ :=
            Option.bind_eq_some_iff.mp read
          obtain ⟨tail, later, read⟩ := Option.bind_eq_some_iff.mp read
          cases read
          obtain ⟨encoded, encodes, whole⟩ := firstCharacter_eq_some first
          rw [utf8, encodes, induction later, ← whole]
          rfl

private theorem decodeFrom_of_utf8 {text : Str} {bytes : List Byte}
    (encodes : utf8 text = some bytes) {fuel : Nat}
    (enough : bytes.length ≤ fuel) : decodeFrom fuel bytes = some text := by
  induction text generalizing bytes fuel with
  | nil =>
      cases encodes
      cases fuel <;> rfl
  | cons character text induction =>
      obtain ⟨first, rest, here, later, rfl⟩ := utf8_cons encodes
      obtain ⟨byte, tail, rfl⟩ :=
        List.exists_cons_of_ne_nil (utf8Character_ne_nil here)
      rw [List.length_append, List.length_cons] at enough
      cases fuel with
      | zero => omega
      | succ fuel =>
          have found := firstCharacter_append here rest
          have room : rest.length ≤ fuel := by
            omega
          rw [List.cons_append] at found ⊢
          rw [decodeFrom, found, Option.bind_eq_bind, Option.bind_some]
          dsimp only
          rw [induction later room]
          rfl

/-- Bytes are read as the text that they encode. -/
theorem decodeUtf8_eq_some {bytes : List Byte} {text : Str} :
    decodeUtf8 bytes = some text ↔ utf8 text = some bytes := by
  constructor
  · exact utf8_of_decodeFrom
  · intro encodes
    exact decodeFrom_of_utf8 encodes (Nat.le_refl _)

/-- An encoded text is two encoded texts with a character between them wherever
the byte of the character stands. -/
theorem utf8_split {text : Str} {before rest : List Byte} {mark : Byte}
    (ascii : mark.toNat < 0x80)
    (encoded : utf8 text = some (before ++ mark :: rest)) :
    ∃ first second, text = first ++ CodePoint.ofNat mark.toNat :: second ∧
      utf8 first = some before ∧ utf8 second = some rest := by
  induction text generalizing before with
  | nil =>
      have nothing := Option.some.inj encoded
      simp at nothing
  | cons character text induction =>
      obtain ⟨head, tail, here, later, whole⟩ := utf8_cons encoded
      have further {inner : List Byte} (begins : before = head ++ inner)
          (goesOn : tail = inner ++ mark :: rest) :
          ∃ first second,
            character :: text = first ++ CodePoint.ofNat mark.toNat :: second ∧
              utf8 first = some before ∧ utf8 second = some rest := by
        obtain ⟨first, second, rfl, inFirst, inSecond⟩ :=
          induction (goesOn ▸ later)
        refine ⟨character :: first, second, rfl, ?_, inSecond⟩
        rw [utf8, here, inFirst, begins]
        rfl
      rcases List.append_eq_append_iff.mp whole with
        ⟨inner, begins, goesOn⟩ | ⟨inner, begins, goesOn⟩
      · exact further begins goesOn
      · cases inner with
        | nil =>
            rw [List.append_nil] at begins
            exact further (begins.symm.trans (List.append_nil head).symm)
              goesOn.symm
        | cons first inner =>
            obtain ⟨rfl, remains⟩ := List.cons.inj goesOn
            obtain ⟨single, value⟩ := utf8Character_of_ascii here
              (begins ▸ List.mem_append_right before List.mem_cons_self) ascii
            have alone : before = [] ∧ inner = [] := by
              have lengths := congrArg List.length (begins.symm.trans single)
              rw [List.length_append, List.length_cons,
                List.length_singleton] at lengths
              exact ⟨List.eq_nil_of_length_eq_zero (by omega),
                List.eq_nil_of_length_eq_zero (by omega)⟩
            obtain ⟨rfl, rfl⟩ := alone
            refine ⟨[], text, ?_, rfl, later.trans (congrArg some remains.symm)⟩
            have point : CodePoint.ofNat mark.toNat = character := by
              apply Fin.ext
              rw [← value, CodePoint.ofNat, Fin.val_ofNat]
              exact Nat.mod_eq_of_lt character.isLt
            rw [point]
            rfl

/-- A text in ASCII is encoded with a byte for each character. -/
theorem utf8_of_ascii {text : Str}
    (ascii : ∀ character ∈ text, character.val < 0x80) :
    utf8 text = some (text.map fun character =>
      BitVec.ofNat 8 character.val) := by
  induction text with
  | nil => rfl
  | cons character text induction =>
      have small := ascii character List.mem_cons_self
      have here : utf8Character character =
          some [BitVec.ofNat 8 character.val] := by
        unfold utf8Character
        exact if_pos small
      rw [utf8, here, induction fun other member =>
        ascii other (List.mem_cons_of_mem _ member)]
      rfl

/-- Bytes in ASCII at the beginning are characters at the beginning. -/
theorem utf8_start {start text : Str} {rest : List Byte}
    (ascii : ∀ character ∈ start, character.val < 0x80)
    (encoded : utf8 text = some ((start.map fun character =>
      BitVec.ofNat 8 character.val) ++ rest)) :
    ∃ more, text = start ++ more ∧ utf8 more = some rest := by
  induction start generalizing text with
  | nil => exact ⟨text, rfl, encoded⟩
  | cons character start induction =>
      have small := ascii character List.mem_cons_self
      have value : (BitVec.ofNat 8 character.val).toNat = character.val := by
        rw [BitVec.toNat_ofNat]
        omega
      have point : CodePoint.ofNat character.val = character := by
        apply Fin.ext
        rw [CodePoint.ofNat, Fin.val_ofNat]
        exact Nat.mod_eq_of_lt character.isLt
      rw [List.map_cons, List.cons_append] at encoded
      obtain ⟨first, second, rfl, inFirst, inSecond⟩ :=
        @utf8_split text [] _ _ (by rw [value]; exact small) encoded
      have nothing : first = [] := utf8_injective inFirst rfl
      subst nothing
      obtain ⟨more, rfl, inMore⟩ := induction
        (fun other member => ascii other (List.mem_cons_of_mem _ member))
        inSecond
      refine ⟨more, ?_, inMore⟩
      rw [value, point]
      rfl

end PpcLab
