import PpcLab.Library.JsonRoundTrip

/-!
# Names in JSON documents

The command line tool writes names from binaries into its documents as strings
between quotes.  Quotes, backslashes and control characters are escaped; every
other byte is written as it is.  The string is JSON in UTF-8 exactly when the
name is UTF-8.
-/

namespace PpcLab.Tool

open Json

def hexByte (digit : Nat) : Byte :=
  BitVec.ofNat 8 (Nat.digitChar digit).toNat

/-- `std::hex << std::setw(4) << std::setfill('0')` -/
def hex4 (value : Nat) : List Byte :=
  [hexByte (value / 0x1000), hexByte (value / 0x100 % 0x10),
    hexByte (value / 0x10 % 0x10), hexByte (value % 0x10)]

def escapeByte (c : Byte) : List Byte :=
  if c = 0x5c then [0x5c, 0x5c]
  else if c = 0x22 then [0x5c, 0x22]
  else if c = 0x0a then [0x5c, 0x6e]
  else if c = 0x0d then [0x5c, 0x72]
  else if c = 0x09 then [0x5c, 0x74]
  else if c.toNat < 0x20 then 0x5c :: 0x75 :: hex4 c.toNat
  else [c]

def jsonEscape (text : List Byte) : List Byte :=
  text.flatMap escapeByte

/-- A name as the documents hold it. -/
def quotedName (name : List Byte) : List Byte :=
  0x22 :: (jsonEscape name ++ [0x22])

/-- The bytes are a JSON string in UTF-8, with what it stands for. -/
def IsLiteral (bytes : List Byte) (value : Str) : Prop :=
  ∃ body, decodeUtf8 bytes = some (doubleQuote :: body) ∧
    readString body = some (value, [])

/-- The character with the number of the byte. -/
def wide (byte : Byte) : CodePoint :=
  CodePoint.ofNat byte.toNat

private theorem val_wide (byte : Byte) : (wide byte).val = byte.toNat := by
  have bound := byte.isLt
  rw [wide, CodePoint.ofNat, Fin.val_ofNat]
  exact Nat.mod_eq_of_lt (by omega)

private theorem wide_injective : Function.Injective wide := by
  intro first second same
  apply BitVec.eq_of_toNat_eq
  rw [← val_wide, ← val_wide, same]

/-- The escape as one of characters. -/
private def escapedCharacter (character : CodePoint) : Str :=
  if character = backslash then [backslash, backslash]
  else if character = doubleQuote then [backslash, doubleQuote]
  else if character = 0x0a then [backslash, 0x6e]
  else if character = 0x0d then [backslash, 0x72]
  else if character = 0x09 then [backslash, 0x74]
  else if character.val < 0x20 then escapedUnit character
  else [character]

private theorem readUnits_escapedCharacter (character : CodePoint)
    (text : Str) :
    readUnits (escapedCharacter character ++ text) =
      (readUnits text).map fun (units, rest) => (character :: units, rest) := by
  unfold escapedCharacter
  by_cases isBackslash : character = backslash
  · rw [if_pos isBackslash, isBackslash]
    exact readUnits_short text (by decide)
  rw [if_neg isBackslash]
  by_cases isQuote : character = doubleQuote
  · rw [if_pos isQuote, isQuote]
    exact readUnits_short text (by decide)
  rw [if_neg isQuote]
  by_cases isLineFeed : character = 0x0a
  · rw [if_pos isLineFeed, isLineFeed]
    exact readUnits_short text (by decide)
  rw [if_neg isLineFeed]
  by_cases isReturn : character = 0x0d
  · rw [if_pos isReturn, isReturn]
    exact readUnits_short text (by decide)
  rw [if_neg isReturn]
  by_cases isTab : character = 0x09
  · rw [if_pos isTab, isTab]
    exact readUnits_short text (by decide)
  rw [if_neg isTab]
  by_cases isControl : character.val < 0x20
  · rw [if_pos isControl]
    exact readUnits_escapedUnit (by omega) text
  · rw [if_neg isControl]
    exact readUnits_plain text (by omega) isQuote isBackslash

private theorem readUnits_escapedText (text : Str) :
    readUnits (text.flatMap escapedCharacter ++ [doubleQuote]) =
      some (text, []) := by
  induction text with
  | nil => rfl
  | cons character text induction =>
      rw [List.flatMap_cons, List.append_assoc, readUnits_escapedCharacter,
        induction]
      rfl

private theorem escapeByte_wide (byte : Byte) :
    (escapeByte byte).map wide = escapedCharacter (wide byte) := by
  revert byte
  decide

private theorem jsonEscape_wide (name : List Byte) :
    (jsonEscape name).map wide =
      (name.map wide).flatMap escapedCharacter := by
  induction name with
  | nil => rfl
  | cons byte name induction =>
      rw [jsonEscape, List.flatMap_cons, List.map_append, escapeByte_wide,
        List.map_cons, List.flatMap_cons, ← induction]
      rfl

/-- Different names have different escapes. -/
theorem jsonEscape_injective : Function.Injective jsonEscape := by
  intro first second same
  have read := readUnits_escapedText (first.map wide)
  rw [← jsonEscape_wide, same, jsonEscape_wide, readUnits_escapedText] at read
  have wides := (Prod.mk.inj (Option.some.inj read)).1
  exact (List.map_injective_iff.mpr wide_injective wides).symm

private theorem hexByte_ascii {digit : Nat} (small : digit < 0x10) :
    (hexByte digit).toNat < 0x80 := by
  have all : ∀ digit : Fin 0x10, (hexByte digit.val).toNat < 0x80 := by
    decide
  exact all ⟨digit, small⟩

private theorem escapeByte_ascii {byte : Byte} (ascii : byte.toNat < 0x80) :
    ∀ part ∈ escapeByte byte, part.toNat < 0x80 := by
  unfold escapeByte
  split_ifs
  · decide
  · decide
  · decide
  · decide
  · decide
  · intro part member
    simp only [hex4, List.mem_cons, List.not_mem_nil, or_false] at member
    rcases member with rfl | rfl | rfl | rfl | rfl | rfl
    · decide
    · decide
    · exact hexByte_ascii (by omega)
    · exact hexByte_ascii (by omega)
    · exact hexByte_ascii (by omega)
    · exact hexByte_ascii (by omega)
  · intro part member
    rw [List.mem_singleton.mp member]
    exact ascii

private theorem escapeByte_ne_nil (byte : Byte) : escapeByte byte ≠ [] := by
  unfold escapeByte
  split_ifs <;> exact List.cons_ne_nil _ _

private theorem escapeByte_plain {byte : Byte} (notAscii : 0x80 ≤ byte.toNat) :
    escapeByte byte = [byte] := by
  revert byte
  decide

private theorem jsonEscape_plain {bytes : List Byte}
    (notAscii : ∀ byte ∈ bytes, 0x80 ≤ byte.toNat) :
    jsonEscape bytes = bytes := by
  induction bytes with
  | nil => rfl
  | cons byte bytes induction =>
      have rest := induction fun other member =>
        notAscii other (List.mem_cons_of_mem _ member)
      unfold jsonEscape at rest ⊢
      rw [List.flatMap_cons, rest,
        escapeByte_plain (notAscii byte List.mem_cons_self)]
      rfl

private theorem jsonEscape_append (first second : List Byte) :
    jsonEscape (first ++ second) = jsonEscape first ++ jsonEscape second :=
  List.flatMap_append

private theorem utf8Character_wide {byte : Byte} (ascii : byte.toNat < 0x80) :
    utf8Character (wide byte) = some [byte] := by
  revert byte
  decide

private theorem utf8_wide {bytes : List Byte}
    (ascii : ∀ byte ∈ bytes, byte.toNat < 0x80) :
    utf8 (bytes.map wide) = some bytes := by
  induction bytes with
  | nil => rfl
  | cons byte bytes induction =>
      have rest := induction fun other member =>
        ascii other (List.mem_cons_of_mem _ member)
      rw [List.map_cons, utf8,
        utf8Character_wide (ascii byte List.mem_cons_self), rest]
      rfl

/-- Characters beyond ASCII take bytes beyond ASCII, and no others. -/
private theorem ascii_or_not {character : CodePoint} {bytes : List Byte}
    (encoded : utf8Character character = some bytes) :
    (∃ byte, byte.toNat < 0x80 ∧ bytes = [byte] ∧ character = wide byte) ∨
      0x80 ≤ character.val ∧ ∀ byte ∈ bytes, 0x80 ≤ byte.toNat := by
  by_cases ascii : ∃ part ∈ bytes, part.toNat < 0x80
  · obtain ⟨part, member, small⟩ := ascii
    obtain ⟨isPart, sameValue⟩ := utf8Character_of_ascii encoded member small
    refine .inl ⟨part, small, isPart, ?_⟩
    apply Fin.ext
    rw [sameValue]
    exact (val_wide part).symm
  · have notAscii : ∀ byte ∈ bytes, 0x80 ≤ byte.toNat := by
      intro byte member
      by_contra small
      exact ascii ⟨byte, member, by omega⟩
    refine .inr ⟨?_, notAscii⟩
    by_contra small
    have isWide : character = wide (BitVec.ofNat 8 character.val) := by
      apply Fin.ext
      refine Eq.trans ?_ (val_wide _).symm
      rw [BitVec.toNat_ofNat]
      omega
    have single := utf8Character_wide
      (show (BitVec.ofNat 8 character.val).toNat < 0x80 by
        rw [BitVec.toNat_ofNat]
        omega)
    rw [← isWide, encoded] at single
    apply ascii
    refine ⟨BitVec.ofNat 8 character.val, ?_, ?_⟩
    · rw [Option.some.inj single]
      exact List.mem_singleton_self _
    · rw [BitVec.toNat_ofNat]
      omega

private theorem escapedCharacter_plain {character : CodePoint}
    (notAscii : 0x80 ≤ character.val) :
    escapedCharacter character = [character] := by
  have apart {other : CodePoint} (small : other.val < 0x80) :
      character ≠ other := by
    intro same
    rw [same] at notAscii
    omega
  unfold escapedCharacter
  rw [if_neg (apart (by decide)), if_neg (apart (by decide)),
    if_neg (apart (by decide)), if_neg (apart (by decide)),
    if_neg (apart (by decide)), if_neg (by omega)]

/-- What is written for a character is what is written for its bytes. -/
private theorem utf8_escapedCharacter {character : CodePoint}
    {bytes : List Byte} (encoded : utf8Character character = some bytes) :
    utf8 (escapedCharacter character) = some (jsonEscape bytes) := by
  rcases ascii_or_not encoded with ⟨byte, ascii, isByte, isWide⟩ |
    ⟨large, notAscii⟩
  · rw [isByte, isWide, ← escapeByte_wide, jsonEscape, List.flatMap_singleton]
    exact utf8_wide (escapeByte_ascii ascii)
  · rw [escapedCharacter_plain large, jsonEscape_plain notAscii, utf8,
      encoded]
    exact congrArg some (List.append_nil bytes)

private theorem utf8_escapedText {text : Str} {name : List Byte}
    (encoded : utf8 text = some name) :
    utf8 (text.flatMap escapedCharacter) = some (jsonEscape name) := by
  induction text generalizing name with
  | nil =>
      cases encoded
      rfl
  | cons character text induction =>
      obtain ⟨first, rest, here, there, rfl⟩ := utf8_cons encoded
      rw [List.flatMap_cons, jsonEscape_append]
      exact utf8_append (utf8_escapedCharacter here) (induction there)

/-- A text that can be encoded has no surrogates to join. -/
private theorem paired_of_utf8 {text : Str} {bytes : List Byte}
    (encoded : utf8 text = some bytes) : paired text = text := by
  induction text generalizing bytes with
  | nil => rfl
  | cons character text induction =>
      obtain ⟨first, rest, here, there, _⟩ := utf8_cons encoded
      have notHigh : isHighSurrogate character = false := by
        by_contra isHigh
        rw [Bool.not_eq_false, isHighSurrogate, Bool.and_eq_true,
          decide_eq_true_eq, decide_eq_true_eq] at isHigh
        rw [utf8Character, if_neg (by omega), if_neg (by omega), if_pos (by omega)] at here
        cases here
      rw [paired_cons_of_not_high text notHigh, induction there]

/-- A name in UTF-8 is read back from the document. -/
theorem isLiteral_of_utf8 {name : List Byte} {text : Str}
    (isUtf8 : decodeUtf8 name = some text) :
    IsLiteral (quotedName name) text := by
  have encoded := decodeUtf8_eq_some.mp isUtf8
  refine ⟨text.flatMap escapedCharacter ++ [doubleQuote], ?_, ?_⟩
  · rw [decodeUtf8_eq_some]
    have body := utf8_append (utf8_escapedText encoded)
      (show utf8 [doubleQuote] = some [0x22] by decide)
    rw [utf8, body]
    rfl
  · rw [readString, readUnits_escapedText, Option.map_some]
    dsimp only
    rw [paired_of_utf8 encoded]

/-- What follows bytes in ASCII is encoded when the whole is. -/
private theorem utf8_after_ascii {bytes later : List Byte} {text : Str}
    (ascii : ∀ byte ∈ bytes, byte.toNat < 0x80)
    (encoded : utf8 text = some (bytes ++ later)) :
    ∃ rest, utf8 rest = some later := by
  induction bytes generalizing text with
  | nil => exact ⟨text, encoded⟩
  | cons byte bytes induction =>
      cases text with
      | nil => cases encoded
      | cons character text =>
          obtain ⟨first, rest, here, there, whole⟩ := utf8_cons encoded
          obtain ⟨head, tail, isCons⟩ :=
            List.exists_cons_of_ne_nil (utf8Character_ne_nil here)
          rw [isCons, List.cons_append, List.cons_append, List.cons.injEq]
            at whole
          obtain ⟨single, _⟩ := utf8Character_of_ascii here
            (show byte ∈ first by rw [isCons, whole.1]; exact List.mem_cons_self)
            (ascii byte List.mem_cons_self)
          rw [isCons, List.cons.injEq] at single
          rw [single.2, List.nil_append] at whole
          rw [whole.2] at there
          exact induction (fun other member =>
            ascii other (List.mem_cons_of_mem _ member)) there

/-- Bytes beyond ASCII at the beginning of an escaped name are bytes of the
name. -/
private theorem plain_beginning {first later name : List Byte}
    (notAscii : ∀ byte ∈ first, 0x80 ≤ byte.toNat)
    (whole : first ++ later = jsonEscape name ++ [0x22]) :
    ∃ rest, name = first ++ rest ∧ later = jsonEscape rest ++ [0x22] := by
  induction first generalizing name with
  | nil => exact ⟨name, rfl, whole⟩
  | cons byte first induction =>
      have large := notAscii byte List.mem_cons_self
      cases name with
      | nil =>
          rw [List.cons_append, jsonEscape, List.flatMap_nil, List.nil_append,
            List.cons.injEq] at whole
          rw [whole.1] at large
          exact absurd large (by decide)
      | cons head name =>
          rw [jsonEscape, List.flatMap_cons, List.append_assoc] at whole
          by_cases headAscii : head.toNat < 0x80
          · obtain ⟨part, parts, isCons⟩ :=
              List.exists_cons_of_ne_nil (escapeByte_ne_nil head)
            rw [isCons, List.cons_append, List.cons_append, List.cons.injEq]
              at whole
            have small := escapeByte_ascii headAscii part
              (by rw [isCons]; exact List.mem_cons_self)
            rw [← whole.1] at small
            omega
          · rw [escapeByte_plain (Nat.not_lt.mp headAscii), List.cons_append,
              List.cons_append, List.nil_append, List.cons.injEq] at whole
            obtain ⟨rest, isName, isLater⟩ := induction
              (fun other member => notAscii other
                (List.mem_cons_of_mem _ member)) whole.2
            exact ⟨rest, by rw [whole.1, isName]; rfl, isLater⟩

/-- An escaped name that is encoded is the escape of an encoded name. -/
private theorem exists_utf8_of_escaped {length : Nat} {name : List Byte}
    {text : Str} (short : name.length ≤ length)
    (encoded : utf8 text = some (jsonEscape name ++ [0x22])) :
    ∃ original, utf8 original = some name := by
  induction length generalizing name text with
  | zero =>
      rw [List.eq_nil_of_length_eq_zero (Nat.le_zero.mp short)]
      exact ⟨[], rfl⟩
  | succ length induction =>
    cases name with
    | nil => exact ⟨[], rfl⟩
    | cons head name =>
      rw [List.length_cons] at short
      by_cases ascii : head.toNat < 0x80
      · rw [jsonEscape, List.flatMap_cons, List.append_assoc] at encoded
        obtain ⟨rest, there⟩ := utf8_after_ascii (escapeByte_ascii ascii)
          encoded
        obtain ⟨original, isName⟩ := induction (Nat.le_of_succ_le_succ short)
          there
        refine ⟨wide head :: original, ?_⟩
        rw [utf8, utf8Character_wide ascii, isName]
        rfl
      · have headPlain := escapeByte_plain (Nat.not_lt.mp ascii)
        cases text with
        | nil =>
            rw [jsonEscape, List.flatMap_cons, headPlain] at encoded
            cases encoded
        | cons character text =>
            obtain ⟨first, rest, here, there, whole⟩ := utf8_cons encoded
            have notAscii : ∀ byte ∈ first, 0x80 ≤ byte.toNat := by
              rcases ascii_or_not here with ⟨byte, small, isByte, _⟩ |
                ⟨_, large⟩
              · rw [jsonEscape, List.flatMap_cons, headPlain, isByte,
                  List.append_assoc, List.cons_append, List.cons_append,
                  List.cons.injEq] at whole
                rw [whole.1] at small
                omega
              · exact large
            obtain ⟨later, isName, isRest⟩ := plain_beginning notAscii whole
            rw [isRest] at there
            have shorter : later.length ≤ length := by
              have nonempty := List.length_pos_of_ne_nil
                (utf8Character_ne_nil here)
              have lengths := congrArg List.length isName
              rw [List.length_append, List.length_cons] at lengths
              omega
            obtain ⟨original, isLater⟩ := induction shorter there
            refine ⟨character :: original, ?_⟩
            rw [utf8, here, isLater, isName]
            rfl

/-- The string in the document is JSON in UTF-8 exactly when the name is UTF-8,
and always tells the name from every other one. -/
theorem jsonEscape_wellFormed_iff (name : List Byte) :
    ((∃ value, IsLiteral (quotedName name) value) ∧
        ∀ other, jsonEscape other = jsonEscape name → other = name) ↔
      ∃ text, decodeUtf8 name = some text := by
  constructor
  · intro wellFormed
    obtain ⟨value, body, isText, _⟩ := wellFormed.1
    have encoded := decodeUtf8_eq_some.mp isText
    have quote : ∀ byte ∈ [(0x22 : Byte)], byte.toNat < 0x80 := by
      decide
    obtain ⟨rest, there⟩ := utf8_after_ascii quote
      (show utf8 _ = some ([0x22] ++ (jsonEscape name ++ [0x22]))
        from encoded)
    obtain ⟨original, isName⟩ := exists_utf8_of_escaped (Nat.le_refl _) there
    exact ⟨original, decodeUtf8_eq_some.mpr isName⟩
  · intro isUtf8
    obtain ⟨text, isUtf8⟩ := isUtf8
    exact ⟨⟨text, isLiteral_of_utf8 isUtf8⟩, fun other same =>
      jsonEscape_injective same⟩

/-- A bullet in the encoding of the Macintosh. -/
theorem bullet_isNotLiteral :
    ¬ ∃ value, IsLiteral (quotedName [0xa5]) value := by
  intro isLiteral
  obtain ⟨value, body, isText, _⟩ := isLiteral
  have undecodable : decodeUtf8 (quotedName [0xa5]) = none := by decide
  rw [undecodable] at isText
  cases isText

end PpcLab.Tool
