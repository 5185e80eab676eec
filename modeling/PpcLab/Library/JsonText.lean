import PpcLab.Library.Json
import PpcLab.Library.Text
import PpcLab.Library.Word

/-!
# JSON texts

The text that `json.dumps` prints with the separators `,` and `:` and without
escaping what is not ASCII, and its encoding in UTF-8.  A text determines its
value, so a canonical text determines the value up to the order of members.
-/

namespace PpcLab

def doubleQuote : CodePoint := 0x22

def backslash : CodePoint := 0x5c

/-- The characters that have an escape of their own. -/
def shortEscapes : List (CodePoint × CodePoint) :=
  [(0x22, 0x22), (0x5c, 0x5c), (0x0a, 0x6e), (0x0d, 0x72), (0x09, 0x74),
    (0x0c, 0x66), (0x08, 0x62)]

def hexDigit (value : Nat) : CodePoint :=
  codePoint (Nat.digitChar value)

def escaped (character : CodePoint) : Str :=
  if 0x22 < character.val ∧ character ≠ backslash then [character]
  else
    match shortEscapes.lookup character with
    | some letter => [backslash, letter]
    | none =>
        if character.val < 0x20 then
          [backslash, 0x75, 0x30, 0x30, hexDigit (character.val / 16),
            hexDigit (character.val % 16)]
        else [character]

def quoted (text : Str) : Str :=
  doubleQuote :: (text.flatMap escaped ++ [doubleQuote])

/-- What an escape can be. -/
private inductive Escape (character : CodePoint) : Str → Prop where
  | short {letter : CodePoint} : (character, letter) ∈ shortEscapes →
      Escape character [backslash, letter]
  | control : character.val < 0x20 →
      Escape character [backslash, 0x75, 0x30, 0x30,
        hexDigit (character.val / 16), hexDigit (character.val % 16)]
  | plain : character ≠ backslash → character ≠ doubleQuote →
      Escape character [character]

private theorem escape_escaped (character : CodePoint) :
    Escape character (escaped character) := by
  unfold escaped
  split
  · rename_i plain
    refine .plain plain.2 ?_
    rintro rfl
    exact absurd plain.1 (by decide)
  · cases found : shortEscapes.lookup character with
    | some letter =>
        obtain ⟨before, after, table, _⟩ := List.lookup_eq_some_iff.mp found
        apply Escape.short
        rw [table]
        simp
    | none =>
        dsimp only
        split
        · rename_i small
          exact .control small
        · refine .plain ?_ ?_
          · rintro rfl
            cases found
          · rintro rfl
            cases found

private theorem hexDigit_injective {first second : Nat} (small : first < 16)
    (otherSmall : second < 16) (same : hexDigit first = hexDigit second) :
    first = second := by
  have all : ∀ first second : Fin 16,
      hexDigit first.val = hexDigit second.val → first = second := by
    decide
  exact congrArg Fin.val (all ⟨first, small⟩ ⟨second, otherSmall⟩ same)

/-- Escapes are told apart by their beginnings. -/
theorem escaped_append {first second : CodePoint} {rest otherRest : Str}
    (same : escaped first ++ rest = escaped second ++ otherRest) :
    first = second ∧ rest = otherRest := by
  have letters : ∀ one ∈ shortEscapes, ∀ other ∈ shortEscapes,
      one.2 = other.2 → one.1 = other.1 := by
    decide
  have notControl : ∀ one ∈ shortEscapes, one.2 ≠ 0x75 := by
    decide
  generalize firstText : escaped first = left at same
  generalize secondText : escaped second = right at same
  have firstEscape := escape_escaped first
  have secondEscape := escape_escaped second
  rw [firstText] at firstEscape
  rw [secondText] at secondEscape
  cases firstEscape with
  | @short letter member =>
      cases secondEscape with
      | @short other otherMember =>
          simp only [List.cons_append, List.nil_append, List.cons.injEq,
            true_and] at same
          exact ⟨letters _ member _ otherMember same.1, same.2⟩
      | control =>
          simp only [List.cons_append, List.nil_append, List.cons.injEq,
            true_and] at same
          exact absurd same.1 (notControl _ member)
      | plain notEscape =>
          simp only [List.cons_append, List.nil_append, List.cons.injEq] at same
          exact absurd same.1.symm notEscape
  | control small =>
      cases secondEscape with
      | short member =>
          simp only [List.cons_append, List.nil_append, List.cons.injEq,
            true_and] at same
          exact absurd same.1.symm (notControl _ member)
      | control otherSmall =>
          simp only [List.cons_append, List.nil_append, List.cons.injEq,
            true_and] at same
          have high := hexDigit_injective (by omega) (by omega) same.1
          have low := hexDigit_injective (by omega) (by omega) same.2.1
          exact ⟨Fin.ext (by omega), same.2.2⟩
      | plain notEscape =>
          simp only [List.cons_append, List.nil_append, List.cons.injEq] at same
          exact absurd same.1.symm notEscape
  | plain notEscape =>
      cases secondEscape with
      | short | control =>
          simp only [List.cons_append, List.nil_append, List.cons.injEq] at same
          exact absurd same.1 notEscape
      | plain =>
          simpa using same

private theorem escaped_head (character : CodePoint) :
    ∃ head tail, escaped character = head :: tail ∧ head ≠ doubleQuote := by
  have escape := escape_escaped character
  generalize escaped character = text at escape
  cases escape with
  | short | control => exact ⟨_, _, rfl, by decide⟩
  | plain _ notQuote => exact ⟨_, _, rfl, notQuote⟩

private theorem inside_append {first second rest otherRest : Str}
    (same : first.flatMap escaped ++ doubleQuote :: rest =
      second.flatMap escaped ++ doubleQuote :: otherRest) :
    first = second ∧ rest = otherRest := by
  induction first generalizing second with
  | nil =>
      cases second with
      | nil => simpa using same
      | cons character second =>
          obtain ⟨head, tail, text, notQuote⟩ := escaped_head character
          simp only [List.flatMap_nil, List.nil_append, List.flatMap_cons,
            text, List.cons_append, List.cons.injEq] at same
          exact absurd same.1.symm notQuote
  | cons character first induction =>
      cases second with
      | nil =>
          obtain ⟨head, tail, text, notQuote⟩ := escaped_head character
          simp only [List.flatMap_nil, List.nil_append, List.flatMap_cons,
            text, List.cons_append, List.cons.injEq] at same
          exact absurd same.1 notQuote
      | cons other second =>
          rw [List.flatMap_cons, List.flatMap_cons, List.append_assoc,
            List.append_assoc] at same
          obtain ⟨rfl, tails⟩ := escaped_append same
          obtain ⟨rfl, rests⟩ := induction tails
          exact ⟨rfl, rests⟩

/-- A quoted text ends where its quote is closed. -/
theorem quoted_append {first second rest otherRest : Str}
    (same : quoted first ++ rest = quoted second ++ otherRest) :
    first = second ∧ rest = otherRest := by
  simp only [quoted, List.cons_append, List.append_assoc, List.nil_append,
    List.cons.injEq, true_and] at same
  exact inside_append same

namespace Json

mutual

def text : Json → Str
  | .null => str "null"
  | .bool true => str "true"
  | .bool false => str "false"
  | .int value => str (Text.signedDecimal value)
  | .float literal => literal.text
  | .string value => quoted value
  | .array items => 0x5b :: itemsText items
  | .object fields => 0x7b :: fieldsText fields

def itemsText : List Json → Str
  | [] => [0x5d]
  | item :: items => text item ++ moreItems items

def moreItems : List Json → Str
  | [] => [0x5d]
  | item :: items => 0x2c :: (text item ++ moreItems items)

def fieldsText : Fields → Str
  | [] => [0x7d]
  | (key, value) :: fields =>
      quoted key ++ 0x3a :: (text value ++ moreFields fields)

def moreFields : Fields → Str
  | [] => [0x7d]
  | (key, value) :: fields =>
      0x2c :: (quoted key ++ 0x3a :: (text value ++ moreFields fields))

end

/-- The characters of numbers and of `null`, `true` and `false`. -/
def isTokenCharacter (character : CodePoint) : Bool :=
  character ∈ str "+-.0123456789INaefilnrstuy"

/-- Nothing that would go on with a number follows. -/
def Delimited (rest : Str) : Prop :=
  ∀ character ∈ rest.head?, isTokenCharacter character = false

def isScalar : Json → Bool
  | .null | .bool _ | .int _ | .float _ => true
  | .string _ | .array _ | .object _ => false

private theorem mem_signedDecimal {value : Int} {character : CodePoint}
    (member : character ∈ str (Text.signedDecimal value)) :
    character ∈ str "-0123456789" := by
  obtain ⟨digit, inText, rfl⟩ := List.mem_map.mp (str_eq _ ▸ member)
  have ofDigit (number : Nat) (inDigits : digit ∈ Nat.toDigits 10 number) :
      codePoint digit ∈ str "-0123456789" := by
    have isDigit := Nat.isDigit_of_mem_toDigits (by omega) (by omega) inDigits
    have all : ∀ value : Fin 10,
        codePoint (Char.ofNat (48 + value.val)) ∈ str "-0123456789" := by
      decide
    simp only [Char.isDigit, Bool.and_eq_true, decide_eq_true_eq,
      UInt32.le_iff_toNat_le] at isDigit
    have bounds : 48 ≤ digit.toNat ∧ digit.toNat ≤ 57 := isDigit
    have here := all ⟨digit.toNat - 48, by omega⟩
    have same : 48 + (digit.toNat - 48) = digit.toNat := by
      omega
    rw [same, Char.ofNat_toNat] at here
    exact here
  rw [Text.signedDecimal, Int.toString_eq_repr, Int.repr_eq_if] at inText
  split at inText
  · rw [Nat.toList_repr] at inText
    exact ofDigit _ inText
  · rw [String.toList_append, Nat.toList_repr, List.mem_append] at inText
    rcases inText with sign | inDigits
    · rw [show digit = '-' by simpa using sign]
      decide
    · exact ofDigit _ inDigits

/-- What scalars print. -/
theorem isToken_of_mem_text {value : Json} (scalar : value.isScalar)
    {character : CodePoint} (member : character ∈ value.text) :
    isTokenCharacter character := by
  have numbers : ∀ character ∈ str "-0123456789",
      isTokenCharacter character := by
    decide
  have floats : ∀ character ∈ str "+-.0123456789INaefinty",
      isTokenCharacter character := by
    decide
  cases value with
  | null =>
      revert character
      decide
  | bool value =>
      cases value
      all_goals
        revert character
        decide
  | int value => exact numbers character (mem_signedDecimal member)
  | float literal =>
      have isFloat := literal.isFloat
      rw [isFloatText, Bool.and_eq_true, List.all_eq_true] at isFloat
      exact floats character (of_decide_eq_true (isFloat.1 character member))
  | string | array | object => cases scalar

theorem text_ne_nil (value : Json) : value.text ≠ [] := by
  cases value with
  | null => decide
  | bool value => cases value <;> decide
  | int value =>
      intro empty
      have none := List.map_eq_nil_iff.mp ((str_eq _).symm.trans empty)
      rw [Text.signedDecimal, Int.toString_eq_repr, Int.repr_eq_if] at none
      split at none
      · rw [Nat.toList_repr] at none
        exact Nat.toDigits_ne_nil none
      · simp [String.toList_append] at none
  | float literal =>
      intro empty
      have isFloat := literal.isFloat
      have empty : literal.text = [] := empty
      rw [empty] at isFloat
      revert isFloat
      decide
  | string value => exact List.cons_ne_nil _ _
  | array items => exact List.cons_ne_nil _ _
  | object fields => exact List.cons_ne_nil _ _

theorem codePoint_injective : Function.Injective codePoint := by
  intro first second same
  exact Char.toNat_inj.mp (Fin.mk.inj same)

theorem str_injective : Function.Injective str := by
  intro first second same
  rw [str_eq, str_eq] at same
  exact String.toList_inj.mp
    (List.map_injective_iff.mpr codePoint_injective same)

/-- The literal of a float is no other token. -/
private theorem float_ne_int {literal : FloatLiteral} {value : Int} :
    literal.text ≠ str (Text.signedDecimal value) := by
  intro same
  have isFloat := literal.isFloat
  rw [isFloatText, Bool.and_eq_true, List.any_eq_true] at isFloat
  obtain ⟨character, member, mark⟩ := isFloat.2
  rw [same] at member
  have digits : ∀ character ∈ str "-0123456789", character ∉ str ".eNI" := by
    decide
  exact digits character (mem_signedDecimal member) (of_decide_eq_true mark)

private theorem float_ne {literal : FloatLiteral} {text : Str}
    (noFloat : isFloatText text = false) : literal.text ≠ text := by
  intro same
  have isFloat := literal.isFloat
  rw [same, noFloat] at isFloat
  cases isFloat

private theorem int_ne {value : Int} {text : Str}
    (noInt : ∃ character ∈ text, character ∉ str "-0123456789") :
    str (Text.signedDecimal value) ≠ text := by
  intro same
  obtain ⟨character, member, noDigit⟩ := noInt
  rw [← same] at member
  exact noDigit (mem_signedDecimal member)

private theorem scalar_injective {first second : Json}
    (scalar : first.isScalar) (otherScalar : second.isScalar)
    (same : first.text = second.text) : first = second := by
  cases first with
  | string | array | object => cases scalar
  | null =>
      cases second with
      | string | array | object => cases otherScalar
      | null => rfl
      | bool value =>
          cases value
          all_goals
            revert same
            decide
      | int value => exact absurd same.symm (int_ne (by decide))
      | float literal => exact absurd same.symm (float_ne (by decide))
  | bool value =>
      cases second with
      | string | array | object => cases otherScalar
      | null =>
          cases value
          all_goals
            revert same
            decide
      | bool other =>
          cases value <;> cases other
          all_goals
            revert same
            decide
      | int other =>
          cases value
          all_goals exact absurd same.symm (int_ne (by decide))
      | float literal =>
          cases value
          all_goals exact absurd same.symm (float_ne (by decide))
  | int value =>
      cases second with
      | string | array | object => cases otherScalar
      | null => exact absurd same (int_ne (by decide))
      | bool other =>
          cases other
          all_goals exact absurd same (int_ne (by decide))
      | int other =>
          exact congrArg Json.int
            (Text.signedDecimal_injective (str_injective same))
      | float literal => exact absurd same.symm float_ne_int
  | float literal =>
      cases second with
      | string | array | object => cases otherScalar
      | null => exact absurd same (float_ne (by decide))
      | bool other =>
          cases other
          all_goals exact absurd same (float_ne (by decide))
      | int other => exact absurd same float_ne_int
      | float other =>
          cases literal
          cases other
          cases same
          rfl

private theorem takeWhile_token {text rest : Str}
    (tokens : ∀ character ∈ text, isTokenCharacter character)
    (delimited : Delimited rest) :
    (text ++ rest).takeWhile isTokenCharacter = text ∧
      (text ++ rest).dropWhile isTokenCharacter = rest := by
  have nothing : rest.takeWhile isTokenCharacter = [] ∧
      rest.dropWhile isTokenCharacter = rest := by
    cases rest with
    | nil => exact ⟨rfl, rfl⟩
    | cons head tail =>
        have no := delimited head rfl
        simp [no]
  rw [List.takeWhile_append_of_pos tokens, List.dropWhile_append_of_pos tokens,
    nothing.1, nothing.2, List.append_nil]
  exact ⟨rfl, rfl⟩

/-- What does not begin like a scalar is none. -/
private theorem head_of_composite {value : Json}
    (composite : value.isScalar = false) :
    ∃ head tail, value.text = head :: tail ∧
      isTokenCharacter head = false := by
  cases value with
  | null | bool | int | float => cases composite
  | string value => exact ⟨_, _, rfl, by decide⟩
  | array items => exact ⟨_, _, rfl, by decide⟩
  | object fields => exact ⟨_, _, rfl, by decide⟩

private theorem scalar_of_append {first second : Json} {rest otherRest : Str}
    (scalar : first.isScalar)
    (same : first.text ++ rest = second.text ++ otherRest) :
    second.isScalar := by
  cases composite : second.isScalar with
  | true => rfl
  | false =>
      obtain ⟨head, tail, text, noToken⟩ := head_of_composite composite
      cases firstText : first.text with
      | nil => exact absurd firstText (text_ne_nil first)
      | cons character characters =>
          have token := isToken_of_mem_text scalar
            (firstText ▸ List.mem_cons_self)
          rw [firstText, text, List.cons_append, List.cons_append] at same
          rw [(List.cons.inj same).1, noToken] at token
          cases token

theorem delimited_cons {head : CodePoint} {tail : Str}
    (noToken : isTokenCharacter head = false) : Delimited (head :: tail) := by
  rintro character ⟨⟩
  exact noToken

private theorem delimited_moreItems (items : List Json) (rest : Str) :
    Delimited (moreItems items ++ rest) := by
  cases items <;> exact delimited_cons (by decide)

private theorem delimited_moreFields (fields : Fields) (rest : Str) :
    Delimited (moreFields fields ++ rest) := by
  cases fields <;> exact delimited_cons (by decide)

private theorem text_ne_close (value : Json) {rest tail : Str} :
    value.text ++ rest ≠ 0x5d :: tail := by
  intro same
  cases valueText : value.text with
  | nil => exact text_ne_nil value valueText
  | cons head characters =>
      rw [valueText, List.cons_append] at same
      have close : head = 0x5d := (List.cons.inj same).1
      cases scalar : value.isScalar with
      | true =>
          have token := isToken_of_mem_text scalar
            (valueText ▸ List.mem_cons_self)
          rw [close] at token
          revert token
          decide
      | false =>
          cases value with
          | null | bool | int | float => cases scalar
          | string value =>
              rw [close] at valueText
              cases valueText
          | array items =>
              rw [close] at valueText
              cases valueText
          | object fields =>
              rw [close] at valueText
              cases valueText

mutual

/-- A text ends where its value is complete. -/
theorem text_append {first second : Json} {rest otherRest : Str}
    (delimited : Delimited rest) (otherDelimited : Delimited otherRest)
    (same : first.text ++ rest = second.text ++ otherRest) :
    first = second ∧ rest = otherRest := by
  cases scalar : first.isScalar with
  | true =>
      have otherScalar := scalar_of_append scalar same
      have parts := takeWhile_token
        (fun _ member => isToken_of_mem_text scalar member) delimited
      have otherParts := takeWhile_token
        (fun _ member => isToken_of_mem_text otherScalar member) otherDelimited
      rw [same, otherParts.1, otherParts.2] at parts
      exact ⟨scalar_injective scalar otherScalar parts.1.symm, parts.2.symm⟩
  | false =>
      have otherScalar : second.isScalar = false := by
        by_contra isScalar
        have back := scalar_of_append (Bool.of_not_eq_false isScalar) same.symm
        rw [scalar] at back
        cases back
      match first, second with
      | .string value, .string other =>
          obtain ⟨rfl, rests⟩ := quoted_append same
          exact ⟨rfl, rests⟩
      | .array items, .array others =>
          obtain ⟨rfl, rests⟩ := itemsText_append (List.cons.inj same).2
          exact ⟨rfl, rests⟩
      | .object fields, .object others =>
          obtain ⟨rfl, rests⟩ := fieldsText_append (List.cons.inj same).2
          exact ⟨rfl, rests⟩
      | .string _, .array _ | .string _, .object _ | .array _, .string _
      | .array _, .object _ | .object _, .string _ | .object _, .array _ =>
          cases (List.cons.inj same).1

theorem itemsText_append {first second : List Json} {rest otherRest : Str}
    (same : itemsText first ++ rest = itemsText second ++ otherRest) :
    first = second ∧ rest = otherRest := by
  match first, second with
  | [], [] => exact ⟨rfl, (List.cons.inj same).2⟩
  | [], item :: items =>
      rw [itemsText, itemsText, List.append_assoc] at same
      exact absurd same.symm (text_ne_close item)
  | item :: items, [] =>
      rw [itemsText, itemsText, List.append_assoc] at same
      exact absurd same (text_ne_close item)
  | item :: items, other :: others =>
      rw [itemsText, itemsText, List.append_assoc, List.append_assoc] at same
      obtain ⟨rfl, more⟩ := text_append (delimited_moreItems items rest)
        (delimited_moreItems others otherRest) same
      obtain ⟨rfl, rests⟩ := moreItems_append more
      exact ⟨rfl, rests⟩

theorem moreItems_append {first second : List Json} {rest otherRest : Str}
    (same : moreItems first ++ rest = moreItems second ++ otherRest) :
    first = second ∧ rest = otherRest := by
  match first, second with
  | [], [] => exact ⟨rfl, (List.cons.inj same).2⟩
  | [], _ :: _ | _ :: _, [] => cases (List.cons.inj same).1
  | item :: items, other :: others =>
      rw [moreItems, moreItems, List.cons_append, List.cons_append,
        List.append_assoc, List.append_assoc] at same
      obtain ⟨rfl, more⟩ := text_append (delimited_moreItems items rest)
        (delimited_moreItems others otherRest) (List.cons.inj same).2
      obtain ⟨rfl, rests⟩ := moreItems_append more
      exact ⟨rfl, rests⟩

theorem fieldsText_append {first second : Fields} {rest otherRest : Str}
    (same : fieldsText first ++ rest = fieldsText second ++ otherRest) :
    first = second ∧ rest = otherRest := by
  match first, second with
  | [], [] => exact ⟨rfl, (List.cons.inj same).2⟩
  | [], (_, _) :: _ | (_, _) :: _, [] => cases (List.cons.inj same).1
  | (key, value) :: fields, (otherKey, other) :: others =>
      rw [fieldsText, fieldsText, List.append_assoc, List.append_assoc,
        List.cons_append, List.cons_append, List.append_assoc,
        List.append_assoc] at same
      obtain ⟨rfl, values⟩ := quoted_append same
      obtain ⟨rfl, more⟩ := text_append (delimited_moreFields fields rest)
        (delimited_moreFields others otherRest) (List.cons.inj values).2
      obtain ⟨rfl, rests⟩ := moreFields_append more
      exact ⟨rfl, rests⟩

theorem moreFields_append {first second : Fields} {rest otherRest : Str}
    (same : moreFields first ++ rest = moreFields second ++ otherRest) :
    first = second ∧ rest = otherRest := by
  match first, second with
  | [], [] => exact ⟨rfl, (List.cons.inj same).2⟩
  | [], (_, _) :: _ | (_, _) :: _, [] => cases (List.cons.inj same).1
  | (key, value) :: fields, (otherKey, other) :: others =>
      rw [moreFields, moreFields, List.cons_append, List.cons_append,
        List.append_assoc, List.append_assoc, List.cons_append,
        List.cons_append, List.append_assoc, List.append_assoc] at same
      obtain ⟨rfl, values⟩ := quoted_append (List.cons.inj same).2
      obtain ⟨rfl, more⟩ := text_append (delimited_moreFields fields rest)
        (delimited_moreFields others otherRest) (List.cons.inj values).2
      obtain ⟨rfl, rests⟩ := moreFields_append more
      exact ⟨rfl, rests⟩

end

theorem text_injective : Function.Injective text := by
  intro first second same
  have appended : first.text ++ [] = second.text ++ [] := by
    rw [same]
  have noToken : Delimited [] := nofun
  exact (text_append noToken noToken appended).1

end Json

end PpcLab
