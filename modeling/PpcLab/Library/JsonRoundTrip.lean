import PpcLab.Library.JsonReader

/-!
# Reading JSON texts back

The text that `json.dumps` prints for a value is read as the value, whatever
follows it.  A value that was read is read back from its own text, so these
texts tell such values apart.
-/

namespace PpcLab.Json

variable (float : Str → FloatLiteral)

private theorem hexadecimalDigit_hexDigit {value : Nat} (small : value < 0x10) :
    hexadecimalDigit (hexDigit value) = some value := by
  have all : ∀ value : Fin 0x10,
      hexadecimalDigit (hexDigit value.val) = some value.val := by
    decide
  exact all ⟨value, small⟩

private theorem hexadecimal_escapedUnit {unit : CodePoint}
    (small : unit.val < 0x10000) :
    hexadecimal [hexDigit (unit.val / 0x1000),
      hexDigit (unit.val / 0x100 % 0x10), hexDigit (unit.val / 0x10 % 0x10),
      hexDigit (unit.val % 0x10)] = some unit.val := by
  have leading : unit.val / 0x1000 < 0x10 := by
    omega
  simp only [hexadecimal, List.foldlM_cons, List.foldlM_nil,
    hexadecimalDigit_hexDigit leading,
    hexadecimalDigit_hexDigit (Nat.mod_lt _ (by decide)), Option.map_some]
  refine congrArg some ?_
  omega

theorem readUnits_escapedUnit {unit : CodePoint}
    (small : unit.val < 0x10000) (text : Str) :
    readUnits (escapedUnit unit ++ text) =
      (readUnits text).map fun (units, rest) => (unit :: units, rest) := by
  have whole : CodePoint.ofNat unit.val = unit := by
    apply Fin.ext
    rw [CodePoint.ofNat, Fin.val_ofNat]
    exact Nat.mod_eq_of_lt unit.isLt
  rw [escapedUnit]
  simp only [List.cons_append, List.nil_append]
  rw [readUnits.eq_def]
  dsimp only
  rw [if_neg (by decide), if_pos rfl, if_pos rfl,
    hexadecimal_escapedUnit small, Option.bind_eq_bind,
    Option.bind_some, whole]
  cases readUnits text <;> rfl

theorem readUnits_plain {unit : CodePoint} (text : Str)
    (visible : 0x20 ≤ unit.val) (notQuote : unit ≠ doubleQuote)
    (notBackslash : unit ≠ backslash) :
    readUnits (unit :: text) =
      (readUnits text).map fun (units, rest) => (unit :: units, rest) := by
  rw [readUnits.eq_def]
  dsimp only
  rw [if_neg notQuote, if_neg notBackslash, if_neg (Nat.not_lt.mpr visible)]
  cases readUnits text <;> rfl

theorem readUnits_short {unit letter : CodePoint} (text : Str)
    (listed : (unit, letter) ∈ shortEscapes) :
    readUnits (backslash :: letter :: text) =
      (readUnits text).map fun (units, rest) => (unit :: units, rest) := by
  have all : ∀ escape ∈ shortEscapes, escape.2 ≠ 0x75 ∧
      shortForms.lookup escape.2 = some escape.1 := by
    decide
  obtain ⟨notHexadecimal, form⟩ := all _ listed
  rw [readUnits.eq_def]
  dsimp only
  rw [if_neg (by decide), if_pos rfl, if_neg notHexadecimal, form, Option.bind_eq_bind, Option.bind_some]
  cases readUnits text <;> rfl

/-- What is printed for a unit is read as the unit. -/
private theorem readUnits_stringUnit {unit : CodePoint}
    (small : unit.val < 0x10000) (text : Str) :
    readUnits (stringUnit unit ++ text) =
      (readUnits text).map fun (units, rest) => (unit :: units, rest) := by
  have single : asciiCharacter unit = if 0x20 ≤ unit.val ∧ unit.val < 0x7f then
      [unit] else escapedUnit unit := by
    rw [asciiCharacter, surrogates, if_pos small, List.flatMap_singleton]
  have alone (visible : 0x20 ≤ unit.val) (notQuote : unit ≠ doubleQuote)
      (notBackslash : unit ≠ backslash) :
      readUnits (inAscii [unit] ++ text) =
        (readUnits text).map fun (units, rest) => (unit :: units, rest) := by
    rw [inAscii, List.flatMap_singleton, single]
    split
    · exact readUnits_plain text visible notQuote notBackslash
    · exact readUnits_escapedUnit small text
  rw [stringUnit, escaped]
  split
  · rename_i plain
    refine alone (by omega) ?_ plain.2
    rintro rfl
    exact absurd plain.1 (by decide)
  · cases found : shortEscapes.lookup unit with
    | some letter =>
        obtain ⟨before, later, table, _⟩ := List.lookup_eq_some_iff.mp found
        have listed : (unit, letter) ∈ shortEscapes := by
          rw [table]
          simp
        have plain : ∀ escape ∈ shortEscapes,
            inAscii [backslash, escape.2] = [backslash, escape.2] := by
          decide
        have stays : inAscii [backslash, letter] = [backslash, letter] :=
          plain _ listed
        dsimp only
        rw [stays]
        exact readUnits_short text listed
    | none =>
        dsimp only
        split
        · rename_i control
          have all : ∀ value : Fin 0x20, inAscii [backslash, 0x75, 0x30, 0x30,
              hexDigit (value.val / 16), hexDigit (value.val % 16)] =
                escapedUnit (CodePoint.ofNat value.val) := by
            decide
          have whole : CodePoint.ofNat unit.val = unit := by
            apply Fin.ext
            rw [CodePoint.ofNat, Fin.val_ofNat]
            exact Nat.mod_eq_of_lt unit.isLt
          have here := all ⟨unit.val, control⟩
          rw [whole] at here
          rw [here]
          exact readUnits_escapedUnit small text
        · refine alone (by omega) ?_ ?_
          · rintro rfl
            cases found
          · rintro rfl
            cases found

private theorem val_lt_of_mem_surrogates {character unit : CodePoint}
    (member : unit ∈ surrogates character) : unit.val < 0x10000 := by
  have bound := character.isLt
  unfold surrogates at member
  split at member
  · rename_i small
    rw [List.mem_singleton.mp member]
    exact small
  · have value {value : Nat} (small : value < 0x10000) :
        (CodePoint.ofNat value).val < 0x10000 := by
      rw [CodePoint.ofNat, Fin.val_ofNat, Nat.mod_eq_of_lt (by omega)]
      exact small
    rcases List.mem_cons.mp member with rfl | last
    · exact value (by omega)
    · rw [List.mem_singleton.mp last]
      exact value (by omega)

private theorem readUnits_units {text : Str} (rest : Str)
    (small : ∀ unit ∈ text, unit.val < 0x10000) :
    readUnits (text.flatMap stringUnit ++ doubleQuote :: rest) =
      some (text, rest) := by
  induction text with
  | nil =>
      rw [List.flatMap_nil, List.nil_append, readUnits.eq_def]
      rfl
  | cons unit text induction =>
      rw [List.flatMap_cons, List.append_assoc,
        readUnits_stringUnit (small unit List.mem_cons_self),
        induction fun other member =>
          small other (List.mem_cons_of_mem _ member)]
      rfl

/-- A printed string is read as its pairing. -/
private theorem readString_quoted (text rest : Str) :
    readString ((units text).flatMap stringUnit ++ doubleQuote :: rest) =
      some (paired text, rest) := by
  have small : ∀ unit ∈ units text, unit.val < 0x10000 := by
    intro unit member
    obtain ⟨character, _, part⟩ := List.mem_flatMap.mp member
    exact val_lt_of_mem_surrogates part
  rw [readString, readUnits_units rest small, ← paired_units text]
  rfl

private theorem readUnits_escapedCharacter (character : CodePoint)
    (text : Str) :
    readUnits (escaped character ++ text) =
      (readUnits text).map fun (units, rest) => (character :: units, rest) := by
  rw [escaped]
  split
  · rename_i plain
    refine readUnits_plain text (by omega) ?_ plain.2
    rintro rfl
    exact absurd plain.1 (by decide)
  · cases found : shortEscapes.lookup character with
    | some letter =>
        obtain ⟨before, later, table, _⟩ := List.lookup_eq_some_iff.mp found
        have listed : (character, letter) ∈ shortEscapes := by
          rw [table]
          simp
        exact readUnits_short text listed
    | none =>
        dsimp only
        split
        · rename_i control
          have all : ∀ value : Fin 0x20, [backslash, 0x75, 0x30, 0x30,
              hexDigit (value.val / 16), hexDigit (value.val % 16)] =
                escapedUnit (CodePoint.ofNat value.val) := by
            decide
          have whole : CodePoint.ofNat character.val = character := by
            apply Fin.ext
            rw [CodePoint.ofNat, Fin.val_ofNat]
            exact Nat.mod_eq_of_lt character.isLt
          have here := all ⟨character.val, control⟩
          rw [whole] at here
          rw [here]
          exact readUnits_escapedUnit (by omega) text
        · refine readUnits_plain text (by omega) ?_ ?_
          · rintro rfl
            cases found
          · rintro rfl
            cases found

/-- What is escaped is read as it was. -/
private theorem readUnits_escaped (text rest : Str) :
    readUnits (text.flatMap escaped ++ doubleQuote :: rest) =
      some (text, rest) := by
  induction text with
  | nil =>
      rw [List.flatMap_nil, List.nil_append, readUnits.eq_def]
      rfl
  | cons character text induction =>
      rw [List.flatMap_cons, List.append_assoc, readUnits_escapedCharacter,
        induction]
      rfl

/-- Nothing that would go on with a number follows. -/
def Ends (rest : Str) : Prop :=
  ∀ character ∈ rest.head?, isDigit character = false ∧
    character ≠ 0x2e ∧ character ≠ 0x65 ∧ character ≠ 0x45

theorem takeWhile_digits {digits rest : Str}
    (all : ∀ digit ∈ digits, isDigit digit) (ends : Ends rest) :
    (digits ++ rest).takeWhile isDigit = digits ∧
      (digits ++ rest).dropWhile isDigit = rest := by
  have nothing : rest.takeWhile isDigit = [] ∧
      rest.dropWhile isDigit = rest := by
    cases rest with
    | nil => exact ⟨rfl, rfl⟩
    | cons head tail =>
        have no := (ends head rfl).1
        simp [no]
  rw [List.takeWhile_append_of_pos all, List.dropWhile_append_of_pos all,
    nothing.1, nothing.2, List.append_nil]
  exact ⟨rfl, rfl⟩

private theorem decimalValue_append (digits : Str) (digit : CodePoint) :
    decimalValue (digits ++ [digit]) =
      10 * decimalValue digits + (digit.val - 0x30) := by
  simp [decimalValue]

/-- The digits of a number, the first one not zero when there are more. -/
private theorem digits_cases (value : Nat) :
    ∃ head tail, (Nat.toDigits 10 value).map codePoint = head :: tail ∧
      (∀ digit ∈ head :: tail, isDigit digit) ∧
      (0 < value → head ≠ 0x30) ∧ (value = 0 → tail = []) ∧
      decimalValue (head :: tail) = value := by
  have one : ∀ value : Fin 10, isDigit (codePoint (Nat.digitChar value.val)) ∧
      (0 < value.val → codePoint (Nat.digitChar value.val) ≠ 0x30) ∧
      (codePoint (Nat.digitChar value.val)).val - 0x30 = value.val := by
    decide
  induction value using Nat.strongRecOn with
  | ind value induction =>
      by_cases small : value < 10
      · obtain ⟨digit, notZero, same⟩ := one ⟨value, small⟩
        refine ⟨_, _, by rw [Nat.toDigits_of_lt_base small]; rfl, ?_, notZero,
          fun _ => rfl, ?_⟩
        · intro other member
          rw [List.mem_singleton.mp member]
          exact digit
        · simpa [decimalValue] using same
      · obtain ⟨head, tail, digits, all, notZero, _, value_eq⟩ :=
          induction (value / 10) (by omega)
        obtain ⟨digit, _, same⟩ := one ⟨value % 10, Nat.mod_lt _ (by decide)⟩
        refine ⟨head, tail ++ [codePoint (Nat.digitChar (value % 10))], ?_, ?_,
          fun _ => notZero (by omega), by omega, ?_⟩
        · rw [Nat.toDigits_of_base_le (by decide) (by omega), List.map_append,
            digits]
          rfl
        · intro other member
          rw [← List.cons_append] at member
          rcases List.mem_append.mp member with before | last
          · exact all other before
          · rw [List.mem_singleton.mp last]
            exact digit
        · have last : (codePoint (Nat.digitChar (value % 10))).val - 0x30 =
              value % 10 := same
          rw [← List.cons_append, decimalValue_append, value_eq, last]
          omega

private theorem readFraction_of_ends {rest : Str} (ends : Ends rest) :
    readFraction rest = ([], rest) := by
  cases rest with
  | nil => rfl
  | cons head tail =>
      rw [readFraction, if_neg fun both => (ends head rfl).2.1 both.1]

theorem readExponent_of_ends {rest : Str} (ends : Ends rest) :
    readExponent rest = ([], rest) := by
  cases rest with
  | nil => rfl
  | cons head tail =>
      have marks := (ends head rfl).2.2
      unfold readExponent
      dsimp only
      rw [if_neg fun both => both.1.elim marks.1 marks.2]

private theorem readMagnitude_digits (sign : Str) (value : Nat) {rest : Str}
    (ends : Ends rest) :
    readMagnitude float sign ((Nat.toDigits 10 value).map codePoint ++ rest) =
      some (.int (if sign.isEmpty then (value : Int) else -(value : Int)),
        rest) := by
  obtain ⟨head, tail, digits, all, notZero, single, same⟩ := digits_cases value
  have whole : readWhole (head :: (tail ++ rest)) =
      some (head :: tail, rest) := by
    rw [readWhole]
    split
    · rename_i zero
      have none : value = 0 := by
        by_contra positive
        exact notZero (Nat.pos_of_ne_zero positive) zero
      rw [single none]
      rfl
    · have run := takeWhile_digits
        (fun digit member => all digit (List.mem_cons_of_mem _ member)) ends
      rw [if_pos (all head List.mem_cons_self), run.1, run.2]
  rw [digits, List.cons_append, readMagnitude, whole, Option.bind_eq_bind,
    Option.bind_some]
  dsimp only
  rw [readFraction_of_ends ends]
  dsimp only
  rw [readExponent_of_ends ends]
  simp only [List.isEmpty_nil, Bool.and_self, if_true, same]
  rfl

private theorem toList_signedDecimal (value : Int) :
    str (Text.signedDecimal value) =
      if 0 ≤ value then (Nat.toDigits 10 value.toNat).map codePoint
      else 0x2d :: (Nat.toDigits 10 (-value).toNat).map codePoint := by
  rw [str_eq, Text.signedDecimal, Int.toString_eq_repr, Int.repr_eq_if]
  split
  · rw [Nat.toList_repr]
  · rw [String.toList_append, Nat.toList_repr, List.map_append]
    rfl

private theorem after_of_ne {word : String} {head first : CodePoint}
    {letters : Str} (text : Str) (letter : str word = first :: letters)
    (differ : first ≠ head) : after word (head :: text) = none := by
  rw [after, letter, List.isPrefixOf, beq_eq_false_iff_ne.mpr differ]
  rfl

private theorem after_of_second_ne {word : String} {head other : CodePoint}
    {first second : CodePoint} {letters : Str} (text : Str)
    (start : str word = first :: second :: letters) (differ : second ≠ other) :
    after word (head :: other :: text) = none := by
  rw [after, start, List.isPrefixOf, List.isPrefixOf,
    beq_eq_false_iff_ne.mpr differ, Bool.false_and, Bool.and_false]
  rfl

/-- No constant begins like a number. -/
theorem readConstant_digit {head : CodePoint} (tail : Str)
    (digit : isDigit head) : readConstant (head :: tail) = none := by
  have heads : ∀ entry ∈ constants, ∃ first ∈ str "ntfNI-",
      (str entry.1).head? = some first := by
    decide
  have letters : ∀ first ∈ str "ntfNI-", isDigit first = false := by
    decide
  rw [readConstant, List.findSome?_eq_none_iff]
  rintro ⟨word, value⟩ member
  obtain ⟨first, letter, start⟩ := heads _ member
  obtain ⟨letters', text⟩ := List.head?_eq_some_iff.mp start
  have differ : first ≠ head := by
    rintro rfl
    rw [letters first letter] at digit
    cases digit
  have nothing : after word (head :: tail) = none :=
    after_of_ne tail text differ
  rw [nothing]
  rfl

theorem readConstant_minus {digit : CodePoint} (tail : Str)
    (isNumber : isDigit digit) :
    readConstant (0x2d :: digit :: tail) = none := by
  have starts : ∀ entry ∈ constants,
      (∃ first ∈ str "ntfNI", (str entry.1).head? = some first) ∨
        (str entry.1).take 2 = [0x2d, 0x49] := by
    decide
  have letters : ∀ first ∈ str "ntfNI", first ≠ 0x2d := by
    decide
  rw [readConstant, List.findSome?_eq_none_iff]
  rintro ⟨word, value⟩ member
  rcases starts _ member with ⟨first, letter, start⟩ | both
  · obtain ⟨letters', text⟩ := List.head?_eq_some_iff.mp start
    have nothing : after word (0x2d :: digit :: tail) = none :=
      after_of_ne _ text (letters first letter)
    rw [nothing]
    rfl
  · have differ : (0x49 : CodePoint) ≠ digit := by
      rintro rfl
      revert isNumber
      decide
    have start : str word = 0x2d :: 0x49 :: (str word).drop 2 := by
      rw [← List.take_append_drop 2 (str word), both]
      rfl
    have nothing : after word (0x2d :: digit :: tail) = none :=
      after_of_second_ne tail start differ
    rw [nothing]
    rfl

private theorem readScalar_int (value : Int) {rest : Str} (ends : Ends rest) :
    readScalar float (str (Text.signedDecimal value) ++ rest) =
      some (.int value, rest) := by
  have notMinus {head : CodePoint} (digit : isDigit head) : head ≠ 0x2d := by
    rintro rfl
    revert digit
    decide
  rw [toList_signedDecimal, readScalar]
  split
  · obtain ⟨head, tail, digits, all, _⟩ := digits_cases value.toNat
    have digit := all head List.mem_cons_self
    have magnitude := readMagnitude_digits float [] value.toNat ends
    rw [digits, List.cons_append] at magnitude
    rw [digits, List.cons_append, readConstant_digit _ digit, Option.none_or,
      readNumber, if_neg (notMinus digit), magnitude]
    rw [List.isEmpty_nil, if_pos rfl, Int.toNat_of_nonneg ‹_›]
  · obtain ⟨head, tail, digits, all, _⟩ := digits_cases (-value).toNat
    have digit := all head List.mem_cons_self
    have magnitude := readMagnitude_digits float [0x2d] (-value).toNat ends
    rw [digits, List.cons_append] at magnitude
    rw [digits, List.cons_append, List.cons_append,
      readConstant_minus _ digit, Option.none_or, readNumber, if_pos rfl,
      magnitude, List.isEmpty_cons, Int.toNat_of_nonneg (by omega)]
    simp

private theorem after_append (word : String) (rest : Str) :
    after word (str word ++ rest) = some rest := by
  have isPrefix : (str word).isPrefixOf (str word ++ rest) :=
    List.isPrefixOf_iff_prefix.mpr (List.prefix_append _ _)
  rw [after, if_pos isPrefix, List.drop_left]

private theorem findSome?_after {entries : List (String × Json)}
    (distinct : entries.Pairwise fun first second =>
      (str first.1).head? ≠ (str second.1).head?)
    (nonempty : ∀ entry ∈ entries, str entry.1 ≠ [])
    {entry : String × Json} (member : entry ∈ entries) (rest : Str) :
    (entries.findSome? fun constant =>
      (after constant.1 (str entry.1 ++ rest)).map fun rest =>
        (constant.2, rest)) = some (entry.2, rest) := by
  induction entries with
  | nil => cases member
  | cons first entries induction =>
      obtain ⟨others, distinct⟩ := List.pairwise_cons.mp distinct
      rw [List.findSome?_cons]
      rcases List.mem_cons.mp member with rfl | later
      · rw [after_append]
        rfl
      · obtain ⟨letter, letters, start⟩ := List.exists_cons_of_ne_nil
          (nonempty first List.mem_cons_self)
        obtain ⟨head, tail, word⟩ := List.exists_cons_of_ne_nil
          (nonempty entry member)
        have differ := others entry later
        rw [start, word] at differ
        have nothing : after first.1 (str entry.1 ++ rest) = none := by
          rw [word]
          exact after_of_ne _ start fun same => differ (congrArg some same)
        rw [nothing]
        exact induction distinct (fun other member =>
          nonempty other (List.mem_cons_of_mem _ member)) later

/-- Every constant is read as its value. -/
theorem readConstant_of_mem {entry : String × Json}
    (member : entry ∈ constants) (rest : Str) :
    readConstant (str entry.1 ++ rest) = some (entry.2, rest) :=
  findSome?_after (by decide) (by decide) member rest

private theorem readConstant_bool (value : Bool) (rest : Str) :
    readConstant ((Json.bool value).text ++ rest) =
      some (.bool value, rest) := by
  cases value with
  | true =>
      have listed : ("true", .bool true) ∈ constants := by
        simp [constants]
      exact readConstant_of_mem listed rest
  | false =>
      have listed : ("false", .bool false) ∈ constants := by
        simp [constants]
      exact readConstant_of_mem listed rest

/-- A float is read from the text that it is printed by. -/
def ReadsBack (literal : FloatLiteral) : Prop :=
  ∀ rest, Ends rest →
    readScalar float (literal.text ++ rest) = some (.float literal, rest)

mutual

/-- The values that a reader returns: no key twice, no pair of surrogates, and
floats that are read back. -/
def Readable : Json → Prop
  | .float literal => ReadsBack float literal
  | .string value => paired value = value
  | .array items => ReadableItems items
  | .object fields => (fields.map (·.1)).Nodup ∧ ReadableFields fields
  | _ => True

def ReadableItems : List Json → Prop
  | [] => True
  | item :: items => Readable item ∧ ReadableItems items

def ReadableFields : Fields → Prop
  | [] => True
  | (key, value) :: fields =>
      (paired key = key ∧ Readable value) ∧ ReadableFields fields

end

theorem readableItems_iff (items : List Json) :
    ReadableItems float items ↔ ∀ item ∈ items, Readable float item := by
  induction items with
  | nil => simp [ReadableItems]
  | cons item items induction => simp [ReadableItems, induction]

theorem readableFields_iff (fields : Fields) :
    ReadableFields float fields ↔ ∀ member ∈ fields,
      paired member.1 = member.1 ∧ Readable float member.2 := by
  induction fields with
  | nil => simp [ReadableFields]
  | cons member fields induction => simp [ReadableFields, induction]

/-- What no value but a scalar begins with. -/
private def isPlain (character : CodePoint) : Bool :=
  0x20 < character.val && character.val < 0x7f &&
    character ∉ str "\"[\x7b"

private theorem isPlain_of_digit {character : CodePoint}
    (digit : isDigit character) : isPlain character := by
  have bounds : 0x30 ≤ character.val ∧ character.val ≤ 0x39 := by
    simpa [isDigit] using digit
  have all : ∀ value : Fin 10, isPlain (CodePoint.ofNat (0x30 + value.val)) := by
    decide
  have whole : CodePoint.ofNat (0x30 + (character.val - 0x30)) = character := by
    apply Fin.ext
    rw [CodePoint.ofNat, Fin.val_ofNat, Nat.mod_eq_of_lt (by omega)]
    omega
  have here := all ⟨character.val - 0x30, by omega⟩
  rw [whole] at here
  exact here

private theorem isPlain_of_scalar {value : Json} (scalar : value.isScalar)
    {character : CodePoint} (member : character ∈ value.text) :
    isPlain character := by
  cases value with
  | null =>
      revert character
      decide
  | bool value =>
      cases value
      all_goals
        revert character
        decide
  | int value =>
      rw [text, toList_signedDecimal] at member
      split at member
      · obtain ⟨head, tail, digits, all, _⟩ := digits_cases value.toNat
        rw [digits] at member
        exact isPlain_of_digit (all character member)
      · obtain ⟨head, tail, digits, all, _⟩ := digits_cases (-value).toNat
        rw [digits] at member
        rcases List.mem_cons.mp member with rfl | digit
        · decide
        · exact isPlain_of_digit (all character digit)
  | float literal =>
      have isFloat := literal.isFloat
      have floats : ∀ character ∈ str "+-.0123456789INaefinty",
          isPlain character := by
        decide
      rw [isFloatText, Bool.and_eq_true, List.all_eq_true] at isFloat
      exact floats character (of_decide_eq_true (isFloat.1 character member))
  | string | array | object => cases scalar

theorem skipped_cons {head : CodePoint} (tail : Str)
    (visible : isSpace head = false) : skipped (head :: tail) = head :: tail := by
  rw [skipped, List.dropWhile_cons, visible]
  rfl

private theorem readScalar_text {value : Json} (scalar : value.isScalar)
    (readable : Readable float value) {rest : Str} (ends : Ends rest) :
    readScalar float (value.text ++ rest) = some (value, rest) := by
  cases value with
  | null =>
      have listed : ("null", .null) ∈ constants := by
        simp [constants]
      have here : readConstant (str "null" ++ rest) = some (.null, rest) :=
        readConstant_of_mem listed rest
      rw [readScalar, text, here]
      rfl
  | bool value =>
      rw [readScalar, readConstant_bool]
      rfl
  | int value => exact readScalar_int float value ends
  | float literal =>
      rw [Readable] at readable
      exact readable rest ends
  | string | array | object => cases scalar

private theorem dictionary_of_nodup {fields : Fields}
    (distinct : (fields.map (·.1)).Nodup) : dictionary fields = fields :=
  Dictionary.foldl_assign_of_nodup distinct

/-- A way to write characters: those that are printable in ASCII stand for
themselves, and a quoted text is read as its pairing. -/
structure Spelling where
  spell : CodePoint → Str
  plain : ∀ character : CodePoint, 0x20 ≤ character.val →
    character.val < 0x7f → spell character = [character]
  reads : ∀ text rest : Str,
    readString ((text.flatMap escaped ++ [doubleQuote]).flatMap spell ++
      rest) = some (paired text, rest)

namespace Spelling

/-- What is not ASCII is escaped. -/
def ascii : Spelling where
  spell := asciiCharacter
  plain _ low high := asciiCharacter_of_plain low high
  reads text rest := by
    have quote : inAscii [doubleQuote] = [doubleQuote] :=
      inAscii_of_plain (by decide)
    have spelled : (text.flatMap escaped ++ [doubleQuote]).flatMap
        asciiCharacter = (units text).flatMap stringUnit ++ [doubleQuote] := by
      have whole := inAscii_append (text.flatMap escaped) [doubleQuote]
      rw [inAscii_flatMap_escaped, quote] at whole
      exact whole
    rw [spelled, List.append_assoc]
    exact readString_quoted text rest

/-- Every character stands for itself. -/
def raw : Spelling where
  spell character := [character]
  plain _ _ _ := rfl
  reads text rest := by
    rw [List.flatMap_singleton', List.append_assoc, readString]
    exact congrArg _ (readUnits_escaped text rest)

variable (spelling : Spelling)

def of (text : Str) : Str :=
  text.flatMap spelling.spell

/-- The text of a value. -/
def text (value : Json) : Str :=
  spelling.of value.text

theorem raw_text (value : Json) : raw.text value = value.text :=
  List.flatMap_singleton' value.text

private theorem of_append (first second : Str) :
    spelling.of (first ++ second) = spelling.of first ++ spelling.of second :=
  List.flatMap_append

private theorem of_mark {mark : CodePoint} (low : 0x20 ≤ mark.val)
    (high : mark.val < 0x7f) (text : Str) :
    spelling.of (mark :: text) = mark :: spelling.of text := by
  rw [of, List.flatMap_cons, spelling.plain mark low high]
  rfl

private theorem of_plain {text : Str}
    (plain : ∀ character ∈ text,
      0x20 ≤ character.val ∧ character.val < 0x7f) :
    spelling.of text = text := by
  induction text with
  | nil => rfl
  | cons character text induction =>
      have here := plain character List.mem_cons_self
      rw [spelling.of_mark here.1 here.2, induction fun other member =>
        plain other (List.mem_cons_of_mem _ member)]

private theorem of_quoted (text : Str) :
    spelling.of (quoted text) =
      doubleQuote :: spelling.of (text.flatMap escaped ++ [doubleQuote]) :=
  spelling.of_mark (by decide) (by decide) _

private theorem text_of_scalar {value : Json} (scalar : value.isScalar) :
    spelling.text value = value.text := by
  apply spelling.of_plain
  intro character member
  have plain := isPlain_of_scalar scalar member
  simp only [isPlain, Bool.and_eq_true, decide_eq_true_eq] at plain
  omega

private theorem text_string (value : Str) :
    spelling.text (.string value) =
      doubleQuote ::
        spelling.of (value.flatMap escaped ++ [doubleQuote]) :=
  spelling.of_quoted value

private theorem text_array (items : List Json) :
    spelling.text (.array items) = 0x5b :: spelling.of (itemsText items) :=
  spelling.of_mark (by decide) (by decide) _

theorem text_object (fields : Fields) :
    spelling.text (.object fields) = 0x7b :: spelling.of (fieldsText fields) :=
  spelling.of_mark (by decide) (by decide) _

/-- How the text of a value begins. -/
private theorem text_head (value : Json) :
    ∃ head tail, spelling.text value = head :: tail ∧
      (value.isScalar → isPlain head) ∧ head ∉ str " \t\n\r]\x7d" := by
  have plainHead {head : CodePoint} (plain : isPlain head) :
      head ∉ str " \t\n\r]\x7d" ∨ head ∈ str "]\x7d" := by
    by_cases close : head ∈ str "]\x7d"
    · exact .inr close
    · refine .inl ?_
      intro member
      simp only [isPlain, Bool.and_eq_true, decide_eq_true_eq] at plain
      have spaces : ∀ character ∈ str " \t\n\r]\x7d",
          character.val ≤ 0x20 ∨ character ∈ str "]\x7d" := by
        decide
      rcases spaces head member with low | closes
      · omega
      · exact close closes
  cases scalar : value.isScalar with
  | true =>
      obtain ⟨head, tail, start⟩ := List.exists_cons_of_ne_nil
        (text_ne_nil value)
      have token := isToken_of_mem_text scalar
        (start ▸ List.mem_cons_self : head ∈ value.text)
      have plain := isPlain_of_scalar scalar
        (start ▸ List.mem_cons_self : head ∈ value.text)
      refine ⟨head, tail, (spelling.text_of_scalar scalar).trans start,
        fun _ => plain, ?_⟩
      rcases plainHead plain with fine | close
      · exact fine
      · have closes : ∀ character ∈ str "]\x7d",
            isTokenCharacter character = false := by
          decide
        rw [closes head close] at token
        cases token
  | false =>
      cases value with
      | null | bool | int | float => cases scalar
      | string value =>
          exact ⟨_, _, spelling.text_string value, nofun, by decide⟩
      | array items =>
          exact ⟨_, _, spelling.text_array items, nofun, by decide⟩
      | object fields =>
          exact ⟨_, _, spelling.text_object fields, nofun, by decide⟩

private theorem skipped_text (value : Json) (rest : Str) :
    skipped (spelling.text value ++ rest) = spelling.text value ++ rest := by
  obtain ⟨head, tail, start, _, notSpace⟩ := spelling.text_head value
  have visible : isSpace head = false := by
    have spaces : ∀ character ∈ str " \t\n\r",
        character ∈ str " \t\n\r]\x7d" := by
      decide
    rw [isSpace, decide_eq_false_iff_not]
    exact fun member => notSpace (spaces head member)
  rw [start, List.cons_append]
  exact skipped_cons _ visible

private theorem readValue_scalar {value : Json} (scalar : value.isScalar)
    (readable : Readable float value) (fuel : Nat) {rest : Str}
    (ends : Ends rest) :
    readValue float (fuel + 1) (spelling.text value ++ rest) =
      some (value, rest) := by
  obtain ⟨head, tail, start, plain, _⟩ := spelling.text_head value
  have here := plain scalar
  have others : ∀ character ∈ str "\"[\x7b", isPlain character = false := by
    decide
  have notThese (other : CodePoint) (listed : other ∈ str "\"[\x7b") :
      head ≠ other := by
    rintro rfl
    rw [others head listed] at here
    cases here
  have read := readScalar_text float scalar readable ends
  rw [← spelling.text_of_scalar scalar, start, List.cons_append] at read
  rw [start, List.cons_append, readValue,
    if_neg (notThese doubleQuote (by decide)),
    if_neg (notThese 0x5b (by decide)),
    if_neg (notThese 0x7b (by decide)), read]

private theorem length_text_pos (value : Json) :
    0 < (spelling.text value).length := by
  obtain ⟨head, tail, start, _⟩ := spelling.text_head value
  rw [start]
  exact Nat.succ_pos _

private theorem of_itemsText_cons (item : Json) (items : List Json) :
    spelling.of (itemsText (item :: items)) =
      spelling.text item ++ spelling.of (moreItems items) := by
  rw [itemsText, of_append]
  rfl

private theorem of_fieldsText_cons (key : Str) (value : Json)
    (fields : Fields) :
    spelling.of (fieldsText ((key, value) :: fields)) =
      spelling.of (quoted key) ++
        0x3a :: (spelling.text value ++ spelling.of (moreFields fields)) := by
  rw [fieldsText, of_append, spelling.of_mark (by decide) (by decide),
    of_append]
  rfl

private theorem of_nil_items :
    spelling.of (moreItems []) = [0x5d] ∧
      spelling.of (moreFields []) = [0x7d] :=
  ⟨spelling.of_plain (by decide), spelling.of_plain (by decide)⟩

private theorem of_moreItems {items : List Json} (some : items ≠ []) :
    spelling.of (moreItems items) = 0x2c :: spelling.of (itemsText items) := by
  cases items with
  | nil => exact absurd rfl some
  | cons item items => exact spelling.of_mark (by decide) (by decide) _

private theorem of_moreFields {fields : Fields} (some : fields ≠ []) :
    spelling.of (moreFields fields) =
      0x2c :: spelling.of (fieldsText fields) := by
  cases fields with
  | nil => exact absurd rfl some
  | cons member fields => exact spelling.of_mark (by decide) (by decide) _

private theorem ends_moreItems (items : List Json) (rest : Str) :
    Ends (spelling.of (moreItems items) ++ rest) := by
  cases items with
  | nil =>
      rw [spelling.of_nil_items.1]
      rintro character ⟨⟩
      decide
  | cons item items =>
      rw [spelling.of_moreItems (List.cons_ne_nil _ _)]
      rintro character ⟨⟩
      decide

private theorem ends_moreFields (fields : Fields) (rest : Str) :
    Ends (spelling.of (moreFields fields) ++ rest) := by
  cases fields with
  | nil =>
      rw [spelling.of_nil_items.2]
      rintro character ⟨⟩
      decide
  | cons member fields =>
      rw [spelling.of_moreFields (List.cons_ne_nil _ _)]
      rintro character ⟨⟩
      decide

private theorem skipped_quoted (key rest : Str) :
    skipped (spelling.of (quoted key) ++ rest) =
      spelling.of (quoted key) ++ rest := by
  rw [of_quoted]
  exact skipped_cons _ (by decide)

/-- The items after the first are read as they are read alone. -/
private theorem readItems_cons {item : Json} {items : List Json} {fuel : Nat}
    {rest : Str}
    (read : readValue float fuel
        (spelling.text item ++ (spelling.of (moreItems items) ++ rest)) =
      some (item, spelling.of (moreItems items) ++ rest))
    (more : items ≠ [] → readItems float fuel
        (spelling.of (itemsText items) ++ rest) = some (items, rest)) :
    readItems float (fuel + 1)
        (spelling.of (itemsText (item :: items)) ++ rest) =
      some (item :: items, rest) := by
  rw [of_itemsText_cons, List.append_assoc, readItems, read,
    Option.bind_eq_bind, Option.bind_some]
  dsimp only
  cases items with
  | nil =>
      rw [spelling.of_nil_items.1]
      rfl
  | cons next items =>
      have later := more (List.cons_ne_nil _ _)
      have visible := spelling.skipped_text next
        (spelling.of (moreItems items) ++ rest)
      rw [of_itemsText_cons, List.append_assoc] at later
      rw [spelling.of_moreItems (List.cons_ne_nil _ _), List.cons_append,
        skipped_cons _ (by decide)]
      dsimp only
      rw [of_itemsText_cons, List.append_assoc, if_neg (by decide),
        if_pos rfl, visible, later]
      rfl

private theorem readMembers_cons {key : Str} {value : Json} {fields : Fields}
    {fuel : Nat} {rest : Str} (pairedKey : paired key = key)
    (read : readValue float fuel
        (spelling.text value ++ (spelling.of (moreFields fields) ++ rest)) =
      some (value, spelling.of (moreFields fields) ++ rest))
    (more : fields ≠ [] → readMembers float fuel
        (spelling.of (fieldsText fields) ++ rest) = some (fields, rest)) :
    readMembers float (fuel + 1)
        (spelling.of (fieldsText ((key, value) :: fields)) ++ rest) =
      some ((key, value) :: fields, rest) := by
  have keyRead := spelling.reads key
    (0x3a :: (spelling.text value ++ spelling.of (moreFields fields)) ++ rest)
  have visible := spelling.skipped_text value
    (spelling.of (moreFields fields) ++ rest)
  rw [of_fieldsText_cons, List.append_assoc, of_quoted, List.cons_append,
    readMembers, if_pos rfl, of, keyRead, Option.bind_eq_bind,
    Option.bind_some, pairedKey]
  dsimp only
  rw [List.cons_append, skipped_cons _ (by decide)]
  dsimp only
  rw [if_pos rfl, List.append_assoc, visible, read, Option.bind_eq_bind,
    Option.bind_some]
  dsimp only
  cases fields with
  | nil =>
      rw [spelling.of_nil_items.2]
      rfl
  | cons member fields =>
      obtain ⟨nextKey, next⟩ := member
      have later := more (List.cons_ne_nil _ _)
      rw [of_fieldsText_cons, List.append_assoc] at later
      rw [spelling.of_moreFields (List.cons_ne_nil _ _), List.cons_append,
        skipped_cons _ (by decide)]
      dsimp only
      rw [of_fieldsText_cons, List.append_assoc, if_neg (by decide),
        if_pos rfl, skipped_quoted, later]
      rfl

mutual

/-- The text of a value is read as the value. -/
theorem readValue_text : (value : Json) → Readable float value →
    {fuel : Nat} → 2 * (spelling.text value).length ≤ fuel → {rest : Str} →
    Ends rest →
    readValue float fuel (spelling.text value ++ rest) = some (value, rest)
  | value, _, 0, enough, _, _ => by
      have positive := spelling.length_text_pos value
      omega
  | .null, readable, fuel + 1, _, _, ends
  | .bool _, readable, fuel + 1, _, _, ends
  | .int _, readable, fuel + 1, _, _, ends
  | .float _, readable, fuel + 1, _, _, ends =>
      spelling.readValue_scalar float rfl readable fuel ends
  | .string text, readable, fuel + 1, _, rest, _ => by
      rw [Readable] at readable
      have read := spelling.reads text rest
      rw [text_string, List.cons_append, readValue, if_pos rfl, of, read,
        readable]
      rfl
  | .array [], _, fuel + 1, _, _, _ => by
      rw [text_array, itemsText, spelling.of_plain (by decide)]
      rfl
  | .array (item :: items), readable, fuel + 1, enough, rest, _ => by
      rw [text_array, List.length_cons] at enough
      have visible := spelling.skipped_text item
        (spelling.of (moreItems items) ++ rest)
      have room :
          2 * (spelling.of (itemsText (item :: items))).length + 1 ≤ fuel := by
        omega
      have read := readItems_text (item :: items) (List.cons_ne_nil _ _)
        readable room rest
      obtain ⟨head, tail, start, _, notClose⟩ := spelling.text_head item
      have another : head ≠ 0x5d := by
        rintro rfl
        exact notClose (by decide)
      rw [of_itemsText_cons, List.append_assoc] at read
      rw [start, List.cons_append] at visible read
      rw [text_array, of_itemsText_cons, List.cons_append,
        List.append_assoc, start, List.cons_append, readValue,
        if_neg (by decide), if_pos rfl, visible]
      dsimp only
      rw [if_neg another, read]
      rfl
  | .object [], _, fuel + 1, _, _, _ => by
      rw [text_object, fieldsText, spelling.of_plain (by decide)]
      rfl
  | .object ((key, value) :: fields), readable, fuel + 1, enough, rest, _ => by
      rw [Readable] at readable
      rw [text_object, List.length_cons] at enough
      have room :
          2 * (spelling.of (fieldsText ((key, value) :: fields))).length + 1 ≤
            fuel := by
        omega
      have read := readMembers_text ((key, value) :: fields)
        (List.cons_ne_nil _ _) readable.2 room rest
      rw [of_fieldsText_cons, List.append_assoc] at read
      have visible := spelling.skipped_quoted key
        (0x3a :: (spelling.text value ++ spelling.of (moreFields fields)) ++
          rest)
      rw [of_quoted, List.cons_append] at visible read
      rw [text_object, of_fieldsText_cons, List.cons_append,
        List.append_assoc, of_quoted, List.cons_append, readValue,
        if_neg (by decide), if_neg (by decide), if_pos rfl, visible]
      dsimp only
      rw [if_neg (by decide), read]
      dsimp only [Option.map_some]
      rw [dictionary_of_nodup readable.1]

theorem readItems_text : (items : List Json) → items ≠ [] →
    ReadableItems float items → {fuel : Nat} →
    2 * (spelling.of (itemsText items)).length + 1 ≤ fuel → (rest : Str) →
    readItems float fuel (spelling.of (itemsText items) ++ rest) =
      some (items, rest)
  | [], nonempty, _, _, _, _ => absurd rfl nonempty
  | _ :: _, _, _, 0, enough, _ => by
      omega
  | item :: items, _, readable, fuel + 1, enough, rest => by
      rw [ReadableItems] at readable
      rw [of_itemsText_cons, List.length_append] at enough
      refine spelling.readItems_cons float (readValue_text item readable.1
        (by omega) (spelling.ends_moreItems items rest)) ?_
      intro more
      rw [spelling.of_moreItems more, List.length_cons] at enough
      exact readItems_text items more readable.2 (by omega) rest

theorem readMembers_text : (fields : Fields) → fields ≠ [] →
    ReadableFields float fields → {fuel : Nat} →
    2 * (spelling.of (fieldsText fields)).length + 1 ≤ fuel → (rest : Str) →
    readMembers float fuel (spelling.of (fieldsText fields) ++ rest) =
      some (fields, rest)
  | [], nonempty, _, _, _, _ => absurd rfl nonempty
  | _ :: _, _, _, 0, enough, _ => by
      omega
  | (key, value) :: fields, _, readable, fuel + 1, enough, rest => by
      rw [ReadableFields] at readable
      rw [of_fieldsText_cons, List.length_append, List.length_cons,
        List.length_append] at enough
      refine spelling.readMembers_cons float readable.1.1
        (readValue_text value readable.1.2 (by omega)
          (spelling.ends_moreFields fields rest)) ?_
      intro more
      rw [spelling.of_moreFields more, List.length_cons] at enough
      exact readMembers_text fields more readable.2 (by omega) rest

end

/-- `json.loads` reads what was printed. -/
theorem loads_text {value : Json} (readable : Readable float value) :
    loads float (spelling.text value) = some value := by
  have ends : Ends [] := nofun
  have visible := spelling.skipped_text value []
  have read := spelling.readValue_text float value readable
    (Nat.le_refl (2 * (spelling.text value).length)) ends
  rw [List.append_nil] at visible read
  rw [loads, visible, read]
  rfl

end Spelling

/-- `json.loads` reads what `json.dumps` printed. -/
theorem loads_asciiText {value : Json} (readable : Readable float value) :
    loads float value.asciiText = some value :=
  Spelling.ascii.loads_text float readable

private theorem readable_of_mem_constants {entry : String × Json}
    (member : entry ∈ constants) : Readable float entry.2 := by
  have floats (word : String) (isFloat : isFloatText (str word))
      (listed : (word, .float ⟨str word, isFloat⟩) ∈ constants) :
      ReadsBack float ⟨str word, isFloat⟩ := by
    intro rest _
    have here := readConstant_of_mem listed rest
    dsimp only at here ⊢
    rw [readScalar, here]
    rfl
  have each : entry = ("null", .null) ∨ entry = ("true", .bool true) ∨
      entry = ("false", .bool false) ∨
      entry = ("NaN", .float ⟨str "NaN", isFloatText_NaN⟩) ∨
      entry = ("Infinity", .float ⟨str "Infinity", isFloatText_Infinity⟩) ∨
      entry = ("-Infinity",
        .float ⟨str "-Infinity", isFloatText_minusInfinity⟩) := by
    simpa [constants] using member
  rcases each with rfl | rfl | rfl | rfl | rfl | rfl
  · trivial
  · trivial
  · trivial
  · exact floats "NaN" _ member
  · exact floats "Infinity" _ member
  · exact floats "-Infinity" _ member

private theorem readable_of_readMagnitude
    (readsBack : ∀ text, ReadsBack float (float text)) {sign text rest : Str}
    {value : Json}
    (read : readMagnitude float sign text = some (value, rest)) :
    Readable float value := by
  obtain ⟨⟨whole, tail⟩, _, read⟩ := Option.bind_eq_some_iff.mp read
  dsimp only at read
  split at read
  · cases read
    trivial
  · cases read
    exact readsBack _

private theorem readable_of_readScalar
    (readsBack : ∀ text, ReadsBack float (float text)) {text rest : Str}
    {value : Json} (read : readScalar float text = some (value, rest)) :
    Readable float value := by
  rcases Option.or_eq_some_iff.mp read with constant | ⟨_, number⟩
  · obtain ⟨entry, member, found⟩ := List.exists_of_findSome?_eq_some constant
    obtain ⟨_, _, same⟩ := Option.map_eq_some_iff.mp found
    cases same
    exact readable_of_mem_constants float member
  · unfold readNumber at number
    split at number
    · cases number
    · split at number
      all_goals exact readable_of_readMagnitude float readsBack number

private theorem paired_of_readString {text value rest : Str}
    (read : readString text = some (value, rest)) : paired value = value := by
  obtain ⟨⟨units, tail⟩, _, same⟩ := Option.map_eq_some_iff.mp read
  cases same
  exact paired_paired units

mutual

private theorem readable_of_readValue
    (readsBack : ∀ text, ReadsBack float (float text)) :
    (fuel : Nat) → {text rest : Str} → {value : Json} →
    readValue float fuel text = some (value, rest) → Readable float value
  | 0, _, _, _, read => by
      cases read
  | fuel + 1, [], _, _, read => by
      cases read
  | fuel + 1, first :: text, rest, value, read => by
      rw [readValue] at read
      split at read
      · obtain ⟨⟨string, tail⟩, found, same⟩ := Option.map_eq_some_iff.mp read
        cases same
        exact paired_of_readString found
      split at read
      · split at read
        · cases read
        · split at read
          · cases read
            trivial
          · obtain ⟨⟨items, tail⟩, found, same⟩ :=
              Option.map_eq_some_iff.mp read
            cases same
            exact (readableItems_iff float items).mpr
              (readable_of_readItems readsBack fuel found)
      split at read
      · split at read
        · cases read
        · split at read
          · cases read
            exact ⟨List.nodup_nil, trivial⟩
          · obtain ⟨⟨members, tail⟩, found, same⟩ :=
              Option.map_eq_some_iff.mp read
            cases same
            have distinct : (([] : Fields).map (·.1)).Nodup := List.nodup_nil
            refine ⟨Dictionary.nodup_foldl_assign distinct members, ?_⟩
            refine (readableFields_iff float _).mpr ?_
            intro member held
            rcases Dictionary.mem_foldl_assign held with none | listed
            · cases none
            · exact readable_of_readMembers readsBack fuel found member listed
      · exact readable_of_readScalar float readsBack read

private theorem readable_of_readItems
    (readsBack : ∀ text, ReadsBack float (float text)) :
    (fuel : Nat) → {text rest : Str} → {items : List Json} →
    readItems float fuel text = some (items, rest) →
    ∀ item ∈ items, Readable float item
  | 0, _, _, _, read => by
      cases read
  | fuel + 1, text, rest, items, read => by
      rw [readItems] at read
      obtain ⟨⟨item, tail⟩, found, read⟩ := Option.bind_eq_some_iff.mp read
      have here := readable_of_readValue readsBack fuel found
      dsimp only at read
      split at read
      · cases read
      split at read
      · cases read
        intro other member
        rw [List.mem_singleton.mp member]
        exact here
      split at read
      · obtain ⟨⟨more, tail⟩, later, read⟩ := Option.bind_eq_some_iff.mp read
        cases read
        intro other member
        rcases List.mem_cons.mp member with rfl | others
        · exact here
        · exact readable_of_readItems readsBack fuel later other others
      · cases read

private theorem readable_of_readMembers
    (readsBack : ∀ text, ReadsBack float (float text)) :
    (fuel : Nat) → {text rest : Str} → {members : Fields} →
    readMembers float fuel text = some (members, rest) →
    ∀ member ∈ members,
      paired member.1 = member.1 ∧ Readable float member.2
  | 0, _, _, _, read => by
      cases read
  | fuel + 1, [], _, _, read => by
      cases read
  | fuel + 1, quote :: text, rest, members, read => by
      rw [readMembers] at read
      split at read
      · obtain ⟨⟨key, tail⟩, keyRead, read⟩ := Option.bind_eq_some_iff.mp read
        have keyPaired := paired_of_readString keyRead
        dsimp only at read
        split at read
        · cases read
        split at read
        · obtain ⟨⟨value, tail⟩, found, read⟩ :=
            Option.bind_eq_some_iff.mp read
          have here := readable_of_readValue readsBack fuel found
          dsimp only at read
          split at read
          · cases read
          split at read
          · cases read
            intro other member
            rw [List.mem_singleton.mp member]
            exact ⟨keyPaired, here⟩
          split at read
          · obtain ⟨⟨more, tail⟩, later, read⟩ :=
              Option.bind_eq_some_iff.mp read
            cases read
            intro other member
            rcases List.mem_cons.mp member with rfl | others
            · exact ⟨keyPaired, here⟩
            · exact readable_of_readMembers readsBack fuel later other others
          · cases read
        · cases read
      · cases read

end

/-- A value that was read is read back from its own text. -/
theorem readable_of_loads (readsBack : ∀ text, ReadsBack float (float text))
    {text : Str} {value : Json} (read : loads float text = some value) :
    Readable float value := by
  obtain ⟨⟨found, rest⟩, read, ended⟩ := Option.bind_eq_some_iff.mp read
  dsimp only at ended
  split at ended
  · cases ended
    exact readable_of_readValue float readsBack _ read
  · cases ended

mutual

/-- Sorting keeps a value readable. -/
theorem readable_sorted : (value : Json) → Readable float value →
    Readable float value.sorted
  | .null, _ | .bool _, _ | .int _, _ => trivial
  | .float _, readable | .string _, readable => readable
  | .array items, readable => readableItems_sorted items readable
  | .object fields, readable => by
      rw [Readable] at readable
      obtain ⟨distinct, each⟩ := readable
      have kept := readableFields_sorted fields each
      have same : (sortFields (sortedFields fields)).Perm
          (sortedFields fields) := List.perm_insertionSort _ _
      have keys : (sortedFields fields).map (·.1) = fields.map (·.1) := by
        rw [sortedFields_eq_map, List.map_map]
        rfl
      refine ⟨?_, ?_⟩
      · rw [(same.map _).nodup_iff, keys]
        exact distinct
      · rw [readableFields_iff] at kept ⊢
        intro member held
        exact kept member (same.mem_iff.mp held)

theorem readableItems_sorted : (items : List Json) →
    ReadableItems float items → ReadableItems float (sortedItems items)
  | [], _ => trivial
  | item :: items, readable =>
      ⟨readable_sorted item readable.1, readableItems_sorted items readable.2⟩

theorem readableFields_sorted : (fields : Fields) →
    ReadableFields float fields → ReadableFields float (sortedFields fields)
  | [], _ => trivial
  | (_, value) :: fields, readable =>
      ⟨⟨readable.1.1, readable_sorted value readable.1.2⟩,
        readableFields_sorted fields readable.2⟩

end

/-- The texts of values that were read tell the values apart. -/
theorem asciiText_injective {first second : Json}
    (readable : Readable float first) (otherReadable : Readable float second)
    (same : first.asciiText = second.asciiText) : first = second := by
  have read := loads_asciiText float readable
  rw [same, loads_asciiText float otherReadable] at read
  exact (Option.some.inj read).symm

end PpcLab.Json
